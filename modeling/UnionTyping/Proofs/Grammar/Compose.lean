/-
  UnionTyping/Proofs/Grammar/Compose.lean
  =======================================
  **Readable texts put together** — for each form, readable pieces with the signs
  of the form around them are read as that form, piece by piece, and bind what
  the pieces bind.  The pieces may be any readable texts: they are sealed, so the
  cuts fall between them, and the earlier forms decline the whole because of how
  it begins and ends.
-/
import UnionTyping.Proofs.Grammar.Operand

namespace UnionTyping

open Text

/-! ### Reading around blanks and parentheses -/

section

variable {t u : Text} {env env' : TypeEnv} {n : Node}

theorem reads_congr (h : stripParens t = stripParens u) :
    Reads t env n env' ↔ Reads u env n env' := by
  rw [reads_iff, reads_iff, h]

theorem reads_trim : Reads (trim t) env n env' ↔ Reads t env n env' :=
  reads_congr (stripParens_trim t)

theorem reads_group (h : Balanced t) :
    Reads ('(' :: (t ++ [')'])) env n env' ↔ Reads t env n env' :=
  reads_congr (stripParens_group h)

theorem not_blank_of_reads (h : Reads t env n env') : ¬Blank t := by
  intro hb
  have hs : stripParens t = [] := by
    rw [stripParens_of_none, trim_eq_nil_iff.2 hb]
    rw [trim_eq_nil_iff.2 hb]
    rfl
  obtain ⟨k, hk, _⟩ := reads_iff.1 h
  rw [hs] at hk
  have hnone : formShape? [] = none := by decide
  rw [hnone] at hk
  cases hk

theorem reads_of_form {k : FormShape} (ht : Trimmed t) (hu : unwrap? .round t = none)
    (hk : formShape? t = some k) (hf : Formed Reads t env k n env') : Reads t env n env' := by
  have hs := stripParens_eq_self ht hu
  refine reads_iff.2 ⟨k, ?_, ?_⟩
  · rw [hs, hk]
  · rwa [hs]

/-- Texts that are read one after the other are items that a list can be cut at. -/
theorem items_of_chain {ts : List Text} {ns : List Node} (h : Chain Reads ts env ns env') :
    ∀ t ∈ ts, Sealed t ∧ ¬Blank t :=
  h.forall_left fun _ _ _ _ hr => ⟨sealed_of_reads hr, not_blank_of_reads hr⟩

theorem balanced_items {ts : List Text} {ns : List Node} (h : Chain Reads ts env ns env') :
    Balanced ([','].intercalate ts) :=
  balanced_intercalate (by decide) fun t ht => (items_of_chain h t ht).1

end

/-! ### Forms that decline a text -/

section

variable {t u : Text} {c : Char}

theorem callForm?_of_getLast (ht : Trimmed t) (h : t.getLast? ≠ some ')') :
    callForm? t = none := by
  have hs : callShape? t = none := by
    simp only [callShape?, trim_eq_self ht]
    rw [lastGroup?_of_getLast (b := .round) h]
    rfl
  rw [callForm?, hs]
  rfl

theorem quoted?_of_head (h : c ≠ '"') : quoted? (c :: u) = none := by
  cases hq : quoted? (c :: u) with
  | none => rfl
  | some raw =>
    obtain ⟨he, _⟩ := quoted?_eq_some_iff.1 hq
    exact absurd (List.cons.inj he).1 h

theorem referenceShape?_of_head (h : c ≠ '&') : referenceShape? (c :: u) = none := by
  cases hr : referenceShape? (c :: u) with
  | none => rfl
  | some name => exact absurd (List.cons.inj (eq_of_referenceShape? hr)).1 h

theorem unwrap?_cons {b : Bracket} (h : c ≠ b.opening) : unwrap? b (c :: u) = none :=
  unwrap?_of_head fun hc => h (Option.some.inj hc)

theorem lambdaShape?_of_head (h₁ : c ≠ '(') (h₂ : c ≠ '[') : lambdaShape? (c :: u) = none := by
  have hs : splitGenerics? (c :: u) = some (none, c :: u) := by simp [splitGenerics?, h₂]
  have hg : group? .round (c :: u) = none :=
    group?_of_head fun hc => h₁ (Option.some.inj hc)
  simp [lambdaShape?, hs, hg]

theorem isIdentifier_of_referenceShape? {name : Name}
    (h : referenceShape? t = some name) : isIdentifier name = true := by
  simp only [referenceShape?, Option.bind_eq_bind, Option.bind_eq_some_iff] at h
  obtain ⟨n, _, h⟩ := h
  split at h
  · next hn =>
    obtain rfl := Option.some.inj h
    exact hn
  · cases h

theorem exists_eq_append_splitGenerics? {rest : Text} {generics : Option Text}
    (h : splitGenerics? t = some (generics, rest)) : ∃ l, t = l ++ rest := by
  rcases eq_of_splitGenerics? h with ⟨_, rfl⟩ | ⟨inner, blank, _, rfl, _⟩
  · exact ⟨[], rfl⟩
  · exact ⟨'[' :: (inner ++ [']']) ++ blank, by simp⟩

theorem referenceShape?_append (ht : t ≠ []) {d : Char} (hd : d ∈ u) (hn : isNameChar d = false) :
    referenceShape? (t ++ u) = none := by
  cases hr : referenceShape? (t ++ u) with
  | none => rfl
  | some name =>
    obtain ⟨e, v, rfl⟩ := List.exists_cons_of_ne_nil ht
    have he : v ++ u = name := (List.cons.inj (eq_of_referenceShape? hr)).2
    have hid := isNameChar_of_mem_identifier (isIdentifier_of_referenceShape? hr) d
    rw [← he, hn] at hid
    exact absurd (hid (List.mem_append_right v hd)) (by decide)

theorem lambdaShape?_of_getLast (ht : Trimmed t) (h : t.getLast? ≠ some '\x7d') :
    lambdaShape? t = none := by
  cases hl : lambdaShape? t with
  | none => rfl
  | some shape =>
    exfalso
    simp only [lambdaShape?, Option.bind_eq_bind, Option.bind_eq_some_iff, Prod.exists] at hl
    obtain ⟨gens, rest, hs, params, tail, hgroup, head, body, hlast, _⟩ := hl
    obtain ⟨l₁, h₁⟩ := exists_eq_append_splitGenerics? hs
    obtain ⟨h₂, _⟩ := eq_of_group? hgroup
    obtain ⟨h₃, _⟩ := eq_of_lastGroup? hlast
    obtain ⟨l, r, h₄, _, hr⟩ := exists_eq_append_trim tail
    -- what follows the body is blank, so that nothing does
    have he : t = ((l₁ ++ '(' :: (params ++ ')' :: (l ++ (head ++ '\x7b' :: body)))) ++ ['\x7d'])
        ++ r := by
      rw [h₁, h₂, h₄, h₃]
      simp [Bracket.opening, Bracket.closing]
    obtain rfl := eq_nil_of_blank_suffix (he ▸ ht) hr
    apply h
    rw [he, List.append_nil, List.getLast?_concat]

/-- The form of a text that begins like no literal, list or lambda. -/
theorem formShape?_of_head (hnum : isNumeralChar c = false) (hc : c ∉ ['"', '\x7b', '['])
    (href : referenceShape? (c :: u) = none) (hcall : callForm? (c :: u) = none)
    (hlambda : lambdaShape? (c :: u) = none) :
    formShape? (c :: u) =
      ((memberForm? (c :: u)).map fun p => FormShape.member p.1 p.2).or
        (((returnShape? (c :: u)).map .giveBack).or
        (((declarationShape? (c :: u)).map fun p => .declaration p.1 p.2).or
        (((cutAssignment (c :: u)).map fun p => .assignment p.1 p.2).or
        (if isName (c :: u) then some .var else none)))) := by
  simp only [List.mem_cons, List.not_mem_nil, or_false, not_or] at hc
  have h₁ : isNumeral (c :: u) = false := isNumeral_of_head rfl hnum
  have h₂ := quoted?_of_head (u := u) hc.1
  have h₃ : unwrap? .curly (c :: u) = none := unwrap?_cons hc.2.1
  have h₄ : unwrap? .square (c :: u) = none := unwrap?_cons hc.2.2
  simp [formShape?, hcall, h₁, h₂, href, h₃, hlambda, h₄]

end

/-! ### Calls and members with operands -/

section

variable {c g args : Text} {name : Name}

theorem formShape?_of_callForm? {t : Text} {shape : CallShape} (h : callForm? t = some shape) :
    formShape? t = some (.call shape) := by
  simp [formShape?, h]

theorem before?_operand (hc : Operand c) : before? ['>'] c = none := by
  cases hb : before? ['>'] c with
  | none => rfl
  | some r =>
    refine absurd ?_ (hc.ne_of_getLast? (c := '>') (by decide) (by decide))
    rw [before?_eq_some_iff.1 hb, List.getLast?_concat]

theorem callForm?_call (hc : Operand c) (ha : Balanced args) :
    callForm? (c ++ '(' :: (args ++ [')'])) = some ⟨c, args, []⟩ := by
  have hg : lastGroup? .round (c ++ '(' :: (args ++ [')'])) = some (c, args) :=
    lastGroup?_append (b := .round) hc.toBalanced (hc.isTip_eq_false _) ha
      (closesAfter_of_ne (by decide))
  have hs : callShape? (c ++ '(' :: (args ++ [')'])) = some ⟨c, args, []⟩ := by
    simp [callShape?, trim_eq_self (hc.call ha).trimmed, hg, hc.ne_nil,
      trimEnd_eq_self hc.trimmed.2, before?_operand hc]
  exact Option.filter_eq_some_iff.2 ⟨hs, hc.isOperandText⟩

theorem callForm?_genericCall (hc : Operand c) (hg : Balanced g) (hclose : ClosesAfter .angle g)
    (ha : Balanced args) :
    callForm? (c ++ ('<' :: (g ++ ['>']) ++ '(' :: (args ++ [')']))) = some ⟨c, args, g⟩ := by
  have hangle : Sealed (c ++ '<' :: (g ++ ['>'])) :=
    hc.toSealed.append_angle hc.ne_nil hg hclose (hc.isTip_eq_false '<')
  have hlast : (c ++ '<' :: (g ++ ['>'])).getLast? = some '>' := by
    rw [← List.cons_append, ← List.append_assoc, List.getLast?_concat]
  have htip : (scan .start (c ++ '<' :: (g ++ ['>']))).isTip '(' = false := rfl
  have hg₁ : lastGroup? .round ((c ++ '<' :: (g ++ ['>'])) ++ '(' :: (args ++ [')']))
      = some (c ++ '<' :: (g ++ ['>']), args) :=
    lastGroup?_append (b := .round) hangle.toBalanced htip ha (closesAfter_of_ne (by decide))
  have hg₂ : lastGroup? .angle (c ++ '<' :: (g ++ ['>'])) = some (c, g) :=
    lastGroup?_append (b := .angle) hc.toBalanced (hc.isTip_eq_false _) hg hclose
  have hbefore : before? ['>'] (c ++ '<' :: (g ++ ['>'])) = some (c ++ '<' :: g) :=
    before?_eq_some_iff.2 (by simp)
  have hend : trimEnd (c ++ '<' :: (g ++ ['>'])) = c ++ '<' :: (g ++ ['>']) := by
    apply trimEnd_eq_self
    intro d hd
    obtain rfl := Option.some.inj (hlast.symm.trans hd)
    decide
  have hs : callShape? (c ++ ('<' :: (g ++ ['>']) ++ '(' :: (args ++ [')'])))
      = some ⟨c, args, g⟩ := by
    rw [callShape?, trim_eq_self (hc.genericCall hg hclose ha).trimmed, ← List.append_assoc, hg₁]
    simp only [Option.bind_eq_bind, Option.bind_some, hend, hbefore, hg₂]
    simp [hc.ne_nil, trimEnd_eq_self hc.trimmed.2]
  exact Option.filter_eq_some_iff.2 ⟨hs, hc.isOperandText⟩

theorem avoids_dot_of_isIdentifier (hn : isIdentifier name = true) :
    Avoids (· == '.') name := by
  apply avoids_of_forall
  intro d hd
  simp only [beq_eq_false_iff_ne]
  rintro rfl
  exact absurd (isNameChar_of_mem_identifier hn _ hd) (by decide)

theorem memberForm?_member (hc : Operand c) (hn : isIdentifier name = true) :
    memberForm? (c ++ '.' :: name) = some (c, name) := by
  have hcut : cutLastTop '.' (c ++ '.' :: name) = some (c, name) :=
    cutLastTop_append_cons (by decide) (by decide) hc.toBalanced (avoids_dot_of_isIdentifier hn)
  have hs : memberShape? (c ++ '.' :: name) = some (c, name) := by
    simp [memberShape?, hcut, trim_eq_self hc.trimmed, trim_of_isIdentifier hn, hc.ne_nil, hn]
  exact Option.filter_eq_some_iff.2 ⟨hs, hc.isOperandText⟩

theorem getLast?_member_ne (hn : isIdentifier name = true) {d : Char}
    (hd : isNameChar d = false) : (c ++ '.' :: name).getLast? ≠ some d := by
  have hne := ne_nil_of_isIdentifier hn
  have hl : (c ++ '.' :: name).getLast? = some (name.getLast hne) := by
    rw [List.getLast?_append_of_ne_nil _ (List.cons_ne_nil _ _), List.getLast?_cons_of_ne_nil hne,
      List.getLast?_eq_some_getLast hne]
  intro h
  obtain rfl := Option.some.inj (hl.symm.trans h)
  rw [isNameChar_of_mem_identifier hn _ (List.getLast_mem hne)] at hd
  cases hd

theorem Operand.exists_head (h : Operand c) :
    ∃ d u, c = d :: u ∧ isNumeralChar d = false ∧ d ∉ ['"', '\x7b', '['] := by
  rcases h.begins with ⟨d, u, rfl, hd⟩ | ⟨inner, u, rfl, _⟩
  · refine ⟨d, u, rfl, ?_⟩
    rcases hd with hd | rfl
    · refine ⟨isNumeralChar_of_isNameStart hd, ?_⟩
      have hall : ∀ e ∈ ['"', '\x7b', '['], isNameStart e = false := by decide
      intro hm
      rw [hall d hm] at hd
      cases hd
    · decide
  · exact ⟨'(', _, rfl, by decide⟩

end

/-! ### Variables, lists, calls and members -/

section

variable {env env₁ env₂ env' : TypeEnv}

theorem reads_var {name : Name} (hn : isName name = true) : Reads name env (.var name) env := by
  have ho := operand_of_isName hn
  have hchars := isNameChar_of_mem_identifier (isIdentifier_of_isName hn)
  have hlast {d : Char} (hd : isNameChar d = false) : name.getLast? ≠ some d := by
    intro h
    rw [hchars d (List.mem_of_getLast? h)] at hd
    cases hd
  have hk : formShape? name = some .var := by
    have hmember : memberForm? name = none := by
      have hdot := avoids_dot_of_isIdentifier (isIdentifier_of_isName hn)
      simp [memberForm?, memberShape?, cutLastTop_eq_none_iff.2 hdot]
    have hcall := callForm?_of_getLast ho.trimmed (hlast (by decide))
    have hlambda := lambdaShape?_of_getLast ho.trimmed (hlast (by decide))
    have hreturn := returnShape?_of_keywordHead ho.keyword
    have hdeclaration := declarationShape?_of_keywordHead ho.keyword
    have hcut := cutAssignment_eq_none ho.unassigned
    obtain ⟨d, u, hd, hnum, hnotin⟩ := ho.exists_head
    have href : referenceShape? (d :: u) = none := by
      apply referenceShape?_of_head
      rintro rfl
      have hsign := hchars '&' (by rw [hd]; exact List.mem_cons_self ..)
      exact absurd hsign (by decide)
    rw [hd] at hmember hcall hlambda hreturn hdeclaration hcut hn ⊢
    rw [formShape?_of_head hnum hnotin href hcall hlambda, hmember, hreturn, hdeclaration, hcut]
    simp [hn]
  exact reads_of_form ho.trimmed (unwrap?_of_getLast (hlast (by decide))) hk .var

theorem reads_list {ts : List Text} {ns : List Node} (h : Chain Reads ts env ns env') :
    Reads ('\x7b' :: ([','].intercalate ts ++ ['\x7d'])) env (.list ns) env' := by
  have hb := balanced_items h
  have htrim : Trimmed ('\x7b' :: ([','].intercalate ts ++ ['\x7d'])) :=
    trimmed_cons_append (by decide) (by decide)
  have hlast : ('\x7b' :: ([','].intercalate ts ++ ['\x7d'])).getLast? ≠ some ')' := by
    rw [← List.cons_append, List.getLast?_concat]
    decide
  have hk : formShape? ('\x7b' :: ([','].intercalate ts ++ ['\x7d']))
      = some (.list ([','].intercalate ts)) := by
    have hcall := callForm?_of_getLast htrim hlast
    have hnum : isNumeral ('\x7b' :: ([','].intercalate ts ++ ['\x7d'])) = false :=
      isNumeral_of_head rfl (by decide)
    have hquoted :=
      quoted?_of_head (c := '\x7b') (u := [','].intercalate ts ++ ['\x7d']) (by decide)
    have href :=
      referenceShape?_of_head (c := '\x7b') (u := [','].intercalate ts ++ ['\x7d']) (by decide)
    have hlist := unwrap?_group (b := .curly) hb (closesAfter_of_ne (by decide))
    simp only [formShape?, hcall, hnum, hquoted, href]
    simp only [Bracket.opening, Bracket.closing] at hlist
    simp [hlist]
  refine reads_of_form htrim (unwrap?_cons (by decide)) hk (.list ?_)
  rwa [commaItems_intercalate (items_of_chain h)]

theorem reads_call {c : Text} {f : Node} {ts : List Text} {as : List Node} (hc : Operand c)
    (hf : Reads c env f env₁) (ha : Chain Reads ts env₁ as env₂) :
    Reads (c ++ '(' :: ([','].intercalate ts ++ [')'])) env (.call f as []) env₂ := by
  have hb := balanced_items ha
  have hk := formShape?_of_callForm? (callForm?_call hc hb)
  have hu : unwrap? .round (c ++ '(' :: ([','].intercalate ts ++ [')'])) = none :=
    unwrap?_append hc.toBalanced hc.ne_nil (List.cons_ne_nil _ _)
  refine reads_of_form (hc.call hb).trimmed hu hk (.call hf rfl ?_)
  rwa [commaItems_intercalate (items_of_chain ha)]

theorem reads_genericCall {c g : Text} {f : Node} {gs : List SourceType} {ts : List Text}
    {as : List Node} (hc : Operand c) (hf : Reads c env f env₁) (hg : Balanced g)
    (hclose : ClosesAfter .angle g) (hgs : (commaItems g).mapM parseType = .ok gs)
    (ha : Chain Reads ts env₁ as env₂) :
    Reads (c ++ ('<' :: (g ++ ['>']) ++ '(' :: ([','].intercalate ts ++ [')']))) env
      (.call f as gs) env₂ := by
  have hb := balanced_items ha
  have hk := formShape?_of_callForm? (callForm?_genericCall hc hg hclose hb)
  have hu : unwrap? .round (c ++ ('<' :: (g ++ ['>']) ++ '(' :: ([','].intercalate ts ++ [')'])))
      = none := unwrap?_append hc.toBalanced hc.ne_nil (List.cons_ne_nil _ _)
  refine reads_of_form (hc.genericCall hg hclose hb).trimmed hu hk (.call hf hgs ?_)
  rwa [commaItems_intercalate (items_of_chain ha)]

theorem reads_member {c : Text} {p : Node} {name : Name} (hc : Operand c)
    (hp : Reads c env p env') (hn : isIdentifier name = true) :
    Reads (c ++ '.' :: name) env (.member p name) env' := by
  have ho := hc.member hn
  have hm := memberForm?_member hc hn
  have hlast {d : Char} (hd : isNameChar d = false) : (c ++ '.' :: name).getLast? ≠ some d :=
    getLast?_member_ne hn hd
  have hk : formShape? (c ++ '.' :: name) = some (.member c name) := by
    obtain ⟨d, u, hd, hnum, hnotin⟩ := ho.exists_head
    have href : referenceShape? (c ++ '.' :: name) = none :=
      referenceShape?_append hc.ne_nil (d := '.') (by simp) (by decide)
    have hcall := callForm?_of_getLast ho.trimmed (hlast (by decide))
    have hlambda := lambdaShape?_of_getLast ho.trimmed (hlast (by decide))
    rw [hd] at hm href hcall hlambda ⊢
    rw [formShape?_of_head hnum hnotin href hcall hlambda, hm]
    rfl
  exact reads_of_form ho.trimmed (unwrap?_of_getLast (hlast (by decide))) hk (.member hp)

end

end UnionTyping
