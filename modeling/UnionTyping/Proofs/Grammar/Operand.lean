/-
  UnionTyping/Proofs/Grammar/Operand.lean
  =======================================
  **Callees and parents** — what may stand directly before `(` and `.` so that
  reading finds it again: a text without a keyword at its head and without an
  assignment at its top level, that begins like a name, a reference or a group
  and ends like a name or a group (`Operand`).  Operands are closed under calls
  and members.  No statement is an operand, because its keyword or its equals
  sign stays in every piece that a call or a member is read from
  (`Introduces`).
-/
import UnionTyping.Proofs.Grammar.SealedText

namespace UnionTyping

open Text

/-! ### Name characters -/

namespace Text

theorem isWordChar_of_isNameChar {c : Char} (h : isNameChar c = true) : isWordChar c = true := by
  have hall : ∀ d ∈ (List.range 123).map Char.ofNat, isNameChar d = true → isWordChar d = true := by
    decide +kernel
  exact hall c (mem_range_of_isNameChar h) h

theorem isWordChar_of_isBlank {c : Char} (h : isBlank c = true) : isWordChar c = false := by
  have hall : ∀ d ∈ blanks, isWordChar d = false := by decide +kernel
  exact hall c (mem_blanks h)

theorem ne_sign_of_isNameChar {c : Char} (h : isNameChar c = true) : (c == '=') = false := by
  simp only [beq_eq_false_iff_ne]
  rintro rfl
  exact absurd h (by decide)

theorem exists_of_isIdentifier {t : Text} (h : isIdentifier t = true) :
    ∃ c u, t = c :: u ∧ isNameStart c = true := by
  cases t with
  | nil => cases h
  | cons c u =>
    simp only [isIdentifier, Bool.and_eq_true] at h
    exact ⟨c, u, rfl, h.1⟩

theorem ne_nil_of_isIdentifier {t : Text} (h : isIdentifier t = true) : t ≠ [] := by
  rintro rfl
  cases h

theorem isNumeralChar_of_isNameStart {c : Char} (h : isNameStart c = true) :
    isNumeralChar c = false := by
  have hall : ∀ d ∈ (List.range 123).map Char.ofNat, isNameStart d = true →
      isNumeralChar d = false := by decide +kernel
  exact hall c (mem_range_of_isNameChar (isNameChar_of_isNameStart h)) h

end Text

/-! ### Keywords at the head of a text -/

theorem headedBy_iff {word t : Text} :
    headedBy word t = true ↔ ∃ r, t = word ++ r ∧ ∀ c, r.head? = some c → isWordChar c = false := by
  unfold headedBy
  constructor
  · intro h
    split at h
    · cases h
    · next ha => exact ⟨[], after?_eq_some_iff.1 ha, fun c hc => by cases hc⟩
    · next c r ha =>
      refine ⟨c :: r, after?_eq_some_iff.1 ha, ?_⟩
      intro d hd
      obtain rfl := Option.some.inj hd
      simpa using h
  · rintro ⟨r, ht, hr⟩
    rw [after?_eq_some_iff.2 ht]
    cases r with
    | nil => rfl
    | cons c r => simpa using hr c rfl

theorem keywordHead_iff {t : Text} :
    keywordHead t = true ↔ ∃ word ∈ reservedWords, headedBy word t = true := List.any_eq_true

/-- What goes on after an operand with no name character brings no keyword. -/
theorem keywordHead_append {t u : Text} (ht : keywordHead t = false)
    (hu : ∀ c, u.head? = some c → isNameChar c = false) : keywordHead (t ++ u) = false := by
  cases hk : keywordHead (t ++ u) with
  | false => rfl
  | true =>
    obtain ⟨word, hw, hh⟩ := keywordHead_iff.1 hk
    obtain ⟨r, he, hr⟩ := headedBy_iff.1 hh
    have hnone : headedBy word t ≠ true := fun h => by
      rw [keywordHead_iff.2 ⟨word, hw, h⟩] at ht
      cases ht
    rcases List.append_eq_append_iff.1 he with ⟨w, rfl, rfl⟩ | ⟨w, rfl, rfl⟩
    · cases w with
      | nil =>
        refine absurd (headedBy_iff.2 ⟨[], ?_, fun c hc => by cases hc⟩) hnone
        simp
      | cons d w =>
        have hd := hu d rfl
        have hall : ∀ word ∈ reservedWords, ∀ c ∈ word, isNameChar c = true := by decide
        rw [hall _ hw d (by simp)] at hd
        cases hd
    · refine absurd (headedBy_iff.2 ⟨w, rfl, ?_⟩) hnone
      intro c hc
      exact hr c (by rw [List.head?_append, hc]; rfl)

theorem keywordHead_of_head {t : Text} (h : ∀ c, t.head? = some c → isNameChar c = false) :
    keywordHead t = false := keywordHead_append (t := []) (by decide) h

theorem keywordHead_of_isName {t : Text} (h : isName t = true) : keywordHead t = false := by
  cases hk : keywordHead t with
  | false => rfl
  | true =>
    exfalso
    obtain ⟨word, hw, hh⟩ := keywordHead_iff.1 hk
    obtain ⟨r, rfl, hr⟩ := headedBy_iff.1 hh
    cases r with
    | nil =>
      have hres : isReserved word = true := by simpa [isReserved] using hw
      simp [isName, hres] at h
    | cons c r =>
      have hc := isNameChar_of_mem_identifier (isIdentifier_of_isName h) c (by simp)
      exact absurd ((isWordChar_of_isNameChar hc).symm.trans (hr c rfl)) (by decide)

theorem keywordHead_keyword {word u : Text} (hw : word ∈ reservedWords)
    (hu : ∀ c, u.head? = some c → isWordChar c = false) : keywordHead (word ++ u) = true :=
  keywordHead_iff.2 ⟨word, hw, headedBy_iff.2 ⟨u, rfl, hu⟩⟩

/-- A keyword and a blank. -/
theorem keywordHead_of_afterKeyword? {word t rest : Text} (hw : word ∈ reservedWords)
    (h : afterKeyword? word t = some rest) : keywordHead t = true := by
  obtain ⟨blank, rfl, hb, hne⟩ := eq_of_afterKeyword? h
  apply keywordHead_keyword hw
  intro c hc
  obtain ⟨d, blank, rfl⟩ := List.exists_cons_of_ne_nil hne
  obtain rfl := Option.some.inj hc
  exact isWordChar_of_isBlank (hb d (List.mem_cons_self ..))

theorem returnShape?_of_keywordHead {t : Text} (h : keywordHead t = false) :
    returnShape? t = none := by
  unfold returnShape?
  split
  · next ht =>
    subst ht
    exact absurd h (by decide)
  · split
    · next ha =>
      rw [keywordHead_of_afterKeyword? (by decide) ha] at h
      cases h
    · rfl

theorem declarationShape?_of_keywordHead {t : Text} (h : keywordHead t = false) :
    declarationShape? t = none := by
  unfold declarationShape?
  split
  · next ha =>
    rw [keywordHead_of_afterKeyword? (by decide) ha] at h
    cases h
  · cases ha : afterKeyword? "const".toList t with
    | none => rfl
    | some rest =>
      rw [keywordHead_of_afterKeyword? (by decide) ha] at h
      cases h

/-! ### Operands -/

/-- How a callee or a parent begins: like a name or a reference, or with a group
    that a call or a member may follow. -/
def OperandHead (t : Text) : Prop :=
  (∃ c u, t = c :: u ∧ (isNameStart c = true ∨ c = '&'))
    ∨ ∃ inner u, t = '(' :: (inner ++ ')' :: u) ∧ Balanced inner
      ∧ ∀ c, u.head? = some c → c ∈ ['(', '.', '<']

structure Operand (t : Text) : Prop extends Sealed t where
  trimmed : Trimmed t
  unassigned : Avoids (· == '=') t
  keyword : keywordHead t = false
  begins : OperandHead t
  ends : ∃ c, t.getLast? = some c ∧ (c = ')' ∨ isNameChar c = true)

theorem OperandHead.ne_nil {t : Text} (h : OperandHead t) : t ≠ [] := by
  rintro rfl
  rcases h with ⟨_, _, he, _⟩ | ⟨_, _, he, _⟩ <;> cases he

theorem OperandHead.append {t u : Text} (h : OperandHead t)
    (hu : ∀ c, u.head? = some c → c ∈ ['(', '.', '<']) : OperandHead (t ++ u) := by
  rcases h with ⟨c, v, rfl, hc⟩ | ⟨inner, v, rfl, hi, hv⟩
  · exact Or.inl ⟨c, v ++ u, rfl, hc⟩
  · refine Or.inr ⟨inner, v ++ u, by simp, hi, ?_⟩
    intro c hc
    cases v with
    | nil => exact hu c hc
    | cons d v => exact hv c hc

theorem cutAssignment_eq_none {t : Text} (h : Avoids (· == '=') t) : cutAssignment t = none := by
  rw [cutAssignment, cutFirst_eq_none_iff]
  intro l c r he
  cases htop : (scan .start l).atTop with
  | false => simp [isAssignment, htop]
  | true => simp [isAssignment, h l c r he htop]

namespace Operand

variable {t u : Text}

theorem ne_nil (h : Operand t) : t ≠ [] := h.begins.ne_nil

theorem isOperandText (h : Operand t) : isOperandText t = true := by
  simp [UnionTyping.isOperandText, trim_eq_self h.trimmed, h.ne_nil,
    cutAssignment_eq_none h.unassigned, h.keyword]

theorem ne_of_getLast? (h : Operand t) {c : Char} (hc : isNameChar c = false) (hp : c ≠ ')') :
    t.getLast? ≠ some c := by
  intro hl
  obtain ⟨d, hd, hd'⟩ := h.ends
  obtain rfl := Option.some.inj (hl.symm.trans hd)
  rcases hd' with rfl | hd'
  · exact hp rfl
  · rw [hc] at hd'
    cases hd'

theorem isTip_eq_false (h : Operand t) (c : Char) : (scan .start t).isTip c = false := by
  have h₁ : t.getLast? ≠ some '~' := h.ne_of_getLast? (by decide) (by decide)
  have h₂ : t.getLast? ≠ some '=' := h.ne_of_getLast? (by decide) (by decide)
  simp [Nesting.isTip, previous_scan h.ne_nil, h₁, h₂]

/-- An operand goes on with a call, generic arguments or a member. -/
theorem append (h : Operand t) (hs : Sealed (t ++ u)) (ha : Avoids (· == '=') (t ++ u))
    (hu : ∀ c, u.head? = some c → c ∈ ['(', '.', '<'])
    (hl : ∃ c, u.getLast? = some c ∧ (c = ')' ∨ isNameChar c = true)) : Operand (t ++ u) where
  toSealed := hs
  unassigned := ha
  trimmed := by
    obtain ⟨c, hc, hc'⟩ := hl
    have hb : isBlank c = false := by
      rcases hc' with rfl | hc'
      · decide
      · exact isBlank_of_isNameChar hc'
    constructor
    · intro d hd
      obtain ⟨e, v, rfl⟩ := List.exists_cons_of_ne_nil h.ne_nil
      exact h.trimmed.1 d hd
    · intro d hd
      rw [List.getLast?_append, hc] at hd
      obtain rfl := Option.some.inj hd
      exact hb
  keyword := by
    have hall : ∀ c ∈ ['(', '.', '<'], isNameChar c = false := by decide
    exact keywordHead_append h.keyword fun c hc => hall c (hu c hc)
  begins := h.begins.append hu
  ends := by
    obtain ⟨c, hc, hc'⟩ := hl
    exact ⟨c, by rw [List.getLast?_append, hc]; rfl, hc'⟩

theorem member (h : Operand t) {name : Name} (hn : isIdentifier name = true) :
    Operand (t ++ '.' :: name) := by
  have hchars := isNameChar_of_mem_identifier hn
  have hdot : Sealed ['.'] := sealed_of_plain (by decide)
  have hsealed : Sealed ('.' :: name) := hdot.append (sealed_of_isIdentifier hn)
  have hsign : Avoids (· == '=') ('.' :: name) := by
    apply avoids_of_forall
    intro c hc
    rcases List.mem_cons.1 hc with rfl | hc
    · decide
    · exact ne_sign_of_isNameChar (hchars c hc)
  refine h.append (h.toSealed.append hsealed)
    (Avoids.append h.toBalanced h.unassigned hsign (hsealed.fits _)) ?_ ?_
  · intro c hc
    obtain rfl := Option.some.inj hc
    decide
  · obtain ⟨c, u, hu⟩ := List.exists_cons_of_ne_nil (ne_nil_of_isIdentifier hn)
    obtain ⟨d, hd⟩ : ∃ d, name.getLast? = some d := by
      rw [hu]
      exact ⟨_, List.getLast?_eq_some_getLast (by simp)⟩
    refine ⟨d, ?_, Or.inr (hchars d (List.mem_of_getLast? hd))⟩
    rw [hu] at hd ⊢
    rw [List.getLast?_cons_cons, hd]

theorem call (h : Operand t) {args : Text} (ha : Balanced args) :
    Operand (t ++ '(' :: (args ++ [')'])) := by
  have hgroup : Sealed ('(' :: (args ++ [')'])) := sealed_group (b := .round) ha (by decide)
  refine h.append (h.toSealed.append hgroup) (Avoids.append h.toBalanced h.unassigned
    (avoids_group (b := .round) ha (by decide)) (hgroup.fits _)) ?_ ?_
  · intro c hc
    obtain rfl := Option.some.inj hc
    decide
  · exact ⟨')', by rw [← List.cons_append, List.getLast?_append]; rfl, Or.inl rfl⟩

theorem genericCall (h : Operand t) {g args : Text} (hg : Balanced g) (hc : ClosesAfter .angle g)
    (ha : Balanced args) :
    Operand (t ++ ('<' :: (g ++ ['>']) ++ '(' :: (args ++ [')']))) := by
  have hgroup : Sealed ('(' :: (args ++ [')'])) := sealed_group (b := .round) ha (by decide)
  have hangle : Sealed (t ++ '<' :: (g ++ ['>'])) :=
    h.toSealed.append_angle h.ne_nil hg hc (h.isTip_eq_false '<')
  have hsign : Avoids (· == '=') (t ++ '<' :: (g ++ ['>'])) := by
    refine Avoids.append h.toBalanced h.unassigned
      (avoids_group (b := .angle) hg (by decide)) ?_
    intro c _
    exact h.isTip_eq_false c
  refine h.append ?_ ?_ ?_ ?_
  · rw [← List.append_assoc]
    exact hangle.append hgroup
  · rw [← List.append_assoc]
    exact Avoids.append hangle.toBalanced hsign (avoids_group (b := .round) ha (by decide))
      (hgroup.fits _)
  · intro c hc
    obtain rfl := Option.some.inj hc
    decide
  · refine ⟨')', ?_, Or.inl rfl⟩
    rw [← List.cons_append, List.getLast?_append, ← List.cons_append, List.getLast?_append]
    rfl

end Operand

theorem operand_of_isName {name : Name} (h : isName name = true) : Operand name where
  toSealed := sealed_of_isName h
  trimmed := Trimmed.of_forall fun c hc =>
    isBlank_of_isNameChar (isNameChar_of_mem_identifier (isIdentifier_of_isName h) c hc)
  unassigned := avoids_of_forall fun c hc =>
    ne_sign_of_isNameChar (isNameChar_of_mem_identifier (isIdentifier_of_isName h) c hc)
  keyword := keywordHead_of_isName h
  begins := by
    obtain ⟨c, u, rfl, hc⟩ := exists_of_isIdentifier (isIdentifier_of_isName h)
    exact Or.inl ⟨c, u, rfl, Or.inl hc⟩
  ends := by
    have hne := ne_nil_of_isIdentifier (isIdentifier_of_isName h)
    refine ⟨_, List.getLast?_eq_some_getLast hne, Or.inr ?_⟩
    exact isNameChar_of_mem_identifier (isIdentifier_of_isName h) _ (List.getLast_mem hne)

theorem operand_reference {name : Name} (h : isName name = true) : Operand ('&' :: name) := by
  have ho := operand_of_isName h
  have hsign : Sealed ['&'] := sealed_of_plain (by decide)
  have hall : ∀ c ∈ '&' :: name, (c == '=') = false ∧ isBlank c = false := by
    intro c hc
    rcases List.mem_cons.1 hc with rfl | hc
    · decide
    · have hn := isNameChar_of_mem_identifier (isIdentifier_of_isName h) c hc
      exact ⟨ne_sign_of_isNameChar hn, isBlank_of_isNameChar hn⟩
  exact {
    toSealed := hsign.append ho.toSealed
    trimmed := Trimmed.of_forall fun c hc => (hall c hc).2
    unassigned := avoids_of_forall fun c hc => (hall c hc).1
    keyword := keywordHead_of_head fun c hc => by
      obtain rfl := Option.some.inj hc
      decide
    begins := Or.inl ⟨'&', name, rfl, Or.inr rfl⟩
    ends := by
      obtain ⟨c, hc, hc'⟩ := ho.ends
      obtain ⟨d, u, rfl⟩ := List.exists_cons_of_ne_nil ho.ne_nil
      exact ⟨c, by rw [List.getLast?_cons_cons, hc], hc'⟩ }

theorem operand_group {t : Text} (h : Balanced t) : Operand ('(' :: (t ++ [')'])) where
  toSealed := sealed_group (b := .round) h (by decide)
  trimmed := trimmed_cons_append (by decide) (by decide)
  unassigned := avoids_group (b := .round) h (by decide)
  keyword := keywordHead_of_head fun c hc => by
    obtain rfl := Option.some.inj hc
    decide
  begins := Or.inr ⟨t, [], rfl, h, fun c hc => by cases hc⟩
  ends := ⟨')', by rw [← List.cons_append, List.getLast?_append]; rfl, Or.inl rfl⟩

/-! ### Beginnings of statements -/

/-- A beginning of a statement: whatever follows behind a blank, it stays one. -/
structure Introduces (u : Text) : Prop extends Balanced u where
  trimmed : Trimmed u
  ne_nil : u ≠ []
  last : u.getLast? ≠ some '>'
  /-- What stands behind a dot is no identifier. -/
  dots : ∀ l r, u = l ++ '.' :: r → ∃ c ∈ r, isBlank c = false ∧ isNameChar c = false
  stays : ∀ w, (∀ c, w.head? = some c → isBlank c = true) → isOperandText (u ++ w) = false

namespace Introduces

variable {u v : Text}

theorem not_operand (h : Introduces u) (hv : ∀ c, v.head? = some c → isBlank c = true) {w : Text}
    (hw : w <+: v) : isOperandText (u ++ w) = false := by
  apply h.stays
  intro c hc
  obtain ⟨r, rfl⟩ := hw
  exact hv c (by rw [List.head?_append, hc]; rfl)

theorem caller (h : Introduces u) (hv : v ≠ []) (ht : Trimmed (u ++ v)) {shape : CallShape}
    (hs : callShape? (u ++ v) = some shape) : ∃ w, w <+: v ∧ shape.caller = u ++ w := by
  obtain ⟨called, hg, _, hcase⟩ := callShape?_eq_some_iff.1 hs
  rw [trim_eq_self ht] at hg
  obtain ⟨w, hw, rfl⟩ := exists_of_lastGroup?_append h.toBalanced hv hg
  rw [trimEnd_append h.trimmed.2] at hcase
  rcases hcase with ⟨_, hcaller, _⟩ | ⟨caller, hg', _, hcaller⟩
  · exact ⟨trimEnd w, (trimEnd_isPrefix w).trans hw, hcaller⟩
  · have hne : trimEnd w ≠ [] := by
      intro he
      rw [he, List.append_nil] at hg'
      apply h.last
      rw [(eq_of_lastGroup? hg').1, ← List.cons_append, ← List.append_assoc, List.getLast?_concat]
      rfl
    obtain ⟨w', hw', rfl⟩ := exists_of_lastGroup?_append h.toBalanced hne hg'
    rw [trimEnd_append h.trimmed.2] at hcaller
    exact ⟨trimEnd w', ((trimEnd_isPrefix w').trans hw').trans ((trimEnd_isPrefix w).trans hw),
      hcaller⟩

theorem parent (h : Introduces u) {p : Text} {name : Name}
    (hs : memberShape? (u ++ v) = some (p, name)) : ∃ w, w <+: v ∧ p = u ++ w := by
  obtain ⟨l, r, he, rfl, rfl, hid⟩ := eq_of_memberShape? hs
  -- a dot in `u` would have more than an identifier behind it
  have hright {x : Text} (hu : u = l ++ '.' :: x) (hr : r = x ++ v) : False := by
    obtain ⟨c, hc, hb, hn⟩ := h.dots l x hu
    have hm : c ∈ trim r := mem_trim (by rw [hr]; exact List.mem_append_left v hc) hb
    rw [isNameChar_of_mem_identifier hid c hm] at hn
    cases hn
  rcases List.append_eq_append_iff.1 he with ⟨w, rfl, hv⟩ | ⟨w, hu, hr⟩
  · exact ⟨trimEnd w, (trimEnd_isPrefix w).trans ⟨_, hv.symm⟩, trim_append h.trimmed h.ne_nil⟩
  · cases w with
    | nil =>
      refine ⟨[], List.nil_prefix, ?_⟩
      rw [List.append_nil] at hu
      rw [← hu, trim_eq_self h.trimmed, List.append_nil]
    | cons c x =>
      obtain ⟨rfl, hr'⟩ := List.cons.inj hr
      exact (hright hu hr').elim

theorem callForm?_eq_none (h : Introduces u) (hv : v ≠ []) (ht : Trimmed (u ++ v))
    (hb : ∀ c, v.head? = some c → isBlank c = true) : callForm? (u ++ v) = none := by
  apply Option.filter_eq_none_iff.2
  intro shape hs
  obtain ⟨w, hw, hc⟩ := h.caller hv ht hs
  simp [hc, h.not_operand hb hw]

theorem memberForm?_eq_none (h : Introduces u)
    (hb : ∀ c, v.head? = some c → isBlank c = true) : memberForm? (u ++ v) = none := by
  apply Option.filter_eq_none_iff.2
  rintro ⟨p, name⟩ hs
  obtain ⟨w, hw, rfl⟩ := h.parent hs
  simp [h.not_operand hb hw]

end Introduces

theorem introduces_keyword {word : Name} (hw : word ∈ reservedWords) : Introduces word := by
  have hall : ∀ word ∈ reservedWords, (∀ c ∈ word, isNameChar c = true) ∧ word ≠ [] := by decide
  obtain ⟨hchars, hne⟩ := hall word hw
  have htrim : Trimmed word := Trimmed.of_forall fun c hc => isBlank_of_isNameChar (hchars c hc)
  exact {
    toBalanced := (sealed_of_nameChars hchars).toBalanced
    trimmed := htrim
    ne_nil := hne
    last := fun hl => absurd (hchars _ (List.mem_of_getLast? hl)) (by decide)
    dots := by
      rintro l r rfl
      exact absurd (hchars '.' (by simp)) (by decide)
    stays := by
      intro w hw'
      have hhead : keywordHead (word ++ trimEnd w) = true := by
        apply keywordHead_keyword hw
        intro c hc
        obtain ⟨r, hr⟩ := trimEnd_isPrefix w
        refine isWordChar_of_isBlank (hw' c ?_)
        rw [← hr, List.head?_append, hc]
        rfl
      simp [isOperandText, trim_append htrim hne, hhead] }

/-! ### The sign of an assignment -/

/-- An equals sign between blanks, behind a balanced text, assigns. -/
theorem isAssignment_sign {t u : Text} (ht : Balanced t)
    (hu : ∀ c, u.head? = some c → isBlank c = true) :
    isAssignment (scan .start (t ++ [' '])) '=' u = true := by
  have hblank : Sealed [' '] := sealed_of_plain (by decide)
  have htop := (ht.append hblank.toBalanced (hblank.fits _)).atTop
  have hprev : (scan .start (t ++ [' '])).previous = some ' ' := by
    rw [previous_scan (by simp), List.getLast?_append]
    rfl
  have hhead : u.head? ≠ some '>' ∧ u.head? ≠ some '=' :=
    ⟨fun h => absurd (hu _ h) (by decide), fun h => absurd (hu _ h) (by decide)⟩
  simp only [isAssignment, htop, hprev]
  simp [hhead.1, hhead.2]

theorem introduces_sign {t : Text} (ht : Balanced t) (htrim : Trimmed t) (hne : t ≠ []) :
    Introduces (t ++ [' ', '=']) := by
  have hsign : Sealed [' ', '='] := sealed_of_plain (by decide)
  have hlast : (t ++ [' ', '=']).getLast? = some '=' := by
    rw [List.getLast?_append]
    rfl
  have hequals : Trimmed ['='] := Trimmed.of_forall (by decide)
  have htrim' : Trimmed (t ++ [' ', '=']) :=
    htrim.around (u := [' ']) hequals hne (List.cons_ne_nil _ _)
  exact {
    toBalanced := ht.append hsign.toBalanced (hsign.fits _)
    trimmed := htrim'
    ne_nil := by simp
    last := by simp [hlast]
    dots := by
      intro l r he
      rw [he, List.getLast?_append] at hlast
      refine ⟨'=', ?_, by decide, by decide⟩
      cases r with
      | nil => simp at hlast
      | cons c r =>
        rw [List.getLast?_cons_cons] at hlast
        cases hr : (c :: r).getLast? with
        | none => simp at hr
        | some d =>
          rw [hr] at hlast
          obtain rfl := Option.some.inj hlast
          exact List.mem_of_getLast? hr
    stays := by
      intro w hw
      have hcut : cutAssignment ((t ++ [' ', '=']) ++ trimEnd w) ≠ none := by
        intro hn
        have h := cutFirst_eq_none_iff.1 hn (t ++ [' ']) '=' (trimEnd w) (by simp)
        rw [isAssignment_sign ht] at h
        · cases h
        · intro c hc
          obtain ⟨r, hr⟩ := trimEnd_isPrefix w
          refine hw c ?_
          rw [← hr, List.head?_append, hc]
          rfl
      obtain ⟨p, hp⟩ := Option.ne_none_iff_exists'.1 hcut
      simp only [isOperandText, trim_append htrim' (List.append_ne_nil_of_right_ne_nil t
        (List.cons_ne_nil ' ' ['='])), hp]
      simp }

end UnionTyping
