/-
  UnionTyping/Proofs/Grammar/RoundTrip.lean
  =========================================
  **Canonical source reads back** — the text of a node that was read is read as
  the same node, with the same effect on the environment, if its numbers are
  finite.  Every form is put together again from the texts of its children
  (`PrintsBack`): those are trimmed and readable, and what stands as a callee or
  a parent is an operand, if need be by its parentheses.
-/
import UnionTyping.Proofs.Grammar.Lambdas
import UnionTyping.Proofs.Tree.Equality

namespace UnionTyping

open Text

/-! ### Literals -/

section

variable {env : TypeEnv}

theorem Text.isBlank_of_isNumeralChar {c : Char} (h : isNumeralChar c = true) :
    isBlank c = false := isBlank_of_forall (by decide +kernel) h

theorem chunks_escape (v : Text) : Chunks (escape v) := by
  induction v with
  | nil => exact .nil
  | cons c v ih =>
    rw [escape, List.flatMap_cons]
    change Chunks (escapeChar c ++ escape v)
    unfold escapeChar
    split
    · exact .escaped ih
    split
    · exact .escaped ih
    split
    · exact .escaped ih
    split
    · exact .escaped ih
    split
    · exact .escaped ih
    · next hq hb _ _ _ => exact .plain hq hb ih

theorem trimmed_of_isNumeral {t : Text} (h : isNumeral t = true) : Trimmed t :=
  Trimmed.of_forall fun c hc => isBlank_of_isNumeralChar (isNumeralChar_of_isNumeral h c hc)

theorem getLast?_of_isNumeral {t : Text} (h : isNumeral t = true) : t.getLast? ≠ some ')' :=
  fun hl => absurd (isNumeralChar_of_isNumeral h _ (List.mem_of_getLast? hl)) (by decide)

/-- No other form is written with the characters of a number. -/
theorem formShape?_of_isNumeral {t : Text} (h : isNumeral t = true) :
    formShape? t = some .number := by
  have hcall := callForm?_of_getLast (trimmed_of_isNumeral h) (getLast?_of_isNumeral h)
  simp [formShape?, hcall, h]

theorem trimmed_number {x : Double} (h : x.isFinite = true) : Trimmed x.text :=
  trimmed_of_isNumeral (isNumeral_text h)

theorem reads_number {x : Double} (h : x.isFinite = true) : Reads x.text env (.number x) env := by
  have hn := isNumeral_text h
  exact reads_of_form (trimmed_number h) (unwrap?_of_getLast (getLast?_of_isNumeral hn))
    (formShape?_of_isNumeral hn) (.number (ofPositional?_text h))

theorem reads_string (v : Text) : Reads ('"' :: (escape v ++ ['"'])) env (.string v) env := by
  have htrim : Trimmed ('"' :: (escape v ++ ['"'])) := trimmed_cons_append (by decide) (by decide)
  have hlast : ('"' :: (escape v ++ ['"'])).getLast? ≠ some ')' := by
    rw [← List.cons_append, List.getLast?_concat]
    decide
  have hcall := callForm?_of_getLast htrim hlast
  have hnum : isNumeral ('"' :: (escape v ++ ['"'])) = false := isNumeral_of_head rfl (by decide)
  have hquoted := quoted?_eq_some_iff.2 ⟨rfl, chunks_escape v⟩
  have hk : formShape? ('"' :: (escape v ++ ['"'])) = some (.string (escape v)) := by
    simp only [formShape?, hcall, hnum, hquoted]
    rfl
  have hf : Formed Reads ('"' :: (escape v ++ ['"'])) env (.string (escape v))
      (.string (unescape (escape v))) env := .string
  rw [unescape_escape] at hf
  exact reads_of_form htrim (unwrap?_cons (by decide)) hk hf

theorem reads_reference {name : Name} (hn : isName name = true) :
    Reads ('&' :: name) env (.reference name) env := by
  have ho := operand_reference hn
  have hid := isIdentifier_of_isName hn
  have hlast : ('&' :: name).getLast? ≠ some ')' := by
    obtain ⟨c, u, rfl, _⟩ := exists_of_isIdentifier hid
    rw [List.getLast?_cons_cons]
    intro hl
    exact absurd (isNameChar_of_mem_identifier hid _ (List.mem_of_getLast? hl)) (by decide)
  have hcall := callForm?_of_getLast ho.trimmed hlast
  have hnum : isNumeral ('&' :: name) = false := isNumeral_of_head rfl (by decide)
  have hquoted := quoted?_of_head (c := '&') (u := name) (by decide)
  have href : referenceShape? ('&' :: name) = some name := by simp [referenceShape?, after?, hid]
  have hk : formShape? ('&' :: name) = some (.reference name) := by
    simp [formShape?, hcall, hnum, hquoted, href]
  exact reads_of_form ho.trimmed (unwrap?_cons (by decide)) hk (.reference hn)

theorem reads_bareReturn : Reads "return".toList env (.ret none) env := by
  have hi : Introduces "return".toList := introduces_keyword (by decide)
  have hcall : callForm? "return".toList = none := callForm?_of_getLast hi.trimmed (by decide)
  have hmember := hi.memberForm?_eq_none (v := []) fun c hc => by cases hc
  have hk : formShape? "return".toList = some (.giveBack none) := by
    have hhead : "return".toList = 'r' :: "eturn".toList := rfl
    rw [List.append_nil] at hmember
    rw [hhead] at hcall hmember ⊢
    rw [formShape?_of_head (by decide) (by decide) (referenceShape?_of_head (by decide)) hcall
      (lambdaShape?_of_head (by decide) (by decide)), hmember]
    rfl
  exact reads_of_form hi.trimmed (unwrap?_of_getLast (by decide)) hk .giveBack

end

/-! ### Texts of nodes -/

/-- The text of a node can be put together with others: it reads back, no blank
    stands around it, and an operand needs no parentheses. -/
structure PrintsBack (n : Node) (env env' : TypeEnv) : Prop where
  reads : Reads n.text env n env'
  trimmed : Trimmed n.text
  operand : n.isOperand = true → Operand n.text

section

variable {n : Node} {env env' : TypeEnv}

theorem PrintsBack.ne_nil (h : PrintsBack n env env') : n.text ≠ [] := by
  intro he
  have hb := not_blank_of_reads h.reads
  rw [he] at hb
  exact hb blank_nil

theorem printsBack_operand (ho : Operand n.text) (hr : Reads n.text env n env') :
    PrintsBack n env env' := ⟨hr, ho.trimmed, fun _ => ho⟩

theorem PrintsBack.operandText (h : PrintsBack n env env') :
    Operand (operandText n n.text) ∧ Reads (operandText n n.text) env n env' := by
  unfold UnionTyping.operandText
  split
  · next ho => exact ⟨h.operand ho, h.reads⟩
  · have hb := (sealed_of_reads h.reads).toBalanced
    exact ⟨operand_group hb, (reads_group hb).2 h.reads⟩

/-- Children that print back one after the other. -/
theorem Chain.texts {R : Reading.Relation} {ts : List Text} {ns : List Node}
    (h : Chain R ts env ns env') (hR : ∀ u e m e', R u e m e' → m.Finite → PrintsBack m e e')
    (hf : Node.FiniteAll ns) :
    Chain Reads (Node.texts ns) env ns env' ∧ ∀ t ∈ Node.texts ns, Trimmed t := by
  induction h with
  | nil => exact ⟨.nil, fun t ht => by cases ht⟩
  | cons hn _ ih =>
    rw [Node.FiniteAll] at hf
    have hp := hR _ _ _ _ hn hf.1
    obtain ⟨hc, ht⟩ := ih hf.2
    refine ⟨.cons hp.reads hc, ?_⟩
    intro t hm
    rw [Node.texts] at hm
    rcases List.mem_cons.1 hm with rfl | hm
    · exact hp.trimmed
    · exact ht t hm

/-- Written generic arguments are cut out of a call and read as they were. -/
theorem genericArguments_text {gs : List SourceType} (hne : gs ≠ [])
    (h : ∀ g ∈ gs, SourceType.Canonical g) :
    Balanced ([','].intercalate (SourceType.texts gs))
      ∧ ClosesAfter .angle ([','].intercalate (SourceType.texts gs))
      ∧ (commaItems ([','].intercalate (SourceType.texts gs))).mapM parseType = .ok gs := by
  have hback : ∀ g ∈ gs, SourceType.ReadsBack g := fun g hg => readsBack_type g (h g hg)
  have henclosed : ∀ t ∈ SourceType.texts gs, Enclosed t := by
    rw [SourceType.texts_eq_map]
    intro t ht
    obtain ⟨g, hg, rfl⟩ := List.mem_map.1 ht
    exact (hback g hg).enclosed
  obtain ⟨hb, ht⟩ := typesWith_of_listed (listed_intercalate
    (forall₂_texts fun g hg => (hback g hg).reads))
  have hne' : SourceType.texts gs ≠ [] := by
    rw [SourceType.texts_eq_map]
    simpa using hne
  have he := Enclosed.intercalate (d := ',') hne' henclosed
  refine ⟨hb, fun _ => ?_, ht⟩
  rcases he.last with hl | hl <;> rw [hl] <;> decide

theorem text_call (f : Node) (as : List Node) (gs : List SourceType) :
    (Node.call f as gs).text = operandText f f.text
      ++ (if gs.isEmpty then [] else '<' :: ([','].intercalate (SourceType.texts gs) ++ ['>']))
      ++ '(' :: ([','].intercalate (Node.texts as) ++ [')']) := rfl

theorem printsBack_call {f : Node} {as : List Node} {gs : List SourceType} {env₁ : TypeEnv}
    (hf : PrintsBack f env env₁) (hgs : ∀ g ∈ gs, SourceType.Canonical g)
    (has : Chain Reads (Node.texts as) env₁ as env') : PrintsBack (.call f as gs) env env' := by
  obtain ⟨ho, hr⟩ := hf.operandText
  have hb := balanced_items has
  by_cases hne : gs = []
  · subst hne
    have htext : Node.text (.call f as []) = operandText f f.text
        ++ '(' :: ([','].intercalate (Node.texts as) ++ [')']) := by simp [text_call]
    apply printsBack_operand <;> rw [htext]
    · exact ho.call hb
    · exact reads_call ho hr has
  · obtain ⟨hg, hclose, hread⟩ := genericArguments_text hne hgs
    have htext : Node.text (.call f as gs) = operandText f f.text
        ++ ('<' :: ([','].intercalate (SourceType.texts gs) ++ ['>'])
          ++ '(' :: ([','].intercalate (Node.texts as) ++ [')'])) := by simp [text_call, hne]
    apply printsBack_operand <;> rw [htext]
    · exact ho.genericCall hg hclose hb
    · exact reads_genericCall ho hr hg hclose hread has

theorem printsBack_member {p : Node} {name : Name} (hp : PrintsBack p env env')
    (hn : isIdentifier name = true) : PrintsBack (.member p name) env env' := by
  obtain ⟨ho, hr⟩ := hp.operandText
  exact printsBack_operand (n := .member p name) (ho.member hn) (reads_member ho hr hn)

theorem printsBack_lambda {generics : List Name} {params : List Parameter} {variadic own : Bool}
    {declared : Option SourceType} {body : List Node} {inferred : SourceType} {env₁ : TypeEnv}
    (hg : ∀ g ∈ generics, isName g = true) (hp : CanonicalParameters params variadic)
    (hd : ∀ type, declared = some type → SourceType.Canonical type)
    (hc : Chain Reads (Node.texts body) (env.bindParameters params) body env₁)
    (hts : ∀ t ∈ Node.texts body, Trimmed t) (ht : (typeOfBody env₁ body).result = .ok inferred)
    (hs : ∀ type, declared = some type → (type == inferred) = true) :
    PrintsBack (.lambda ⟨generics, params, declared.getD inferred, declared.isSome, own, false,
        variadic⟩ body) env (if own then env else env₁) := by
  have htext : Node.text (.lambda ⟨generics, params, declared.getD inferred, declared.isSome, own,
        false, variadic⟩ body)
      = lambdaText generics params variadic declared own (bodyText (Node.texts body)) := by
    change LambdaHead.text _ ++ '\x7b' :: (bodyText (Node.texts body) ++ ['\x7d']) = _
    cases declared <;> simp [LambdaHead.text, lambdaText, genericsText, parametersText, resultText,
        writtenText, lambdaArrow]
  refine ⟨?_, ?_, fun ho => by cases ho⟩ <;> rw [htext]
  · exact reads_lambda hg hp hd hc hts ht hs
  · exact bracketed_lambdaText.trimmed

theorem printsBack_declaration {constant : Bool} {name : Name} {declared : Option SourceType}
    {inferred : SourceType} (hn : isName name = true)
    (hd : ∀ type, declared = some type → SourceType.Canonical type)
    (hv : PrintsBack n (declared.elim env fun type => env.insert name type) env')
    (ht : (typeOf env' n).result = .ok inferred)
    (hs : ∀ type, declared = some type → (type == inferred) = true) :
    PrintsBack (.declaration constant name declared (declared.getD inferred) n) env
      (env'.insert name (declared.getD inferred)) := by
  have htext : Node.text (.declaration constant name declared (declared.getD inferred) n)
      = declarationWord constant
        ++ ' ' :: (name ++ (writtenText declared ++ ' ' :: '=' :: ' ' :: n.text)) := by
    change (if constant then "const ".toList else "var ".toList) ++ name
      ++ writtenText declared ++ " = ".toList ++ n.text = _
    cases constant <;> simp [declarationWord]
  have hword : declarationWord constant ∈ reservedWords := by cases constant <;> decide
  have hi := introduces_keyword hword
  refine ⟨?_, ?_, fun ho => by cases ho⟩ <;> rw [htext]
  · exact reads_declaration hn hd hv.reads ht hs
  · have htrim := hi.trimmed.around
      (u := ' ' :: (name ++ (writtenText declared ++ [' ', '=', ' ']))) hv.trimmed hi.ne_nil hv.ne_nil
    simpa using htrim

theorem printsBack_assignment {target : Target} {env₁ : TypeEnv} {type : SourceType}
    (hg : Assignable target.text) (htarget : Targeted Reads target.text env target env₁)
    (hv : PrintsBack n env₁ env')
    (ht : (typeOf env' (.assignment target n)).result = .ok type) :
    PrintsBack (.assignment target n) env env' := by
  have htext : Node.text (.assignment target n) = target.text ++ ' ' :: '=' :: ' ' :: n.text := by
    change target.text ++ " = ".toList ++ n.text = _
    simp
  refine ⟨?_, ?_, fun ho => by cases ho⟩ <;> rw [htext]
  · exact reads_assignment hg htarget hv.reads ht
  · exact hg.trimmed.around (u := [' ', '=', ' ']) hv.trimmed hg.ne_nil hv.ne_nil

theorem printsBack_return (hv : PrintsBack n env env') : PrintsBack (.ret (some n)) env env' := by
  have hi : Introduces "return".toList := introduces_keyword (by decide)
  have htext : Node.text (.ret (some n)) = "return".toList ++ ' ' :: n.text := rfl
  refine ⟨?_, ?_, fun ho => by cases ho⟩ <;> rw [htext]
  · exact reads_return hv.reads
  · exact hi.trimmed.around (u := [' ']) hv.trimmed hi.ne_nil hv.ne_nil

/-- What was assigned to can be assigned to by its text. -/
theorem target_text {t : Text} {target : Target}
    {R : Reading.Relation} (h : Targeted R t env target env')
    (hR : ∀ u e m e', R u e m e' → m.Finite → PrintsBack m e e') (hf : target.Finite) :
    Assignable target.text ∧ Targeted Reads target.text env target env' := by
  cases h with
  | dereference hd =>
    obtain ⟨_, _, _, hn⟩ := eq_of_dereferenceShape? hd
    exact ⟨assignable_dereference hn, targeted_dereference hn⟩
  | var _ hn => exact ⟨assignable_of_isName hn, targeted_var hn⟩
  | member _ _ hm hp =>
    rw [Target.Finite] at hf
    obtain ⟨_, _, _, _, _, hn⟩ := eq_of_memberShape? (Option.filter_eq_some_iff.1 hm).1
    obtain ⟨ho, hr⟩ := (hR _ _ _ _ hp hf).operandText
    exact ⟨assignable_member ho hn, targeted_member ho hr hn⟩

theorem printsBack_of_reads {t : Text} (h : Reads t env n env') (hf : n.Finite) :
    PrintsBack n env env' := by
  refine reads_induction (P := fun _ env n env' => n.Finite → PrintsBack n env env') ?_ h hf
  intro t env k n env' hk hform hf
  have hfits := fits_of_formShape? hk
  have hchain {ts : List Text} {ns : List Node} {e e' : TypeEnv}
      (h : Chain (fun u e m e' => Reads u e m e' ∧ (m.Finite → PrintsBack m e e')) ts e ns e')
      (hf : Node.FiniteAll ns) :
      Chain Reads (Node.texts ns) e ns e' ∧ ∀ t ∈ Node.texts ns, Trimmed t :=
    h.texts (fun _ _ _ _ hr => hr.2) hf
  cases hform with
  | call hr hgs has =>
    rw [Node.Finite] at hf
    refine printsBack_call (hr.2 hf.1) ?_ (hchain has hf.2).1
    intro g hg
    obtain ⟨u, _, hu⟩ := exists_of_forall₂_right (mapM_eq_ok_iff.1 hgs) g hg
    exact canonical_of_parseType hu
  | number _ =>
    rw [Node.Finite] at hf
    exact ⟨reads_number hf, trimmed_number hf, nofun⟩
  | string => exact ⟨reads_string _, trimmed_cons_append (by decide) (by decide), nofun⟩
  | reference hn => exact printsBack_operand (operand_reference hn) (reads_reference hn)
  | list hes =>
    rw [Node.Finite] at hf
    exact ⟨reads_list (hchain hes hf).1, trimmed_cons_append (by decide) (by decide), nofun⟩
  | lambda hg hp hd hi hc ht hs =>
    rw [Node.Finite] at hf
    obtain ⟨hbody, htrim⟩ := hchain hc hf
    exact printsBack_lambda (isName_of_mem_genericNames hg) (canonical_of_parseParameters hp)
      (canonical_of_declared hd) hbody htrim ht hs
  | @short _ body _ _ hb ht =>
    rw [Node.Finite, Node.FiniteAll] at hf
    have hp := hb.2 hf.1
    have hnames : ∀ g ∈ ([] : List Name), isName g = true := nofun
    have hparams : CanonicalParameters [] false := ⟨nofun, nofun, nofun⟩
    have hdeclared : ∀ type, (none : Option SourceType) = some type → SourceType.Canonical type :=
      nofun
    have hbody : Chain Reads (Node.texts [body]) (env.bindParameters []) [body] env' :=
      .cons hp.reads .nil
    have htrim : ∀ t ∈ Node.texts [body], Trimmed t := by
      intro t ht
      rw [List.mem_singleton.1 ht]
      exact hp.trimmed
    exact printsBack_lambda hnames hparams hdeclared hbody htrim ht nofun
  | member hp =>
    rw [Node.Finite] at hf
    obtain ⟨_, _, _, _, _, hn⟩ := eq_of_memberShape? (Option.filter_eq_some_iff.1 hfits).1
    exact printsBack_member (hp.2 hf) hn
  | giveBack =>
    exact ⟨reads_bareReturn, (introduces_keyword (by decide)).trimmed, nofun⟩
  | giveValue hv =>
    rw [Node.Finite] at hf
    exact printsBack_return (hv.2 hf)
  | declaration hname hc hd hv ht hs =>
    rw [Node.Finite] at hf
    exact printsBack_declaration hname (canonical_of_writtenType hd) (hv.2 hf) ht hs
  | assignment htarget hv ht =>
    rw [Node.Finite] at hf
    obtain ⟨hg, htarget⟩ := target_text htarget (fun _ _ _ _ hr => hr.2) hf.1
    exact printsBack_assignment hg htarget (hv.2 hf.2) ht
  | var => exact printsBack_operand (operand_of_isName hfits) (reads_var hfits)

end

/-! ### Rejected texts -/

section

variable {t : Text} {env : TypeEnv} {n : Node}

theorem expression_trim (t : Text) : expression (trim t) = expression t := by
  rw [expression_eq, expression_eq]
  simp only [expressionWith, stripParens_trim]

theorem read_trim (t : Text) (env : TypeEnv) : read (trim t) env = read t env := by
  have hs (r : Except ParseError Node) : settle (trim t) r = settle t r := by
    rcases r with (_ | _ | _) | _ <;> simp only [settle, trim_trim]
  simp only [read, expression_trim, hs]

theorem text_of_isInvalid (h : (read t env).result = .ok n) (hv : n.isInvalid = true) :
    n.text = trim t := by
  rcases reads_or_sentinel_of_read h with hr | ⟨_, _, rfl, _⟩
  · rw [isInvalid_of_reads hr] at hv
    cases hv
  · rfl

/-! ### The round trip -/

/-- The canonical source of an answer is answered with an equal node, and that of
    a valid one leaves the environment that the first reading left. -/
theorem read_text (t : Text) (env : TypeEnv) (n : Node) (h : (read t env).result = .ok n)
    (hf : n.Finite) :
    (read n.text env).result = .ok n ∧ n.same n = true
      ∧ (n.isInvalid = false → (read n.text env).env = (read t env).env) := by
  cases hv : n.isInvalid with
  | true =>
    rw [text_of_isInvalid h hv, read_trim]
    exact ⟨h, Node.same_refl n hf, fun _ => rfl⟩
  | false =>
    have hp := printsBack_of_reads (reads_of_read h hv) hf
    obtain ⟨hr, he⟩ := read_of_reads hp.reads
    exact ⟨hr, Node.same_refl n hf, fun _ => he⟩

/-- The lambda keeps its parentheses as a callee, the string and the argument lose
    theirs, and the number its last zero. -/
theorem read_text_list :
    ∃ n, (read "\x7bprint = (\"),\"), ((p) ~> \x7bvar y = 2.50; p;\x7d) (p) . m\x7d".toList
        .initial).result = .ok n ∧ n.Finite ∧ n.isInvalid = false
      ∧ n.text = "\x7bprint = \"),\",((p:any[])~>\x7bvar y = 2.5;p;\x7d)(p).m\x7d".toList
      ∧ (read n.text .initial).result = .ok n ∧ n.same n = true
      ∧ (read n.text .initial).env
        = (read "\x7bprint = (\"),\"), ((p) ~> \x7bvar y = 2.50; p;\x7d) (p) . m\x7d".toList
          .initial).env := by
  have h : (read "\x7bprint = (\"),\"), ((p) ~> \x7bvar y = 2.50; p;\x7d) (p) . m\x7d".toList
      .initial).node?.map (fun n => (n.text, decide n.Finite))
      = some ("\x7bprint = \"),\",((p:any[])~>\x7bvar y = 2.5;p;\x7d)(p).m\x7d".toList, true) := by
    decide +kernel
  obtain ⟨n, hn, ht⟩ := Option.map_eq_some_iff.1 h
  obtain ⟨htext, hd⟩ := Prod.mk.inj ht
  obtain ⟨hr, hv⟩ := Reading.node?_eq_some_iff.1 hn
  have hf := of_decide_eq_true hd
  obtain ⟨hresult, hsame, henv⟩ := read_text _ .initial n hr hf
  exact ⟨n, hr, hf, hv, htext, hresult, hsame, henv hv⟩

end

end UnionTyping
