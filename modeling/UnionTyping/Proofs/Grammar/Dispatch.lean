/-
  UnionTyping/Proofs/Grammar/Dispatch.lean
  ========================================
  **Which form reads a text** — a form declines a text by its shape alone, before
  it touches the state, and what it does not decline it decides.  So the form that
  reads a text is a function of the text (`formShape?`), and the choice between the
  ten forms is that one form (`choice_forms`).  Whether the reading succeeds
  depends on the environment, which form it is does not.
-/
import UnionTyping.Grammar.Equations
import UnionTyping.Proofs.Grammar.Parameters
import UnionTyping.Proofs.Grammar.Run

namespace UnionTyping

open Text ParseM

/-! ### Shapes -/

/-- The form of a text and the pieces it is read from. -/
inductive FormShape where
  | call (shape : CallShape)
  | number
  | string (raw : Text)
  | reference (name : Name)
  | list (inner : Text)
  | lambda (shape : LambdaShape)
  | short (inner : Text)
  | member (parent : Text) (name : Name)
  | giveBack (value : Option Text)
  | declaration (constant : Bool) (rest : Text)
  | assignment (before after : Text)
  | var

def callForm? (t : Text) : Option CallShape :=
  (callShape? t).filter fun shape => isOperandText shape.caller

def memberForm? (t : Text) : Option (Text × Name) :=
  (memberShape? t).filter fun p => isOperandText p.1

/-- The first form that does not decline a text. -/
def formShape? (t : Text) : Option FormShape :=
  ((callForm? t).map .call).or <|
  (if isNumeral t then some .number else none).or <|
  ((quoted? t).map .string).or <|
  ((referenceShape? t).map .reference).or <|
  ((unwrap? .curly t).map .list).or <|
  ((lambdaShape? t).map .lambda).or <|
  ((unwrap? .square t).map .short).or <|
  ((memberForm? t).map fun p => .member p.1 p.2).or <|
  ((returnShape? t).map .giveBack).or <|
  ((declarationShape? t).map fun p => .declaration p.1 p.2).or <|
  ((cutAssignment t).map fun p => .assignment p.1 p.2).or <|
  if isName t then some .var else none

/-- What the form says about the text. -/
def FormShape.Fits (t : Text) : FormShape → Prop
  | .call shape => callForm? t = some shape
  | .number => isNumeral t = true
  | .string raw => quoted? t = some raw
  | .reference name => referenceShape? t = some name
  | .list inner => unwrap? .curly t = some inner
  | .lambda shape => lambdaShape? t = some shape
  | .short inner => unwrap? .square t = some inner
  | .member parent name => memberForm? t = some (parent, name)
  | .giveBack value => returnShape? t = some value
  | .declaration constant rest => declarationShape? t = some (constant, rest)
  | .assignment before after => cutAssignment t = some (before, after)
  | .var => isName t = true

theorem fits_of_formShape? {t : Text} {k : FormShape} (h : formShape? t = some k) : k.Fits t := by
  simp only [formShape?, Option.or_eq_some_iff, Option.map_eq_some_iff] at h
  rcases h with ⟨s, hs, rfl⟩ | ⟨_, h⟩
  · exact hs
  rcases h with h | ⟨_, h⟩
  · split at h
    · next hn =>
      obtain rfl := Option.some.inj h
      exact hn
    · cases h
  rcases h with ⟨s, hs, rfl⟩ | ⟨_, ⟨s, hs, rfl⟩ | ⟨_, ⟨s, hs, rfl⟩ | ⟨_, ⟨s, hs, rfl⟩ | ⟨_, h⟩⟩⟩⟩
  · exact hs
  · exact hs
  · exact hs
  · exact hs
  rcases h with ⟨s, hs, rfl⟩ | ⟨_, ⟨s, hs, rfl⟩ | ⟨_, ⟨s, hs, rfl⟩ | ⟨_, ⟨s, hs, rfl⟩ | ⟨_, h⟩⟩⟩⟩
  · exact hs
  · exact hs
  · exact hs
  · exact hs
  rcases h with ⟨s, hs, rfl⟩ | ⟨_, h⟩
  · exact hs
  · split at h
    · next hn =>
      obtain rfl := Option.some.inj h
      exact hn
    · cases h

/-- The parser of a form. -/
def FormShape.parser (sub : Parser Node) : FormShape → Parser Node
  | .call _ => (Form.call sub).label "call".toList
  | .number | .string _ | .reference _ => Form.literal
  | .list _ => (Form.list sub).label "list".toList
  | .lambda _ => (Form.lambda sub).label "lambda".toList
  | .short _ => (Form.short sub).label "simple lambda".toList
  | .member _ _ => (Form.member sub).label "member access".toList
  | .giveBack _ => (Form.giveBack sub).label "return".toList
  | .declaration _ _ => (Form.declaration sub).label "declaration".toList
  | .assignment _ _ => (Form.assignment sub).label "assignment".toList
  | .var => Form.var

/-- The texts of the statements of a body, unless the last one is not terminated. -/
def bodyItems? (t : Text) : Option (List Text) :=
  if (trim t).isEmpty then some []
  else
    let segments := splitTop ';' (trim t)
    if segments.dropLast.isEmpty then some [segments.getLast?.getD []]
    else if allBlank (segments.getLast?.getD []) then some segments.dropLast
    else none

/-- The statements of a body are what stands between its semicolons, and nothing
    stands behind the last one. -/
theorem splitTop_of_bodyItems? {t : Text} {items : List Text} (h : bodyItems? t = some items) :
    splitTop ';' (trim t) = items
      ∨ ∃ blank, Blank blank ∧ splitTop ';' (trim t) = items ++ [blank] := by
  obtain ⟨ps, p, hp⟩ : ∃ ps p, splitTop ';' (trim t) = ps ++ [p] :=
    exists_splitOutside_eq_concat _ _ _ _
  unfold bodyItems? at h
  simp only [hp, List.dropLast_concat, List.getLast?_concat, Option.getD_some] at h ⊢
  split at h
  · next he =>
    obtain rfl := Option.some.inj h
    rw [List.isEmpty_iff.1 he] at hp
    exact Or.inr ⟨[], blank_nil, hp.symm⟩
  · split at h
    · next hone =>
      obtain rfl := Option.some.inj h
      exact Or.inl (by rw [List.isEmpty_iff.1 hone, List.nil_append])
    · split at h
      · next hb =>
        obtain rfl := Option.some.inj h
        exact Or.inr ⟨p, allBlank_iff.1 hb, rfl⟩
      · cases h

theorem mem_splitTop_of_mem_bodyItems? {t : Text} {items : List Text}
    (h : bodyItems? t = some items) : ∀ u ∈ items, u ∈ splitTop ';' (trim t) := by
  intro u hu
  rcases splitTop_of_bodyItems? h with hp | ⟨blank, _, hp⟩
  · rwa [hp]
  · rw [hp]
    exact List.mem_append_left _ hu

/-! ### The forms by their shapes -/

section

variable {sub : Parser Node} {t : Text}

theorem call_of_none (h : callForm? t = none) : Form.call sub t = fail .noMatch := by
  unfold Form.call
  cases hs : callShape? t with
  | none => rfl
  | some shape =>
    have ho : isOperandText shape.caller = false := by simpa [callForm?, hs] using h
    simp [ho]

theorem call_of_some {shape : CallShape} (h : callForm? t = some shape) :
    Form.call sub t = do
      let callee ← sub shape.caller
      let generics ← ofExcept ((commaItems shape.generics).mapM parseType)
      let arguments ← Form.expressions sub shape.arguments
      return .call callee arguments generics := by
  obtain ⟨hs, ho⟩ := Option.filter_eq_some_iff.1 h
  simp [Form.call, hs, ho]

theorem memberParts_of_none (h : memberForm? t = none) :
    Form.memberParts sub t = fail .noMatch := by
  unfold Form.memberParts
  cases hs : memberShape? t with
  | none => rfl
  | some p =>
    have ho : isOperandText p.1 = false := by simpa [memberForm?, hs] using h
    simp [ho]

theorem memberParts_of_some {parent : Text} {name : Name}
    (h : memberForm? t = some (parent, name)) :
    Form.memberParts sub t = do return (← sub parent, name) := by
  obtain ⟨hs, ho⟩ := Option.filter_eq_some_iff.1 h
  simp only at ho
  simp [Form.memberParts, hs, ho]

theorem member_of_none (h : memberForm? t = none) : Form.member sub t = fail .noMatch := by
  rw [Form.member, memberParts_of_none h]
  rfl

theorem member_of_some {parent : Text} {name : Name} (h : memberForm? t = some (parent, name)) :
    Form.member sub t = do return .member (← sub parent) name := by
  rw [Form.member, memberParts_of_some h]
  simp

theorem number_of_not_isNumeral (h : isNumeral t = false) : Form.number t = fail .noMatch := by
  simp [Form.number, h]

theorem string_of_none (h : quoted? t = none) : Form.string t = fail .noMatch := by
  simp [Form.string, h]

theorem string_of_some {raw : Text} (h : quoted? t = some raw) :
    Form.string t = pure (.string (unescape raw)) := by
  simp [Form.string, h]

theorem reference_of_none (h : referenceShape? t = none) : Form.reference t = fail .noMatch := by
  simp [Form.reference, h]

/-- A text that is neither a numeral nor quoted is a reference, or no literal at all. -/
theorem literal_of_not_constant (hnum : isNumeral t = false) (hstr : quoted? t = none) :
    Form.literal t = Form.reference t := by
  rw [Form.literal, or_of_fail]
  rw [or_of_fail (number_of_not_isNumeral hnum), string_of_none hstr]

theorem var_of_isName (h : isName t = true) : Form.var t = pure (.var t) := if_pos h

theorem var_of_not_isName (h : isName t = false) : Form.var t = fail .noMatch := by
  simp [Form.var, h]

theorem statements_of_some {items : List Text} (h : bodyItems? t = some items) :
    Form.statements sub t = items.mapM sub := by
  unfold bodyItems? at h
  unfold Form.statements
  simp only at h ⊢
  split at h
  · next he =>
    obtain rfl := Option.some.inj h
    rw [if_pos he]
    rfl
  · next he =>
    rw [if_neg he]
    split at h
    · next hl =>
      obtain rfl := Option.some.inj h
      rw [if_pos hl]
      simp
    · next hl =>
      rw [if_neg hl]
      split at h
      · next hb =>
        obtain rfl := Option.some.inj h
        simp [hb]
      · cases h

theorem statements_of_none (sub : Parser Node) (h : bodyItems? t = none) :
    ∃ last, Form.statements sub t = reject last .unterminatedStatement := by
  unfold bodyItems? at h
  unfold Form.statements
  simp only at h ⊢
  split at h
  · cases h
  · next he =>
    rw [if_neg he]
    split at h
    · cases h
    · next hl =>
      rw [if_neg hl]
      split at h
      · cases h
      · next hb => exact ⟨_, if_pos (by simpa using hb)⟩

end

/-! ### Types that were written -/

theorem canonical_of_declared {result : Option Text} {declared : Option SourceType}
    (h : result.mapM parseType = .ok declared) :
    ∀ type, declared = some type → SourceType.Canonical type := by
  rintro type rfl
  cases result with
  | none => cases h
  | some u =>
    rw [Option.mapM_some] at h
    cases hp : parseType u with
    | error e =>
      rw [hp] at h
      cases h
    | ok t =>
      rw [hp] at h
      obtain rfl := Option.some.inj (Except.ok.inj h)
      exact canonical_of_parseType hp

theorem canonical_of_writtenType {before : Text} {declared : Option SourceType}
    (h : Form.writtenType before = .ok declared) :
    ∀ type, declared = some type → SourceType.Canonical type := by
  unfold Form.writtenType at h
  simp only at h
  split at h
  · obtain rfl := Except.ok.inj h
    exact nofun
  · split at h
    · cases h
    · next u _ =>
      have hu : (some u).mapM parseType = .ok declared := by
        rw [Option.mapM_some]
        exact h
      exact canonical_of_declared hu

/-! ### What is not declined is decided -/

theorem rejects_types (ts : List Text) : Rejects (ts.mapM parseType) :=
  rejects_mapM fun u _ => rejects_parseType u

theorem rejects_declaredType (t : Option Text) : Rejects (t.mapM parseType) := by
  cases t with
  | none => exact rejects_ok none
  | some u => exact rejects_bind (rejects_parseType u) fun type => rejects_ok (some type)

theorem rejects_writtenType (t : Text) : Rejects (Form.writtenType t) := by
  unfold Form.writtenType
  simp only
  split
  · exact rejects_ok none
  split
  · exact rejects_reject _ _
  · exact rejects_bind (rejects_parseType _) fun type => rejects_ok (some type)

section

variable {sub : Parser Node} (hsub : ∀ u, Decides (sub u)) {t : Text}
include hsub

theorem decides_statements : Decides (Form.statements sub t) := by
  cases h : bodyItems? t with
  | some items =>
    rw [statements_of_some h]
    exact decides_mapM hsub
  | none =>
    obtain ⟨last, he⟩ := statements_of_none sub h
    rw [he]
    exact decides_reject _ _

theorem decides_call {shape : CallShape} (h : callForm? t = some shape) :
    Decides (Form.call sub t) := by
  rw [call_of_some h]
  refine decides_bind (hsub _) fun callee => ?_
  refine decides_bind (decides_ofExcept (rejects_types _).ne_noMatch) fun generics => ?_
  exact decides_bind (decides_mapM hsub) fun arguments => decides_pure _

theorem decides_list {inner : Text} (h : unwrap? .curly t = some inner) :
    Decides (Form.list sub t) := by
  simp only [Form.list, h]
  exact decides_bind (decides_mapM hsub) fun es => decides_pure _

theorem decides_lambdaBody (params : List Parameter) (body : Text) :
    Decides (Form.lambdaBody sub params body) := by
  refine decides_bind (decides_modifyEnv _) fun _ => ?_
  refine decides_bind (decides_statements hsub) fun body => ?_
  exact decides_bind (decides_typing _) fun type => decides_pure _

theorem decides_lambda {shape : LambdaShape} (h : lambdaShape? t = some shape) :
    Decides (Form.lambda sub t) := by
  simp only [Form.lambda, h]
  refine decides_bind (decides_ofExcept (rejects_genericNames _).ne_noMatch) fun generics => ?_
  refine decides_bind (decides_ofExcept (rejects_parseParameters _).ne_noMatch) fun params => ?_
  refine decides_bind (decides_ofExcept (rejects_declaredType _).ne_noMatch) fun declared => ?_
  refine decides_atomically (decides_bind ?_ fun body => ?_)
  · unfold Form.scopedBody
    split
    · exact decides_isolated (decides_lambdaBody hsub _ _)
    · exact decides_bind (decides_report _) fun _ => decides_lambdaBody hsub _ _
  · split
    · exact decides_pure _
    · split
      · exact decides_pure _
      · exact decides_reject _ _

theorem decides_short {inner : Text} (h : unwrap? .square t = some inner) :
    Decides (Form.short sub t) := by
  simp only [Form.short, h]
  refine decides_bind (hsub _) fun body => ?_
  exact decides_bind (decides_typing _) fun type => decides_pure _

theorem decides_member {parent : Text} {name : Name} (h : memberForm? t = some (parent, name)) :
    Decides (Form.member sub t) := by
  rw [member_of_some h]
  exact decides_bind (hsub _) fun n => decides_pure _

theorem decides_giveBack {value : Option Text} (h : returnShape? t = some value) :
    Decides (Form.giveBack sub t) := by
  cases value with
  | none =>
    simp only [Form.giveBack, h]
    exact decides_pure _
  | some v =>
    simp only [Form.giveBack, h]
    exact decides_bind (hsub _) fun n => decides_pure _

theorem decides_declare (constant : Bool) (name : Name) (declared : Option SourceType)
    (value : Text) : Decides (Form.declare sub t constant name declared value) := by
  have hend (v : Node) (type : SourceType) : Decides (do
      report (.bound name type)
      modifyEnv (·.insert name type)
      return Node.declaration constant name declared type v) :=
    decides_bind (decides_report _) fun _ => decides_bind (decides_modifyEnv _) fun _ => decides_pure _
  cases declared with
  | none =>
    refine decides_bind (hsub _) fun v => decides_bind (decides_typing _) fun inferred => ?_
    exact decides_bind (decides_pure _) fun type => hend v type
  | some type =>
    refine decides_bind (decides_modifyEnv _) fun _ => decides_bind (hsub _) fun v => ?_
    refine decides_bind (decides_typing _) fun inferred => ?_
    simp only
    split
    · exact decides_bind (decides_pure _) fun type => hend v type
    · exact decides_bind (decides_reject _ _) fun type => hend v type

theorem decides_declaration {constant : Bool} {rest : Text}
    (h : declarationShape? t = some (constant, rest)) : Decides (Form.declaration sub t) := by
  simp only [Form.declaration, h]
  split
  · exact decides_reject _ _
  · split
    · exact decides_reject _ _
    · refine decides_bind (decides_ofExcept (rejects_writtenType _).ne_noMatch) fun declared => ?_
      exact decides_atomically (decides_declare hsub _ _ _ _)

omit hsub in
theorem decides_target : Decides (Form.target sub t) := by
  unfold Form.target
  simp only
  split
  · exact decides_pure _
  · split
    · exact decides_pure _
    · exact decides_orReject _ _

theorem decides_assignment {before after : Text} (h : cutAssignment t = some (before, after)) :
    Decides (Form.assignment sub t) := by
  simp only [Form.assignment, h]
  refine decides_bind decides_target fun target => decides_bind (hsub _) fun value => ?_
  exact decides_bind (decides_typing _) fun _ => decides_pure _

omit hsub in
theorem decides_number (h : isNumeral t = true) : Decides (Form.number t) := by
  unfold Form.number
  rw [h]
  split
  · next hfalse => cases hfalse
  · split
    · exact decides_pure _
    · exact decides_reject _ _

omit hsub in
theorem decides_string {raw : Text} (h : quoted? t = some raw) : Decides (Form.string t) := by
  rw [string_of_some h]
  exact decides_pure _

omit hsub in
theorem decides_reference {name : Name} (h : referenceShape? t = some name) :
    Decides (Form.reference t) := by
  simp only [Form.reference, h]
  split
  · exact decides_pure _
  · exact decides_reject _ _

omit hsub in
theorem decides_var (h : isName t = true) : Decides (Form.var t) := by
  rw [var_of_isName h]
  exact decides_pure _

/-- The form that a text has decides it. -/
theorem decides_form {k : FormShape} (h : k.Fits t) : Decides (k.parser sub t) := by
  cases k with
  | call => exact decides_inForm (decides_call hsub h)
  | number => exact decides_or_left (decides_or_left (decides_number h))
  | string => exact decides_or_left (decides_or_right (decides_string h))
  | reference => exact decides_or_right (decides_reference h)
  | list => exact decides_inForm (decides_list hsub h)
  | lambda => exact decides_inForm (decides_lambda hsub h)
  | short => exact decides_inForm (decides_short hsub h)
  | member => exact decides_inForm (decides_member hsub h)
  | giveBack => exact decides_inForm (decides_giveBack hsub h)
  | declaration => exact decides_inForm (decides_declaration hsub h)
  | assignment => exact decides_inForm (decides_assignment hsub h)
  | var => exact decides_var h

/-- The choice between the forms is the form that the shape of the text tells. -/
theorem choice_forms (t : Text) :
    Parser.choice (forms sub) t = match formShape? t with
      | some k => k.parser sub t
      | none => fail .noMatch := by
  have label_of_fail {name : Text} {p : Parser Node} (h : p t = fail .noMatch) :
      p.label name t = fail .noMatch := by
    rw [Parser.label, h]
    rfl
  have take {k : FormShape} {q : Parser Node} (h : k.Fits t) :
      (k.parser sub).or q t = k.parser sub t := or_of_decides (decides_form hsub h)
  simp only [forms, Parser.choice, formShape?]
  cases hcall : callForm? t with
  | some shape => exact take (k := .call shape) hcall
  | none =>
  rw [or_of_fail (label_of_fail (call_of_none hcall))]
  cases hnum : isNumeral t with
  | true => exact take (k := .number) hnum
  | false =>
  cases hstr : quoted? t with
  | some raw => exact take (k := .string raw) hstr
  | none =>
  cases href : referenceShape? t with
  | some name => exact take (k := .reference name) href
  | none =>
  rw [or_of_fail ((literal_of_not_constant hnum hstr).trans (reference_of_none href))]
  cases hlist : unwrap? .curly t with
  | some inner => exact take (k := .list inner) hlist
  | none =>
  rw [or_of_fail (label_of_fail (by simp [Form.list, hlist]))]
  cases hlambda : lambdaShape? t with
  | some shape => exact take (k := .lambda shape) hlambda
  | none =>
  rw [or_of_fail (label_of_fail (by simp [Form.lambda, hlambda]))]
  cases hshort : unwrap? .square t with
  | some inner => exact take (k := .short inner) hshort
  | none =>
  rw [or_of_fail (label_of_fail (by simp [Form.short, hshort]))]
  cases hmember : memberForm? t with
  | some p => exact take (k := .member p.1 p.2) hmember
  | none =>
  rw [or_of_fail (label_of_fail (member_of_none hmember))]
  cases hret : returnShape? t with
  | some value => exact take (k := .giveBack value) hret
  | none =>
  rw [or_of_fail (label_of_fail (by simp [Form.giveBack, hret]))]
  cases hdecl : declarationShape? t with
  | some p => exact take (k := .declaration p.1 p.2) hdecl
  | none =>
  rw [or_of_fail (label_of_fail (by simp [Form.declaration, hdecl]))]
  cases hassign : cutAssignment t with
  | some p => exact take (k := .assignment p.1 p.2) hassign
  | none =>
  rw [or_of_fail (label_of_fail (by simp [Form.assignment, hassign]))]
  cases hname : isName t with
  | true => exact take (k := .var) hname
  | false =>
    rw [or_of_fail (var_of_not_isName hname)]
    rfl

end

/-! ### Every form is steady -/

section

variable {sub : Parser Node} (hsub : ∀ u, Steady (sub u)) {t : Text}
include hsub

theorem steady_statements : Steady (Form.statements sub t) := by
  cases h : bodyItems? t with
  | some items =>
    rw [statements_of_some h]
    exact steady_mapM hsub
  | none =>
    obtain ⟨last, he⟩ := statements_of_none sub h
    rw [he]
    exact steady_reject _ _

theorem steady_call : Steady (Form.call sub t) := by
  cases h : callForm? t with
  | none =>
    rw [call_of_none h]
    exact steady_fail _
  | some shape =>
    rw [call_of_some h]
    refine steady_bind (hsub _) fun callee => steady_bind (steady_ofExcept _) fun generics => ?_
    exact steady_bind (steady_mapM hsub) fun arguments => steady_pure _

theorem steady_list : Steady (Form.list sub t) := by
  unfold Form.list
  split
  · exact steady_fail _
  · exact steady_bind (steady_mapM hsub) fun es => steady_pure _

theorem steady_lambdaBody (params : List Parameter) (body : Text) :
    Steady (Form.lambdaBody sub params body) := by
  refine steady_bind (steady_modifyEnv _) fun _ => steady_bind (steady_statements hsub) fun body => ?_
  exact steady_bind (steady_typing _) fun type => steady_pure _

theorem steady_scopedBody (ownScope : Bool) (params : List Parameter) (body : Text) :
    Steady (Form.scopedBody sub ownScope params body) := by
  unfold Form.scopedBody
  split
  · exact steady_isolated (steady_lambdaBody hsub _ _)
  · exact steady_bind (steady_report _) fun _ => steady_lambdaBody hsub _ _

theorem steady_lambda : Steady (Form.lambda sub t) := by
  unfold Form.lambda
  split
  · exact steady_fail _
  · refine steady_bind (steady_ofExcept _) fun generics => ?_
    refine steady_bind (steady_ofExcept _) fun params => ?_
    refine steady_bind (steady_ofExcept _) fun declared => ?_
    refine steady_atomically (steady_bind (steady_scopedBody hsub _ _ _) fun body => ?_)
    simp only
    split
    · exact steady_pure _
    · split
      · exact steady_pure _
      · exact steady_reject _ _

theorem steady_short : Steady (Form.short sub t) := by
  unfold Form.short
  split
  · exact steady_fail _
  · refine steady_bind (hsub _) fun body => ?_
    exact steady_bind (steady_typing _) fun type => steady_pure _

theorem steady_memberParts : Steady (Form.memberParts sub t) := by
  cases h : memberForm? t with
  | none =>
    rw [memberParts_of_none h]
    exact steady_fail _
  | some p =>
    rw [memberParts_of_some h]
    exact steady_bind (hsub _) fun n => steady_pure _

theorem steady_member : Steady (Form.member sub t) :=
  steady_bind (steady_memberParts hsub) fun _ => steady_pure _

theorem steady_giveBack : Steady (Form.giveBack sub t) := by
  unfold Form.giveBack
  split
  · exact steady_fail _
  · exact steady_pure _
  · exact steady_bind (hsub _) fun n => steady_pure _

theorem steady_declare (constant : Bool) (name : Name) (declared : Option SourceType)
    (value : Text) : Steady (Form.declare sub t constant name declared value) := by
  have hend (v : Node) (type : SourceType) : Steady (do
      report (.bound name type)
      modifyEnv (·.insert name type)
      return Node.declaration constant name declared type v) :=
    steady_bind (steady_report _) fun _ => steady_bind (steady_modifyEnv _) fun _ => steady_pure _
  cases declared with
  | none =>
    refine steady_bind (hsub _) fun v => steady_bind (steady_typing _) fun inferred => ?_
    exact steady_bind (steady_pure _) fun type => hend v type
  | some type =>
    refine steady_bind (steady_modifyEnv _) fun _ => steady_bind (hsub _) fun v => ?_
    refine steady_bind (steady_typing _) fun inferred => ?_
    simp only
    split
    · exact steady_bind (steady_pure _) fun type => hend v type
    · exact steady_bind (steady_reject _ _) fun type => hend v type

theorem steady_declaration : Steady (Form.declaration sub t) := by
  unfold Form.declaration
  split
  · exact steady_fail _
  · simp only
    split
    · exact steady_reject _ _
    · split
      · exact steady_reject _ _
      · refine steady_bind (steady_ofExcept _) fun declared => ?_
        exact steady_atomically (steady_declare hsub _ _ _ _)

theorem steady_target : Steady (Form.target sub t) := by
  unfold Form.target
  simp only
  split
  · exact steady_pure _
  · split
    · exact steady_pure _
    · exact steady_orReject _ _ (steady_bind (steady_memberParts hsub) fun _ => steady_pure _)

theorem steady_assignment : Steady (Form.assignment sub t) := by
  unfold Form.assignment
  split
  · exact steady_fail _
  · refine steady_bind (steady_target hsub) fun target => steady_bind (hsub _) fun value => ?_
    exact steady_bind (steady_typing _) fun _ => steady_pure _

omit hsub in
theorem steady_literal : Steady (Form.literal t) := by
  refine steady_or (steady_or ?_ ?_) ?_
  · unfold Form.number
    split
    · exact steady_fail _
    · split
      · exact steady_pure _
      · exact steady_reject _ _
  · unfold Form.string
    split
    · exact steady_fail _
    · exact steady_pure _
  · unfold Form.reference
    split
    · exact steady_fail _
    · split
      · exact steady_pure _
      · exact steady_reject _ _

omit hsub in
theorem steady_var : Steady (Form.var t) := by
  unfold Form.var
  split
  · exact steady_pure _
  · exact steady_fail _

theorem steady_forms : Steady (Parser.choice (forms sub) t) := by
  refine steady_or (steady_mapError _ (steady_call hsub)) ?_
  refine steady_or steady_literal (steady_or (steady_mapError _ (steady_list hsub)) ?_)
  refine steady_or (steady_mapError _ (steady_lambda hsub)) ?_
  refine steady_or (steady_mapError _ (steady_short hsub)) ?_
  refine steady_or (steady_mapError _ (steady_member hsub)) ?_
  refine steady_or (steady_mapError _ (steady_giveBack hsub)) ?_
  refine steady_or (steady_mapError _ (steady_declaration hsub)) ?_
  exact steady_or (steady_mapError _ (steady_assignment hsub)) (steady_or steady_var (steady_fail _))

theorem steady_expressionWith : Steady (expressionWith sub t) := by
  unfold expressionWith
  simp only
  split
  · exact steady_reject _ _
  · refine steady_bind (steady_orReject _ _ (steady_nested (steady_forms hsub))) fun n => ?_
    exact steady_bind (steady_reportFormed _ _) fun _ => steady_pure _

end

/-! ### Expressions -/

theorem steady_expression (t : Text) : Steady (expression t) := by
  induction t using expression.induct with
  | case1 t ih =>
    rw [expression]
    apply steady_expressionWith
    intro u
    split
    · next hu => exact ih u hu
    · exact steady_fail _

theorem decides_expression (t : Text) : Decides (expression t) := by
  rw [expression_eq]
  unfold expressionWith
  simp only
  split
  · exact decides_reject _ _
  · refine decides_bind (decides_orReject _ _) fun n => ?_
    exact decides_bind (fun _ h => by cases h) fun _ => decides_pure _

/-- An expression is read by the form of its text without redundant parentheses. -/
theorem on_expression (t : Text) (env : TypeEnv) :
    (expression t).on env = match formShape? (stripParens t) with
      | some k => (k.parser expression (stripParens t)).on env
      | none => (.error (.reject (stripParens t)
          (if stripParens t = [] then .emptyExpression else .unrecognized)), env) := by
  rw [expression_eq]
  unfold expressionWith
  simp only
  by_cases he : stripParens t = []
  · have hnone : formShape? [] = none := by decide
    rw [he, hnone]
    rfl
  · have hempty : (stripParens t).isEmpty = false := by simpa using he
    have hforms := steady_forms (t := stripParens t) steady_expression
    have hchoice := choice_forms decides_expression (stripParens t)
    rw [if_neg (by simp [hempty]), on_bind (steady_orReject _ _ (steady_nested hforms)), orReject,
      on_mapError, on_nested hforms, hchoice, if_neg he]
    cases hk : formShape? (stripParens t) with
    | none => rfl
    | some k =>
      simp only
      have hd := decides_form decides_expression (fits_of_formShape? hk) ⟨env, 0⟩
      rcases hr : (k.parser expression (stripParens t)).on env with ⟨e | n, env₁⟩
      · have he' : e ≠ .noMatch := by
          rintro rfl
          exact hd (congrArg Prod.fst hr)
        cases e with
        | noMatch => exact absurd rfl he'
        | invalid | type => rfl
      · rfl

end UnionTyping
