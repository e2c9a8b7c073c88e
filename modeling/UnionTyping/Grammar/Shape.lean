/-
  UnionTyping/Grammar/Shape.lean
  ==============================
  **Shapes** — the pieces of a text that has the shape of a form.  A shape is
  found by cuts alone, without reading a piece; whether the pieces can be read is
  decided later, and a text whose shape is found and whose pieces cannot be read
  is malformed.  Every piece is shorter than its text.
-/
import UnionTyping.Scan.Cut
import UnionTyping.Text.Name
import UnionTyping.Text.Word
import UnionTyping.Grammar.TypeText

namespace UnionTyping

open Text

/-! ### Groups at the end -/

/-- What stands before the last top-level `b` group, and the inside of that
    group, if it ends the text. -/
def lastGroup? (b : Bracket) (t : Text) (next : Counting := Nesting.advance) :
    Option (Text × Text) := do
  let (before, rest) ← cutLastOpening b t next
  let (inner, rest) ← group? b (b.opening :: rest) next
  if rest.isEmpty then some (before, inner) else none

theorem length_of_lastGroup? {b : Bracket} {t before inner : Text}
    (h : lastGroup? b t = some (before, inner)) :
    before.length < t.length ∧ inner.length < t.length := by
  simp only [lastGroup?, Option.bind_eq_bind, Option.bind_eq_some_iff, Prod.exists] at h
  obtain ⟨l, r, hc, i, rest, hg, h⟩ := h
  have h₁ := length_of_cutLast hc
  have h₂ := length_of_group? hg
  split at h
  · obtain ⟨rfl, rfl⟩ := Prod.mk.inj (Option.some.inj h)
    simp only [List.length_cons] at h₂
    omega
  · simp at h

/-! ### Calls and members -/

/-- The pieces of a call. -/
structure CallShape where
  caller : Text
  /-- Between the parentheses. -/
  arguments : Text
  /-- Between the angle brackets; empty if there are none. -/
  generics : Text
  deriving DecidableEq

/-- A call ends in a parenthesized group that does not begin it.  A `>` before
    that group ends the generic arguments. -/
def callShape? (t : Text) (next : Counting := Nesting.advance) : Option CallShape := do
  let (called, arguments) ← lastGroup? .round (trim t) next
  if called.isEmpty then none
  else
    let called := trimEnd called
    match before? ['>'] called with
    | none => some ⟨called, arguments, []⟩
    | some _ =>
      let (caller, generics) ← lastGroup? .angle called next
      if caller.isEmpty then none else some ⟨trimEnd caller, arguments, generics⟩

theorem length_of_callShape? {t : Text} {shape : CallShape} (h : callShape? t = some shape) :
    shape.caller.length < t.length ∧ shape.arguments.length < t.length := by
  simp only [callShape?, Option.bind_eq_bind, Option.bind_eq_some_iff, Prod.exists] at h
  obtain ⟨called, arguments, hg, h⟩ := h
  have h₁ := length_of_lastGroup? hg
  have h₂ := length_trim_le t
  have h₃ := length_trimEnd_le called
  split at h
  · simp at h
  · split at h
    · obtain rfl := Option.some.inj h
      exact ⟨by simp only; omega, by simp only; omega⟩
    · simp only [Option.bind_eq_some_iff, Prod.exists] at h
      obtain ⟨caller, generics, hg', h⟩ := h
      have h₄ := length_of_lastGroup? hg'
      have h₅ := length_trimEnd_le caller
      split at h
      · simp at h
      · obtain rfl := Option.some.inj h
        exact ⟨by simp only; omega, by simp only; omega⟩

/-- The parent and the name of a member: cut at the last dot. -/
def memberShape? (t : Text) : Option (Text × Name) := do
  let (parent, name) ← cutLastTop '.' t
  let parent := trim parent
  let name := trim name
  if !parent.isEmpty && isIdentifier name then some (parent, name) else none

theorem length_of_memberShape? {t parent : Text} {name : Name}
    (h : memberShape? t = some (parent, name)) : parent.length < t.length := by
  simp only [memberShape?, Option.bind_eq_bind, Option.bind_eq_some_iff, Prod.exists] at h
  obtain ⟨l, r, hc, h⟩ := h
  have h₁ := length_of_cutLast hc
  have h₂ := length_trim_le l
  split at h
  · obtain ⟨rfl, rfl⟩ := Prod.mk.inj (Option.some.inj h)
    omega
  · simp at h

/-- The text begins with a keyword. -/
def keywordHead (t : Text) : Bool := reservedWords.any fun word => headedBy word t

/-- A callee or a parent is an expression and no statement. -/
def isOperandText (t : Text) : Bool :=
  let t := trim t
  !t.isEmpty && (cutAssignment t).isNone && !keywordHead t

/-! ### Lambdas -/

/-- The pieces of a lambda. -/
structure LambdaShape where
  generics : Option Text
  params : Text
  result : Option Text
  ownScope : Bool
  body : Text
  deriving DecidableEq

/-- The stem of the arrow that a text ends with: `=` brings an own scope, `~`
    shares the caller's. -/
def stem? (t : Text) : Option (Text × Bool) := do
  let head ← before? ['>'] t
  match before? ['='] head with
  | some signature => some (signature, true)
  | none => (before? ['~'] head).map fun signature => (signature, false)

/-- The type after the colon of a signature; an empty signature has none. -/
def resultPart? (signature : Text) : Option (Option Text) :=
  let signature := trim signature
  if signature.isEmpty then some none
  else (after? [':'] signature).map fun t => some (trim t)

/-- A lambda has optional generics, a parameter list, an optional result type, an
    arrow and a body in curly brackets. -/
def lambdaShape? (t : Text) : Option LambdaShape := do
  let (generics, rest) ← splitGenerics? t
  let (params, rest) ← group? .round rest
  let (head, body) ← lastGroup? .curly (trim rest)
  let (signature, ownScope) ← stem? (trimEnd head)
  let result ← resultPart? signature
  return { generics, params, result, ownScope, body }

theorem length_of_splitGenerics? {t rest : Text} {generics : Option Text}
    (h : splitGenerics? t = some (generics, rest)) : rest.length ≤ t.length := by
  unfold splitGenerics? at h
  split at h
  · obtain ⟨⟨l, r⟩, hg, he⟩ := Option.map_eq_some_iff.1 h
    obtain ⟨rfl, rfl⟩ := Prod.mk.inj he
    have h₁ := length_of_group? hg
    have h₂ := length_trimStart_le r
    omega
  · obtain ⟨rfl, rfl⟩ := Prod.mk.inj (Option.some.inj h)
    exact Nat.le_refl _

theorem length_of_lambdaShape? {t : Text} {shape : LambdaShape}
    (h : lambdaShape? t = some shape) : shape.body.length < t.length := by
  simp only [lambdaShape?, Option.bind_eq_bind, Option.bind_eq_some_iff, Prod.exists] at h
  obtain ⟨generics, rest, hs, params, tail, hp, head, body, hb, signature, own, _, result, _, h⟩ := h
  obtain rfl := Option.some.inj h
  have h₁ := length_of_splitGenerics? hs
  have h₂ := length_of_group? hp
  have h₃ := length_of_lastGroup? hb
  have h₄ := length_trim_le tail
  simp only
  omega

/-! ### Statements -/

/-- What follows a keyword and at least one blank. -/
def afterKeyword? (word t : Text) : Option Text :=
  match after? word t with
  | some (c :: rest) => if isBlank c then some (trimStart (c :: rest)) else none
  | _ => none

theorem length_of_afterKeyword? {word t rest : Text} (hw : word ≠ [])
    (h : afterKeyword? word t = some rest) : rest.length < t.length := by
  unfold afterKeyword? at h
  split at h
  · next c r ha =>
    split at h
    · obtain rfl := Option.some.inj h
      have h₁ := length_trimStart_le (c :: r)
      have h₂ := List.length_pos_iff.2 hw
      rw [after?_eq_some_iff.1 ha, List.length_append]
      omega
    · simp at h
  · simp at h

/-- The value of a return statement, if it has one. -/
def returnShape? (t : Text) : Option (Option Text) :=
  if t = "return".toList then some none
  else match afterKeyword? "return".toList t with
    | some (c :: rest) => some (some (c :: rest))
    | _ => none

theorem length_of_returnShape? {t value : Text} (h : returnShape? t = some (some value)) :
    value.length < t.length := by
  unfold returnShape? at h
  split at h
  · simp at h
  · split at h
    · next ha =>
      obtain rfl := Option.some.inj (Option.some.inj h)
      exact length_of_afterKeyword? (by decide) ha
    · simp at h

/-- Whether a declaration is of a constant, and what follows the keyword. -/
def declarationShape? (t : Text) : Option (Bool × Text) :=
  match afterKeyword? "var".toList t with
  | some rest => some (false, rest)
  | none => (afterKeyword? "const".toList t).map fun rest => (true, rest)

theorem length_of_declarationShape? {t rest : Text} {constant : Bool}
    (h : declarationShape? t = some (constant, rest)) : rest.length < t.length := by
  unfold declarationShape? at h
  split at h
  · next ha =>
    obtain ⟨rfl, rfl⟩ := Prod.mk.inj (Option.some.inj h)
    exact length_of_afterKeyword? (by decide) ha
  · obtain ⟨r, ha, he⟩ := Option.map_eq_some_iff.1 h
    obtain ⟨rfl, rfl⟩ := Prod.mk.inj he
    exact length_of_afterKeyword? (by decide) ha

/-- The name after `*`. -/
def dereferenceShape? (t : Text) : Option Name := do
  let name := trim (← after? ['*'] t)
  if isName name then some name else none

/-- The name after `&`, which may be a keyword. -/
def referenceShape? (t : Text) : Option Name := do
  let name ← after? ['&'] t
  if isIdentifier name then some name else none

end UnionTyping
