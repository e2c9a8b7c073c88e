/-
  UnionTyping/Types/Substitution.lean
  ===================================
  **Substitution** — generic names replaced by types.  Only a name without
  arguments is replaced; a function that declares a generic itself keeps its own
  meaning of the name.  The images are united into the type, so that the result
  is normalized again: `T|number` with `number` for `T` is `number`.
-/
import UnionTyping.Types.Source
import UnionTyping.Types.Table

namespace UnionTyping

/-- Types for generic names. -/
abbrev Substitution := Table Name SourceType

namespace Substitution

/-- The names paired with the types, place by place. -/
def ofBindings (names : List Name) (types : List SourceType) : Substitution :=
  .ofList (names.zip types)

/-- The substitution inside a function that declares `names`. -/
def without (names : List Name) (s : Substitution) : Substitution :=
  s.filterKeys fun n => !names.contains n

mutual

def apply : Substitution → SourceType → SourceType
  | s, .of es => if s.isEmpty then .of es else .unionAll (applyEntries s es)

def applyEntry : Substitution → SourceEntry → SourceType
  | s, .named h [] => (s.find? h).getD (.bare h)
  | s, .named h (a :: as) => .named h (apply s a :: applyAll s as)
  | s, .function t ps r =>
    let s := s.without t.generics
    .single (.function t (applyAll s ps) (apply s r))

def applyEntries : Substitution → List SourceEntry → List SourceType
  | _, [] => []
  | s, e :: es => applyEntry s e :: applyEntries s es

def applyAll : Substitution → List SourceType → List SourceType
  | _, [] => []
  | s, t :: ts => apply s t :: applyAll s ts

end

theorem applyEntries_eq_map (s : Substitution) (es : List SourceEntry) :
    applyEntries s es = es.map (applyEntry s) := by
  induction es with
  | nil => simp [applyEntries]
  | cons e es ih => simp [applyEntries, ih]

theorem applyAll_eq_map (s : Substitution) (ts : List SourceType) :
    applyAll s ts = ts.map (apply s) := by
  induction ts with
  | nil => simp [applyAll]
  | cons t ts ih => simp [applyAll, ih]

end Substitution

end UnionTyping
