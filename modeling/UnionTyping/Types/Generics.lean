/-
  UnionTyping/Types/Generics.lean
  ===============================
  **Solving generics** — what the generics of a function stand for in one call.
  A generic is solved from the places where it stands on its own: from the
  argument of every parameter declared as just that name, and from the expected
  result if the result is declared so.  Its solution is the union of what is
  found there.

  A proper union that mentions a generic, among the arguments' types or as the
  declared result, cannot be split between the generic and the rest and is
  refused before anything is solved; a generic for which nothing is found has no
  solution.
-/
import UnionTyping.Types.Trace
import UnionTyping.Types.TypeError

namespace UnionTyping

namespace Generics

/-- The first generic that a proper union among `types` mentions, with that union. -/
def ambiguity? (generics : List Name) (types : List SourceType) : Option (Name × SourceType) :=
  generics.findSome? fun g =>
    (types.find? fun t => SourceType.isUnionMentioning g t).map fun t => (g, t)

/-- The types found where `g` stands on its own. -/
def occurrences (g : Name) (params : List SourceType) (result : SourceType)
    (actual : List SourceType) (expected : SourceType) : List SourceType :=
  ((params.zip actual).filterMap fun (p, a) => if SourceType.isSingleNamed g p then some a else none)
    ++ if SourceType.isSingleNamed g result then [expected] else []

/-- The solution of one generic. -/
def solve (g : Name) (params : List SourceType) (result : SourceType)
    (actual : List SourceType) (expected : SourceType) : Traced TypeError SourceType := do
  let solution := UnionType.unionAll (occurrences g params result actual expected)
  if solution.isBase then
    Traced.fail (.unassignableGeneric g)
  else
    Traced.report (.solved g solution)
    return solution

/-- The solutions of the generics of a function, in the order of their
    declaration.  The empty union as `expected` means that nothing is expected. -/
def assign (generics : List Name) (params : List SourceType) (result : SourceType)
    (actual : List SourceType) (expected : SourceType) : Traced TypeError (List SourceType) :=
  match ambiguity? generics (actual ++ [result]) with
  | some (g, t) => Traced.fail (.ambiguousGeneric g t)
  | none => generics.mapM fun g => solve g params result actual expected

end Generics

end UnionTyping
