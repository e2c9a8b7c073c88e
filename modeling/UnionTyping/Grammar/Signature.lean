/-
  UnionTyping/Grammar/Signature.lean
  ==================================
  **Parameter lists.**

      params := [param (',' param)*]
      param  := name [':' type] ['...']

  Only the last parameter may be variadic; it takes a list type, and without a
  type it takes a list of anything.
-/
import UnionTyping.Grammar.TypeText

namespace UnionTyping

open Text

/-- The type of a parameter whose written type, if any, is given. -/
def parameterType (item : Text) (variadic : Bool) :
    Option SourceType → Except ParseError SourceType
  | some t =>
    if variadic && !SourceType.isListType t then .error (.reject item .variadicWithoutList)
    else .ok t
  | none => .ok (if variadic then SourceType.list .any else .any)

/-- One item of a parameter list, and whether it is variadic. -/
def parameterItem (isLast : Bool) (item : Text) : Except ParseError (Parameter × Bool) := do
  let (stem, variadic) := splitVariadic (trim item)
  let item := if variadic then trimEnd stem else stem
  if variadic && !isLast then
    .error (.reject item .misplacedVariadic)
  else
    let (name, declared) ← parameterParts item
    let type ← parameterType item variadic declared
    return (⟨name, type⟩, variadic)

/-- The items of a parameter list, and whether the last one is variadic. -/
def parameterItems : List Text → Except ParseError (List Parameter × Bool)
  | [] => .ok ([], false)
  | item :: items => do
    let (p, variadic) ← parameterItem items.isEmpty item
    if items.isEmpty then return ([p], variadic)
    else
      let (ps, variadic) ← parameterItems items
      return (p :: ps, variadic)

/-- A parameter list, and whether its last parameter is variadic. -/
def parseParameters (t : Text) : Except ParseError (List Parameter × Bool) :=
  parameterItems (commaItems t)

end UnionTyping
