/-
  UnionTyping/Grammar/TypeText.lean
  =================================
  **Reading types.**

      type     := member ('|' member)*
      member   := '(' type ')' | function | named
      named    := name ['[' [type (',' type)*] ']']
      function := ['pure'] ['[' [name (',' name)*] ']']
                  '(' [type (',' type)* ['...']] ')' arrow member
      arrow    := '!=>' | '!~>' | '=>' | '~>'

  A reader is written for the texts that it finds inside its own: `typeWith`
  takes the reader of shorter texts as an argument, and `parseType` ties the
  knot, allowing that reader only texts that are shorter.
  `parseType_eq` states that the restriction is never felt.
-/
import UnionTyping.Grammar.Fault
import UnionTyping.Scan.Cut
import UnionTyping.Text.Name

namespace UnionTyping

open Text

/-- A reader of values in texts, without a state. -/
abbrev Reader (α : Type) : Type := Text → Except ParseError α

/-! ### Pieces -/

/-- The items between top-level commas; a blank text has none. -/
def commaItems (t : Text) : List Text := if allBlank t then [] else splitTop ',' t

/-- The arrows of function types, each before the shorter ones it begins like. -/
def typeArrows : List (Text × ScopeMode) :=
  [(['!', '=', '>'], .own), (['!', '~', '>'], .shared), (['=', '>'], .either),
   (['~', '>'], .either)]

/-- The scope mode of the arrow that a text begins with, and what follows it. -/
def arrow? (t : Text) : Option (ScopeMode × Text) :=
  typeArrows.findSome? fun (arrow, mode) => (after? arrow t).map fun rest => (mode, rest)

/-- The word `pure` is dropped before a parameter list or generics. -/
def splitPure (t : Text) : Bool × Text :=
  match after? ['p', 'u', 'r', 'e'] t with
  | none => (false, t)
  | some rest =>
    let rest := trimStart rest
    if rest.head? = some '(' ∨ rest.head? = some '[' then (true, rest) else (false, t)

/-- The inside of leading square brackets, if there are any, and what follows. -/
def splitGenerics? (t : Text) : Option (Option Text × Text) :=
  if t.head? = some '[' then
    (group? .square t).map fun (inner, rest) => (some inner, trimStart rest)
  else some (none, t)

/-- The pieces of a function type. -/
structure FunctionShape where
  isPure : Bool
  generics : Option Text
  params : Text
  scope : ScopeMode
  result : Text

/-- The pieces of a text that has the shape of a function type. -/
def functionShape? (t : Text) : Option FunctionShape := do
  let (isPure, rest) := splitPure t
  let (generics, rest) ← splitGenerics? rest
  let (params, rest) ← group? .round rest
  let (scope, result) ← arrow? (trimStart rest)
  return { isPure, generics, params, scope, result }

/-- The names in a list of generics. -/
def genericNames : Option Text → Except ParseError (List Name)
  | none => .ok []
  | some t => (commaItems t).mapM fun item =>
    let name := trim item
    if isName name then .ok name else .error (.reject name .genericName)

/-- A trailing `...` is cut off. -/
def splitVariadic (t : Text) : Text × Bool :=
  match before? ['.', '.', '.'] t with
  | some stem => (stem, true)
  | none => (t, false)

/-! ### Types -/

/-- The types in a list. -/
def typesWith (sub : Reader SourceType) (t : Text) : Except ParseError (List SourceType) :=
  (commaItems t).mapM sub

/-- A function type from its pieces; `t` is its whole text. -/
def functionWith (sub : Reader SourceType) (t : Text) (shape : FunctionShape) :
    Except ParseError SourceType := do
  let generics ← genericNames shape.generics
  let (params, variadic) := splitVariadic (trim shape.params)
  if variadic && allBlank params then
    .error (.reject t .loneVariadic)
  else
    let params ← typesWith sub params
    let result ← sub shape.result
    return .single (.function ⟨shape.scope, shape.isPure, variadic, generics⟩ params result)

/-- A named type with or without arguments. -/
def namedWith (sub : Reader SourceType) (t : Text) : Except ParseError SourceType :=
  let name := t.takeWhile isNameChar
  let rest := trimStart (t.dropWhile isNameChar)
  if name.isEmpty || (name.head?.any Char.isDigit) then .error (.reject t .typeNameExpected)
  else if rest.isEmpty then .ok (.bare name)
  else match unwrap? .square rest with
    | none => .error (.reject t .malformedTypeArguments)
    | some inner => do return .named name (← typesWith sub inner)

/-- A type, with a reader for the types inside it. -/
def typeWith (sub : Reader SourceType) (t : Text) : Except ParseError SourceType :=
  let t := trim t
  if t.isEmpty then .error (.reject t .emptyType)
  else
    let members := splitTop '|' t
    if 1 < members.length then do return .unionAll (← members.mapM sub)
    else match unwrap? .round t with
      | some inner => sub inner
      | none => match functionShape? t with
        | some shape => functionWith sub t shape
        | none => namedWith sub t

/-- Read a type. -/
def parseType (t : Text) : Except ParseError SourceType :=
  typeWith (fun u => if u.length < t.length then parseType u else .error .noMatch) t
termination_by t.length

/-! ### Parameters -/

/-- Around the first `c`, wherever it stands. -/
def splitOnce? (c : Char) (t : Text) : Option (Text × Text) :=
  match t.dropWhile (· != c) with
  | [] => none
  | _ :: rest => some (t.takeWhile (· != c), rest)

/-- The name of a parameter and its type, if one is written. -/
def parameterParts (t : Text) : Except ParseError (Name × Option SourceType) := do
  let t := trim t
  let (name, type) ← match splitOnce? ':' t with
    | some (name, type) => do pure (trim name, some (← parseType type))
    | none => pure (t, none)
  if isName name then return (name, type)
  else .error (.reject t (.parameterName name))

/-- Read `name[:type]`; a parameter without a type takes anything. -/
def parseParameter (t : Text) : Except ParseError Parameter := do
  let (name, type) ← parameterParts t
  return ⟨name, type.getD .any⟩

end UnionTyping
