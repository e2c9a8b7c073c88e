/-
  UnionTyping/Types/TypeError.lean
  ================================
  **Type errors** — why a well-formed expression, a call's generics or a written
  type has no type.  An error that concerns an expression carries its canonical
  text.
-/
import UnionTyping.Types.Source

namespace UnionTyping

inductive TypeError where
  /-- The environment does not know the name. -/
  | unboundVariable (name : Name)
  /-- The type of the callee has an entry that is no function. -/
  | notCallable (callee : SourceType) (node : Text)
  /-- The type of the callee has no entries. -/
  | emptyCallee (node : Text)
  /-- An entry of the owner's type has no such member. -/
  | unknownMember (owner : SourceType) (member : Name) (node : Text)
  /-- What could not be read has no type. -/
  | invalidExpression (text : Text)
  /-- A generic stands in a proper union and cannot be told from the rest of it. -/
  | ambiguousGeneric (generic : Name) (type : SourceType)
  /-- A generic is nowhere a parameter or the result on its own. -/
  | unassignableGeneric (generic : Name)
  /-- The generic arguments are not as many as the generics. -/
  | genericArity (expected found : Nat) (node : Text)
  /-- A proper union stands where one entry is needed. -/
  | notSingleEntry (type : SourceType)
  /-- No data type of that name is registered. -/
  | unknownType (name : Name)
  /-- A registered type has another number of arguments. -/
  | dataTypeArity (name : Name) (expected found : Nat)
  /-- A variable that holds no reference is dereferenced. -/
  | notAReference (type : SourceType) (node : Text)

namespace TypeError

/-- The expression that the error is about, if it is about one. -/
def node? : TypeError → Option Text
  | notCallable _ n | emptyCallee n | unknownMember _ _ n | genericArity _ _ n
  | notAReference _ n | invalidExpression n => some n
  | _ => none

private def natText (n : Nat) : Text := Nat.toDigits 10 n

/-- The second line of a message about an expression. -/
private def inNode (n : Text) : Text := "\n  in: ".toList ++ n

/-- What is wrong. -/
def detail : TypeError → Text
  | unboundVariable n => "unbound variable: ".toList ++ n
  | notCallable t n =>
    "cannot call a non-function of type ".toList ++ SourceType.text t ++ inNode n
  | emptyCallee n => "caller has no type entries".toList ++ inNode n
  | unknownMember t m n =>
    "type ".toList ++ SourceType.text t ++ " has no member '".toList ++ m ++ "'".toList ++ inNode n
  | invalidExpression t => "cannot determine the type of invalid expression: ".toList ++ t
  | ambiguousGeneric g t =>
    "generic '".toList ++ g ++ "' occurs in union ".toList ++ SourceType.text t
      ++ " and cannot be inferred, supply it explicitly".toList
  | unassignableGeneric g =>
    "generic '".toList ++ g
      ++ "' cannot be inferred from the call, supply it explicitly".toList
  | genericArity e f n =>
    "expected ".toList ++ natText e ++ " generic argument(s), found ".toList ++ natText f ++ inNode n
  | notSingleEntry t => "expected a single type, found union ".toList ++ SourceType.text t
  | unknownType n => "unknown type: ".toList ++ n
  | dataTypeArity n e f =>
    "type ".toList ++ n ++ " takes ".toList ++ natText e
      ++ " generic argument(s), found ".toList ++ natText f
  | notAReference t n =>
    "cannot dereference a value of type ".toList ++ SourceType.text t ++ inNode n

def message (e : TypeError) : Text := "Type error: ".toList ++ e.detail

end TypeError

end UnionTyping
