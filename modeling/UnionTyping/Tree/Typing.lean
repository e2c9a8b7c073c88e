/-
  UnionTyping/Tree/Typing.lean
  ============================
  **Typing** — the type of a tree in an environment.

      5, "s"            number, string
      &x                reference of the type of x
      {a, b}            list of the union of the elements' types
      {}                list of any
      (p:P)=>{body}     the function type of the lambda
      f(args)           union of the results of every entry of the type of f
      p.m               union of the member m over every entry of the type of p
      var x = v         the type recorded in the declaration
      t = v             the type of v, if t can be assigned to
      return v          the type of v, void without v

  A list of statements has the type of the last one, void if there is none.
  Calling or looking into a value of the universal type gives the universal
  type.
-/
import UnionTyping.Tree.Printer
import UnionTyping.Types.Environment
import UnionTyping.Types.Generics
import UnionTyping.Types.Substitution

namespace UnionTyping

/-- A computation of a type. -/
abbrev Typing (α : Type) := Traced TypeError α

namespace Typing

/-- The type of a variable. -/
def ofVariable (env : TypeEnv) (n : Name) : Typing SourceType :=
  match env.lookup? n with
  | some t => pure t
  | none => Traced.fail (.unboundVariable n)

/-- The element type of a list literal is the union of its elements' types. -/
def listOf : List SourceType → SourceType
  | [] => .list .any
  | ts => .list (.unionAll ts)

/-! ### Calls -/

/-- The generics of a call have to be solved from its arguments: none are given
    and an entry of the callee declares some. -/
def infersGenerics (callee : SourceType) (generics : List SourceType) : Bool :=
  generics.isEmpty && callee.entries.any fun
    | .function t _ _ => !t.generics.isEmpty
    | .named .. => false

/-- The result of calling one entry of the callee's type.  `node` is the text of
    the call. -/
def callEntry (callee : SourceType) (generics arguments : List SourceType) (node : Text) :
    SourceEntry → Typing SourceType
  | .named .. => Traced.fail (.notCallable callee node)
  | .function t params result =>
    if !generics.isEmpty && generics.length != t.generics.length then
      Traced.fail (.genericArity t.generics.length generics.length node)
    else if t.generics.isEmpty then
      pure result
    else do
      let solution ←
        if generics.isEmpty then Generics.assign t.generics params result arguments .base
        else pure generics
      return (Substitution.ofBindings t.generics solution).apply result

/-- The result of calling every entry of the callee's type. -/
def callResult (callee : SourceType) (generics arguments : List SourceType) (node : Text) :
    Typing SourceType := do
  return .unionAll (← callee.entries.mapM (callEntry callee generics arguments node))

/-! ### Members -/

/-- The type of the member `n` of values of the type `parent`. -/
def memberType (env : TypeEnv) (parent : SourceType) (n : Name) (node : Text) :
    Typing SourceType := do
  if parent.isAny then
    return .any
  else
    let unknown := TypeError.unknownMember parent n node
    let types ← parent.entries.mapM fun e =>
      match env.lookupMember? (SourceEntry.name e) n with
      | some t => pure t
      | none => Traced.fail unknown
    let type := UnionType.unionAll types
    if type.isBase then Traced.fail unknown else pure type

/-- The type of what the variable `n` refers to. -/
def dereferenced (env : TypeEnv) (n : Name) (node : Text) : Typing SourceType := do
  let t ← ofVariable env n
  if t.isAny then
    return .any
  else
    match t.single? with
    | some (.named h [target]) =>
      if h = TypeName.reference then pure target else Traced.fail (.notAReference t node)
    | some _ => Traced.fail (.notAReference t node)
    | none => Traced.fail (.notSingleEntry t)

end Typing

open Typing

/-! ### Nodes -/

mutual

/-- The type of a node. -/
def typeOf (env : TypeEnv) : Node → Typing SourceType
  | .number _ => pure SourceType.number
  | .string _ => pure SourceType.string
  | .reference n => do return SourceType.reference (← ofVariable env n)
  | .list es => do return listOf (← typesOf env es)
  | .lambda h _ => pure h.type
  | .var n => ofVariable env n
  | .call f as gs => do
    let callee ← typeOf env f
    let node := (Node.call f as gs).text
    if callee.isAny then pure .any
    else if callee.isBase then Traced.fail (.emptyCallee node)
    else
      let arguments ← if infersGenerics callee gs then typesOf env as else pure []
      callResult callee gs arguments node
  | .member p n => do
    let parent ← typeOf env p
    memberType env parent n (Node.member p n).text
  | .declaration _ _ _ t _ => pure t
  | .assignment t v => do
    let _ ← typeOfTarget env (Node.assignment t v).text t
    typeOf env v
  | .ret none => pure SourceType.void
  | .ret (some v) => typeOf env v
  | .invalid _ fragment _ => Traced.fail (.invalidExpression fragment)

/-- The type of the place that an assignment, whose text is `node`, writes to. -/
def typeOfTarget (env : TypeEnv) (node : Text) : Target → Typing SourceType
  | .var n => ofVariable env n
  | .dereference n => dereferenced env n node
  | .member p n => do
    let parent ← typeOf env p
    memberType env parent n node

def typesOf (env : TypeEnv) : List Node → Typing (List SourceType)
  | [] => pure []
  | n :: ns => do
    let t ← typeOf env n
    let ts ← typesOf env ns
    return t :: ts

end

/-- The type of a list of statements. -/
def typeOfBody (env : TypeEnv) (body : List Node) : Typing SourceType :=
  match body.getLast? with
  | some n => typeOf env n
  | none => pure SourceType.void

end UnionTyping
