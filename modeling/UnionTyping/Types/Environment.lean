/-
  UnionTyping/Types/Environment.lean
  ==================================
  **Type environments** — the types of the variables in scope, and the types of
  the members that values of a named type have.  Reading an expression may bind
  variables; it never changes the members.
-/
import UnionTyping.Types.Source
import UnionTyping.Types.Table

namespace UnionTyping

structure TypeEnv where
  bindings : Table Name SourceType := {}
  /-- The owner's entry name and the member's name. -/
  members : Table (Name × Name) SourceType := {}

namespace TypeEnv

def empty : TypeEnv := {}

def lookup? (env : TypeEnv) (n : Name) : Option SourceType := env.bindings.find? n

def contains (env : TypeEnv) (n : Name) : Bool := env.bindings.contains n

/-- Bind `n`, in the place of an earlier binding. -/
def insert (env : TypeEnv) (n : Name) (t : SourceType) : TypeEnv :=
  { env with bindings := env.bindings.insert n t }

def lookupMember? (env : TypeEnv) (owner member : Name) : Option SourceType :=
  env.members.find? (owner, member)

def insertMember (env : TypeEnv) (owner member : Name) (t : SourceType) : TypeEnv :=
  { env with members := env.members.insert (owner, member) t }

/-- Bind parameters in their order. -/
def bindParameters (env : TypeEnv) (params : List Parameter) : TypeEnv :=
  params.foldl (fun env p => env.insert p.name p.type) env

/-- The number of variables. -/
def size (env : TypeEnv) : Nat := env.bindings.size

def isEmpty (env : TypeEnv) : Bool := env.bindings.isEmpty

/-- The same variables and the same members, with equal types. -/
def same (env env' : TypeEnv) : Bool :=
  env.bindings.sameBy (· == ·) env'.bindings && env.members.sameBy (· == ·) env'.members

theorem lookup?_insert (env : TypeEnv) (n m : Name) (t : SourceType) :
    (env.insert n t).lookup? m = if m = n then some t else env.lookup? m :=
  Table.find?_insert _ _ _ _

/-! ### The default environment -/

private def plain (params : List SourceType) (result : SourceType) : SourceType :=
  .single (.function ⟨.either, true, false, []⟩ params result)

/-- The variables that are there from the beginning. -/
def builtins : List (Name × SourceType) :=
  let number := SourceType.number
  let string := SourceType.string
  let generic : SourceType := .bare ['T']
  [("_add".toList, plain [number, number] number),
   ("_sub".toList, plain [number, number] number),
   ("_mul".toList, plain [number, number] number),
   ("_div".toList, plain [number, number] number),
   ("_concat".toList, plain [string, string] string),
   ("print".toList, .single (.function ⟨.shared, false, false, []⟩ [.any] SourceType.void)),
   ("identity".toList, .single (.function ⟨.either, false, false, [['T']]⟩ [generic] generic)),
   ("length".toList, .single (.function ⟨.either, false, false, []⟩
      [(SourceType.list .any).union string] number))]

/-- The environment that reading starts from unless another is given. -/
def initial : TypeEnv where
  bindings := .ofList builtins
  members := .ofList
    [((TypeName.list, "length".toList), SourceType.number),
     ((TypeName.string, "length".toList), SourceType.number)]

end TypeEnv

end UnionTyping
