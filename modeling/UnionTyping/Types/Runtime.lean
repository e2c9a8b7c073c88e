/-
  UnionTyping/Types/Runtime.lean
  ==============================
  **Types at run time** — unions over registered data types.  A data type has a
  name and a number of arguments; a generic that an enclosing function declares
  stays a name.  Resolving a written type looks every name up, so that unknown
  names and wrong numbers of arguments are found here and nowhere later.

  The precedence of a name without arguments: a generic declared by an enclosing
  function, then a binding, then a registered data type.
-/
import UnionTyping.Types.Source
import UnionTyping.Types.Table
import UnionTyping.Types.TypeError

namespace UnionTyping

/-- What a runtime type is named by. -/
inductive RuntimeHead where
  | data (name : Name) (arity : Nat)
  | generic (name : Name)
  deriving DecidableEq

instance : Vocabulary RuntimeHead where
  any := .data TypeName.any 0
  isAny
    | .data n _ => n == TypeName.any
    | .generic _ => false
  isAny_any := by decide

/-- A type over registered data types. -/
abbrev RuntimeType := UnionType RuntimeHead

abbrev RuntimeEntry := Entry RuntimeHead

/-! ### Text -/

mutual

/-- The text of a runtime type.  A data type always shows its brackets, a
    generic never does. -/
def RuntimeType.text : RuntimeType → Text
  | .of es => ['|'].intercalate (RuntimeEntry.texts es)

def RuntimeEntry.text : RuntimeEntry → Text
  | .named (.generic n) _ => n
  | .named (.data n _) as => n ++ '[' :: ([','].intercalate (RuntimeType.texts as) ++ [']'])
  | .function t ps r =>
    t.opening
      ++ '(' :: ([','].intercalate (RuntimeType.texts ps)
        ++ (if t.variadic then ['.', '.', '.'] else []) ++ [')'])
      ++ t.scope.arrow ++ RuntimeType.text r

def RuntimeEntry.texts : List RuntimeEntry → List Text
  | [] => []
  | e :: es => RuntimeEntry.text e :: RuntimeEntry.texts es

def RuntimeType.texts : List RuntimeType → List Text
  | [] => []
  | t :: ts => RuntimeType.text t :: RuntimeType.texts ts

end

/-! ### The registry -/

/-- The registered data types: their numbers of arguments, by name. -/
abbrev Registry := Table Name Nat

namespace Registry

/-- The data types of the language itself. -/
def builtins : Registry := .ofList
  [(TypeName.any, 0), (TypeName.void, 0), (TypeName.number, 0), (TypeName.string, 0),
   (TypeName.list, 1), (TypeName.reference, 1)]

/-- Runtime types for names. -/
abbrev Bindings := Table Name RuntimeType

/-- The data type `n` with `count` arguments. -/
def data? (reg : Registry) (n : Name) (count : Nat) : Except TypeError RuntimeHead :=
  match reg.find? n with
  | none => .error (.unknownType n)
  | some arity =>
    if arity = count then .ok (.data n arity) else .error (.dataTypeArity n arity count)

mutual

/-- Resolve a type inside functions that declare the generics `declared`. -/
def resolveIn (reg : Registry) (bindings : Bindings) :
    List Name → SourceType → Except TypeError RuntimeType
  | declared, .of es => do return .unionAll (← resolveEntries reg bindings declared es)

def resolveEntry (reg : Registry) (bindings : Bindings) :
    List Name → SourceEntry → Except TypeError RuntimeType
  | declared, .named n [] =>
    if declared.contains n then .ok (.bare (.generic n))
    else match bindings.find? n with
      | some t => .ok t
      | none => do return .bare (← data? reg n 0)
  | declared, .named n (a :: as) => do
    let head ← data? reg n (as.length + 1)
    let first ← resolveIn reg bindings declared a
    let others ← resolveAll reg bindings declared as
    return .named head (first :: others)
  | declared, .function t ps r => do
    let declared := declared ++ t.generics
    let params ← resolveAll reg bindings declared ps
    let result ← resolveIn reg bindings declared r
    return .single (.function t params result)

def resolveEntries (reg : Registry) (bindings : Bindings) :
    List Name → List SourceEntry → Except TypeError (List RuntimeType)
  | _, [] => .ok []
  | declared, e :: es => do
    let first ← resolveEntry reg bindings declared e
    let others ← resolveEntries reg bindings declared es
    return first :: others

def resolveAll (reg : Registry) (bindings : Bindings) :
    List Name → List SourceType → Except TypeError (List RuntimeType)
  | _, [] => .ok []
  | declared, t :: ts => do
    let first ← resolveIn reg bindings declared t
    let others ← resolveAll reg bindings declared ts
    return first :: others

end

theorem resolveEntries_eq_mapM (reg : Registry) (bindings : Bindings) (declared : List Name)
    (es : List SourceEntry) :
    resolveEntries reg bindings declared es = es.mapM (resolveEntry reg bindings declared) := by
  induction es with
  | nil =>
    rw [resolveEntries]
    rfl
  | cons e es ih =>
    rw [resolveEntries, ih, List.mapM_cons]

theorem resolveAll_eq_mapM (reg : Registry) (bindings : Bindings) (declared : List Name)
    (ts : List SourceType) :
    resolveAll reg bindings declared ts = ts.mapM (resolveIn reg bindings declared) := by
  induction ts with
  | nil =>
    rw [resolveAll]
    rfl
  | cons t ts ih =>
    rw [resolveAll, ih, List.mapM_cons]

/-- Convert a written type, with the bound names replaced. -/
def resolve (reg : Registry) (t : SourceType) (bindings : Bindings) :
    Except TypeError RuntimeType :=
  resolveIn reg bindings [] t

end Registry

end UnionTyping
