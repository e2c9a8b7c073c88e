/-
  UnionTyping/Types/Source.lean
  =============================
  **Types as they are written** — unions over plain names.  Their canonical text
  shows every name with its brackets (`number[]`), writes a function as
  `pure[T](params...)=>result`, and puts a result with several entries into
  parentheses, because `|` binds looser than the arrow.
-/
import UnionTyping.Types.Union

namespace UnionTyping

/-! ### The vocabulary -/

namespace TypeName

def any : Name := ['a', 'n', 'y']
def void : Name := ['v', 'o', 'i', 'd']
def number : Name := ['n', 'u', 'm', 'b', 'e', 'r']
def string : Name := ['s', 't', 'r', 'i', 'n', 'g']
def list : Name := ['l', 'i', 's', 't']
def reference : Name := ['r', 'e', 'f', 'e', 'r', 'e', 'n', 'c', 'e']
def function : Name := ['f', 'u', 'n', 'c', 't', 'i', 'o', 'n']

end TypeName

instance : Vocabulary Name where
  any := TypeName.any
  isAny h := h == TypeName.any
  isAny_any := by decide

/-- A type as it is written. -/
abbrev SourceType := UnionType Name

/-- An entry of a type as it is written. -/
abbrev SourceEntry := Entry Name

namespace SourceType

def void : SourceType := .bare TypeName.void
def number : SourceType := .bare TypeName.number
def string : SourceType := .bare TypeName.string
def list (element : SourceType) : SourceType := .named TypeName.list [element]
def reference (target : SourceType) : SourceType := .named TypeName.reference [target]

end SourceType

/-! ### What an entry is -/

namespace SourceEntry

/-- The name under which an entry has its members. -/
def name : SourceEntry → Name
  | .named h _ => h
  | .function .. => TypeName.function

/-- `n` without arguments. -/
def isBare (n : Name) : SourceEntry → Bool
  | .named h [] => h == n
  | _ => false

def isList : SourceEntry → Bool
  | .named h [_] => h == TypeName.list
  | _ => false

end SourceEntry

namespace SourceType

/-- The type is `n`, alone and without arguments. -/
def isSingleNamed (n : Name) (t : SourceType) : Bool :=
  match t.single? with
  | some e => SourceEntry.isBare n e
  | none => false

/-- A proper union with `n` among its entries. -/
def isUnionMentioning (n : Name) (t : SourceType) : Bool :=
  1 < t.entries.length && t.entries.any (SourceEntry.isBare n)

/-- A list type, or a union of list types only. -/
def isListType (t : SourceType) : Bool :=
  !t.entries.isEmpty && t.entries.all SourceEntry.isList

end SourceType

/-! ### Canonical text -/

/-- The arrow of a function type. -/
def ScopeMode.arrow : ScopeMode → Text
  | .own => ['!', '=', '>']
  | .shared => ['!', '~', '>']
  | .either => ['=', '>']

/-- What a function type writes before its parameters. -/
def FunctionTraits.opening (t : FunctionTraits) : Text :=
  (if t.isPure then ['p', 'u', 'r', 'e'] else [])
    ++ (if t.generics.isEmpty then [] else '[' :: ([','].intercalate t.generics ++ [']']))

mutual

/-- The canonical text of a type. -/
def SourceType.text : SourceType → Text
  | .of es => ['|'].intercalate (SourceEntry.texts es)

def SourceEntry.text : SourceEntry → Text
  | .named h as => h ++ '[' :: ([','].intercalate (SourceType.texts as) ++ [']'])
  | .function t ps r =>
    t.opening
      ++ '(' :: ([','].intercalate (SourceType.texts ps)
        ++ (if t.variadic && !ps.isEmpty then ['.', '.', '.'] else []) ++ [')'])
      ++ t.scope.arrow
      ++ (if 1 < r.entries.length then '(' :: (SourceType.text r ++ [')']) else SourceType.text r)

def SourceEntry.texts : List SourceEntry → List Text
  | [] => []
  | e :: es => SourceEntry.text e :: SourceEntry.texts es

def SourceType.texts : List SourceType → List Text
  | [] => []
  | t :: ts => SourceType.text t :: SourceType.texts ts

end

theorem SourceType.texts_eq_map (ts : List SourceType) :
    SourceType.texts ts = ts.map SourceType.text := by
  induction ts with
  | nil => simp [SourceType.texts]
  | cons t ts ih => simp [SourceType.texts, ih]

theorem SourceEntry.texts_eq_map (es : List SourceEntry) :
    SourceEntry.texts es = es.map SourceEntry.text := by
  induction es with
  | nil => simp [SourceEntry.texts]
  | cons e es ih => simp [SourceEntry.texts, ih]

/-! ### Parameters -/

/-- A named, typed parameter. -/
structure Parameter where
  name : Name
  type : SourceType

namespace Parameter

def text (p : Parameter) : Text := p.name ++ ':' :: SourceType.text p.type

def same (p q : Parameter) : Bool := p.name == q.name && p.type == q.type

end Parameter

end UnionTyping
