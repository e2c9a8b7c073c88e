/-
  UnionTyping/Tree/Node.lean
  ==========================
  **Syntax trees** — what reading an expression gives.  Failure is a tree too:
  `invalid` carries the rejected text, so that a caller may correct it and
  submit it again.

  `Node.same` is equality of trees up to the order of entries in their types;
  numbers are compared as numbers.
-/
import UnionTyping.Number.Double
import UnionTyping.Types.Source

namespace UnionTyping

/-- A lambda without its body. -/
structure LambdaHead where
  generics : List Name
  params : List Parameter
  /-- The declared type of the result, else that of the body. -/
  result : SourceType
  /-- The type of the result is declared. -/
  explicit : Bool
  /-- The body has a scope of its own (`=>`), else it runs in its caller's (`~>`). -/
  ownScope : Bool
  isPure : Bool
  variadic : Bool

namespace LambdaHead

def scope (h : LambdaHead) : ScopeMode := if h.ownScope then .own else .shared

/-- The type of the lambda. -/
def type (h : LambdaHead) : SourceType :=
  .single (.function ⟨h.scope, h.isPure, h.variadic, h.generics⟩ (h.params.map (·.type)) h.result)

/-- Equality place by place. -/
def sameParams : List Parameter → List Parameter → Bool
  | [], [] => true
  | p :: ps, q :: qs => p.same q && sameParams ps qs
  | _, _ => false

def same (h k : LambdaHead) : Bool :=
  h.generics == k.generics && sameParams h.params k.params && h.result == k.result
    && h.explicit == k.explicit && h.ownScope == k.ownScope && h.isPure == k.isPure
    && h.variadic == k.variadic

end LambdaHead

mutual

/-- An expression or a statement. -/
inductive Node where
  | number (value : Double)
  /-- The content, without quotes and escapes. -/
  | string (value : Text)
  /-- `&name`. -/
  | reference (name : Name)
  | list (elements : List Node)
  | lambda (head : LambdaHead) (body : List Node)
  | var (name : Name)
  | call (callee : Node) (arguments : List Node) (generics : List SourceType)
  /-- `parent.name`. -/
  | member (parent : Node) (name : Name)
  /-- `type` is the declared type, else that of the value. -/
  | declaration (constant : Bool) (name : Name) (declared : Option SourceType)
      (type : SourceType) (value : Node)
  | assignment (target : Target) (value : Node)
  | ret (value : Option Node)
  /-- `fragment` is the part of `text` that cannot be read. -/
  | invalid (text fragment reason : Text)

/-- What can be assigned to. -/
inductive Target where
  | var (name : Name)
  /-- `*name`. -/
  | dereference (name : Name)
  | member (parent : Node) (name : Name)

end

namespace Node

/-- The name of the kind of a node. -/
def kind : Node → Text
  | number _ => "number".toList
  | string _ => "string".toList
  | reference _ => "reference".toList
  | list _ => "list".toList
  | lambda .. => "lambda".toList
  | var _ => "variable".toList
  | call .. => "call".toList
  | member .. => "member access".toList
  | declaration .. => "declaration".toList
  | assignment .. => "assignment".toList
  | ret _ => "return".toList
  | invalid .. => "invalid".toList

def isInvalid : Node → Bool
  | invalid .. => true
  | _ => false

/-- Equality of declared types, where there are any. -/
def sameDeclared : Option SourceType → Option SourceType → Bool
  | none, none => true
  | some t, some u => t == u
  | _, _ => false

end Node

mutual

/-- Equality of trees. -/
def Node.same : Node → Node → Bool
  | .number x, .number y => x.same y
  | .string t, .string u => t == u
  | .reference n, .reference m => n == m
  | .list as, .list bs => Node.sameAll as bs
  | .lambda h as, .lambda k bs => h.same k && Node.sameAll as bs
  | .var n, .var m => n == m
  | .call f as gs, .call g bs hs =>
    Node.same f g && Node.sameAll as bs && UnionType.sameAll gs hs
  | .member p n, .member q m => Node.same p q && n == m
  | .declaration c n d t v, .declaration c' n' d' t' v' =>
    c == c' && n == n' && Node.sameDeclared d d' && t == t' && Node.same v v'
  | .assignment t v, .assignment u w => Target.same t u && Node.same v w
  | .ret none, .ret none => true
  | .ret (some v), .ret (some w) => Node.same v w
  | .invalid t f r, .invalid t' f' r' => t == t' && f == f' && r == r'
  | _, _ => false

def Target.same : Target → Target → Bool
  | .var n, .var m => n == m
  | .dereference n, .dereference m => n == m
  | .member p n, .member q m => Node.same p q && n == m
  | _, _ => false

/-- Equality place by place. -/
def Node.sameAll : List Node → List Node → Bool
  | [], [] => true
  | a :: as, b :: bs => Node.same a b && Node.sameAll as bs
  | _, _ => false

end

end UnionTyping
