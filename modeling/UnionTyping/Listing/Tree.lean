/-
  UnionTyping/Listing/Tree.lean
  =============================
  **Listings of trees and types.**  Every kind of node is a named value around a
  record of its parts.
-/
import UnionTyping.Listing.Basic
import UnionTyping.Number.Writing
import UnionTyping.Tree.Node

namespace UnionTyping

open Listing

/-! ### Types -/

def ScopeMode.listing : ScopeMode → Listing
  | .own => .atom "ForceEnvironment".toList
  | .shared => .atom "ForceNoEnvironment".toList
  | .either => .atom "AllowAny".toList

mutual

def SourceType.listing : SourceType → Listing
  | .of es => .record "AstType".toList [("entries".toList, .list (SourceEntry.listings es))]

def SourceEntry.listing : SourceEntry → Listing
  | .named h as => .wrapped "Named".toList <| .record "NamedEntry".toList
    [("name".toList, quoted h), ("generics".toList, .list (SourceType.listings as))]
  | .function t ps r => .wrapped "Function".toList <| .record "FunctionEntry".toList
    [("return_type".toList, SourceType.listing r),
     ("params".toList, .list (SourceType.listings ps)),
     ("environment".toList, t.scope.listing),
     ("pure".toList, bool t.isPure),
     ("varargs".toList, bool t.variadic),
     ("generic_names".toList, .list (t.generics.map quoted))]

def SourceEntry.listings : List SourceEntry → List Listing
  | [] => []
  | e :: es => SourceEntry.listing e :: SourceEntry.listings es

def SourceType.listings : List SourceType → List Listing
  | [] => []
  | t :: ts => SourceType.listing t :: SourceType.listings ts

end

def Parameter.listing (p : Parameter) : Listing :=
  .record "Parameter".toList [("name".toList, quoted p.name), ("ty".toList, SourceType.listing p.type)]

/-! ### Trees -/

/-- A record of the same name as the value around it. -/
private def twice (name : String) (fields : List (Text × Listing)) : Listing :=
  .wrapped name.toList (.record name.toList fields)

/-- A record whose name says that it is a literal. -/
private def literal (name : String) (fields : List (Text × Listing)) : Listing :=
  .wrapped name.toList (.record (name.toList ++ "Literal".toList) fields)

/-- A lambda with the listing of its body. -/
def LambdaHead.listing (h : LambdaHead) (body : Listing) : Listing :=
  twice "Lambda"
    [("generics".toList, .list (h.generics.map quoted)),
     ("params".toList, .list (h.params.map Parameter.listing)),
     ("return_type".toList, SourceType.listing h.result),
     ("explicit_return".toList, bool h.explicit),
     ("creates_env".toList, bool h.ownScope),
     ("pure".toList, bool h.isPure),
     ("varargs".toList, bool h.variadic),
     ("body".toList, body)]

/-- A member with the listing of its parent. -/
def memberListing (parent : Listing) (name : Name) : Listing :=
  .wrapped "Member".toList <| .record "MemberAccess".toList
    [("parent".toList, parent), ("name".toList, quoted name)]

mutual

def Node.listing : Node → Listing
  | .number x => literal "Number" [("value".toList, .atom x.listing)]
  | .string t => literal "String" [("value".toList, quoted t)]
  | .reference n => literal "Reference" [("name".toList, quoted n)]
  | .list es => literal "List" [("elements".toList, .list (Node.listings es))]
  | .lambda h body => h.listing (.list (Node.listings body))
  | .var n => twice "Variable" [("name".toList, quoted n)]
  | .call f as gs => twice "Call"
    [("callee".toList, Node.listing f), ("args".toList, .list (Node.listings as)),
     ("generics".toList, .list (SourceType.listings gs))]
  | .member p n => memberListing (Node.listing p) n
  | .declaration c n d t v => twice "Declaration"
    [("constant".toList, bool c), ("name".toList, quoted n),
     ("declared".toList, option (d.map SourceType.listing)),
     ("ty".toList, SourceType.listing t), ("value".toList, Node.listing v)]
  | .assignment t v => twice "Assignment"
    [("target".toList, Target.listing t), ("value".toList, Node.listing v)]
  | .ret none => twice "Return" [("value".toList, option none)]
  | .ret (some v) => twice "Return" [("value".toList, option (some (Node.listing v)))]
  | .invalid t f r => twice "Invalid"
    [("text".toList, quoted t), ("fragment".toList, quoted f), ("reason".toList, quoted r)]

def Target.listing : Target → Listing
  | .var n => .wrapped "Variable".toList (quoted n)
  | .dereference n => .wrapped "Dereference".toList (quoted n)
  | .member p n => memberListing (Node.listing p) n

def Node.listings : List Node → List Listing
  | [] => []
  | n :: ns => Node.listing n :: Node.listings ns

end

end UnionTyping
