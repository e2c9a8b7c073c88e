/-
  UnionTyping/Types/Union.lean
  ============================
  **Union types** — a type is a list of entries, read as their union.  An entry
  is a named type with arguments or a function type.  The names are taken from a
  vocabulary `ν`, so that the types as they are written and the types a runtime
  works with share one algebra.

  `union` keeps the entries in the order in which they came and normalizes as it
  goes: an entry that is already there is dropped; a one-argument type meets
  another of its name by uniting the arguments, and a function meets another of
  its signature by uniting the results; anything else is appended.  The
  universal type absorbs every other, and the empty union, `base`, is the unit.

  `same` is equality without the order of entries: as many entries, and each of
  the one among those of the other.
-/
import UnionTyping.Text.Basic

namespace UnionTyping

/-- Which scope a function runs its body in. -/
inductive ScopeMode where
  /-- It has to bring its own (`!=>`). -/
  | own
  /-- It has to run in its caller's (`!~>`). -/
  | shared
  /-- Both will do. -/
  | either
  deriving DecidableEq, Repr

/-- What a function type says besides its parameters and its result. -/
structure FunctionTraits where
  scope : ScopeMode
  isPure : Bool
  /-- The last parameter collects the remaining arguments. -/
  variadic : Bool
  generics : List Name
  deriving DecidableEq

/-- A vocabulary of type names with a universal one. -/
class Vocabulary (ν : Type) where
  any : ν
  isAny : ν → Bool
  isAny_any : isAny any = true

mutual

/-- A type: the union of its entries. -/
inductive UnionType (ν : Type) where
  | of (entries : List (Entry ν))

/-- One member of a union. -/
inductive Entry (ν : Type) where
  | named (head : ν) (arguments : List (UnionType ν))
  | function (traits : FunctionTraits) (params : List (UnionType ν))
      (result : UnionType ν)

end

variable {ν : Type}

namespace UnionType

def entries : UnionType ν → List (Entry ν)
  | of es => es

@[simp] theorem entries_of (es : List (Entry ν)) : (of es).entries = es := rfl

@[simp] theorem of_entries (t : UnionType ν) : of t.entries = t := by cases t; rfl

/-- The union of nothing. -/
def base : UnionType ν := of []

def single (e : Entry ν) : UnionType ν := of [e]

/-- A named type. -/
def named (head : ν) (arguments : List (UnionType ν)) : UnionType ν :=
  single (.named head arguments)

/-- A name on its own. -/
def bare (head : ν) : UnionType ν := named head []

/-- The universal type. -/
def any [Vocabulary ν] : UnionType ν := bare Vocabulary.any

def isBase (t : UnionType ν) : Bool := t.entries.isEmpty

/-- The only entry of a type that is no proper union. -/
def single? (t : UnionType ν) : Option (Entry ν) :=
  match t.entries with
  | [e] => some e
  | _ => none

end UnionType

/-- The universal name, on its own. -/
def Entry.isAny [Vocabulary ν] : Entry ν → Bool
  | .named h [] => Vocabulary.isAny h
  | _ => false

/-- The universal name is among the entries. -/
def UnionType.isAny [Vocabulary ν] (t : UnionType ν) : Bool := t.entries.any Entry.isAny

/-! ### Equality -/

variable [DecidableEq ν]

mutual

/-- Equality of types: the order of entries does not matter. -/
def UnionType.same : UnionType ν → UnionType ν → Bool
  | .of es, .of fs => es.length == fs.length && Entry.allAmong es fs

/-- Each of the first entries is one of the second. -/
def Entry.allAmong : List (Entry ν) → List (Entry ν) → Bool
  | [], _ => true
  | e :: es, fs => fs.any (fun f => Entry.same e f) && Entry.allAmong es fs

def Entry.same : Entry ν → Entry ν → Bool
  | .named h as, .named k bs => h == k && UnionType.sameAll as bs
  | .function t ps r, .function u qs s => t == u && UnionType.sameAll ps qs && UnionType.same r s
  | _, _ => false

/-- Equality place by place. -/
def UnionType.sameAll : List (UnionType ν) → List (UnionType ν) → Bool
  | [], [] => true
  | a :: as, b :: bs => UnionType.same a b && UnionType.sameAll as bs
  | _, _ => false

end

instance : BEq (UnionType ν) := ⟨UnionType.same⟩

instance : BEq (Entry ν) := ⟨Entry.same⟩

/-! ### Union -/

/-- Put the first value that `f` gives in the place of its argument. -/
def replaceFirst? {α : Type} (f : α → Option α) : List α → Option (List α)
  | [] => none
  | a :: as =>
    match f a with
    | some b => some (b :: as)
    | none => (replaceFirst? f as).map (a :: ·)

/-- Add `e` to entries: drop it if it is there, else merge it with the first
    that it meets, else append it. -/
def Entry.insertWith (merge : Entry ν → Option (Entry ν)) (es : List (Entry ν)) (e : Entry ν) :
    List (Entry ν) :=
  if es.any (fun d => d.same e) then es else (replaceFirst? merge es).getD (es ++ [e])

variable [Vocabulary ν]

mutual

/-- The union of two types. -/
def UnionType.union : UnionType ν → UnionType ν → UnionType ν
  | a, .of fs =>
    if a.isBase then .of fs
    else if fs.isEmpty then a
    else if a.isAny || fs.any Entry.isAny then .any
    else .of (Entry.insertAll a.entries fs)

/-- Add entries one by one. -/
def Entry.insertAll : List (Entry ν) → List (Entry ν) → List (Entry ν)
  | es, [] => es
  | es, f :: fs => Entry.insertAll (Entry.insertWith (fun e => Entry.merge e f) es f) fs

/-- The one entry that stands for both, if they meet. -/
def Entry.merge : Entry ν → Entry ν → Option (Entry ν)
  | .named h [a], .named k [b] => if h = k then some (.named h [UnionType.union a b]) else none
  | .function t ps r, .function u qs s =>
    if t = u ∧ UnionType.sameAll ps qs then some (.function t ps (UnionType.union r s)) else none
  | _, _ => none

end

/-- The entry added to the entries of a type that is neither empty nor universal. -/
def Entry.insert (es : List (Entry ν)) (e : Entry ν) : List (Entry ν) :=
  Entry.insertWith (fun d => d.merge e) es e

theorem Entry.insertAll_eq_foldl (es fs : List (Entry ν)) :
    Entry.insertAll es fs = fs.foldl Entry.insert es := by
  induction fs generalizing es with
  | nil => simp [Entry.insertAll]
  | cons f fs ih => simp only [Entry.insertAll, List.foldl_cons, ih]; rfl

namespace UnionType

/-- The union of a list of types, from the left. -/
def unionAll (ts : List (UnionType ν)) : UnionType ν := ts.foldl union base

/-- The union of arbitrary entries. -/
def ofEntries (es : List (Entry ν)) : UnionType ν := unionAll (es.map single)

@[simp] theorem base_union (t : UnionType ν) : base.union t = t := by
  cases t; simp [union, base, isBase]

@[simp] theorem union_base (t : UnionType ν) : t.union base = t := by
  rcases t with ⟨es⟩
  simp only [union, base, List.isEmpty_nil, if_true]
  split
  · next h => simp only [isBase, entries_of, List.isEmpty_iff] at h; rw [h]
  · rfl

end UnionType

end UnionTyping
