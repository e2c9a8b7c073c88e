/-
  UnionTyping/Types/Table.lean
  ============================
  **Tables** — finite maps as lists of pairs, the latest first, with at most one
  pair for a key.  A later entry for a key takes the place of an earlier one
  (`find?_insert`), and the number of pairs is the number of keys.
-/
namespace UnionTyping

/-- A finite map from `κ` to `α`. -/
structure Table (κ α : Type) where
  pairs : List (κ × α) := []
  deriving DecidableEq

namespace Table

variable {κ α : Type} [DecidableEq κ]

def empty : Table κ α := {}

/-- What is entered for `k`. -/
def find? (t : Table κ α) (k : κ) : Option α := t.pairs.lookup k

def contains (t : Table κ α) (k : κ) : Bool := (t.find? k).isSome

/-- Enter `a` for `k`. -/
def insert (t : Table κ α) (k : κ) (a : α) : Table κ α :=
  ⟨(k, a) :: t.pairs.filter fun p => p.1 != k⟩

/-- Enter pairs in their order. -/
def insertAll (t : Table κ α) (ps : List (κ × α)) : Table κ α :=
  ps.foldl (fun t p => t.insert p.1 p.2) t

def ofList (ps : List (κ × α)) : Table κ α := empty.insertAll ps

/-- Keep only the keys that satisfy `p`. -/
def filterKeys (p : κ → Bool) (t : Table κ α) : Table κ α := ⟨t.pairs.filter fun q => p q.1⟩

/-- The number of keys. -/
def size (t : Table κ α) : Nat := t.pairs.length

def isEmpty (t : Table κ α) : Bool := t.pairs.isEmpty

/-- The same keys, with values that are equal under `eq`. -/
def sameBy (eq : α → α → Bool) (t u : Table κ α) : Bool :=
  t.size == u.size && t.pairs.all fun (k, a) =>
    match u.find? k with
    | some b => eq a b
    | none => false

@[simp] theorem find?_empty (k : κ) : (empty : Table κ α).find? k = none := rfl

theorem lookup_filter (p : κ → Bool) (l : List (κ × α)) (k : κ) :
    (l.filter fun q => p q.1).lookup k = if p k then l.lookup k else none := by
  induction l with
  | nil => simp
  | cons q l ih =>
    obtain ⟨j, b⟩ := q
    by_cases hj : k = j
    · subst hj
      by_cases hp : p k = true
      · simp [hp]
      · simp [hp] at ih ⊢
        exact ih
    · have hkj : (k == j) = false := by simpa using hj
      by_cases hp : p j = true
      · simp [hp, List.lookup_cons, hkj, ih]
      · simp [hp, List.lookup_cons, hkj, ih]

theorem find?_insert (t : Table κ α) (k j : κ) (a : α) :
    (t.insert k a).find? j = if j = k then some a else t.find? j := by
  by_cases h : j = k
  · subst h; simp [find?, insert]
  · have hjk : (j == k) = false := by simpa using h
    simp only [find?, insert, List.lookup_cons, hjk, h, if_false]
    rw [lookup_filter (fun i => i != k)]
    simp [h]

theorem forall_insert {P : α → Prop} {t : Table κ α} (h : ∀ j b, t.find? j = some b → P b) (k : κ)
    {a : α} (ha : P a) : ∀ j b, (t.insert k a).find? j = some b → P b := by
  intro j b hj
  rw [find?_insert] at hj
  split at hj
  · obtain rfl := Option.some.inj hj
    exact ha
  · exact h j b hj

theorem forall_ofList {P : α → Prop} {ps : List (κ × α)} (hps : ∀ q ∈ ps, P q.2) :
    ∀ j b, (ofList ps).find? j = some b → P b := by
  have hall : ∀ (ps : List (κ × α)) (t : Table κ α), (∀ q ∈ ps, P q.2) →
      (∀ j b, t.find? j = some b → P b) → ∀ j b, (t.insertAll ps).find? j = some b → P b := by
    intro ps
    induction ps with
    | nil => exact fun t _ ht => ht
    | cons q qs ih =>
      intro t hps ht
      rw [List.forall_mem_cons] at hps
      exact ih _ hps.2 (forall_insert ht q.1 hps.1)
  exact hall ps empty hps fun j b hj => by cases hj

theorem find?_filterKeys (p : κ → Bool) (t : Table κ α) (k : κ) :
    (t.filterKeys p).find? k = if p k then t.find? k else none :=
  lookup_filter p t.pairs k

end Table

end UnionTyping
