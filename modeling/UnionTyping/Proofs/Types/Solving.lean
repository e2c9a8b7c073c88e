/-
  UnionTyping/Proofs/Types/Solving.lean
  =====================================
  **Generics have least solutions** — the slots of a generic are the places of a
  signature where it stands on its own, each with the type that a call brings
  there (`Slot`).  A call has a solution exactly if nothing in it is ambiguous
  and every generic has a slot with something in it, and the solution is then
  the least list of types that covers all slots (`least_solution`): it covers
  them, and any list of types that does covers it.
-/
import UnionTyping.Proofs.Types.Covering
import UnionTyping.Proofs.Types.NormalForm

namespace UnionTyping

open UnionType

/-! ### Slots -/

namespace SourceType

theorem isSingleNamed_iff {n : Name} {t : SourceType} : isSingleNamed n t = true ↔ t = .bare n := by
  rcases t with ⟨_ | ⟨⟨m, _ | ⟨a, as⟩⟩ | ⟨f, ps, r⟩, _ | ⟨d, es⟩⟩⟩ <;>
    simp [isSingleNamed, single?, SourceEntry.isBare, bare, UnionType.named, single]

theorem isUnionMentioning_iff {n : Name} {t : SourceType} :
    isUnionMentioning n t = true ↔ 1 < t.entries.length ∧ Entry.named n [] ∈ t.entries := by
  have hbare (e : SourceEntry) : SourceEntry.isBare n e = true ↔ e = .named n [] := by
    rcases e with ⟨m, _ | ⟨a, as⟩⟩ | ⟨f, ps, r⟩ <;> simp [SourceEntry.isBare]
  simp [isUnionMentioning, hbare]

end SourceType

namespace Generics

section

variable {generics : List Name} {g : Name} {params actual : List SourceType}
  {result expected : SourceType}

/-- In a call, `t` stands where the signature has `g` on its own: as the argument
    of a parameter, or as the expected result. -/
inductive Slot (params : List SourceType) (result : SourceType) (actual : List SourceType)
    (expected : SourceType) (g : Name) : SourceType → Prop
  | param {i : Nat} {t : SourceType} :
      params[i]? = some (.bare g) → actual[i]? = some t → Slot params result actual expected g t
  | result : result = .bare g → Slot params result actual expected g expected

theorem mem_occurrences_iff {t : SourceType} :
    t ∈ occurrences g params result actual expected ↔ Slot params result actual expected g t := by
  have hresult : t ∈ (if SourceType.isSingleNamed g result then [expected] else [])
      ↔ result = UnionType.bare g ∧ t = expected := by
    rw [← SourceType.isSingleNamed_iff]
    split <;> simp_all
  rw [occurrences, List.mem_append, hresult, List.mem_filterMap]
  simp only [Prod.exists, Option.ite_none_right_eq_some, Option.some.injEq,
    SourceType.isSingleNamed_iff]
  constructor
  · rintro (⟨p, a, hmem, rfl, rfl⟩ | ⟨hr, rfl⟩)
    · obtain ⟨i, hi⟩ := List.mem_iff_getElem?.1 hmem
      obtain ⟨hp, ha⟩ := List.getElem?_zip_eq_some.1 hi
      exact .param hp ha
    · exact .result hr
  · rintro (⟨hp, ha⟩ | hr)
    · refine Or.inl ⟨_, t, ?_, rfl, rfl⟩
      exact List.mem_of_getElem? (List.getElem?_zip_eq_some.2 ⟨hp, ha⟩)
    · exact Or.inr ⟨hr, rfl⟩

theorem mem_of_slot {t : SourceType} (h : Slot params result actual expected g t) :
    t ∈ actual ∨ t = expected := mem_occurrences (mem_occurrences_iff.2 h)

/-- Each slot of a generic adds nothing to the type in its place. -/
def Covers (generics : List Name) (params : List SourceType) (result : SourceType)
    (actual : List SourceType) (expected : SourceType) (types : List SourceType) : Prop :=
  ∀ (i : Nat) g t, generics[i]? = some g → Slot params result actual expected g t →
    ∃ u, types[i]? = some u ∧ (t.union u == u) = true

/-! ### Solutions -/

/-- The union of what is found for a generic. -/
def found (params : List SourceType) (result : SourceType) (actual : List SourceType)
    (expected : SourceType) (g : Name) : SourceType :=
  unionAll (occurrences g params result actual expected)

theorem ambiguity?_eq_none_iff {types : List SourceType} :
    ambiguity? generics types = none
      ↔ ∀ g ∈ generics, ∀ t ∈ types, ¬(1 < t.entries.length ∧ Entry.named g [] ∈ t.entries) := by
  simp only [ambiguity?, List.findSome?_eq_none_iff, Option.map_eq_none_iff, List.find?_eq_none,
    SourceType.isUnionMentioning_iff]

theorem solve_eq_ok_iff {t : SourceType} :
    (solve g params result actual expected).result = .ok t
      ↔ found params result actual expected g = t ∧ t ≠ .base := by
  simp only [solve, found]
  split
  · next h =>
    constructor
    · intro hfail
      cases hfail
    · rintro ⟨rfl, hne⟩
      exact absurd (isBase_iff.1 h) hne
  · next h =>
    rw [isBase_iff] at h
    constructor
    · intro hok
      obtain rfl := Except.ok.inj hok
      exact ⟨rfl, h⟩
    · rintro ⟨rfl, _⟩
      rfl

/-- A call's solution is what is found for each generic. -/
theorem assign_eq_ok_iff {types : List SourceType} :
    (assign generics params result actual expected).result = .ok types
      ↔ (∀ g ∈ generics, ∀ t ∈ actual ++ [result],
          ¬(1 < t.entries.length ∧ Entry.named g [] ∈ t.entries))
        ∧ (∀ g ∈ generics, found params result actual expected g ≠ .base)
        ∧ types = generics.map (found params result actual expected) := by
  rw [← ambiguity?_eq_none_iff, assign]
  cases ambiguity? generics (actual ++ [result]) with
  | some gt => simp
  | none =>
    simp only [Traced.result_mapM, mapM_eq_ok_iff, solve_eq_ok_iff, true_and]
    constructor
    · intro h
      induction h with
      | nil => exact ⟨List.forall_mem_nil _, rfl⟩
      | cons h _ ih =>
        obtain ⟨rfl, hne⟩ := h
        exact ⟨List.forall_mem_cons.2 ⟨hne, ih.1⟩, by rw [ih.2, List.map_cons]⟩
    · rintro ⟨hne, rfl⟩
      rw [List.forall₂_map_right_iff]
      exact List.forall₂_same.2 fun g hg => ⟨rfl, hne g hg⟩

theorem found_ne_base_iff :
    found params result actual expected g ≠ .base
      ↔ ∃ t, Slot params result actual expected g t ∧ t ≠ .base := by
  have hunion : found params result actual expected g = .base
      ↔ ∀ t, Slot params result actual expected g t → t = .base := by
    simp only [found, unionAll_eq_base_iff, mem_occurrences_iff]
  rw [ne_eq, hunion]
  simp

theorem length_of_assign {types : List SourceType}
    (h : (assign generics params result actual expected).result = .ok types) :
    types.length = generics.length := by
  rw [(assign_eq_ok_iff.1 h).2.2, List.length_map]

section

variable (hactual : ∀ t ∈ actual, t.Normalized) (hexpected : expected.Normalized)
include hactual hexpected

theorem regular_of_slot {t : SourceType} (h : Slot params result actual expected g t) :
    t.Regular := by
  rcases mem_of_slot h with ht | rfl
  · exact regular_of_normal (normalized_iff.1 (hactual t ht))
  · exact regular_of_normal (normalized_iff.1 hexpected)

theorem regular_of_mem_occurrences :
    ∀ t ∈ occurrences g params result actual expected, t.Regular :=
  fun _ ht => regular_of_slot hactual hexpected (mem_occurrences_iff.1 ht)

theorem covers_of_assign {types : List SourceType}
    (h : (assign generics params result actual expected).result = .ok types) :
    Covers generics params result actual expected types := by
  obtain ⟨_, _, rfl⟩ := assign_eq_ok_iff.1 h
  intro i g t hg hslot
  refine ⟨_, by rw [List.getElem?_map, hg, Option.map_some], ?_⟩
  exact within_unionAll (regular_of_mem_occurrences hactual hexpected)
    (mem_occurrences_iff.2 hslot)

/-- What covers all slots covers the solution. -/
theorem assign_least {types others : List SourceType}
    (h : (assign generics params result actual expected).result = .ok types)
    (hothers : Covers generics params result actual expected others) {i : Nat} {b : SourceType}
    (hb : types[i]? = some b) : ∃ o, others[i]? = some o ∧ (b.union o == o) = true := by
  obtain ⟨_, hne, rfl⟩ := assign_eq_ok_iff.1 h
  rw [List.getElem?_map, Option.map_eq_some_iff] at hb
  obtain ⟨g, hg, rfl⟩ := hb
  obtain ⟨t, hslot, _⟩ := found_ne_base_iff.1 (hne g (List.mem_of_getElem? hg))
  obtain ⟨o, ho, _⟩ := hothers i g t hg hslot
  refine ⟨o, ho, Within.unionAll (regular_of_mem_occurrences hactual hexpected) fun u hu => ?_⟩
  obtain ⟨o', ho', hcovered⟩ := hothers i g u hg (mem_occurrences_iff.1 hu)
  obtain rfl : o = o' := Option.some.inj (ho.symm.trans ho')
  exact hcovered

/-- For a call with normalized types, solving succeeds exactly if no proper union
    among the arguments' types and the declared result mentions a generic and
    every generic has a slot with something in it.  The solution then has one type
    for each generic, covers all slots, and adds nothing to any types that cover
    all slots. -/
theorem least_solution :
    ((∃ types, (assign generics params result actual expected).result = .ok types)
      ↔ (∀ g ∈ generics, ∀ t, t ∈ actual ∨ t = result →
          ¬(1 < t.entries.length ∧ Entry.named g [] ∈ t.entries))
        ∧ ∀ g ∈ generics, ∃ t, Slot params result actual expected g t ∧ t ≠ .base)
      ∧ ∀ types, (assign generics params result actual expected).result = .ok types →
        types.length = generics.length
          ∧ Covers generics params result actual expected types
          ∧ ∀ others, Covers generics params result actual expected others →
            ∀ (i : Nat) b, types[i]? = some b →
              ∃ o, others[i]? = some o ∧ (b.union o == o) = true := by
  refine ⟨?_, fun types h => ⟨length_of_assign h, covers_of_assign hactual hexpected h,
    fun others hothers i b => assign_least hactual hexpected h hothers⟩⟩
  simp only [assign_eq_ok_iff, found_ne_base_iff, List.mem_append, List.mem_singleton]
  constructor
  · rintro ⟨types, hclear, hslots, _⟩
    exact ⟨hclear, hslots⟩
  · rintro ⟨hclear, hslots⟩
    exact ⟨_, hclear, hslots, rfl⟩

end

end

/-- Two arguments meet in one list, and the expected result joins an argument. -/
theorem least_solution_list :
    let params : List SourceType := [.bare ['T'], .bare ['U'], .bare ['T']]
    let actual : List SourceType := [.list .number, .string, .list .string]
    let types : List SourceType :=
      [.list (SourceType.number.union SourceType.string), SourceType.string.union SourceType.number]
    (∀ t ∈ actual, t.Normalized) ∧ SourceType.number.Normalized
      ∧ (assign [['T'], ['U']] params (.bare ['U']) actual .number).result = .ok types
      ∧ types.length = 2 ∧ Covers [['T'], ['U']] params (.bare ['U']) actual .number types
      ∧ ∀ others, Covers [['T'], ['U']] params (.bare ['U']) actual .number others →
        ∀ (i : Nat) b, types[i]? = some b →
          ∃ o, others[i]? = some o ∧ (b.union o == o) = true := by
  intro params actual types
  have hbare (n : Name) : (UnionType.bare n).Normalized :=
    normalized_iff.2 (each_bare lasting_settled n)
  have hlist (n : Name) : (SourceType.list (UnionType.bare n)).Normalized :=
    normalized_iff.2 (each_named lasting_settled (each_bare lasting_settled n))
  have hactual : ∀ t ∈ actual, t.Normalized := by
    rw [List.forall_mem_cons, List.forall_mem_cons, List.forall_mem_singleton]
    exact ⟨hlist _, hbare _, hlist _⟩
  have hok : (assign [['T'], ['U']] params (.bare ['U']) actual .number).result = .ok types := by
    dsimp only [params, actual, types]
    cbv
  exact ⟨hactual, hbare _, hok, (least_solution hactual (hbare _)).2 types hok⟩

end Generics

end UnionTyping
