/-
  UnionTyping/Proofs/Types/Tables.lean
  ====================================
  **Two tables side by side** — tables are related if for each key their values
  are (`Table.Related`).  Entering related values and leaving out keys keeps that.
  Equality of tables compares the numbers of keys and looks only from left to
  right.  Where no key has two pairs this is as good as looking up every key
  (`Table.sameBy_iff_related`).
-/
import Mathlib.Data.List.Forall2
import Mathlib.Data.List.Nodup
import Mathlib.Data.List.Perm.Subperm
import UnionTyping.Types.Table

namespace UnionTyping

namespace Table

variable {κ α β : Type} [DecidableEq κ]

/-! ### Keys -/

def keys (t : Table κ α) : List κ := t.pairs.map Prod.fst

/-- No key has two pairs. -/
def Keyed (t : Table κ α) : Prop := t.keys.Nodup

instance (t : Table κ α) : Decidable t.Keyed := inferInstanceAs (Decidable (List.Nodup _))

theorem Keyed.insert {t : Table κ α} (h : t.Keyed) (k : κ) (a : α) : (t.insert k a).Keyed := by
  refine List.nodup_cons.2 ⟨?_, h.sublist (List.filter_sublist.map _)⟩
  intro hk
  obtain ⟨p, hp, hpk⟩ := List.mem_map.1 hk
  simpa [hpk] using (List.mem_filter.1 hp).2

theorem Keyed.insertAll {t : Table κ α} (h : t.Keyed) (ps : List (κ × α)) :
    (t.insertAll ps).Keyed := by
  induction ps generalizing t with
  | nil => exact h
  | cons p ps ih => exact ih (h.insert p.1 p.2)

theorem mem_keys_iff {t : Table κ α} {k : κ} : k ∈ t.keys ↔ ∃ a, t.find? k = some a := by
  rw [← Option.isSome_iff_exists, find?, List.lookup_isSome_iff, keys, List.mem_map]
  simp only [beq_iff_eq, @eq_comm _ k]

theorem mem_pairs_of_find? {t : Table κ α} {k : κ} {a : α} (h : t.find? k = some a) :
    (k, a) ∈ t.pairs := by
  obtain ⟨l, r, he, _⟩ := List.lookup_eq_some_iff.1 h
  rw [he]
  exact List.mem_append_right l (List.mem_cons_self ..)

theorem find?_of_mem_pairs {t : Table κ α} (h : t.Keyed) {k : κ} {a : α}
    (hk : (k, a) ∈ t.pairs) : t.find? k = some a := by
  obtain ⟨l, r, he⟩ := List.append_of_mem hk
  refine List.lookup_eq_some_iff.2 ⟨l, r, he, fun p hp => bne_iff_ne.2 ?_⟩
  rintro rfl
  rw [Keyed, keys, he, List.map_append, List.map_cons] at h
  exact List.disjoint_of_nodup_append h (List.mem_map_of_mem hp) (List.mem_cons_self ..)

theorem find?_insertAll_of_ne {ps : List (κ × α)} {k : κ} (h : ∀ p ∈ ps, k ≠ p.1)
    (t : Table κ α) : (t.insertAll ps).find? k = t.find? k := by
  induction ps generalizing t with
  | nil => rfl
  | cons p ps ih =>
    rw [List.forall_mem_cons] at h
    rw [insertAll, List.foldl_cons, ← insertAll, ih h.2, find?_insert, if_neg h.1]

/-! ### Related tables -/

/-- Each key has related values in both tables, or none in either. -/
def Related (R : α → β → Prop) (t : Table κ α) (u : Table κ β) : Prop :=
  ∀ k, Option.Rel R (t.find? k) (u.find? k)

section

variable {R : α → β → Prop} {t : Table κ α} {u : Table κ β}

theorem related_empty : Related R (empty : Table κ α) (empty : Table κ β) := fun _ => .none

theorem Related.imp {S : α → β → Prop} (h : Related R t u)
    (hS : ∀ k a b, t.find? k = some a → u.find? k = some b → R a b → S a b) : Related S t u := by
  intro k
  have hk := h k
  rcases ha : t.find? k with _ | a <;> rcases hb : u.find? k with _ | b <;> rw [ha, hb] at hk
  · exact .none
  · cases hk
  · cases hk
  · cases hk with
    | some hr => exact .some (hS k a b ha hb hr)

theorem Related.of_some_left (h : Related R t u) {k : κ} {a : α} (ha : t.find? k = some a) :
    ∃ b, u.find? k = some b ∧ R a b := by
  have hk := h k
  rw [ha] at hk
  generalize u.find? k = o at hk ⊢
  cases hk with
  | some hr => exact ⟨_, rfl, hr⟩

theorem Related.of_some_right (h : Related R t u) {k : κ} {b : β} (hb : u.find? k = some b) :
    ∃ a, t.find? k = some a ∧ R a b := by
  have hk := h k
  rw [hb] at hk
  generalize t.find? k = o at hk ⊢
  cases hk with
  | some hr => exact ⟨_, rfl, hr⟩

theorem Related.insert (h : Related R t u) (k : κ) {a : α} {b : β} (hab : R a b) :
    Related R (t.insert k a) (u.insert k b) := by
  intro j
  rw [find?_insert, find?_insert]
  split
  · exact .some hab
  · exact h j

theorem Related.insertAll_zip (h : Related R t u) (ks : List κ) {as : List α} {bs : List β}
    (hab : List.Forall₂ R as bs) :
    Related R (t.insertAll (ks.zip as)) (u.insertAll (ks.zip bs)) := by
  induction hab generalizing ks t u with
  | nil => cases ks <;> exact h
  | cons hr _ ih =>
    cases ks with
    | nil => exact h
    | cons k ks => exact ih (h.insert k hr) ks

theorem Related.filterKeys (h : Related R t u) (p : κ → Bool) :
    Related R (t.filterKeys p) (u.filterKeys p) := by
  intro k
  rw [find?_filterKeys, find?_filterKeys]
  split
  · exact h k
  · exact .none

theorem Related.mem_keys_iff (h : Related R t u) {k : κ} : k ∈ t.keys ↔ k ∈ u.keys := by
  rw [Table.mem_keys_iff, Table.mem_keys_iff]
  constructor
  · rintro ⟨a, ha⟩
    exact (h.of_some_left ha).imp fun b hb => hb.1
  · rintro ⟨b, hb⟩
    exact (h.of_some_right hb).imp fun a ha => ha.1

theorem Related.isEmpty_eq (h : Related R t u) : t.isEmpty = u.isEmpty := by
  have hempty {γ : Type} (v : Table κ γ) : v.isEmpty = true ↔ ∀ k, k ∉ v.keys := by
    rw [isEmpty, List.isEmpty_iff, keys, ← List.eq_nil_iff_forall_not_mem, List.map_eq_nil_iff]
  rw [Bool.eq_iff_iff, hempty, hempty]
  exact forall_congr' fun k => not_congr h.mem_keys_iff

end

/-- The first key list goes into the second; if it is as long, it is all of it. -/
theorem sameBy_iff_related {eq : α → α → Bool} {t u : Table κ α} (ht : t.Keyed) (hu : u.Keyed) :
    t.sameBy eq u = true ↔ Related (fun a b => eq a b = true) t u := by
  have hlength (v : Table κ α) : v.size = v.keys.length := (List.length_map _).symm
  simp only [sameBy, Bool.and_eq_true, beq_iff_eq, List.all_eq_true, hlength, Prod.forall]
  constructor
  · rintro ⟨hlen, hall⟩ k
    have hfind {k : κ} {a : α} (ha : t.find? k = some a) :
        ∃ b, u.find? k = some b ∧ eq a b = true := by
      have hk := hall k a (mem_pairs_of_find? ha)
      split at hk
      · next b hb => exact ⟨b, hb, hk⟩
      · cases hk
    have hsub : t.keys ⊆ u.keys := by
      intro j hj
      obtain ⟨a, ha⟩ := mem_keys_iff.1 hj
      obtain ⟨b, hb, _⟩ := hfind ha
      exact mem_keys_iff.2 ⟨b, hb⟩
    have hperm : t.keys.Perm u.keys :=
      (List.subperm_of_subset ht hsub).perm_of_length_le (Nat.le_of_eq hlen.symm)
    rcases ha : t.find? k with _ | a
    · rcases hb : u.find? k with _ | b
      · exact .none
      · obtain ⟨a, ha'⟩ := mem_keys_iff.1 (hperm.mem_iff.2 (mem_keys_iff.2 ⟨b, hb⟩))
        rw [ha] at ha'
        cases ha'
    · obtain ⟨b, hb, hab⟩ := hfind ha
      rw [hb]
      exact .some hab
  · intro h
    have hperm : t.keys.Perm u.keys :=
      (List.perm_ext_iff_of_nodup ht hu).2 fun k => h.mem_keys_iff
    refine ⟨hperm.length_eq, fun k a hk => ?_⟩
    obtain ⟨b, hb, hab⟩ := h.of_some_left (find?_of_mem_pairs ht hk)
    rw [hb]
    exact hab

end Table

end UnionTyping
