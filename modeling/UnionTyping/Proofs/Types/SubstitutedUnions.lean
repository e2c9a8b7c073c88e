/-
  UnionTyping/Proofs/Types/SubstitutedUnions.lean
  ===============================================
  **Substituting in unions** — a substitution is applied to each entry of a type,
  and the images are united again, which makes it a translation of types into types
  (`replacement`).  So it is a homomorphism of unions: whether entries meet before
  they are replaced or after makes no difference (`apply_homomorphism`).

  A substitution without names leaves a type as it is and does not unite the entries
  again.  On a settled type that comes to the same (`apply_of_settled`), so that the
  case need not be told apart.
-/
import UnionTyping.Proofs.Types.NormalForm
import UnionTyping.Proofs.Types.Tables
import UnionTyping.Proofs.Types.Translation

namespace UnionTyping

open UnionType

namespace Substitution

variable {s : Substitution}

/-! ### One entry -/

theorem apply_of_isEmpty (h : s.isEmpty = true) (t : SourceType) : s.apply t = t := by
  obtain ⟨es⟩ := t
  rw [apply, if_pos h]

theorem find?_of_isEmpty (h : s.isEmpty = true) (n : Name) : s.find? n = none := by
  rw [Table.find?, List.isEmpty_iff.1 h]
  rfl

theorem find?_ofBindings_of_not_mem {names : List Name} {n : Name} (h : n ∉ names)
    (types : List SourceType) : (ofBindings names types).find? n = none := by
  rw [ofBindings, Table.ofList, Table.find?_insertAll_of_ne, Table.find?_empty]
  rintro p hp rfl
  exact h (List.of_mem_zip hp).1

theorem isEmpty_without (h : s.isEmpty = true) (names : List Name) :
    (s.without names).isEmpty = true := by
  rw [Table.isEmpty, without, Table.filterKeys, List.isEmpty_iff.1 h]
  rfl

theorem map_apply_of_isEmpty (h : s.isEmpty = true) (ts : List SourceType) :
    ts.map s.apply = ts := by
  rw [List.map_congr_left fun t _ => apply_of_isEmpty h t, List.map_id']

/-- A single entry is what it becomes. -/
theorem apply_single (s : Substitution) (e : SourceEntry) :
    s.apply (.single e) = s.applyEntry e := by
  cases h : s.isEmpty with
  | false =>
    rw [UnionType.single, apply, h, if_neg Bool.false_ne_true, applyEntries_eq_map,
      List.map_singleton, unionAll, List.foldl_cons, List.foldl_nil, base_union]
  | true =>
    rw [apply_of_isEmpty h]
    rcases e with ⟨n, _ | ⟨a, as⟩⟩ | ⟨t, ps, r⟩
    · rw [applyEntry, find?_of_isEmpty h]
      rfl
    · rw [applyEntry, applyAll_eq_map, apply_of_isEmpty h, map_apply_of_isEmpty h]
      rfl
    · have hinner := isEmpty_without h t.generics
      rw [applyEntry, applyAll_eq_map, apply_of_isEmpty hinner, map_apply_of_isEmpty hinner]

theorem apply_bare (s : Substitution) (n : Name) :
    s.apply (.bare n) = (s.find? n).getD (.bare n) := by
  rw [bare, named, apply_single, applyEntry]
  rfl

theorem apply_named (s : Substitution) (n : Name) (a : SourceType) (as : List SourceType) :
    s.apply (.named n (a :: as)) = .named n ((a :: as).map s.apply) := by
  rw [named, apply_single, applyEntry, applyAll_eq_map, List.map_cons]

theorem apply_function (s : Substitution) (t : FunctionTraits) (ps : List SourceType)
    (r : SourceType) : s.apply (.single (.function t ps r))
      = .single (.function t (ps.map (s.without t.generics).apply) ((s.without t.generics).apply r)) := by
  rw [apply_single, applyEntry, applyAll_eq_map]

/-- Settled entries are replaced one by one. -/
theorem apply_of_settled (s : Substitution) {es : List SourceEntry} (h : Settled es) :
    s.apply (.of es) = unionAll (es.map fun e => s.apply (.single e)) := by
  cases hempty : s.isEmpty with
  | false =>
    rw [apply, hempty, if_neg Bool.false_ne_true, applyEntries_eq_map]
    exact congrArg unionAll (List.map_congr_left fun e _ => (apply_single s e).symm)
  | true =>
    rw [apply_of_isEmpty hempty, List.map_congr_left fun e _ => apply_of_isEmpty hempty (.single e)]
    exact (unionAll_singles h).symm

/-! ### Substituting is a translation -/

/-- Every image is normal, and the universal name has none. -/
def Sound (s : Substitution) : Prop :=
  (∀ n u, s.find? n = some u → u.Normal) ∧ s.find? TypeName.any = none

theorem Sound.without (h : s.Sound) (names : List Name) : (s.without names).Sound := by
  refine ⟨forall_without h.1 names, ?_⟩
  rw [find?_without, h.2, ite_self]

/-- Applying a substitution, which is never an error. -/
def replacement : Translation Substitution Empty Name where
  type s t := .ok (s.apply t)
  head n _ := .ok n
  enter s names := s.without names
  Valid := Sound
  Harmless _ := True
  harmless_nil := trivial
  valid_enter h _ := h.without _
  type_of_iff := by
    intro s es x hes
    simp only [apply_of_settled s hes, mapM_ok, Except.ok.injEq, exists_eq_left']
  type_named_iff := by
    intro s n a as x
    simp only [apply_named, mapM_ok, Except.ok.injEq, exists_and_left, exists_eq_left']
  type_function_iff := by
    intro s t ps r x
    simp only [apply_function, mapM_ok, Except.ok.injEq, exists_and_left, exists_eq_left']
  regular_bare := by
    intro s n x hs h
    obtain rfl := Except.ok.inj h
    rw [apply_bare]
    cases hn : s.find? n with
    | none => exact regular_single isAny_source (List.forall_mem_nil _)
    | some u => exact regular_of_normal (hs.1 n u hn)
  type_any := by
    intro s x hs h
    obtain rfl := Except.ok.inj h
    rw [UnionType.any, apply_bare]
    exact congrArg (Option.getD · _) hs.2

theorem admits_of_normalized {t : SourceType} (ht : t.Normalized) : replacement.Admits t :=
  (normalized_iff.1 ht).imp fun _ hes => ⟨hes, fun _ _ => trivial⟩

/-- Putting types in for names is a homomorphism of unions, and it takes types that
    are equal to types that are.  The types are normalized, those put in included,
    and none is put in for `any`. -/
theorem apply_homomorphism (hs : ∀ n u, s.find? n = some u → u.Normalized)
    (hany : s.find? TypeName.any = none) :
    (∀ a b : SourceType, a.Normalized → b.Normalized →
        (s.apply (a.union b) == (s.apply a).union (s.apply b)) = true)
      ∧ ∀ a b : SourceType, a.Normalized → b.Normalized → (a == b) = true →
        (s.apply a == s.apply b) = true := by
  have hsound : s.Sound := ⟨fun n u hn => normalized_iff.1 (hs n u hn), hany⟩
  constructor
  · intro a b ha hb
    obtain ⟨z, hz, hsame⟩ :=
      replacement.type_union hsound (admits_of_normalized ha) (admits_of_normalized hb) rfl rfl
    obtain rfl := Except.ok.inj hz
    exact hsame
  · intro a b ha hb hab
    obtain ⟨z, hz, hsame⟩ :=
      Translation.same_type (admits_of_normalized ha) (admits_of_normalized hb) hab s _ hsound rfl
    obtain rfl := Except.ok.inj hz
    exact hsame

/-- Entries meet under the substitution that did not before, but the function that
    declares `T` keeps its own. -/
theorem apply_homomorphism_list :
    let s := ofBindings [['T']] [SourceType.list SourceType.number]
    let generic : FunctionTraits := ⟨.either, false, false, [['T']]⟩
    let a : SourceType := ofEntries [.named ['T'] [], .function generic [.bare ['T']] (.bare ['T'])]
    let b : SourceType := ofEntries [.named TypeName.list [SourceType.string],
      .function generic [.bare ['T']] SourceType.number]
    let c : SourceType := ofEntries [.function generic [.bare ['T']] (.bare ['T']), .named ['T'] []]
    (s.apply (a.union b) == (s.apply a).union (s.apply b)) = true
      ∧ SourceType.text (s.apply (a.union b))
        = "list[number[]|string[]]|[T](T[])=>(T[]|number[])".toList
      ∧ (a == c) = true ∧ (s.apply a == s.apply c) = true := by
  intro s generic a b c
  have hbare (n : Name) : (UnionType.bare n).Normalized :=
    normalized_iff.2 (each_bare lasting_settled n)
  have hlist : (SourceType.list SourceType.number).Normalized :=
    normalized_iff.2 (each_named lasting_settled (each_bare lasting_settled _))
  have hs : ∀ n u, s.find? n = some u → u.Normalized :=
    each_ofBindings (List.forall_mem_singleton.2 hlist)
  have hparts (n m : Name) : ∀ t ∈ (Entry.function generic [.bare n] (.bare m)).parts,
      t.Normalized :=
    List.forall_mem_cons.2 ⟨hbare m, List.forall_mem_singleton.2 (hbare n)⟩
  have ha : a.Normalized := Normalized.ofEntries (List.forall_mem_cons.2
    ⟨List.forall_mem_nil _, List.forall_mem_singleton.2 (hparts _ _)⟩)
  have hb : b.Normalized := Normalized.ofEntries (List.forall_mem_cons.2
    ⟨List.forall_mem_singleton.2 (hbare _), List.forall_mem_singleton.2 (hparts _ _)⟩)
  have hc : c.Normalized := Normalized.ofEntries (List.forall_mem_cons.2
    ⟨hparts _ _, List.forall_mem_singleton.2 (List.forall_mem_nil _)⟩)
  have hac : (a == c) = true := by decide +kernel
  obtain ⟨hunion, hequal⟩ := apply_homomorphism hs rfl
  exact ⟨hunion a b ha hb, by decide +kernel, hac, hequal a c ha hc hac⟩

end Substitution

end UnionTyping
