/-
  UnionTyping/Proofs/Types/Semilattice.lean
  =========================================
  **Unions form a semilattice** — up to sameness, `union` is commutative,
  associative and idempotent, the empty union is its unit and the universal type
  absorbs; sameness is an equivalence that `union` respects.  This holds of
  regular types, whatever their vocabulary (`semilattice_of_regular`), and two
  kinds of types are regular by the way they come about: the types built by the
  constructors of written types, and the types that a registry resolves
  (`union_semilattice`).
-/
import UnionTyping.Proofs.Types.Invariants
import UnionTyping.Proofs.Types.Order

namespace UnionTyping

/-! ### The laws -/

section

variable {ν : Type} [DecidableEq ν] [Vocabulary ν]

/-- The laws of a semilattice with a least and a greatest element, up to
    sameness, for the types that satisfy `P`. -/
structure UnionType.Semilattice (P : UnionType ν → Prop) : Prop where
  same_refl : ∀ a, P a → (a == a) = true
  same_symm : ∀ a b, P a → P b → (a == b) = true → (b == a) = true
  same_trans : ∀ a b c, P a → P b → P c → (a == b) = true → (b == c) = true → (a == c) = true
  union_congr : ∀ a a' b b', P a → P a' → P b → P b' → (a == a') = true → (b == b') = true →
    (a.union b == a'.union b') = true
  union_comm : ∀ a b, P a → P b → (a.union b == b.union a) = true
  union_assoc : ∀ a b c, P a → P b → P c →
    ((a.union b).union c == a.union (b.union c)) = true
  union_self : ∀ a, P a → (a.union a == a) = true
  base_union : ∀ a, P a → (base.union a == a) = true
  union_base : ∀ a, P a → (a == a.union base) = true
  any_union : ∀ a, P a → (any.union a == any) = true
  union_any : ∀ a, P a → (any == a.union any) = true

namespace UnionType

theorem regular_single {e : Entry ν} (he : e.isAny = true → e = .universal)
    (hparts : ∀ a ∈ e.parts, a.Regular) : (single e).Regular := by
  refine .single ⟨settled_singleton e, ?_⟩ hparts
  intro d hd
  rw [List.mem_singleton.1 hd]
  exact he

theorem regular_any : (any : UnionType ν).Regular :=
  regular_single (fun _ => rfl) fun a ha => by cases ha

omit [DecidableEq ν] in
/-- The frame of an entry tells whether it is universal. -/
theorem eq_universal_of_frame {d e : Entry ν} (h : d.frame = e.frame) (hd : d.isAny = true)
    (he : e.isAny = true → e = .universal) : d = .universal := by
  rcases d with ⟨n, _ | ⟨a, as⟩⟩ | ⟨t, ps, r⟩
  · rcases e with ⟨m, _ | ⟨b, bs⟩⟩ | ⟨u, qs, s⟩
    · obtain rfl : n = m := by simpa [Entry.frame] using h
      exact he hd
    · simp [Entry.frame] at h
    · cases h
  · cases hd
  · cases hd

theorem kept_regular : Kept fun es : List (Entry ν) => Settled es ∧ OneUniversal es where
  universal := (each_of_iff.1 regular_any).1
  single := by
    rintro es e d ⟨_, hone⟩ he hframe
    refine ⟨settled_singleton d, ?_⟩
    intro x hx hany
    obtain rfl := List.mem_singleton.1 hx
    exact eq_universal_of_frame hframe hany (hone e he)
  insertAll := by
    intro es fs hes _ he hf
    refine ⟨Entry.settled_insertAll hes.1.apart he hf, ?_⟩
    intro e hmem hany
    rw [Entry.isAny_insertAll he hf e hmem] at hany
    cases hany

theorem Regular.union {a b : UnionType ν} (ha : a.Regular) (hb : b.Regular) :
    (a.union b).Regular := Each.union kept_regular ha hb

theorem Regular.unionAll {ts : List (UnionType ν)} (h : ∀ t ∈ ts, t.Regular) :
    (unionAll ts).Regular :=
  Each.unionAll kept_regular (fun _ => (each_of_iff.1 regular_base).1) h

/-- A law between two regular types follows from their having the same upper bounds. -/
theorem beq_of_bounds {a b : UnionType ν} (ha : a.Regular) (hb : b.Regular)
    (h : ∀ c : UnionType ν, c.Normal → (a.Below c ↔ b.Below c)) : (a == b) = true :=
  same_of_below ha hb ((h b hb.normal).2 (below_refl b)) ((h a ha.normal).1 (below_refl a))

/-- What bounds a union bounds both of its sides. -/
theorem union_below_iff {a b c : UnionType ν} (ha : a.Normal) (hb : b.Normal) (hc : c.Normal) :
    (a.union b).Below c ↔ a.Below c ∧ b.Below c := by
  constructor
  · intro h
    exact ⟨below_trans (below_union_left ha hb) h, below_trans (below_union_right ha hb) h⟩
  · rintro ⟨hac, hbc⟩
    exact union_below ha hb hc hac hbc

theorem unionAll_below_iff {ts : List (UnionType ν)} {c : UnionType ν} (hts : ∀ t ∈ ts, t.Normal)
    (hc : c.Normal) : (UnionType.unionAll ts).Below c ↔ ∀ t ∈ ts, t.Below c := by
  have go : ∀ (ts : List (UnionType ν)) (a : UnionType ν), a.Normal → (∀ t ∈ ts, t.Normal) →
      ((ts.foldl union a).Below c ↔ a.Below c ∧ ∀ t ∈ ts, t.Below c) := by
    intro ts
    induction ts with
    | nil => simp
    | cons t ts ih =>
      intro a ha hts
      rw [List.forall_mem_cons] at hts
      rw [List.foldl_cons, ih _ (ha.union hts.1) hts.2, union_below_iff ha hts.1 hc,
        List.forall_mem_cons, and_assoc]
  rw [UnionType.unionAll, go ts base normal_base hts]
  exact and_iff_right (base_below c)

/-- Types that are the same have unions that are the same, in whatever order they come. -/
theorem same_unionAll_of_partners {ts us : List (UnionType ν)} (hts : ∀ t ∈ ts, t.Regular)
    (hus : ∀ u ∈ us, u.Regular) (h : Partners (fun t u => t.same u = true) ts us) :
    (UnionType.unionAll ts).same (UnionType.unionAll us) = true := by
  refine beq_of_bounds (Regular.unionAll hts) (Regular.unionAll hus) fun c hc => ?_
  rw [unionAll_below_iff (fun t ht => (hts t ht).normal) hc,
    unionAll_below_iff (fun u hu => (hus u hu).normal) hc]
  constructor
  · intro hbelow u hu
    obtain ⟨t, ht, hsame⟩ := h.right u hu
    exact below_trans (below_of_same (same_symm (hts t ht).normal hsame)) (hbelow t ht)
  · intro hbelow t ht
    obtain ⟨u, hu, hsame⟩ := h.left t ht
    exact below_trans (below_of_same hsame) (hbelow u hu)

theorem same_unionAll {ts us : List (UnionType ν)} (hts : ∀ t ∈ ts, t.Regular)
    (hus : ∀ u ∈ us, u.Regular) (h : sameAll ts us = true) :
    (UnionType.unionAll ts).same (UnionType.unionAll us) = true :=
  same_unionAll_of_partners hts hus (partners_of_forall₂ (sameAll_iff.1 h))

/-- An entry is least above two alike ones if its value is least above theirs. -/
theorem single_below_iff {d f e : Entry ν} (hd : ∀ a ∈ d.parts, a.Normal)
    (hde : d.Alike e ∧ e.Alike d) (hfe : f.Alike e ∧ e.Alike f)
    (hvalue : ∀ v : UnionType ν, v.Normal →
      (e.value.Below v ↔ d.value.Below v ∧ f.value.Below v))
    {c : UnionType ν} (hc : c.Normal) :
    (single e).Below c ↔ (single d).Below c ∧ (single f).Below c := by
  obtain ⟨gs⟩ := c
  obtain ⟨hgs, hgparts⟩ := each_of_iff.1 hc
  have hsingle (x : Entry ν) : (single x).Below (of gs)
      ↔ (∃ g ∈ gs, g.isAny = true) ∨ ∃ g ∈ gs, x.Below g := by
    rw [single, below_iff, List.forall_mem_singleton]
  rw [hsingle, hsingle, hsingle, ← or_and_left]
  refine or_congr_right ⟨?_, ?_⟩
  · rintro ⟨g, hg, heg, hv⟩
    obtain ⟨hdv, hfv⟩ := (hvalue _ (Entry.normal_value (hgparts g hg))).1 hv
    exact ⟨⟨g, hg, Entry.alike_trans hde.1 heg, hdv⟩, ⟨g, hg, Entry.alike_trans hfe.1 heg, hfv⟩⟩
  · rintro ⟨⟨g, hg, hdg, hdv⟩, ⟨g', hg', hfg', hfv⟩⟩
    have heg' : e.Alike g' := Entry.alike_trans hfe.2 hfg'
    obtain rfl : g = g' := Entry.eq_of_alike hgs.apart hgparts hg hg'
      (Entry.alike_trans (Entry.alike_symm hd hdg) (Entry.alike_trans hde.1 heg'))
    exact ⟨g, hg, heg', (hvalue _ (Entry.normal_value (hgparts g hg))).2 ⟨hdv, hfv⟩⟩

theorem semilattice_of_regular {P : UnionType ν → Prop} (hP : ∀ t, P t → t.Regular) :
    Semilattice P where
  same_refl a _ := same_refl a
  same_symm a b ha _ := same_symm (hP a ha).normal
  same_trans a b c _ _ _ := same_trans
  union_congr a a' b b' ha ha' hb hb' haa hbb := by
    have ha := hP a ha
    have ha' := hP a' ha'
    have hb := hP b hb
    have hb' := hP b' hb'
    obtain ⟨haa₁, haa₂⟩ := (same_iff_below ha ha').1 haa
    obtain ⟨hbb₁, hbb₂⟩ := (same_iff_below hb hb').1 hbb
    refine beq_of_bounds (ha.union hb) (ha'.union hb') fun c hc => ?_
    rw [union_below_iff ha.normal hb.normal hc, union_below_iff ha'.normal hb'.normal hc]
    exact and_congr ⟨below_trans haa₂, below_trans haa₁⟩ ⟨below_trans hbb₂, below_trans hbb₁⟩
  union_comm a b ha hb := by
    have ha := hP a ha
    have hb := hP b hb
    refine beq_of_bounds (ha.union hb) (hb.union ha) fun c hc => ?_
    rw [union_below_iff ha.normal hb.normal hc, union_below_iff hb.normal ha.normal hc, and_comm]
  union_assoc a b c ha hb hc := by
    have ha := hP a ha
    have hb := hP b hb
    have hc := hP c hc
    refine beq_of_bounds ((ha.union hb).union hc) (ha.union (hb.union hc)) fun d hd => ?_
    rw [union_below_iff (ha.union hb).normal hc.normal hd, union_below_iff ha.normal hb.normal hd,
      union_below_iff ha.normal (hb.union hc).normal hd, union_below_iff hb.normal hc.normal hd,
      and_assoc]
  union_self a ha := by
    have ha := hP a ha
    refine beq_of_bounds (ha.union ha) ha fun c hc => ?_
    rw [union_below_iff ha.normal ha.normal hc, and_self]
  base_union a _ := by
    rw [base_union]
    exact same_refl a
  union_base a _ := by
    rw [union_base]
    exact same_refl a
  any_union a ha := by
    have ha := hP a ha
    refine beq_of_bounds (regular_any.union ha) regular_any fun c hc => ?_
    rw [union_below_iff regular_any.normal ha.normal hc]
    exact and_iff_left_of_imp fun h => below_trans (below_any a) h
  union_any a ha := by
    have ha := hP a ha
    refine beq_of_bounds regular_any (ha.union regular_any) fun c hc => ?_
    rw [union_below_iff ha.normal regular_any.normal hc]
    exact (and_iff_right_of_imp fun h => below_trans (below_any a) h).symm

end UnionType

/-! ### Built types -/

/-- The types that come from the constructors of types, with built types inside. -/
inductive UnionType.Built : UnionType ν → Prop
  | base : Built .base
  | single {e : Entry ν} : (∀ a ∈ e.parts, Built a) → Built (.single e)
  | ofEntries {es : List (Entry ν)} :
      (∀ e ∈ es, ∀ a ∈ e.parts, Built a) → Built (.ofEntries es)
  | union {a b : UnionType ν} : Built a → Built b → Built (a.union b)

end

theorem isAny_source {e : SourceEntry} (h : e.isAny = true) : e = .universal := by
  rcases e with ⟨n, _ | ⟨a, as⟩⟩ | ⟨t, ps, r⟩
  · have hn : n = TypeName.any := by simpa [Entry.isAny, Vocabulary.isAny] using h
    rw [hn]
    rfl
  · cases h
  · cases h

theorem regular_of_normal {t : SourceType} (h : t.Normal) : t.Regular :=
  h.imp fun _ hes => ⟨hes, fun _ _ => isAny_source⟩

theorem regular_of_built {t : SourceType} (h : t.Built) : t.Regular := by
  induction h with
  | base => exact UnionType.regular_base
  | single _ ih => exact UnionType.regular_single isAny_source ih
  | ofEntries _ ih =>
    apply UnionType.Regular.unionAll
    intro t ht
    obtain ⟨e, he, rfl⟩ := List.mem_map.1 ht
    exact UnionType.regular_single isAny_source (ih e he)
  | union _ _ ha hb => exact ha.union hb

/-! ### Resolved types -/

/-- The types that come from resolving, with such types for the bound names. -/
inductive RuntimeType.Resolved : RuntimeType → Prop
  | resolve {reg : Registry} {t : SourceType} {bindings : Registry.Bindings} {type : RuntimeType} :
      (∀ n u, bindings.find? n = some u → Resolved u) → reg.resolve t bindings = .ok type →
      Resolved type

/-- Every name is bound to a regular type. -/
def Registry.Bindings.Regular (bindings : Registry.Bindings) : Prop :=
  ∀ n u, bindings.find? n = some u → u.Regular

/-- An absorbing entry that fits is the universal name. -/
theorem isAny_runtime {e : RuntimeEntry} (hfits : e.Fits) (h : e.isAny = true) :
    e = .universal := by
  rcases e with ⟨⟨n, arity⟩ | g, _ | ⟨a, as⟩⟩ | ⟨t, ps, r⟩
  · have hn : n = TypeName.any := by simpa [Entry.isAny, Vocabulary.isAny] using h
    have harity : 0 = arity := hfits
    rw [hn, ← harity]
    rfl
  · cases h
  · cases h
  · cases h
  · cases h

theorem Registry.regular_resolveIn {reg : Registry} {bindings : Registry.Bindings}
    (hb : bindings.Regular) (declared : List Name) (t : SourceType) (type : RuntimeType)
    (h : resolveIn reg bindings declared t = .ok type) : type.Regular := by
  refine each_resolveIn UnionType.kept_regular (UnionType.each_of_iff.1 UnionType.regular_base).1
    ?_ hb declared type h
  intro e he
  refine ⟨settled_singleton e, ?_⟩
  intro d hd
  rw [List.mem_singleton.1 hd]
  exact isAny_runtime he

theorem regular_of_resolved {t : RuntimeType} (h : t.Resolved) : t.Regular := by
  induction h with
  | resolve _ hr ih => exact Registry.regular_resolveIn ih [] _ _ hr

/-- Unions form a semilattice on the written types that the constructors build
    and on the runtime types that registries resolve. -/
theorem union_semilattice :
    UnionType.Semilattice (fun t : SourceType => t.Built)
      ∧ UnionType.Semilattice RuntimeType.Resolved :=
  ⟨UnionType.semilattice_of_regular fun _ => regular_of_built,
    UnionType.semilattice_of_regular fun _ => regular_of_resolved⟩

end UnionTyping
