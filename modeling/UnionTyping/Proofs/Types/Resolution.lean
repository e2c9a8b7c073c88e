/-
  UnionTyping/Proofs/Types/Resolution.lean
  ========================================
  **Resolving unions** — a type is resolved entry by entry and the results are
  united, which makes resolving a translation of types (`resolution`).  So the union
  of two types that resolve resolves, and to the union of what they resolve to
  (`resolve_union`).  The written types unite by their names, the resolved ones by
  what the names stand for.  Bindings can make entries meet that were apart, but
  that they met as they were written is no loss.

  The written universal type absorbs a union because it resolves to the universal
  type.  That fails where `any` is bound, and inside a function that declares `any`
  as a generic.
-/
import UnionTyping.Grammar.Equations
import UnionTyping.Proofs.Types.NormalForm
import UnionTyping.Proofs.Types.Translation

namespace UnionTyping

open UnionType

/-- The name stands somewhere in the type, without arguments. -/
def SourceType.Mentions (n : Name) (t : SourceType) : Prop := t.Has (· = .named n [])

/-- A function somewhere in the type declares the generic. -/
def SourceType.Declares (g : Name) (t : SourceType) : Prop := t.Has (g ∈ ·.generics)

namespace Registry

variable {reg : Registry} {declared : List Name}

/-! ### What resolving looks up -/

/-- Resolving depends on what the names that stand alone mean, and on nothing else. -/
theorem resolveIn_congr {bindings bindings' : Bindings} {declared' : List Name} {t : SourceType}
    (h : ∀ n, SourceType.Mentions n t → (n ∈ declared ↔ n ∈ declared')
      ∧ (n ∉ declared → bindings.find? n = bindings'.find? n)) :
    resolveIn reg bindings declared t = resolveIn reg bindings' declared' t := by
  induction t using parts_induction generalizing declared declared' with
  | of es ih =>
    have hentry : ∀ e ∈ es, resolveEntry reg bindings declared e
        = resolveEntry reg bindings' declared' e := by
      intro e he
      rcases e with ⟨n, _ | ⟨a, as⟩⟩ | ⟨t, ps, r⟩
      · obtain ⟨hd, hb⟩ := h n (.here he rfl)
        rw [resolveEntry, resolveEntry]
        by_cases hn : n ∈ declared
        · simp [hn, hd.1 hn]
        · simp [hn, mt hd.2 hn, hb hn]
      · have hargs : ∀ b ∈ a :: as,
            resolveIn reg bindings declared b = resolveIn reg bindings' declared' b :=
          fun b hb => ih _ he b hb fun n hn => h n (.inside he hb hn)
        rw [List.forall_mem_cons] at hargs
        rw [resolveEntry, resolveEntry, resolveAll_eq_mapM, resolveAll_eq_mapM, hargs.1,
          mapM_congr hargs.2]
      · have hparts : ∀ b ∈ r :: ps, resolveIn reg bindings (declared ++ t.generics) b
            = resolveIn reg bindings' (declared' ++ t.generics) b := by
          refine fun b hb => ih _ he b hb fun n hn => ?_
          obtain ⟨hd, hb⟩ := h n (.inside he hb hn)
          simp only [List.mem_append, hd, not_or, true_and]
          exact fun hn => hb (mt hd.1 hn.1)
        rw [List.forall_mem_cons] at hparts
        rw [resolveEntry, resolveEntry, resolveAll_eq_mapM, resolveAll_eq_mapM, hparts.1,
          mapM_congr hparts.2]
    rw [resolveIn, resolveIn, resolveEntries_eq_mapM, resolveEntries_eq_mapM, mapM_congr hentry]

/-! ### Resolving is a translation -/

theorem regular_of_resolveIn {t : SourceType} {x : RuntimeType}
    (h : resolveIn reg .empty declared t = .ok x) : x.Regular :=
  regular_resolveIn (fun _ _ hn => by cases hn) declared t x h

theorem regular_of_mapM_resolveIn {ts : List SourceType} {xs : List RuntimeType}
    (h : ts.mapM (resolveIn reg .empty declared) = .ok xs) : ∀ x ∈ xs, x.Regular := by
  intro x hx
  obtain ⟨t, _, ht⟩ := exists_of_forall₂_right (mapM_eq_ok_iff.1 h) x hx
  exact regular_of_resolveIn ht

theorem regular_of_mapM_resolveEntry {bindings : Bindings} (hb : bindings.Regular)
    {es : List SourceEntry} {xs : List RuntimeType}
    (h : es.mapM (resolveEntry reg bindings declared) = .ok xs) : ∀ x ∈ xs, x.Regular := by
  intro x hx
  obtain ⟨e, _, he⟩ := exists_of_forall₂_right (mapM_eq_ok_iff.1 h) x hx
  rw [← resolveIn_single] at he
  exact regular_resolveIn hb declared _ x he

/-- Where it is neither declared nor bound, the universal name can only be resolved
    to the universal type. -/
theorem eq_any_of_resolveIn {bindings : Bindings} {x : RuntimeType}
    (hbound : bindings.find? TypeName.any = none) (hany : TypeName.any ∉ declared)
    (h : resolveIn reg bindings declared .any = .ok x) : x = .any := by
  have hbound : bindings.find? (Vocabulary.any : Name) = none := hbound
  have hany : (Vocabulary.any : Name) ∉ declared := hany
  rw [any, bare, named, resolveIn_single, resolveEntry, if_neg (by simpa using hany), hbound] at h
  obtain ⟨head, hd, hx⟩ := bind_eq_ok_iff.1 h
  obtain rfl := eq_of_data? hd
  exact (Except.ok.inj hx).symm

/-- Resolving with bindings, inside functions that declare generics. -/
def resolution (reg : Registry) (bindings : Bindings) :
    Translation (List Name) TypeError RuntimeHead where
  type := resolveIn reg bindings
  head := data? reg
  enter := (· ++ ·)
  Valid declared := bindings.Regular ∧ bindings.find? TypeName.any = none ∧ TypeName.any ∉ declared
  Harmless generics := TypeName.any ∉ generics
  harmless_nil := List.not_mem_nil
  valid_enter := by
    rintro declared generics ⟨hb, hbound, hany⟩ hgenerics
    refine ⟨hb, hbound, ?_⟩
    rw [List.mem_append, not_or]
    exact ⟨hany, hgenerics⟩
  type_of_iff := by
    intro declared es x _
    simp only [resolveIn_single]
    exact resolveIn_eq_ok_iff
  type_named_iff := by
    intro declared n a as x
    rw [named, resolveIn_single]
    exact resolveEntry_named_eq_ok_iff
  type_function_iff := by
    intro declared t ps r x
    rw [resolveIn_single]
    exact resolveEntry_function_eq_ok_iff
  regular_bare h := regular_resolveIn h.1 _ _ _
  type_any h := eq_any_of_resolveIn h.2.1 h.2.2

/-! ### Unions -/

/-- Settled entries that do not declare the universal name as a generic. -/
def Unshadowed (es : List SourceEntry) : Prop :=
  Settled es ∧ ∀ e ∈ es, TypeName.any ∉ e.generics

theorem kept_unshadowed : Kept Unshadowed := kept_settled.and (kept_undeclared TypeName.any)

theorem unshadowed_of_normalized {t : SourceType} (ht : t.Normalized)
    (hany : ¬SourceType.Declares TypeName.any t) : t.Each Unshadowed :=
  Each.and (normalized_iff.1 ht) (not_has_iff.1 hany)

/-- The union of a list resolves to the union of what its elements resolve to. -/
theorem resolveIn_unionAll {ts : List SourceType} {xs : List RuntimeType}
    (hany : TypeName.any ∉ declared) (hts : ∀ t ∈ ts, t.Each Unshadowed)
    (hxs : ts.mapM (resolveIn reg .empty declared) = .ok xs) :
    ∃ z, resolveIn reg .empty declared (unionAll ts) = .ok z ∧ z.same (unionAll xs) = true := by
  have hvalid : (resolution reg .empty).Valid declared := ⟨fun _ _ hn => (by cases hn), rfl, hany⟩
  exact Translation.type_unionAll hvalid hts hxs

/-- Two normalized types that resolve with the same bindings have a union that
    resolves with them, to the union of what they resolve to.  The bound types come
    from resolving, `any` is not bound, and no function in the types declares it. -/
theorem resolve_union {bindings : Bindings} {a b : SourceType} {x y : RuntimeType}
    (hB : ∀ n u, bindings.find? n = some u → u.Resolved)
    (hbound : bindings.find? TypeName.any = none) (ha : a.Normalized) (hb : b.Normalized)
    (hadeclares : ¬SourceType.Declares TypeName.any a)
    (hbdeclares : ¬SourceType.Declares TypeName.any b) (hx : reg.resolve a bindings = .ok x)
    (hy : reg.resolve b bindings = .ok y) :
    ∃ z, reg.resolve (a.union b) bindings = .ok z ∧ (z == x.union y) = true := by
  have hvalid : (resolution reg bindings).Valid [] :=
    ⟨fun n u hn => regular_of_resolved (hB n u hn), hbound, List.not_mem_nil⟩
  exact Translation.type_union hvalid (unshadowed_of_normalized ha hadeclares)
    (unshadowed_of_normalized hb hbdeclares) hx hy

/-- Two entries on either side meet their partners only where `T` is bound to a list. -/
theorem resolve_union_list :
    let bindings : Bindings := .ofList
      [(['T'], .named (.data TypeName.list 1) [.bare (.data TypeName.number 0)])]
    let traits : FunctionTraits := ⟨.either, false, false, []⟩
    let es : List SourceEntry := [.named ['T'] [],
      .function traits [SourceType.list SourceType.number] SourceType.number]
    let fs : List SourceEntry := [.named TypeName.list [SourceType.string],
      .function traits [.bare ['T']] SourceType.string]
    ((ofEntries es).union (ofEntries fs)).entries.length = 4
      ∧ ∃ x y z, builtins.resolve (ofEntries es) bindings = .ok x
        ∧ builtins.resolve (ofEntries fs) bindings = .ok y
        ∧ builtins.resolve ((ofEntries es).union (ofEntries fs)) bindings = .ok z
        ∧ (z == x.union y) = true
        ∧ RuntimeType.text z
          = "list[number[]|string[]]|(list[number[]])=>number[]|string[]".toList := by
  intro bindings traits es fs
  have hplain (n : Name) : (UnionType.bare n).Normalized
      ∧ ¬SourceType.Declares TypeName.any (.bare n) := by
    refine ⟨normalized_iff.2 (each_bare lasting_settled n), ?_⟩
    simp [SourceType.Declares, bare, named, has_single_iff, Entry.generics, Entry.parts]
  have hlist : (SourceType.list SourceType.number).Normalized
      ∧ ¬SourceType.Declares TypeName.any (SourceType.list SourceType.number) := by
    refine ⟨normalized_iff.2 (each_named lasting_settled (each_bare lasting_settled _)), ?_⟩
    simp [SourceType.Declares, SourceType.list, SourceType.number, bare, named, has_single_iff,
      Entry.generics, Entry.parts]
  have hside (es : List SourceEntry) (hgenerics : ∀ e ∈ es, TypeName.any ∉ e.generics)
      (hparts : ∀ e ∈ es, ∀ a ∈ e.parts, a.Normalized ∧ ¬SourceType.Declares TypeName.any a) :
      (ofEntries es).Normalized ∧ ¬SourceType.Declares TypeName.any (ofEntries es) := by
    refine ⟨Normalized.ofEntries fun e he a ha => (hparts e he a ha).1, not_has_iff.2 ?_⟩
    refine Each.unionAll (kept_undeclared _) (fun _ e he => by cases he) ?_
    refine List.forall_mem_map.2 fun e he => .single ?_ fun a ha => ?_
    · exact List.forall_mem_singleton.2 (hgenerics e he)
    · exact not_has_iff.1 (hparts e he a ha).2
  have hes := hside es (by simp [es, traits, Entry.generics])
    (by
      refine List.forall_mem_cons.2 ⟨List.forall_mem_nil _, List.forall_mem_singleton.2 ?_⟩
      exact List.forall_mem_cons.2 ⟨hplain _, List.forall_mem_singleton.2 hlist⟩)
  have hfs := hside fs (by simp [fs, traits, Entry.generics])
    (by simp [fs, Entry.parts, SourceType.string, hplain])
  have hbinding : ∀ n u, bindings.find? n = some u → u.Resolved := by
    refine Table.forall_ofList (List.forall_mem_singleton.2 ?_)
    exact @RuntimeType.Resolved.resolve builtins (SourceType.list SourceType.number) .empty _
      (fun _ _ h => by cases h) rfl
  have htext : (builtins.resolve ((ofEntries es).union (ofEntries fs)) bindings).toOption.map
      RuntimeType.text
      = some "list[number[]|string[]]|(list[number[]])=>number[]|string[]".toList := by
    decide +kernel
  obtain ⟨x, hx⟩ : ∃ x, builtins.resolve (ofEntries es) bindings = .ok x :=
    isSome_toOption_iff.1 (by decide +kernel)
  obtain ⟨y, hy⟩ : ∃ y, builtins.resolve (ofEntries fs) bindings = .ok y :=
    isSome_toOption_iff.1 (by decide +kernel)
  obtain ⟨z, hz, hsame⟩ := resolve_union hbinding rfl hes.1 hfs.1 hes.2 hfs.2 hx hy
  rw [hz] at htext
  exact ⟨by decide +kernel, x, y, z, hx, hy, hz, hsame, Option.some.inj htext⟩

end Registry

end UnionTyping
