/-
  UnionTyping/Proofs/Types/Invariants.lean
  ========================================
  **What operations on types keep** — a condition on entries that survives unions
  (`Kept`) survives everything that is made of unions: substitution, solving
  generics and resolving.  None of these looks at more of a type than its frame
  and the types inside, so that one induction for each covers all conditions.
  The ones that matter are that no union is empty and that every union is settled.
-/
import UnionTyping.Proofs.Answers
import UnionTyping.Proofs.Types.Parts
import UnionTyping.Types.Generics
import UnionTyping.Types.Runtime
import UnionTyping.Types.Substitution

namespace UnionTyping

open UnionType

/-! ### Substitution -/

namespace Substitution

variable {p : List SourceEntry → Prop}

theorem find?_without {s : Substitution} {names : List Name} {n : Name} :
    (s.without names).find? n = if n ∈ names then none else s.find? n := by
  rw [without, Table.find?_filterKeys]
  by_cases h : n ∈ names
  · simp [h]
  · simp [h]

theorem forall_without {s : Substitution} {P : SourceType → Prop}
    (hs : ∀ n u, s.find? n = some u → P u) (names : List Name) :
    ∀ n u, (s.without names).find? n = some u → P u := by
  intro n u hn
  rw [find?_without] at hn
  split at hn
  · cases hn
  · exact hs n u hn

theorem each_apply (hp : Kept p) {s : Substitution} {t : SourceType}
    (hs : ∀ n u, s.find? n = some u → u.Each p) (ht : t.Each p) : (s.apply t).Each p := by
  induction t using parts_induction generalizing s with
  | of es ih =>
    obtain ⟨hes, hparts⟩ := each_of_iff.1 ht
    have hin {s : Substitution} (hs : ∀ n u, s.find? n = some u → u.Each p) {e : SourceEntry}
        (he : e ∈ es) : ∀ a ∈ e.parts, (s.apply a).Each p :=
      fun a ha => ih e he a ha hs (hparts e he a ha)
    rw [apply, applyEntries_eq_map]
    split
    · exact ht
    refine Each.unionAll hp (fun h => ?_) ?_
    · rwa [List.map_eq_nil_iff.1 h] at hes
    intro u hu
    obtain ⟨e, he, rfl⟩ := List.mem_map.1 hu
    rcases e with ⟨n, _ | ⟨a, as⟩⟩ | ⟨f, ps, r⟩
    · rw [applyEntry]
      cases hf : s.find? n with
      | none => exact .single (hp.single hes he rfl) fun c hc => by cases hc
      | some u => exact hs n u hf
    · rw [applyEntry, applyAll_eq_map]
      refine .single (hp.single hes he (by simp [Entry.frame])) ?_
      exact fun c hc => by
        obtain ⟨b, hb, rfl⟩ := List.mem_map.1 (show c ∈ (a :: as).map s.apply from hc)
        exact hin hs he b hb
    · rw [applyEntry, applyAll_eq_map]
      refine .single (hp.single hes he rfl) ?_
      intro c hc
      obtain ⟨b, hb, rfl⟩ :=
        List.mem_map.1 (show c ∈ (r :: ps).map (s.without f.generics).apply from hc)
      exact hin (forall_without hs f.generics) he b hb

end Substitution

/-! ### Solving generics -/

/-- That a callee has no entries is an error only where types may be empty. -/
def TypeError.Admitted (p : List SourceEntry → Prop) (e : TypeError) : Prop :=
  ∀ node, e = .emptyCallee node → p []

namespace Generics

variable {p : List SourceEntry → Prop} {g : Name} {generics : List Name}
  {params actual : List SourceType} {result expected : SourceType}

theorem mem_occurrences {t : SourceType} (h : t ∈ occurrences g params result actual expected) :
    t ∈ actual ∨ t = expected := by
  rcases List.mem_append.1 h with h | h
  · obtain ⟨⟨q, a⟩, hqa, ha⟩ := List.mem_filterMap.1 h
    simp only [Option.ite_none_right_eq_some, Option.some.injEq] at ha
    obtain ⟨_, rfl⟩ := ha
    exact Or.inl (List.of_mem_zip hqa).2
  · split at h
    · exact Or.inr (List.mem_singleton.1 h)
    · cases h

/-- A solution is made of the types of the arguments and of the expected result.
    That nothing is expected is said by the empty type, which adds nothing. -/
theorem each_assign (hp : Kept p) (hactual : ∀ t ∈ actual, t.Each p)
    (hexpected : expected = .base ∨ expected.Each p) :
    Ensures (·.Admitted p) (fun ts => ∀ t ∈ ts, t.Each p)
      (assign generics params result actual expected).result := by
  unfold assign
  split
  · exact fun node h => by cases h
  rw [Traced.result_mapM]
  refine ensures_mapM fun g _ => ?_
  simp only [solve]
  split
  · exact fun node h => by cases h
  · next hbase =>
    refine (Each.unionAll_or_base hp ?_).resolve_left fun h => hbase (by rw [h]; rfl)
    intro t ht
    rcases mem_occurrences ht with ht | rfl
    · exact Or.inr (hactual t ht)
    · exact hexpected

end Generics

/-! ### Resolving -/

/-- A data type has as many arguments as its arity says. -/
def RuntimeEntry.Fits : RuntimeEntry → Prop
  | .named (.data _ arity) as => as.length = arity
  | _ => True

namespace Registry

variable {reg : Registry} {bindings : Bindings} {declared : List Name}
  {p : List RuntimeEntry → Prop}

theorem eq_of_data? {n : Name} {count : Nat} {head : RuntimeHead}
    (h : data? reg n count = .ok head) : head = .data n count := by
  unfold data? at h
  split at h
  · cases h
  · split at h
    · next heq =>
      subst heq
      exact (Except.ok.inj h).symm
    · cases h

theorem resolveIn_eq_ok_iff {es : List SourceEntry} {type : RuntimeType} :
    resolveIn reg bindings declared (.of es) = .ok type
      ↔ ∃ types, es.mapM (resolveEntry reg bindings declared) = .ok types
        ∧ unionAll types = type := by
  rw [resolveIn, resolveEntries_eq_mapM, bind_eq_ok_iff]
  exact exists_congr fun types => and_congr_right fun _ => ⟨Except.ok.inj, congrArg Except.ok⟩

theorem resolveIn_single (e : SourceEntry) :
    resolveIn reg bindings declared (.single e) = resolveEntry reg bindings declared e := by
  rw [UnionType.single, resolveIn, resolveEntries_eq_mapM, List.mapM_cons]
  cases resolveEntry reg bindings declared e with
  | error => rfl
  | ok t => exact congrArg Except.ok (base_union t)

/-- The arguments of a data type are resolved one by one. -/
theorem resolveEntry_named_eq_ok_iff {n : Name} {a : SourceType} {as : List SourceType}
    {type : RuntimeType} :
    resolveEntry reg bindings declared (.named n (a :: as)) = .ok type
      ↔ ∃ head types, data? reg n (as.length + 1) = .ok head
        ∧ (a :: as).mapM (resolveIn reg bindings declared) = .ok types
        ∧ .named head types = type := by
  rw [resolveEntry, resolveAll_eq_mapM, List.mapM_cons]
  cases data? reg n (as.length + 1) with
  | error e => simp [bind, Except.bind]
  | ok head =>
    cases resolveIn reg bindings declared a with
    | error e => simp [bind, Except.bind]
    | ok first =>
      cases as.mapM (resolveIn reg bindings declared) with
      | error e => simp [bind, Except.bind]
      | ok others => simp [bind, Except.bind, pure, Except.pure]

/-- The parameters and the result are resolved in the scope of the generics. -/
theorem resolveEntry_function_eq_ok_iff {t : FunctionTraits} {ps : List SourceType} {r : SourceType}
    {type : RuntimeType} :
    resolveEntry reg bindings declared (.function t ps r) = .ok type
      ↔ ∃ types result, ps.mapM (resolveIn reg bindings (declared ++ t.generics)) = .ok types
        ∧ resolveIn reg bindings (declared ++ t.generics) r = .ok result
        ∧ .single (.function t types result) = type := by
  rw [resolveEntry, resolveAll_eq_mapM]
  cases ps.mapM (resolveIn reg bindings (declared ++ t.generics)) with
  | error e => simp [bind, Except.bind]
  | ok types =>
    cases resolveIn reg bindings (declared ++ t.generics) r with
    | error e => simp [bind, Except.bind]
    | ok result => simp [bind, Except.bind, pure, Except.pure]

/-- What resolving gives is made of entries that fit and of the bound types. -/
theorem each_resolveIn (hp : Kept p) (hbase : p []) (hfits : ∀ e, RuntimeEntry.Fits e → p [e])
    (hb : ∀ n u, bindings.find? n = some u → u.Each p) {t : SourceType} (declared : List Name) :
    ∀ type, resolveIn reg bindings declared t = .ok type → type.Each p := by
  induction t using parts_induction generalizing declared with
  | of es ih =>
    have hin {e : SourceEntry} (he : e ∈ es) {d : List Name} {as : List SourceType}
        {types : List RuntimeType} (has : ∀ a ∈ as, a ∈ e.parts)
        (h : as.mapM (resolveIn reg bindings d) = .ok types) : ∀ type ∈ types, type.Each p := by
      intro type htype
      obtain ⟨a, ha, hr⟩ := exists_of_forall₂_right (mapM_eq_ok_iff.1 h) type htype
      exact ih e he a (has a ha) d type hr
    intro type h
    obtain ⟨types, htypes, rfl⟩ := resolveIn_eq_ok_iff.1 h
    refine Each.unionAll hp (fun _ => hbase) ?_
    intro u hu
    obtain ⟨e, he, hr⟩ := exists_of_forall₂_right (mapM_eq_ok_iff.1 htypes) u hu
    rcases e with ⟨n, _ | ⟨a, as⟩⟩ | ⟨f, ps, r⟩
    · rw [resolveEntry] at hr
      split at hr
      · obtain rfl := Except.ok.inj hr
        exact .single (hfits _ trivial) fun c hc => by cases hc
      split at hr
      · next v hv =>
        obtain rfl := Except.ok.inj hr
        exact hb n v hv
      · obtain ⟨head, hd, hr⟩ := bind_eq_ok_iff.1 hr
        obtain rfl := Except.ok.inj hr
        obtain rfl := eq_of_data? hd
        exact .single (hfits _ rfl) fun c hc => by cases hc
    · obtain ⟨head, args, hd, hargs, rfl⟩ := resolveEntry_named_eq_ok_iff.1 hr
      obtain rfl := eq_of_data? hd
      have hlen : args.length = as.length + 1 := (mapM_eq_ok_iff.1 hargs).length_eq.symm
      exact .single (hfits _ hlen) (hin he (fun b hb => hb) hargs)
    · obtain ⟨params, result, hps, hres, rfl⟩ := resolveEntry_function_eq_ok_iff.1 hr
      refine .single (hfits _ trivial) (List.forall_mem_cons.2 ⟨?_, ?_⟩)
      · exact ih _ he r (List.mem_cons_self ..) _ result hres
      · exact hin he (fun b hb => List.mem_cons_of_mem _ hb) hps

end Registry

end UnionTyping
