/-
  UnionTyping/Proofs/Types/SubstitutionResolution.lean
  ====================================================
  **Substituting and resolving** — a generic can be replaced in a type as it is
  written, which is resolved then, or be bound to a runtime type while the type is
  resolved.  Both give the same type (`resolve_apply`).  The first way unites what
  it puts in with the entries around it before it looks anything up, the second one
  afterwards; `resolveIn_unionAll` says that this makes no difference.

  Two kinds of declared generics would make one.  A function that declares a name
  of an image captures it, but only where the image is put into the written type;
  and a function that declares `any` gives the name that absorbs a union another
  meaning.
-/
import UnionTyping.Proofs.Types.NormalForm
import UnionTyping.Proofs.Types.Resolution
import UnionTyping.Proofs.Types.SubstitutedUnions

namespace UnionTyping

open UnionType Substitution

namespace Registry

variable {reg : Registry} {s : Substitution} {bindings : Bindings}

/-- The names of the substitution are bound to their images, resolved without
    bindings, and no others are bound. -/
def Resolves (reg : Registry) (s : Substitution) (bindings : Bindings) : Prop :=
  ∀ n, Option.Rel (fun u m => reg.resolve u .empty = .ok m) (s.find? n) (bindings.find? n)

theorem Resolves.find?_of_none (h : reg.Resolves s bindings) {n : Name} (hn : s.find? n = none) :
    bindings.find? n = none := by
  have hrel := h n
  rw [hn] at hrel
  cases hb : bindings.find? n with
  | none => rfl
  | some m =>
    rw [hb] at hrel
    cases hrel

theorem Resolves.find?_of_some (h : reg.Resolves s bindings) {n : Name} {u : SourceType}
    (hn : s.find? n = some u) :
    ∃ m, bindings.find? n = some m ∧ reg.resolve u .empty = .ok m := by
  have hrel := h n
  rw [hn] at hrel
  cases hb : bindings.find? n with
  | none =>
    rw [hb] at hrel
    cases hrel
  | some m =>
    rw [hb] at hrel
    cases hrel with
    | some hm => exact ⟨m, rfl, hm⟩

theorem Resolves.regular (h : reg.Resolves s bindings) : bindings.Regular := by
  intro n m hm
  cases hn : s.find? n with
  | none =>
    rw [h.find?_of_none hn] at hm
    cases hm
  | some u =>
    obtain ⟨m', hm', hr⟩ := h.find?_of_some hn
    obtain rfl := Option.some.inj (hm.symm.trans hm')
    exact regular_of_resolveIn hr

/-! ### Scopes -/

/-- `s'` is what is left of the substitution inside functions that declare
    generics, none of which an image mentions. -/
structure Scope (s : Substitution) (declared : List Name) (s' : Substitution) : Prop where
  find? : ∀ n, s'.find? n = if n ∈ declared then none else s.find? n
  any : TypeName.any ∉ declared
  fresh : ∀ g ∈ declared, ∀ n u, s.find? n = some u → ¬SourceType.Mentions g u

theorem Scope.enter {declared : List Name} {s' : Substitution} (h : Scope s declared s')
    {generics : List Name} (hany : TypeName.any ∉ generics)
    (hfresh : ∀ g ∈ generics, ∀ n u, s.find? n = some u → ¬SourceType.Mentions g u) :
    Scope s (declared ++ generics) (s'.without generics) where
  find? := by
    intro n
    rw [find?_without, h.find?]
    by_cases hn : n ∈ generics
    · simp [hn]
    · simp [hn]
  any := by
    rw [List.mem_append, not_or]
    exact ⟨h.any, hany⟩
  fresh := by
    intro g hg
    rcases List.mem_append.1 hg with hg | hg
    · exact h.fresh g hg
    · exact hfresh g hg

/-- An image means the same inside functions as outside. -/
theorem Scope.resolveIn_image {declared : List Name} {s' : Substitution}
    (h : Scope s declared s') {n : Name} {u : SourceType} (hn : s.find? n = some u) :
    resolveIn reg .empty declared u = reg.resolve u .empty := by
  apply resolveIn_congr
  intro g hg
  have hnot : g ∉ declared := fun hd => h.fresh g hd n u hn hg
  exact ⟨iff_of_false hnot List.not_mem_nil, fun _ => rfl⟩

/-! ### One entry -/

section

variable {declared : List Name} {s' : Substitution}

theorem resolveIn_applyEntry_bare (hB : reg.Resolves s bindings) (h : Scope s declared s')
    {n : Name} {x : RuntimeType}
    (hx : resolveEntry reg bindings declared (.named n []) = .ok x) :
    resolveIn reg .empty declared (applyEntry s' (.named n [])) = .ok x := by
  have hs' := h.find? n
  rw [applyEntry]
  by_cases hd : n ∈ declared
  · rw [if_pos hd] at hs'
    rw [hs', Option.getD_none, bare, named, resolveIn_single, ← hx, resolveEntry, resolveEntry]
    simp [hd]
  rw [if_neg hd] at hs'
  rw [hs']
  have hcontains : ¬declared.contains n = true := by simpa using hd
  rw [resolveEntry, if_neg hcontains] at hx
  cases hn : s.find? n with
  | none =>
    rw [hB.find?_of_none hn] at hx
    rw [Option.getD_none, bare, named, resolveIn_single, ← hx, resolveEntry, if_neg hcontains]
    rfl
  | some u =>
    obtain ⟨m, hm, hu⟩ := hB.find?_of_some hn
    rw [hm] at hx
    rw [Option.getD_some, h.resolveIn_image hn, hu, ← hx]

/-- Types inside an entry that resolve alike before and after the substitution. -/
theorem exists_mapM_apply {ts : List SourceType} {xs : List RuntimeType}
    (hin : ∀ t ∈ ts, ∀ x, resolveIn reg bindings declared t = .ok x →
      ∃ y, resolveIn reg .empty declared (s'.apply t) = .ok y ∧ x.same y = true)
    (hxs : ts.mapM (resolveIn reg bindings declared) = .ok xs) :
    ∃ ys, (applyAll s' ts).mapM (resolveIn reg .empty declared) = .ok ys
      ∧ sameAll xs ys = true := by
  rw [applyAll_eq_map]
  have hrel : List.Forall₂ (fun t u => s'.apply t = u) ts (ts.map s'.apply) :=
    List.forall₂_map_right_iff.2 (List.forall₂_same.2 fun _ _ => rfl)
  obtain ⟨ys, hys, hall⟩ := exists_mapM_of_forall₂ hrel (by
    rintro t ht _ _ rfl x hx
    exact hin t ht x hx) hxs
  exact ⟨ys, hys, sameAll_iff.2 hall⟩

/-- One entry with the substitution applied resolves to what the entry resolves to
    with the bindings, if this is so for the types inside. -/
theorem resolveIn_applyEntry (hB : reg.Resolves s bindings) (h : Scope s declared s')
    {e : SourceEntry} (hany : TypeName.any ∉ e.generics)
    (hfresh : ∀ g ∈ e.generics, ∀ n u, s.find? n = some u → ¬SourceType.Mentions g u)
    (hin : ∀ a ∈ e.parts, ∀ declared s', Scope s declared s' → ∀ x,
      resolveIn reg bindings declared a = .ok x →
      ∃ y, resolveIn reg .empty declared (s'.apply a) = .ok y ∧ x.same y = true)
    {x : RuntimeType} (hx : resolveEntry reg bindings declared e = .ok x) :
    ∃ y, resolveIn reg .empty declared (applyEntry s' e) = .ok y ∧ x.same y = true := by
  rcases e with ⟨n, _ | ⟨a, as⟩⟩ | ⟨t, ps, r⟩
  · exact ⟨x, resolveIn_applyEntry_bare hB h hx, same_refl x⟩
  · obtain ⟨head, types, hd, htypes, rfl⟩ := resolveEntry_named_eq_ok_iff.1 hx
    obtain ⟨types', htypes', hsame⟩ := exists_mapM_apply (fun b hb => hin b hb declared s' h) htypes
    have hlen : (applyAll s' as).length = as.length := by rw [applyAll_eq_map, List.length_map]
    rw [applyEntry, named, resolveIn_single]
    refine ⟨_, resolveEntry_named_eq_ok_iff.2 ⟨head, types', ?_, htypes', rfl⟩, same_single ?_⟩
    · rwa [hlen]
    · simp [Entry.same, hsame]
  · obtain ⟨types, result, htypes, hresult, rfl⟩ := resolveEntry_function_eq_ok_iff.1 hx
    have hscope := h.enter hany hfresh
    obtain ⟨types', htypes', hsame⟩ := exists_mapM_apply
      (fun b hb => hin b (List.mem_cons_of_mem r hb) _ _ hscope) htypes
    obtain ⟨result', hresult', hsame'⟩ := hin r (List.mem_cons_self ..) _ _ hscope result hresult
    rw [applyEntry, resolveIn_single]
    refine ⟨_, resolveEntry_function_eq_ok_iff.2 ⟨types', result', htypes', hresult', rfl⟩,
      same_single ?_⟩
    simp [Entry.same, hsame, hsame']

end

/-! ### Types -/

theorem resolveIn_apply (hB : reg.Resolves s bindings)
    (hs : ∀ n u, s.find? n = some u → u.Each Unshadowed) {t : SourceType} (ht : t.Each Unshadowed)
    (hfresh : ∀ g, SourceType.Declares g t → ∀ n u, s.find? n = some u → ¬SourceType.Mentions g u) :
    ∀ declared s', Scope s declared s' → ∀ x, resolveIn reg bindings declared t = .ok x →
      ∃ y, resolveIn reg .empty declared (s'.apply t) = .ok y ∧ x.same y = true := by
  induction ht with
  | @of es hes hparts ih =>
    intro declared s' h x hx
    obtain ⟨xs, hxs, rfl⟩ := resolveIn_eq_ok_iff.1 hx
    have hs' : ∀ n u, s'.find? n = some u → u.Each Unshadowed := by
      intro n u hn
      rw [h.find?] at hn
      split at hn
      · cases hn
      · exact hs n u hn
    have hunshadowed : ∀ u ∈ es.map fun e => s'.apply (.single e), u.Each Unshadowed := by
      refine List.forall_mem_map.2 fun e he => each_apply kept_unshadowed hs' ?_
      exact .single (kept_unshadowed.single hes he rfl) (hparts e he)
    have hrel : List.Forall₂ (fun e u => applyEntry s' e = u) es
        (es.map fun e => s'.apply (.single e)) :=
      List.forall₂_map_right_iff.2 (List.forall₂_same.2 fun e _ => (apply_single s' e).symm)
    obtain ⟨ys, hys, hsame⟩ := exists_mapM_of_forall₂ hrel (by
      rintro e he _ _ rfl x hx
      refine resolveIn_applyEntry hB h (hes.2 e he) (fun g hg => hfresh g (.here he hg)) ?_ hx
      exact fun a ha => ih e he a ha fun g hg => hfresh g (.inside he ha hg)) hxs
    obtain ⟨z, hz, hzys⟩ := resolveIn_unionAll h.any hunshadowed hys
    have hunion : (unionAll xs).same (unionAll ys) = true :=
      same_unionAll (regular_of_mapM_resolveEntry hB.regular hxs) (regular_of_mapM_resolveIn hys)
        (sameAll_iff.2 hsame)
    rw [apply_of_settled s' hes.1]
    exact ⟨z, hz, same_trans hunion (same_symm (regular_of_resolveIn hz).normal hzys)⟩

theorem normalized_of_built {t : SourceType} (h : t.Built) : t.Normalized :=
  normalized_iff.2 (regular_of_built h).normal

/-- A normalized type that resolves with the images of a substitution bound, each
    resolved without bindings, resolves without bindings after the substitution,
    and to the same type.  No function in the type declares a name that stands in
    an image, and no function in the type or in an image declares `any`.  That the
    images are normalized is no restriction on types that constructors build
    (`normalized_of_built`).  For raw entries it is one: equality compares lengths and
    looks every entry up, so a list of `number` written twice passes for a list of
    `number` and `string`, and functions that take these would be made one. -/
theorem resolve_apply {t : SourceType} {m : RuntimeType} (ht : t.Normalized)
    (hs : ∀ n u, s.find? n = some u → u.Normalized)
    (hfresh : ∀ g, SourceType.Declares g t → ∀ n u, s.find? n = some u → ¬SourceType.Mentions g u)
    (hany : ¬SourceType.Declares TypeName.any t)
    (hanys : ∀ n u, s.find? n = some u → ¬SourceType.Declares TypeName.any u)
    (hB : reg.Resolves s bindings) (h : reg.resolve t bindings = .ok m) :
    ∃ m', reg.resolve (s.apply t) .empty = .ok m' ∧ (m' == m) = true := by
  have hscope : Scope s [] s := by
    refine ⟨fun n => ?_, List.not_mem_nil, fun g hg => by cases hg⟩
    rw [if_neg List.not_mem_nil]
  obtain ⟨m', hm', hsame⟩ := resolveIn_apply hB
    (fun n u hn => unshadowed_of_normalized (hs n u hn) (hanys n u hn))
    (unshadowed_of_normalized ht hany) hfresh [] s hscope m h
  exact ⟨m', hm', same_symm (regular_resolveIn hB.regular [] t m h).normal hsame⟩

/-- The image of `T` meets another list, and it stands in a function with a generic. -/
theorem resolve_apply_list :
    let s := Substitution.ofBindings [['T']] [SourceType.list SourceType.number]
    let bindings : Bindings := .ofList
      [(['T'], .named (.data TypeName.list 1) [.bare (.data TypeName.number 0)])]
    let es : List SourceEntry := [.named ['T'] [], .named TypeName.list [SourceType.string],
      .function ⟨.either, false, false, [['U']]⟩ [.bare ['T'], .bare ['U']] (.bare ['T'])]
    ∃ m m', builtins.resolve (ofEntries es) bindings = .ok m
      ∧ builtins.resolve (s.apply (ofEntries es)) .empty = .ok m' ∧ (m' == m) = true
      ∧ RuntimeType.text m' = "list[number[]|string[]]|[U](list[number[]],U)=>list[number[]]".toList := by
  intro s bindings es
  have hparts {P : SourceType → Prop} (hP : ∀ n : Name, P (.bare n)) :
      ∀ e ∈ es, ∀ a ∈ e.parts, P a := by
    have htwo : ∀ a ∈ [UnionType.bare ['T'], UnionType.bare ['U']], P a :=
      List.forall_mem_cons.2 ⟨hP _, List.forall_mem_singleton.2 (hP _)⟩
    refine List.forall_mem_cons.2 ⟨List.forall_mem_nil _, List.forall_mem_cons.2 ⟨?_, ?_⟩⟩
    · exact List.forall_mem_singleton.2 (hP _)
    · exact List.forall_mem_singleton.2 (List.forall_mem_cons.2 ⟨hP _, htwo⟩)
  have hbare (n : Name) : (UnionType.bare n).Built := .single (List.forall_mem_nil _)
  have himage (n : Name) (u : SourceType) (h : s.find? n = some u) :
      u = SourceType.list SourceType.number :=
    Table.forall_ofList (P := (· = SourceType.list SourceType.number))
      (List.forall_mem_singleton.2 rfl) n u h
  have hdeclares (g : Name) (hg : g ≠ ['U']) : ¬SourceType.Declares g (ofEntries es) := by
    have hentry : ∀ e ∈ es, g ∉ e.generics := by simp [es, Entry.generics, hg]
    refine not_has_iff.2 (Each.unionAll (kept_undeclared g) (fun h => by cases h) ?_)
    refine List.forall_mem_map.2 fun e he => ?_
    refine .single (List.forall_mem_singleton.2 (hentry e he)) (hparts (fun n => ?_) e he)
    exact .single (List.forall_mem_singleton.2 List.not_mem_nil) (List.forall_mem_nil _)
  have hinside {P : SourceEntry → Prop} (hlist : ¬P (.named TypeName.list [SourceType.number]))
      (hnumber : ¬P (.named TypeName.number [])) : ¬(SourceType.list SourceType.number).Has P := by
    refine not_has_iff.2 (.single (List.forall_mem_singleton.2 hlist) ?_)
    refine List.forall_mem_singleton.2 (.single (List.forall_mem_singleton.2 hnumber) ?_)
    exact List.forall_mem_nil _
  have hB : builtins.Resolves s bindings := by
    intro n
    show Option.Rel _ ((Table.empty.insert _ _).find? n) ((Table.empty.insert _ _).find? n)
    rw [Table.find?_insert, Table.find?_insert]
    split
    · exact .some rfl
    · exact .none
  have hm : (builtins.resolve (ofEntries es) bindings).toOption.isSome = true := by decide +kernel
  have htext : (builtins.resolve (s.apply (ofEntries es)) .empty).toOption.map RuntimeType.text
      = some "list[number[]|string[]]|[U](list[number[]],U)=>list[number[]]".toList := by
    decide +kernel
  cases hr : builtins.resolve (ofEntries es) bindings with
  | error e =>
    rw [hr] at hm
    cases hm
  | ok m =>
    obtain ⟨m', hm', hsame⟩ := resolve_apply (normalized_of_built (.ofEntries (hparts hbare)))
      (fun n u h => by
        rw [himage n u h]
        exact normalized_of_built (.single (List.forall_mem_singleton.2 (hbare _))))
      (fun g hg n u h => by
        rw [himage n u h]
        obtain rfl : g = ['U'] := not_not.1 fun hne => hdeclares g hne hg
        exact hinside (by simp) (by simp [TypeName.number]))
      (hdeclares TypeName.any (by decide))
      (fun n u h => by
        rw [himage n u h]
        exact hinside List.not_mem_nil List.not_mem_nil)
      hB hr
    rw [hm'] at htext
    exact ⟨m, m', rfl, hm', hsame, Option.some.inj htext⟩

end Registry

end UnionTyping
