/-
  UnionTyping/Proofs/Tree/UnionOperands.lean
  ==========================================
  **Operands of several types** — a call and a member access go through the entries
  of their operand's type and unite what they find.  What they find for an entry
  depends on its frame, which entries that meet have in common, and on its value,
  where they differ (`Gives`), and it preserves unions of the value: a substitution is a
  homomorphism of unions, and a member has one type whatever the value is.

  So typing distributes over a union of the operand (`typeOf_union_operand`), though
  the entries of the union are not those of its sides put together.  As for
  translations, it is enough to compare upper bounds, and whether all entries give
  something below a bound does not depend on which of them have met
  (`bounded_insertAll`).
-/
import UnionTyping.Proofs.Types.Covering
import UnionTyping.Proofs.Types.Scopes
import UnionTyping.Proofs.Types.SubstitutedUnions

namespace UnionTyping

open UnionType Typing

/-- Neither empty nor universal. -/
structure UnionType.Definite (t : SourceType) : Prop where
  isBase : t.isBase = false
  isAny : t.isAny = false

/-! ### What entries give -/

/-- Unions become unions, and types that are the same become the same. -/
structure UnionPreserving (f : SourceType → SourceType) : Prop where
  normal : ∀ {a}, a.Normal → (f a).Normal
  union : ∀ {a b}, a.Normal → b.Normal → (f (a.union b)).same ((f a).union (f b)) = true
  congr : ∀ {a b}, a.Normal → b.Normal → a.same b = true → (f a).same (f b) = true

theorem UnionPreserving.below_iff {f : SourceType → SourceType} (hf : UnionPreserving f)
    {a b c : SourceType} (ha : a.Normal) (hb : b.Normal) (hc : c.Normal) :
    (f (a.union b)).Below c ↔ (f a).Below c ∧ (f b).Below c := by
  have hsame := hf.union ha hb
  rw [← union_below_iff (hf.normal ha) (hf.normal hb) hc]
  constructor
  · exact below_trans (below_of_same (same_symm (hf.normal (ha.union hb)) hsame))
  · exact below_trans (below_of_same hsame)

/-- What an operation makes of the value of an entry with some frame, if it is defined
    for such entries. -/
abbrev EntryRule := (Name × Nat) ⊕ FunctionTraits → Option (SourceType → SourceType)

namespace EntryRule

variable (W : EntryRule)

/-- `x` is what the operation finds for the entry. -/
def Gives (e : SourceEntry) (x : SourceType) : Prop := ∃ f, W e.frame = some f ∧ f e.value = x

/-- `x` is the union of what the operation finds for the entries of the type. -/
def Outcome (t x : SourceType) : Prop := ∃ xs, List.Forall₂ W.Gives t.entries xs ∧ unionAll xs = x

/-- The operation finds something below `c`. -/
def Bounded (e : SourceEntry) (c : SourceType) : Prop := ∃ x, W.Gives e x ∧ x.Below c

/-- What the operation makes of the entry preserves unions of its value. -/
structure Fit (e : SourceEntry) : Prop where
  normal : ∀ a ∈ e.parts, a.Normal
  preserving : ∀ f, W e.frame = some f → UnionPreserving f

variable {W} {d e f : SourceEntry} {es fs : List SourceEntry} {a b c x y z : SourceType}

theorem Fit.normal_of_gives (he : W.Fit e) (h : W.Gives e x) : x.Normal := by
  obtain ⟨g, hg, rfl⟩ := h
  exact (he.preserving g hg).normal (Entry.normal_value he.normal)

/-- The value decides once the frame is known. -/
theorem bounded_iff {g : SourceType → SourceType} (h : W e.frame = some g) :
    W.Bounded e c ↔ (g e.value).Below c := by
  constructor
  · rintro ⟨_, ⟨g', hg', rfl⟩, hc⟩
    obtain rfl := Option.some.inj (h.symm.trans hg')
    exact hc
  · exact fun hc => ⟨_, ⟨g, h, rfl⟩, hc⟩

theorem not_bounded (h : W e.frame = none) : ¬W.Bounded e c := by
  rintro ⟨_, ⟨g, hg, _⟩, _⟩
  rw [h] at hg
  cases hg

theorem bounded_of_same (hd : W.Fit d) (hf : W.Fit f) (h : d.same f = true)
    (hb : W.Bounded d c) : W.Bounded f c := by
  obtain ⟨halike, hvalue⟩ := Entry.same_iff.1 h
  obtain ⟨_, ⟨g, hg, rfl⟩, hc⟩ := hb
  have hgf : W f.frame = some g := by rwa [← Entry.frame_of_alike halike]
  have hdn := Entry.normal_value hd.normal
  have hsame := (hd.preserving g hg).congr hdn (Entry.normal_value hf.normal) hvalue
  rw [bounded_iff hgf]
  exact below_trans (below_of_same (same_symm ((hd.preserving g hg).normal hdn) hsame)) hc

/-- Entries that meet give what the entry made of them does. -/
theorem bounded_of_merge (hm : Entry.merge d f = some e) (hd : W.Fit d) (hf : W.Fit f)
    (hc : c.Normal) : W.Fit e ∧ (W.Bounded e c ↔ W.Bounded d c ∧ W.Bounded f c) := by
  obtain ⟨hframe, hframe'⟩ := Entry.frame_of_merge hm
  have hvalue := (Entry.alike_of_merge hm).2.2
  refine ⟨⟨?_, by rw [hframe]; exact hd.preserving⟩, ?_⟩
  · exact Entry.parts_of_merge hm hd.normal fun b hb a ha => Normal.union ha (hf.normal b hb)
  cases hg : W d.frame with
  | none => exact iff_of_false (not_bounded (by rw [hframe, hg])) fun h => not_bounded hg h.1
  | some g =>
    have hgf : W f.frame = some g := by rw [hframe', hg]
    have hge : W e.frame = some g := by rw [hframe, hg]
    rw [bounded_iff hge, bounded_iff hg, bounded_iff hgf, hvalue]
    exact (hd.preserving g hg).below_iff (Entry.normal_value hd.normal)
      (Entry.normal_value hf.normal) hc

theorem bounded_insertAll (hes : ∀ e ∈ es, W.Fit e) (hfs : ∀ f ∈ fs, W.Fit f) (hc : c.Normal) :
    (∀ e ∈ Entry.insertAll es fs, W.Bounded e c)
      ↔ (∀ e ∈ es, W.Bounded e c) ∧ ∀ f ∈ fs, W.Bounded f c := by
  refine Entry.forall_insertAll_iff (R := W.Fit) ?_ ?_ hes hfs
  · exact fun f hf d hd => bounded_of_same hd (hfs f hf)
  · exact fun f hf d e hm hd => bounded_of_merge hm hd (hfs f hf) hc

theorem fit_insertAll (hes : ∀ e ∈ es, W.Fit e) (hfs : ∀ f ∈ fs, W.Fit f) :
    ∀ e ∈ Entry.insertAll es fs, W.Fit e :=
  Entry.forall_insertAll
    (fun f hf _ _ hm hd => (bounded_of_merge hm hd (hfs f hf) normal_base).1) hes hfs

/-! ### What types give -/

/-- Every type is below the universal one, so that this says that all entries give one. -/
theorem exists_outcome_iff : (∃ x, W.Outcome a x) ↔ ∀ e ∈ a.entries, W.Bounded e .any := by
  constructor
  · rintro ⟨_, xs, hxs, rfl⟩ e he
    obtain ⟨x, _, hex⟩ := exists_of_forall₂_left hxs e he
    exact ⟨x, hex, below_any x⟩
  · intro h
    obtain ⟨xs, hxs, _⟩ := exists_forall₂ h
    exact ⟨_, xs, hxs, rfl⟩

theorem normal_of_forall₂ {xs : List SourceType} (hfit : ∀ e ∈ a.entries, W.Fit e)
    (h : List.Forall₂ W.Gives a.entries xs) : ∀ x ∈ xs, x.Normal := by
  intro x hx
  obtain ⟨e, he, hex⟩ := exists_of_forall₂_right h x hx
  exact (hfit e he).normal_of_gives hex

theorem Outcome.regular (hfit : ∀ e ∈ a.entries, W.Fit e) (h : W.Outcome a x) : x.Regular := by
  obtain ⟨xs, hxs, rfl⟩ := h
  exact Regular.unionAll fun u hu => regular_of_normal (normal_of_forall₂ hfit hxs u hu)

theorem Outcome.below_iff (hfit : ∀ e ∈ a.entries, W.Fit e) (h : W.Outcome a x) (hc : c.Normal) :
    x.Below c ↔ ∀ e ∈ a.entries, W.Bounded e c := by
  obtain ⟨xs, hxs, rfl⟩ := h
  rw [unionAll_below_iff (normal_of_forall₂ hfit hxs) hc]
  constructor
  · intro hall e he
    obtain ⟨x, hx, hex⟩ := exists_of_forall₂_left hxs e he
    exact ⟨x, hex, hall x hx⟩
  · intro hall x hx
    obtain ⟨e, he, g, hg, rfl⟩ := exists_of_forall₂_right hxs x hx
    exact (bounded_iff hg).1 (hall e he)

end EntryRule

namespace UnionType

variable {a b : SourceType}

theorem Definite.entries_ne_nil (h : a.Definite) : a.entries ≠ [] := by
  simpa [UnionType.isBase] using h.isBase

theorem Definite.not_isAny (h : a.Definite) : ∀ e ∈ a.entries, e.isAny = false := by
  simpa [UnionType.isAny] using h.isAny

theorem Definite.entries_union (ha : a.Definite) (hb : b.Definite) :
    (a.union b).entries = Entry.insertAll a.entries b.entries := by
  have hunion :=
    union_of_not_isAny ha.entries_ne_nil hb.entries_ne_nil ha.not_isAny hb.not_isAny
  rw [of_entries, of_entries] at hunion
  rw [hunion, entries_of]

theorem Definite.union (ha : a.Definite) (hb : b.Definite) : (a.union b).Definite := by
  constructor
  · simpa [UnionType.isBase, ha.entries_union hb]
      using Entry.insertAll_ne_nil ha.entries_ne_nil b.entries
  · simpa [UnionType.isAny, ha.entries_union hb]
      using Entry.isAny_insertAll ha.not_isAny hb.not_isAny

end UnionType

namespace EntryRule

variable {W : EntryRule} {a b : SourceType}

/-- A union gives the union of what its sides give. -/
theorem outcome_union (ha : a.Definite) (hb : b.Definite) (hafit : ∀ e ∈ a.entries, W.Fit e)
    (hbfit : ∀ e ∈ b.entries, W.Fit e) :
    ((∃ z, W.Outcome (a.union b) z) ↔ (∃ x, W.Outcome a x) ∧ ∃ y, W.Outcome b y)
      ∧ ∀ x y z, W.Outcome a x → W.Outcome b y → W.Outcome (a.union b) z →
        (z == x.union y) = true := by
  have hentries := ha.entries_union hb
  have hfit : ∀ e ∈ (a.union b).entries, W.Fit e := by
    rw [hentries]
    exact fit_insertAll hafit hbfit
  constructor
  · rw [exists_outcome_iff, exists_outcome_iff, exists_outcome_iff, hentries]
    exact bounded_insertAll hafit hbfit regular_any.normal
  · intro x y z hx hy hz
    have hxr := hx.regular hafit
    have hyr := hy.regular hbfit
    refine beq_of_bounds (hz.regular hfit) (hxr.union hyr) fun c hc => ?_
    rw [union_below_iff hxr.normal hyr.normal hc, hz.below_iff hfit hc, hx.below_iff hafit hc,
      hy.below_iff hbfit hc, hentries]
    exact bounded_insertAll hafit hbfit hc

end EntryRule

/-! ### Typing with an operand -/

/-- With the union of `a` and `b` for `x` the node has a type exactly if it has one
    with either of them, and that is then the union of those two. -/
structure Distributes (env : TypeEnv) (x : Name) (a b : SourceType) (n : Node) : Prop where
  typed_iff : (∃ t, (typeOf (env.insert x (a.union b)) n).result = .ok t)
    ↔ (∃ u, (typeOf (env.insert x a) n).result = .ok u)
      ∧ ∃ v, (typeOf (env.insert x b) n).result = .ok v
  union : ∀ u v t, (typeOf (env.insert x a) n).result = .ok u →
    (typeOf (env.insert x b) n).result = .ok v →
    (typeOf (env.insert x (a.union b)) n).result = .ok t → (t == u.union v) = true

section

variable {W : EntryRule} {env : TypeEnv} {x m : Name} {a b t z : SourceType} {n : Node}
  {gs : List SourceType} {as : List Node}

theorem EntryRule.distributes (ha : a.Definite) (hb : b.Definite)
    (hafit : ∀ e ∈ a.entries, W.Fit e) (hbfit : ∀ e ∈ b.entries, W.Fit e)
    (h : ∀ t ∈ [a, b, a.union b], ∀ z,
      (typeOf (env.insert x t) n).result = .ok z ↔ W.Outcome t z) :
    Distributes env x a b n := by
  simp only [List.forall_mem_cons] at h
  obtain ⟨ha', hb', hab', _⟩ := h
  obtain ⟨hiff, hunion⟩ := outcome_union ha hb hafit hbfit
  constructor
  · simpa only [ha', hb', hab'] using hiff
  · simpa only [ha', hb', hab'] using hunion

/-- The operand has the type that the environment binds it to. -/
theorem result_bind_operand {f : SourceType → Typing SourceType} :
    (typeOf (env.insert x t) (.var x) >>= f).result = (f t).result := by
  rw [typeOf, ofVariable, TypeEnv.lookup?_insert, if_pos rfl]
  exact congrArg Traced.result (pure_bind t f)

/-! #### Calls -/

/-- Calling a function puts the given types into its result. -/
def callRule (gs : List SourceType) : EntryRule
  | .inl _ => none
  | .inr t =>
    if gs.length = t.generics.length then some (Substitution.ofBindings t.generics gs).apply
    else none

/-- The number of types given decides, where none has to be solved. -/
theorem callEntry_eq_ok_iff {callee : SourceType} {arguments : List SourceType} {node : Text}
    {e : SourceEntry} (hgs : gs = [] → e.generics = []) :
    (callEntry callee gs arguments node e).result = .ok z ↔ (callRule gs).Gives e z := by
  rcases e with ⟨n, ps⟩ | ⟨t, ps, r⟩
  · simp [callEntry, EntryRule.Gives, callRule, Entry.frame]
  have hgives : (callRule gs).Gives (.function t ps r) z
      ↔ gs.length = t.generics.length ∧ (Substitution.ofBindings t.generics gs).apply r = z := by
    simp [EntryRule.Gives, callRule, Entry.frame, Entry.value]
  rw [hgives, callEntry]
  rcases gs with _ | ⟨g, gs⟩
  · have hnil : t.generics = [] := hgs rfl
    have happly : (Substitution.ofBindings [] []).apply r = r := Substitution.apply_of_isEmpty rfl r
    simp [hnil, happly]
  · by_cases hlen : (g :: gs).length = t.generics.length
    · have hne : t.generics ≠ [] := by
        intro hnil
        rw [hnil] at hlen
        cases hlen
      simp [hlen, hne]
    · rw [List.length_cons] at hlen
      simp [hlen]

/-- No generics are solved: types are given for them, or there are none. -/
theorem infersGenerics_eq_false (h : gs = [] → ∀ e ∈ t.entries, e.generics = []) :
    infersGenerics t gs = false := by
  rw [infersGenerics, Bool.and_eq_false_imp, List.isEmpty_iff]
  intro hnil
  rw [List.any_eq_false]
  rintro (⟨n, ps⟩ | ⟨t, ps, r⟩) he
  · exact Bool.false_ne_true
  · have hdeclared : t.generics = [] := h hnil _ he
    simp [hdeclared]

theorem result_call_eq_ok_iff (ht : t.Definite)
    (hgs : gs = [] → ∀ e ∈ t.entries, e.generics = []) :
    (typeOf (env.insert x t) (.call (.var x) as gs)).result = .ok z
      ↔ (callRule gs).Outcome t z := by
  rw [typeOf, result_bind_operand]
  simp only [ht.isAny, ht.isBase, infersGenerics_eq_false hgs, Bool.false_eq_true, if_false,
    pure_bind, callResult, Traced.result_bind, Traced.result_mapM, bind_eq_ok_iff,
    Traced.result_pure, Except.ok.injEq]
  refine exists_congr fun xs => and_congr_left fun _ => mapM_eq_ok_iff_of fun e he u => ?_
  exact callEntry_eq_ok_iff fun hnil => hgs hnil e he

theorem Substitution.unionPreserving_apply {s : Substitution}
    (hs : ∀ n u, s.find? n = some u → u.Normalized) (hany : s.find? TypeName.any = none) :
    UnionPreserving s.apply := by
  obtain ⟨hunion, hcongr⟩ := apply_homomorphism hs hany
  constructor
  · exact fun ha => normalized_iff.1 (Normalized.apply hs (normalized_iff.2 ha))
  · exact fun ha hb => hunion _ _ (normalized_iff.2 ha) (normalized_iff.2 hb)
  · exact fun ha hb => hcongr _ _ (normalized_iff.2 ha) (normalized_iff.2 hb)

theorem fit_callRule (hgs : ∀ g ∈ gs, g.Normalized) {e : SourceEntry}
    (he : ∀ a ∈ e.parts, a.Normal) (hany : TypeName.any ∉ e.generics) : (callRule gs).Fit e where
  normal := he
  preserving := by
    intro f hf
    rcases e with ⟨n, ps⟩ | ⟨t, ps, r⟩
    · cases hf
    · obtain ⟨_, hf⟩ := Option.ite_none_right_eq_some.1 hf
      obtain rfl := Option.some.inj hf
      have hnone : (Substitution.ofBindings t.generics gs).find? TypeName.any = none :=
        Substitution.find?_ofBindings_of_not_mem hany gs
      exact Substitution.unionPreserving_apply (each_ofBindings hgs) hnone

/-! #### Members -/

/-- The name under which entries with the frame have their members. -/
def frameName : (Name × Nat) ⊕ FunctionTraits → Name
  | .inl (n, _) => n
  | .inr _ => TypeName.function

theorem frameName_frame (e : SourceEntry) : frameName e.frame = SourceEntry.name e := by
  cases e <;> rfl

/-- A member has the type that the environment has for it, whatever the value is. -/
def memberRule (env : TypeEnv) (m : Name) : EntryRule := fun frame =>
  (env.lookupMember? (frameName frame) m).map fun t _ => t

theorem fit_memberRule (hm : ∀ owner u, env.lookupMember? owner m = some u → u.Normal)
    {e : SourceEntry} (he : ∀ a ∈ e.parts, a.Normal) : (memberRule env m).Fit e where
  normal := he
  preserving := by
    intro f hf
    obtain ⟨u, hu, rfl⟩ := Option.map_eq_some_iff.1 hf
    have hu := regular_of_normal (hm _ u hu)
    have hself := (semilattice_of_regular fun _ => id).union_self u hu
    exact ⟨fun _ => hu.normal, fun _ _ => same_symm (hu.union hu).normal hself,
      fun _ _ _ => same_refl u⟩

/-- The member is found for every entry, and its type is not empty. -/
theorem memberType_eq_ok_iff {node : Text} (ht : t.Definite)
    (hm : ∀ owner u, env.lookupMember? owner m = some u → u.isBase = false) :
    (memberType env t m node).result = .ok z ↔ (memberRule env m).Outcome t z := by
  simp only [memberType, ht.isAny, Bool.false_eq_true, if_false, Traced.result_bind,
    Traced.result_mapM, bind_eq_ok_iff]
  refine exists_congr fun xs => ?_
  refine (and_congr_left fun _ =>
    mapM_eq_ok_iff_of (R := (memberRule env m).Gives) fun e _ u => ?_).trans ?_
  · rw [EntryRule.Gives, memberRule, frameName_frame]
    cases env.lookupMember? (SourceEntry.name e) m <;> simp
  refine and_congr_right fun hxs => ?_
  -- the first entry has a member, whose type is not empty
  have hbase : (unionAll xs).isBase = false := by
    rw [Bool.eq_false_iff, ne_eq, isBase_iff, unionAll_eq_base_iff]
    intro hall
    obtain ⟨e, he⟩ := List.exists_mem_of_ne_nil _ ht.entries_ne_nil
    obtain ⟨_, hmem, f, hf, rfl⟩ := exists_of_forall₂_left hxs e he
    obtain ⟨u, hu, rfl⟩ := Option.map_eq_some_iff.1 hf
    have hne := hm _ u hu
    rw [hall u hmem] at hne
    cases hne
  simp [hbase]

theorem result_member_eq_ok_iff (ht : t.Definite)
    (hm : ∀ owner u, env.lookupMember? owner m = some u → u.isBase = false) :
    (typeOf (env.insert x t) (.member (.var x) m)).result = .ok z
      ↔ (memberRule env m).Outcome t z := by
  rw [typeOf, result_bind_operand]
  exact memberType_eq_ok_iff ht hm

end

/-- Typing a call of a variable, or of a member of it, distributes over unions of the
    variable's type.  The types are such as programs make, normalized, those given
    to the call and those of the members included, and none is empty or universal.
    No function declares `any` as a generic, and where the call is given no types,
    none declares any generic. -/
theorem typeOf_union_operand (env : TypeEnv) (x : Name) {a b : SourceType} (ha : a.Normalized)
    (hb : b.Normalized) (hda : a.Definite) (hdb : b.Definite)
    (hany : ∀ e ∈ a.entries ++ b.entries, TypeName.any ∉ e.generics) :
    (∀ (gs : List SourceType) (as : List Node), (∀ g ∈ gs, g.Normalized) →
        (gs = [] → ∀ e ∈ a.entries ++ b.entries, e.generics = []) →
        Distributes env x a b (.call (.var x) as gs))
      ∧ ∀ m : Name,
        (∀ owner t, env.lookupMember? owner m = some t → t.Normalized ∧ t.isBase = false) →
        Distributes env x a b (.member (.var x) m) := by
  have hparts {t : SourceType} (ht : t.Normalized) : ∀ e ∈ t.entries, ∀ u ∈ e.parts, u.Normal := by
    obtain ⟨es⟩ := t
    exact (each_of_iff.1 (normalized_iff.1 ht)).2
  rw [List.forall_mem_append] at hany
  constructor
  · intro gs as hgs hnone
    simp only [List.forall_mem_append] at hnone
    have hfit {t : SourceType} (ht : t.Normalized)
        (hany : ∀ e ∈ t.entries, TypeName.any ∉ e.generics) :
        ∀ e ∈ t.entries, (callRule gs).Fit e :=
      fun e he => fit_callRule hgs (hparts ht e he) (hany e he)
    -- the entries of the union declare what those of the sides do
    have hnone' : gs = [] → ∀ e ∈ (a.union b).entries, e.generics = [] := by
      intro hnil
      rw [hda.entries_union hdb]
      exact (kept_generics (q := (· = [])) rfl).insertAll (hnone hnil).1 (hnone hnil).2
        hda.not_isAny hdb.not_isAny
    refine EntryRule.distributes hda hdb (hfit ha hany.1) (hfit hb hany.2) ?_
    simp only [List.forall_mem_cons]
    exact ⟨fun z => result_call_eq_ok_iff hda fun h => (hnone h).1,
      fun z => result_call_eq_ok_iff hdb fun h => (hnone h).2,
      fun z => result_call_eq_ok_iff (hda.union hdb) hnone', List.forall_mem_nil _⟩
  · intro m hm
    have hfit {t : SourceType} (ht : t.Normalized) : ∀ e ∈ t.entries, (memberRule env m).Fit e :=
      fun e he => fit_memberRule (fun o u hu => normalized_iff.1 (hm o u hu).1) (hparts ht e he)
    have hbase : ∀ owner t, env.lookupMember? owner m = some t → t.isBase = false :=
      fun o t ht => (hm o t ht).2
    refine EntryRule.distributes hda hdb (hfit ha) (hfit hb) ?_
    simp only [List.forall_mem_cons]
    exact ⟨fun z => result_member_eq_ok_iff hda hbase, fun z => result_member_eq_ok_iff hdb hbase,
      fun z => result_member_eq_ok_iff (hda.union hdb) hbase, List.forall_mem_nil _⟩

/-- Two functions meet, two do not, and a type put in for a generic meets another one;
    two types of lists meet beside a type that has the member as well. -/
theorem typeOf_union_operand_generic :
    let function (g n : Text) (r : SourceType) : SourceEntry :=
      .function ⟨.either, false, false, [g]⟩ [.bare n] r
    let f : Name := "f".toList
    let xs : Name := "xs".toList
    let a : SourceType := ofEntries [function ['T'] ['T'] (.bare ['T']),
      function ['U'] TypeName.number (SourceType.list (.bare ['U']))]
    let b : SourceType := ofEntries [function ['V'] TypeName.string SourceType.string,
      function ['T'] ['T'] SourceType.number]
    let call : Node := .call (.var f) [] [SourceType.list SourceType.string]
    let c : SourceType := ofEntries [.named TypeName.list [SourceType.number]]
    let d : SourceType := ofEntries [.named TypeName.list [SourceType.string],
      .named TypeName.string []]
    let member : Node := .member (.var xs) "length".toList
    (a.union b).entries.length = 3 ∧ Distributes .initial f a b call
      ∧ (typeOf (TypeEnv.initial.insert f (a.union b)) call).result.toOption.map SourceType.text
        = some "list[string[]|list[string[]]]|number[]|string[]".toList
      ∧ (c.union d).entries.length = 2 ∧ Distributes .initial xs c d member
      ∧ (typeOf (TypeEnv.initial.insert xs (c.union d)) member).result.toOption.map SourceType.text
        = some "number[]".toList := by
  intro function f xs a b call c d member
  have hbare (n : Name) : (UnionType.bare n).Normalized :=
    normalized_iff.2 (each_bare lasting_settled n)
  have hlist (n : Name) : (SourceType.list (.bare n)).Normalized :=
    normalized_iff.2 (each_named lasting_settled (each_bare lasting_settled n))
  have hfunction (g n : Text) {r : SourceType} (hr : r.Normalized) :
      ∀ t ∈ (function g n r).parts, t.Normalized :=
    List.forall_mem_cons.2 ⟨hr, List.forall_mem_singleton.2 (hbare n)⟩
  have ha : a.Normalized := Normalized.ofEntries (List.forall_mem_cons.2
    ⟨hfunction _ _ (hbare _), List.forall_mem_singleton.2 (hfunction _ _ (hlist _))⟩)
  have hb : b.Normalized := Normalized.ofEntries (List.forall_mem_cons.2
    ⟨hfunction _ _ (hbare _), List.forall_mem_singleton.2 (hfunction _ _ (hbare _))⟩)
  have hc : c.Normalized := Normalized.ofEntries (List.forall_mem_singleton.2
    (List.forall_mem_singleton.2 (hbare _)))
  have hd : d.Normalized := Normalized.ofEntries (List.forall_mem_cons.2
    ⟨List.forall_mem_singleton.2 (hbare _), List.forall_mem_singleton.2 (List.forall_mem_nil _)⟩)
  have hcalls := (typeOf_union_operand .initial f ha hb ⟨by decide +kernel, by decide +kernel⟩
    ⟨by decide +kernel, by decide +kernel⟩ (by decide +kernel)).1
  have hmembers := (typeOf_union_operand .initial xs hc hd ⟨by decide +kernel, by decide +kernel⟩
    ⟨by decide +kernel, by decide +kernel⟩ (by decide +kernel)).2
  have hsettled := TypeEnv.each_initial lasting_settled
  have hne := TypeEnv.each_initial lasting_ne_nil
  refine ⟨by decide +kernel, hcalls _ _ (List.forall_mem_singleton.2 (hlist _)) nofun,
    by decide +kernel, by decide +kernel, hmembers _ ?_, by decide +kernel⟩
  intro owner t ht
  refine ⟨normalized_iff.2 (hsettled.lookupMember _ _ t ht), ?_⟩
  obtain ⟨es⟩ := t
  exact List.isEmpty_eq_false_iff.2 (each_of_iff.1 (hne.lookupMember _ _ _ ht)).1

end UnionTyping
