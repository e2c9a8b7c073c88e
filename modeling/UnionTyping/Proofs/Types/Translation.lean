/-
  UnionTyping/Proofs/Types/Translation.lean
  =========================================
  **Translating types** — a translation takes a type apart, replaces its names and
  unites what the entries have become.  It may fail, and what a name becomes may
  depend on the generics declared around it.  Putting types in for generics is one
  translation, looking names up in a registry another.

  Types that are the same become types that are the same (`same_type`), and a union
  becomes the union of what its sides become (`type_union`): entries that meet have
  heads and parameters that are still the same afterwards.  Entries that first meet
  when they are translated make no difference, because the image of a type is known
  by its upper bounds (`bounded_of_iff`), and an upper bound does not tell whether
  they are kept side by side.

  The universal type absorbs a union before it is translated, so it has to become
  the universal type.  A translation says in which contexts it does (`Valid`), and
  which generics a function may declare for that (`Harmless`).
-/
import UnionTyping.Proofs.Answers
import UnionTyping.Proofs.Types.Semilattice

namespace UnionTyping

open UnionType

/-- A way of turning written types into types over the vocabulary `μ`, in contexts `ι`. -/
structure Translation (ι ε μ : Type) [DecidableEq μ] [Vocabulary μ] where
  type : ι → SourceType → Except ε (UnionType μ)
  /-- What the name of a type with so many arguments becomes. -/
  head : Name → Nat → Except ε μ
  /-- The context inside a function that declares generics. -/
  enter : ι → List Name → ι
  Valid : ι → Prop
  Harmless : List Name → Prop
  harmless_nil : Harmless []
  valid_enter : ∀ {i names}, Valid i → Harmless names → Valid (enter i names)
  type_of_iff : ∀ {i es x}, Settled es →
    (type i (.of es) = .ok x ↔ ∃ xs, (es.mapM fun e => type i (.single e)) = .ok xs ∧ unionAll xs = x)
  type_named_iff : ∀ {i n a as x}, type i (.named n (a :: as)) = .ok x
    ↔ ∃ h xs, head n (as.length + 1) = .ok h ∧ (a :: as).mapM (type i) = .ok xs ∧ .named h xs = x
  type_function_iff : ∀ {i t ps r x}, type i (.single (.function t ps r)) = .ok x
    ↔ ∃ xs y, ps.mapM (type (enter i t.generics)) = .ok xs
      ∧ type (enter i t.generics) r = .ok y ∧ .single (.function t xs y) = x
  regular_bare : ∀ {i n x}, Valid i → type i (.bare n) = .ok x → x.Regular
  type_any : ∀ {i x}, Valid i → type i .any = .ok x → x = .any

namespace Translation

variable {ι ε μ : Type} [DecidableEq μ] [Vocabulary μ] (T : Translation ι ε μ) {i : ι}

/-- The unions of the type are settled, and its functions declare nothing that
    harms the translation. -/
def Admits (t : SourceType) : Prop := t.Each fun es => Settled es ∧ ∀ e ∈ es, T.Harmless e.generics

theorem kept_admitted :
    Kept fun es : List SourceEntry => Settled es ∧ ∀ e ∈ es, T.Harmless e.generics :=
  kept_settled.and (kept_generics T.harmless_nil)

variable {T}

theorem Admits.normal {t : SourceType} (h : T.Admits t) : t.Normal := h.imp fun _ hes => hes.1

theorem Admits.union {a b : SourceType} (ha : T.Admits a) (hb : T.Admits b) :
    T.Admits (a.union b) := Each.union T.kept_admitted ha hb

theorem Admits.entry {es : List SourceEntry} (h : T.Admits (.of es)) {e : SourceEntry}
    (he : e ∈ es) : T.Admits (.single e) :=
  .single (T.kept_admitted.single (each_of_iff.1 h).1 he rfl) ((each_of_iff.1 h).2 e he)

theorem Admits.parts {e : SourceEntry} (h : T.Admits (.single e)) : ∀ a ∈ e.parts, T.Admits a :=
  (each_of_iff.1 h).2 e (List.mem_singleton_self e)

theorem Admits.harmless {e : SourceEntry} (h : T.Admits (.single e)) : T.Harmless e.generics :=
  (each_of_iff.1 h).1.2 e (List.mem_singleton_self e)

theorem regular_type (hi : T.Valid i) {t : SourceType} (ht : T.Admits t) {x : UnionType μ}
    (h : T.type i t = .ok x) : x.Regular := by
  induction ht generalizing i x with
  | @of es hes hparts ih =>
    obtain ⟨xs, hxs, rfl⟩ := (T.type_of_iff hes.1).1 h
    refine Regular.unionAll fun u hu => ?_
    obtain ⟨e, he, hu⟩ := exists_of_forall₂_right (mapM_eq_ok_iff.1 hxs) u hu
    have hin {j : ι} (hj : T.Valid j) {as : List SourceType} {ys : List (UnionType μ)}
        (has : ∀ a ∈ as, a ∈ e.parts) (h : as.mapM (T.type j) = .ok ys) : ∀ y ∈ ys, y.Regular := by
      intro y hy
      obtain ⟨a, ha, hay⟩ := exists_of_forall₂_right (mapM_eq_ok_iff.1 h) y hy
      exact ih e he a (has a ha) hj hay
    rcases e with ⟨n, _ | ⟨a, as⟩⟩ | ⟨t, ps, r⟩
    · exact T.regular_bare hi hu
    · obtain ⟨k, ys, _, hys, rfl⟩ := T.type_named_iff.1 hu
      obtain ⟨y, ys', _, _, rfl⟩ := List.forall₂_cons_left_iff.1 (mapM_eq_ok_iff.1 hys)
      exact regular_single (fun hany => by cases hany) (hin hi (fun b hb => hb) hys)
    · obtain ⟨ys, y, hys, hy, rfl⟩ := T.type_function_iff.1 hu
      have hj := T.valid_enter hi (hes.2 _ he)
      refine regular_single (fun hany => by cases hany) (List.forall_mem_cons.2 ⟨?_, ?_⟩)
      · exact ih _ he r (List.mem_cons_self ..) hj hy
      · exact hin hj (fun b hb => List.mem_cons_of_mem r hb) hys

theorem regular_of_mapM (hi : T.Valid i) {ts : List SourceType} (hts : ∀ t ∈ ts, T.Admits t)
    {xs : List (UnionType μ)} (h : ts.mapM (T.type i) = .ok xs) : ∀ x ∈ xs, x.Regular := by
  intro x hx
  obtain ⟨t, ht, htx⟩ := exists_of_forall₂_right (mapM_eq_ok_iff.1 h) x hx
  exact regular_type hi (hts t ht) htx

/-! ### Upper bounds -/

variable (T) in
/-- The type becomes a type below `c`. -/
def Bounded (i : ι) (t : SourceType) (c : UnionType μ) : Prop := ∃ x, T.type i t = .ok x ∧ x.Below c

theorem bounded_iff_of_ok {t : SourceType} {x c : UnionType μ} (h : T.type i t = .ok x) :
    T.Bounded i t c ↔ x.Below c := by
  constructor
  · rintro ⟨y, hy, hyc⟩
    obtain rfl := Except.ok.inj (h.symm.trans hy)
    exact hyc
  · exact fun hxc => ⟨x, h, hxc⟩

/-- Every type is below the universal one, so that this says that the type becomes one. -/
theorem bounded_any_iff {t : SourceType} : T.Bounded i t .any ↔ ∃ x, T.type i t = .ok x :=
  ⟨fun ⟨x, hx, _⟩ => ⟨x, hx⟩, fun ⟨x, hx⟩ => ⟨x, hx, below_any x⟩⟩

theorem bounded_of_iff (hi : T.Valid i) {es : List SourceEntry} (hes : T.Admits (.of es))
    {c : UnionType μ} (hc : c.Normal) :
    T.Bounded i (.of es) c ↔ ∀ e ∈ es, T.Bounded i (.single e) c := by
  have hof {x : UnionType μ} := T.type_of_iff (i := i) (x := x) (each_of_iff.1 hes).1.1
  have hnormal {xs : List (UnionType μ)}
      (h : (es.mapM fun e => T.type i (.single e)) = .ok xs) (x : UnionType μ) (hx : x ∈ xs) :
      x.Normal := by
    obtain ⟨e, he, hex⟩ := exists_of_forall₂_right (mapM_eq_ok_iff.1 h) x hx
    exact (regular_type hi (hes.entry he) hex).normal
  constructor
  · rintro ⟨x, hx, hxc⟩ e he
    obtain ⟨xs, hxs, rfl⟩ := hof.1 hx
    obtain ⟨x, hx, hex⟩ := exists_of_forall₂_left (mapM_eq_ok_iff.1 hxs) e he
    exact ⟨x, hex, (unionAll_below_iff (hnormal hxs) hc).1 hxc x hx⟩
  · intro h
    obtain ⟨xs, hxs, hbelow⟩ := exists_mapM h
    refine ⟨unionAll xs, hof.2 ⟨xs, hxs, rfl⟩, ?_⟩
    exact (unionAll_below_iff (hnormal hxs) hc).2 hbelow

/-! ### Types that are the same -/

variable (T) in
/-- The second type becomes what the first one does. -/
def Equates (a b : SourceType) : Prop :=
  ∀ i x, T.Valid i → T.type i a = .ok x → ∃ y, T.type i b = .ok y ∧ x.same y = true

theorem exists_mapM_of_sameAll (hi : T.Valid i) {as bs : List SourceType} {xs : List (UnionType μ)}
    (hin : ∀ a ∈ as, ∀ b ∈ bs, a.same b = true → T.Equates a b) (h : sameAll as bs = true)
    (hxs : as.mapM (T.type i) = .ok xs) :
    ∃ ys, bs.mapM (T.type i) = .ok ys ∧ sameAll xs ys = true := by
  obtain ⟨ys, hys, hsame⟩ := exists_mapM_of_forall₂ (sameAll_iff.1 h)
    (fun a ha b hb hab x hx => hin a ha b hb hab i x hi hx) hxs
  exact ⟨ys, hys, sameAll_iff.2 hsame⟩

theorem equates_single {d f : SourceEntry} (hd : T.Admits (.single d))
    (hin : ∀ a ∈ d.parts, ∀ b ∈ f.parts, a.same b = true → T.Equates a b) (h : d.same f = true) :
    T.Equates (.single d) (.single f) := by
  intro i x hi hx
  rcases d with ⟨n, as⟩ | ⟨t, ps, r⟩ <;> rcases f with ⟨k, bs⟩ | ⟨u, qs, s⟩
  · simp only [Entry.same, Bool.and_eq_true, beq_iff_eq] at h
    obtain ⟨rfl, h⟩ := h
    rcases as with _ | ⟨a, as⟩ <;> rcases bs with _ | ⟨b, bs⟩
    · exact ⟨x, hx, same_refl x⟩
    · simp [sameAll] at h
    · simp [sameAll] at h
    · obtain ⟨k, xs, hk, hxs, rfl⟩ := T.type_named_iff.1 hx
      obtain ⟨ys, hys, hsame⟩ := exists_mapM_of_sameAll hi hin h hxs
      have hlen : bs.length = as.length := Nat.succ.inj (length_of_sameAll h).symm
      refine ⟨.named k ys, T.type_named_iff.2 ⟨k, ys, ?_, hys, rfl⟩, same_single ?_⟩
      · rwa [hlen]
      · simp [Entry.same, hsame]
  · simp [Entry.same] at h
  · simp [Entry.same] at h
  · simp only [Entry.same, Bool.and_eq_true, beq_iff_eq] at h
    obtain ⟨⟨rfl, hps⟩, hr⟩ := h
    obtain ⟨xs, y, hxs, hy, rfl⟩ := T.type_function_iff.1 hx
    have hj : T.Valid (T.enter i t.generics) := T.valid_enter hi hd.harmless
    obtain ⟨ys, hys, hsame⟩ := exists_mapM_of_sameAll hj
      (fun a ha b hb => hin a (List.mem_cons_of_mem r ha) b (List.mem_cons_of_mem s hb)) hps hxs
    obtain ⟨z, hz, hyz⟩ :=
      hin r (List.mem_cons_self ..) s (List.mem_cons_self ..) hr _ y hj hy
    refine ⟨_, T.type_function_iff.2 ⟨ys, z, hys, hz, rfl⟩, same_single ?_⟩
    simp [Entry.same, hsame, hyz]

/-- What becomes the same has the same upper bounds. -/
theorem Equates.bounded_iff {a b : SourceType} (h : T.Equates a b) (hi : T.Valid i) (ha : T.Admits a)
    (hbounded : T.Bounded i a .any) {c : UnionType μ} : T.Bounded i a c ↔ T.Bounded i b c := by
  obtain ⟨x, hx⟩ := bounded_any_iff.1 hbounded
  obtain ⟨y, hy, hxy⟩ := h i x hi hx
  rw [bounded_iff_of_ok hx, bounded_iff_of_ok hy]
  have hyx := same_symm (regular_type hi ha hx).normal hxy
  exact ⟨below_trans (below_of_same hyx), below_trans (below_of_same hxy)⟩

/-- Types that are the same become types that are the same. -/
theorem same_type {a b : SourceType} (ha : T.Admits a) (hb : T.Admits b) (h : a.same b = true) :
    T.Equates a b := by
  induction a using parts_induction generalizing b with
  | of es ih =>
    obtain ⟨fs⟩ := b
    have heparts := (each_of_iff.1 ha).2
    have hfparts := (each_of_iff.1 hb).2
    have hentry : ∀ e ∈ es, ∀ f ∈ fs, e.same f = true → T.Equates (.single e) (.single f) :=
      fun e he f hf => equates_single (ha.entry he) fun x hx y hy =>
        ih e he x hx (heparts e he x hx) (hfparts f hf y hy)
    -- an entry has its partner on either side
    have hleft := (same_of_iff.1 h).2
    have hright : ∀ f ∈ fs, ∃ e ∈ es, e.same f = true := by
      intro f hf
      obtain ⟨e, he, hfe⟩ := (same_of_iff.1 (same_symm ha.normal h)).2 f hf
      exact ⟨e, he, Entry.same_symm (fun a ha => Admits.normal (hfparts f hf a ha)) hfe⟩
    intro i x hi hx
    have hes : ∀ e ∈ es, T.Bounded i (.single e) .any :=
      (bounded_of_iff hi ha regular_any.normal).1 (bounded_any_iff.2 ⟨x, hx⟩)
    have hbounds (c : UnionType μ) (hc : c.Normal) :
        T.Bounded i (.of es) c ↔ T.Bounded i (.of fs) c := by
      rw [bounded_of_iff hi ha hc, bounded_of_iff hi hb hc]
      constructor
      · intro hall f hf
        obtain ⟨e, he, hef⟩ := hright f hf
        exact ((hentry e he f hf hef).bounded_iff hi (ha.entry he) (hes e he)).1 (hall e he)
      · intro hall e he
        obtain ⟨f, hf, hef⟩ := hleft e he
        exact ((hentry e he f hf hef).bounded_iff hi (ha.entry he) (hes e he)).2 (hall f hf)
    obtain ⟨y, hy, _⟩ := (hbounds .any regular_any.normal).1 (bounded_any_iff.2 ⟨x, hx⟩)
    refine ⟨y, hy, beq_of_bounds (regular_type hi ha hx) (regular_type hi hb hy) ?_⟩
    intro c hc
    rw [← bounded_iff_of_ok hx, ← bounded_iff_of_ok hy]
    exact hbounds c hc

/-! ### Unions -/

variable (T) in
/-- A union with `b` on the right becomes the least type above what its sides become. -/
def Unites (b : SourceType) : Prop :=
  ∀ i a x y, T.Valid i → T.Admits a → T.type i a = .ok x → T.type i b = .ok y →
    ∃ z, T.type i (a.union b) = .ok z
      ∧ ∀ c : UnionType μ, c.Normal → (z.Below c ↔ x.Below c ∧ y.Below c)

variable (T) in
/-- The entry is admitted, and it becomes a type. -/
structure Ready (i : ι) (e : SourceEntry) : Prop where
  admits : T.Admits (.single e)
  bounded : T.Bounded i (.single e) .any

/-- A type with one argument becomes what its argument does. -/
theorem type_one_iff {n : Name} {a : SourceType} {x : UnionType μ} :
    T.type i (.single (.named n [a])) = .ok x
      ↔ ∃ h y, T.head n 1 = .ok h ∧ T.type i a = .ok y ∧ .single (.named h [y]) = x := by
  refine T.type_named_iff.trans ?_
  constructor
  · rintro ⟨h, xs, hh, hxs, rfl⟩
    obtain ⟨y, _, hy, hnil, rfl⟩ := List.forall₂_cons_left_iff.1 (mapM_eq_ok_iff.1 hxs)
    obtain rfl := List.forall₂_nil_left_iff.1 hnil
    exact ⟨h, y, hh, hy, rfl⟩
  · rintro ⟨h, y, hh, hy, rfl⟩
    exact ⟨h, [y], hh, mapM_eq_ok_iff.2 (.cons hy .nil), rfl⟩

/-- What two entries that meet become is least above what each of them becomes. -/
theorem bounded_merge (hi : T.Valid i) {d f e : SourceEntry} (hm : Entry.merge d f = some e)
    (hd : T.Ready i d) (hf : T.Ready i f) (hin : ∀ b ∈ f.parts, T.Unites b)
    {c : UnionType μ} (hc : c.Normal) :
    T.Bounded i (.single e) c ↔ T.Bounded i (.single d) c ∧ T.Bounded i (.single f) c := by
  obtain ⟨u, hu⟩ := bounded_any_iff.1 hd.bounded
  obtain ⟨v, hv⟩ := bounded_any_iff.1 hf.bounded
  have halike := (Entry.alike_of_merge hm).1
  have hdparts := hd.admits.parts
  have hfparts := hf.admits.parts
  have hharmless := hd.admits.harmless
  rw [bounded_iff_of_ok hu, bounded_iff_of_ok hv]
  rcases Entry.eq_of_merge hm with ⟨k, a, b, rfl, rfl, rfl⟩ | ⟨t, ps, qs, r, s, rfl, rfl, rfl⟩
  · obtain ⟨h, x, hh, hx, rfl⟩ := type_one_iff.1 hu
    obtain ⟨h', y, hh', hy, rfl⟩ := type_one_iff.1 hv
    obtain rfl := Except.ok.inj (hh.symm.trans hh')
    obtain ⟨z, hz, hbounds⟩ := hin b (List.mem_singleton_self b) i a x y hi
      (hdparts a (List.mem_singleton_self a)) hx hy
    rw [bounded_iff_of_ok (type_one_iff.2 ⟨h, z, hh, hz, rfl⟩)]
    have hone (x y : UnionType μ) : (Entry.named h [x]).Alike (.named h [y]) :=
      ⟨rfl, Or.inl ⟨rfl, rfl⟩⟩
    refine single_below_iff ?_ ⟨hone _ _, hone _ _⟩ ⟨hone _ _, hone _ _⟩ hbounds hc
    exact List.forall_mem_singleton.2
      (regular_type hi (hdparts a (List.mem_singleton_self a)) hx).normal
  · obtain ⟨xs, x, hxs, hx, rfl⟩ := T.type_function_iff.1 hu
    obtain ⟨ys, y, hys, hy, rfl⟩ := T.type_function_iff.1 hv
    have hj : T.Valid (T.enter i t.generics) := T.valid_enter hi hharmless
    have hps : ∀ p ∈ ps, T.Admits p := fun p hp => hdparts p (List.mem_cons_of_mem r hp)
    obtain ⟨z, hz, hbounds⟩ := hin s (List.mem_cons_self ..) _ r x y hj
      (hdparts r (List.mem_cons_self ..)) hx hy
    rw [bounded_iff_of_ok (T.type_function_iff.2 ⟨xs, z, hxs, hz, rfl⟩)]
    have hnormal : ∀ u ∈ xs, u.Normal := fun u hu => (regular_of_mapM hj hps hxs u hu).normal
    -- parameters that are the same are still the same afterwards
    have hsame : sameAll xs ys = true := by
      obtain ⟨ys', hys', hsame⟩ := exists_mapM_of_sameAll hj (fun a ha b hb =>
        same_type (hps a ha) (hfparts b (List.mem_cons_of_mem s hb))) halike.2 hxs
      obtain rfl := Except.ok.inj (hys'.symm.trans hys)
      exact hsame
    have hsame' := sameAll_symm_of (fun a ha b _ => same_symm (hnormal a ha)) hsame
    have hfunction {us vs : List (UnionType μ)} (h : sameAll us vs = true) (x y : UnionType μ) :
        (Entry.function t us x).Alike (.function t vs y) := ⟨rfl, h⟩
    have hrefl := sameAll_refl xs
    refine single_below_iff ?_ ⟨hfunction hrefl _ _, hfunction hrefl _ _⟩
      ⟨hfunction hsame' _ _, hfunction hsame _ _⟩ hbounds hc
    exact List.forall_mem_cons.2
      ⟨(regular_type hj (hdparts r (List.mem_cons_self ..)) hx).normal, hnormal⟩

theorem ready_of_merge (hi : T.Valid i) {d f e : SourceEntry} (hm : Entry.merge d f = some e)
    (hd : T.Ready i d) (hf : T.Ready i f) (hin : ∀ b ∈ f.parts, T.Unites b) : T.Ready i e where
  admits := by
    refine .single ⟨settled_singleton e, ?_⟩ ?_
    · rw [List.forall_mem_singleton, Entry.generics_of_merge hm]
      exact hd.admits.harmless
    · exact Entry.parts_of_merge hm hd.admits.parts
        fun b hb a ha => Admits.union ha (hf.admits.parts b hb)
  bounded := (bounded_merge hi hm hd hf hin regular_any.normal).2 ⟨hd.bounded, hf.bounded⟩

theorem bounded_insertAll (hi : T.Valid i) {es fs : List SourceEntry}
    (hes : ∀ e ∈ es, T.Ready i e) (hfs : ∀ f ∈ fs, T.Ready i f)
    (hin : ∀ f ∈ fs, ∀ b ∈ f.parts, T.Unites b) {c : UnionType μ} (hc : c.Normal) :
    (∀ e ∈ Entry.insertAll es fs, T.Bounded i (.single e) c)
      ↔ (∀ e ∈ es, T.Bounded i (.single e) c) ∧ ∀ f ∈ fs, T.Bounded i (.single f) c := by
  refine Entry.forall_insertAll_iff (R := T.Ready i) ?_ ?_ hes hfs
  · intro f hf d hd hsame
    have hequates : T.Equates (.single d) (.single f) :=
      same_type hd.admits (hfs f hf).admits (same_single hsame)
    exact (hequates.bounded_iff hi hd.admits hd.bounded).1
  · intro f hf d e hm hd
    exact ⟨ready_of_merge hi hm hd (hfs f hf) (hin f hf),
      bounded_merge hi hm hd (hfs f hf) (hin f hf) hc⟩

theorem bounded_of_isAny (hi : T.Valid i) {es : List SourceEntry} (hes : T.Admits (.of es))
    {e : SourceEntry} (he : e ∈ es) (hisAny : e.isAny = true) {c : UnionType μ} (hc : c.Normal)
    (h : T.Bounded i (.of es) c) : T.Bounded i .any c := by
  have hsingle := (bounded_of_iff hi hes hc).1 h e he
  rwa [isAny_source hisAny] at hsingle

theorem unites {b : SourceType} (hb : T.Admits b) : T.Unites b := by
  induction hb with
  | @of fs hfs hparts ih =>
    rintro i ⟨es⟩ x y hi ha hx hy
    have hb : T.Admits (.of fs) := .of hfs hparts
    have hready {es : List SourceEntry} {x : UnionType μ} (ha : T.Admits (.of es))
        (hx : T.type i (.of es) = .ok x) : ∀ e ∈ es, T.Ready i e := fun e he =>
      ⟨ha.entry he, (bounded_of_iff hi ha regular_any.normal).1 (bounded_any_iff.2 ⟨x, hx⟩) e he⟩
    -- it is enough to compare upper bounds
    suffices hbounds : ∀ c : UnionType μ, c.Normal →
        (T.Bounded i ((of es).union (of fs)) c ↔ x.Below c ∧ y.Below c) by
      obtain ⟨z, hz, _⟩ := (hbounds .any regular_any.normal).2 ⟨below_any x, below_any y⟩
      refine ⟨z, hz, fun c hc => ?_⟩
      rw [← bounded_iff_of_ok hz, hbounds c hc]
    intro c hc
    rw [← bounded_iff_of_ok hx, ← bounded_iff_of_ok hy]
    have hunion := ha.union hb
    rcases union_cases es fs with ⟨rfl, h⟩ | ⟨rfl, h⟩ | ⟨hisAny, h⟩ | ⟨_, _, _, _, h⟩
    · rw [h, iff_and_self]
      exact fun _ => (bounded_of_iff hi ha hc).2 (List.forall_mem_nil _)
    · rw [h, iff_self_and]
      exact fun _ => (bounded_of_iff hi hb hc).2 (List.forall_mem_nil _)
    · rw [h]
      have hof {ds : List SourceEntry} {w : UnionType μ} (hw : T.type i (.of ds) = .ok w) :
          T.Bounded i .any c → T.Bounded i (.of ds) c := by
        rintro ⟨u, hu, huc⟩
        obtain rfl := T.type_any hi hu
        exact ⟨w, hw, below_trans (below_any w) huc⟩
      constructor
      · exact fun h => ⟨hof hx h, hof hy h⟩
      · rintro ⟨hxc, hyc⟩
        rcases hisAny with ⟨e, he, hisAny⟩ | ⟨f, hf, hisAny⟩
        · exact bounded_of_isAny hi ha he hisAny hc hxc
        · exact bounded_of_isAny hi hb hf hisAny hc hyc
    · rw [h] at hunion ⊢
      rw [bounded_of_iff hi hunion hc, bounded_of_iff hi ha hc, bounded_of_iff hi hb hc]
      exact bounded_insertAll hi (hready ha hx) (hready hb hy) ih hc

/-- A union becomes the union of what its sides become. -/
theorem type_union (hi : T.Valid i) {a b : SourceType} (ha : T.Admits a) (hb : T.Admits b)
    {x y : UnionType μ} (hx : T.type i a = .ok x) (hy : T.type i b = .ok y) :
    ∃ z, T.type i (a.union b) = .ok z ∧ z.same (x.union y) = true := by
  obtain ⟨z, hz, hbounds⟩ := unites hb i a x y hi ha hx hy
  have hx := regular_type hi ha hx
  have hy := regular_type hi hb hy
  refine ⟨z, hz, beq_of_bounds (regular_type hi (ha.union hb) hz) (hx.union hy) fun c hc => ?_⟩
  rw [hbounds c hc, union_below_iff hx.normal hy.normal hc]

/-- The union of a list becomes the union of what its elements become. -/
theorem type_unionAll (hi : T.Valid i) {ts : List SourceType} (hts : ∀ t ∈ ts, T.Admits t)
    {xs : List (UnionType μ)} (hxs : ts.mapM (T.type i) = .ok xs) :
    ∃ z, T.type i (unionAll ts) = .ok z ∧ z.same (unionAll xs) = true := by
  have go : ∀ (ts : List SourceType) (xs : List (UnionType μ)) (a : SourceType) (x : UnionType μ),
      (∀ t ∈ ts, T.Admits t) → List.Forall₂ (fun t x => T.type i t = .ok x) ts xs →
      T.Admits a → T.type i a = .ok x →
      ∃ z, T.type i (ts.foldl union a) = .ok z ∧ T.Admits (ts.foldl union a)
        ∧ ∀ c : UnionType μ, c.Normal → (z.Below c ↔ x.Below c ∧ ∀ y ∈ xs, y.Below c) := by
    intro ts xs a x hts hxs
    induction hxs generalizing a x with
    | nil => exact fun ha hx => ⟨x, hx, ha, fun c _ => by simp⟩
    | cons hy _ ih =>
      intro ha hx
      rw [List.forall_mem_cons] at hts
      obtain ⟨w, hw, hbounds⟩ := unites hts.1 i a x _ hi ha hx hy
      obtain ⟨z, hz, hadmits, h⟩ := ih _ w hts.2 (ha.union hts.1) hw
      refine ⟨z, hz, hadmits, fun c hc => ?_⟩
      rw [h c hc, hbounds c hc, List.forall_mem_cons, and_assoc]
  have hnil : Settled ([] : List SourceEntry) := ⟨.nil, fun _ e he => by cases he⟩
  have hbase : T.Admits .base := .of ⟨hnil, List.forall_mem_nil _⟩ fun e he => by cases he
  obtain ⟨z, hz, hadmits, h⟩ := go ts xs base base hts (mapM_eq_ok_iff.1 hxs) hbase
    ((T.type_of_iff hnil).2 ⟨[], rfl, rfl⟩)
  have hregular := regular_of_mapM hi hts hxs
  refine ⟨z, hz, beq_of_bounds (regular_type hi hadmits hz) (Regular.unionAll hregular) ?_⟩
  intro c hc
  rw [h c hc, unionAll_below_iff (fun x hx => (hregular x hx).normal) hc]
  exact and_iff_right (base_below c)

end Translation

end UnionTyping
