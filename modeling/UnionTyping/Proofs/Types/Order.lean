/-
  UnionTyping/Proofs/Types/Order.lean
  ===================================
  **The order of types** — a type is below another if the other is universal or
  each of its entries has an alike entry there with a value above.  The union of
  two normal types is their least upper bound (`below_union_left`,
  `below_union_right`, `union_below`), and two types are the same exactly if
  each is below the other (`same_iff_below`).  So every law of a semilattice
  holds for unions up to sameness, and none has to be proved by following how
  entries are merged.
-/
import UnionTyping.Proofs.Types.Alike

namespace UnionTyping

variable {ν : Type} [DecidableEq ν] [Vocabulary ν]

namespace UnionType

/-- `partner` finds the entry above each entry of a type. -/
inductive Below : UnionType ν → UnionType ν → Prop
  | universal {a b : UnionType ν} : b.isAny = true → Below a b
  | entries {es fs : List (Entry ν)} (partner : Entry ν → Entry ν) :
      (∀ e ∈ es, partner e ∈ fs ∧ e.Alike (partner e)) →
      (∀ e ∈ es, Below e.value (partner e).value) → Below (.of es) (.of fs)

end UnionType

def Entry.Below (e f : Entry ν) : Prop := e.Alike f ∧ e.value.Below f.value

namespace UnionType

omit [DecidableEq ν] in
theorem isAny_of_iff {es : List (Entry ν)} :
    (of es).isAny = true ↔ ∃ e ∈ es, e.isAny = true := by
  simp [isAny]

theorem below_iff {es fs : List (Entry ν)} :
    (of es).Below (of fs) ↔ (∃ f ∈ fs, f.isAny = true) ∨ ∀ e ∈ es, ∃ f ∈ fs, e.Below f := by
  constructor
  · intro h
    cases h with
    | universal h => exact Or.inl (isAny_of_iff.1 h)
    | entries partner hp hv =>
      exact Or.inr fun e he => ⟨partner e, (hp e he).1, (hp e he).2, hv e he⟩
  · rintro (h | h)
    · exact .universal (isAny_of_iff.2 h)
    · have hpartner : ∀ e, ∃ f, e ∈ es → f ∈ fs ∧ e.Below f := by
        intro e
        by_cases he : e ∈ es
        · obtain ⟨f, hf, hb⟩ := h e he
          exact ⟨f, fun _ => ⟨hf, hb⟩⟩
        · exact ⟨e, fun hmem => absurd hmem he⟩
      choose partner hp using hpartner
      exact .entries partner (fun e he => ⟨(hp e he).1, (hp e he).2.1⟩) fun e he => (hp e he).2.2

theorem base_below (t : UnionType ν) : base.Below t := by
  obtain ⟨fs⟩ := t
  exact below_iff.2 (Or.inr fun e he => by cases he)

theorem below_refl (t : UnionType ν) : t.Below t := by
  induction t using parts_induction with
  | of es ih =>
    refine below_iff.2 (Or.inr fun e he => ⟨e, he, e.alike_refl, ?_⟩)
    exact Entry.value_induction (P := fun v => v.Below v) (base_below _) (ih e he)

theorem below_trans {a b c : UnionType ν} (hab : a.Below b) (hbc : b.Below c) : a.Below c := by
  induction hab generalizing c with
  | universal h =>
    rename_i b
    obtain ⟨fs⟩ := b
    obtain ⟨gs⟩ := c
    rcases below_iff.1 hbc with hc | hc
    · exact .universal (isAny_of_iff.2 hc)
    · obtain ⟨f, hf, hany⟩ := isAny_of_iff.1 h
      obtain ⟨g, hg, hfg, _⟩ := hc f hf
      exact .universal (isAny_of_iff.2 ⟨g, hg, by rw [← Entry.isAny_of_alike hfg, hany]⟩)
  | @entries es fs partner hp _ ih =>
    obtain ⟨gs⟩ := c
    rcases below_iff.1 hbc with hc | hc
    · exact .universal (isAny_of_iff.2 hc)
    · refine below_iff.2 (Or.inr ?_)
      intro e he
      obtain ⟨hf, hef⟩ := hp e he
      obtain ⟨g, hg, hfg, hv⟩ := hc _ hf
      exact ⟨g, hg, Entry.alike_trans hef hfg, ih e he hv⟩

/-! ### Same types are below each other -/

theorem below_of_same {a b : UnionType ν} (h : a.same b = true) : a.Below b := by
  induction a using parts_induction generalizing b with
  | of es ih =>
    obtain ⟨fs⟩ := b
    refine below_iff.2 (Or.inr ?_)
    intro e he
    obtain ⟨f, hf, hef⟩ := (same_of_iff.1 h).2 e he
    rw [Entry.same_iff] at hef
    refine ⟨f, hf, hef.1, ?_⟩
    exact Entry.value_induction (P := fun v => v.same f.value = true → v.Below f.value)
      (fun _ => base_below _) (fun a ha => ih e he a ha) hef.2

end UnionType

theorem Entry.below_of_same {d e : Entry ν} (h : d.same e = true) : d.Below e :=
  ⟨(same_iff.1 h).1, UnionType.below_of_same (same_iff.1 h).2⟩

/-! ### Entries of settled types -/

namespace Entry

/-- No entry is alike to two of the entries. -/
def Exclusive (es : List (Entry ν)) : Prop :=
  es.Pairwise fun e e' => ∀ x, e'.Alike x → ¬e.Alike x

theorem exclusive_of_apart {es : List (Entry ν)} (hes : es.Pairwise Apart)
    (hparts : ∀ e ∈ es, ∀ a ∈ e.parts, a.Normal) : Exclusive es := by
  refine hes.imp_of_mem ?_
  intro e e' _ he' hapart x hx' hx
  exact apart_iff.1 hapart (alike_trans hx (alike_symm (hparts e' he') hx'))

omit [Vocabulary ν] in
theorem Exclusive.eq {es : List (Entry ν)} (h : Exclusive es) {d e f : Entry ν} (hd : d ∈ es)
    (he : e ∈ es) (hdf : d.Alike f) (hef : e.Alike f) : d = e := by
  induction es with
  | nil => cases hd
  | cons c es ih =>
    rw [Exclusive, List.pairwise_cons] at h
    rcases List.mem_cons.1 hd with hdc | hd
    · rcases List.mem_cons.1 he with hec | he
      · exact hdc.trans hec.symm
      · exact absurd (hdc ▸ hdf) (h.1 e he f hef)
    · rcases List.mem_cons.1 he with hec | he
      · exact absurd (hec ▸ hef) (h.1 d hd f hdf)
      · exact ih h.2 hd he

/-- Alike entries of a settled union are one entry. -/
theorem eq_of_alike {gs : List (Entry ν)} (hgs : gs.Pairwise Apart)
    (hparts : ∀ g ∈ gs, ∀ a ∈ g.parts, a.Normal) {d e : Entry ν} (hd : d ∈ gs) (he : e ∈ gs)
    (h : d.Alike e) : d = e :=
  (exclusive_of_apart hgs hparts).eq hd he h e.alike_refl

end Entry

/-! ### A union is the least upper bound -/

namespace Entry

theorem below_refl (e : Entry ν) : e.Below e := ⟨e.alike_refl, e.value.below_refl⟩

theorem below_trans {d e f : Entry ν} (hde : d.Below e) (hef : e.Below f) : d.Below f :=
  ⟨alike_trans hde.1 hef.1, UnionType.below_trans hde.2 hef.2⟩

theorem normal_value {e : Entry ν} (h : ∀ a ∈ e.parts, a.Normal) : e.value.Normal :=
  value_induction UnionType.normal_base h

end Entry

/-- `b` and any other normal type have their union as least upper bound. -/
def UnionType.JoinsAt (b : UnionType ν) : Prop :=
  ∀ a : UnionType ν, a.Normal → a.Below (a.union b) ∧ b.Below (a.union b)
    ∧ ∀ c : UnionType ν, c.Normal → a.Below c → b.Below c → (a.union b).Below c

namespace Entry

variable {es fs gs : List (Entry ν)} {f : Entry ν}

/-- What was there before and what is added have entries above them. -/
theorem below_insert (hes : ∀ e ∈ es, ∀ a ∈ e.parts, a.Normal) (hjoin : f.value.JoinsAt) :
    (∀ e ∈ es, ∃ d ∈ insert es f, e.Below d) ∧ ∃ d ∈ insert es f, f.Below d := by
  rcases insert_cases es f with ⟨⟨d, hd, hs⟩, he⟩ | ⟨l, d, e, r, rfl, he, hm⟩ | ⟨he, _⟩
  · rw [he]
    exact ⟨fun e he => ⟨e, he, below_refl e⟩, d, hd, below_of_same (same_symm (hes d hd) hs)⟩
  · obtain ⟨hdf, ⟨hde, _⟩, hv⟩ := alike_of_merge hm
    rw [List.forall_mem_append, List.forall_mem_cons] at hes
    obtain ⟨hleft, hright, _⟩ := hjoin d.value (normal_value hes.2.1)
    rw [← hv] at hleft hright
    have hmem : e ∈ l ++ e :: r := by simp
    rw [he, List.forall_mem_append, List.forall_mem_cons]
    refine ⟨⟨?_, ⟨e, hmem, hde, hleft⟩, ?_⟩, e, hmem, ?_, hright⟩
    · exact fun x hx => ⟨x, List.mem_append_left _ hx, below_refl x⟩
    · exact fun x hx => ⟨x, List.mem_append_right _ (List.mem_cons_of_mem _ hx), below_refl x⟩
    · exact alike_trans (alike_symm hes.2.1 hdf) hde
  · rw [he]
    refine ⟨fun e he => ⟨e, List.mem_append_left _ he, below_refl e⟩, f, ?_, below_refl f⟩
    simp

/-- Nothing more is above the entries afterwards than has to be. -/
theorem insert_below (hgs : gs.Pairwise Apart) (hgparts : ∀ g ∈ gs, ∀ a ∈ g.parts, a.Normal)
    (hes : ∀ e ∈ es, ∀ a ∈ e.parts, a.Normal) (hjoin : f.value.JoinsAt)
    (hesgs : ∀ e ∈ es, ∃ g ∈ gs, e.Below g) (hfgs : ∃ g ∈ gs, f.Below g) :
    ∀ e ∈ insert es f, ∃ g ∈ gs, e.Below g := by
  rcases insert_cases es f with ⟨_, he⟩ | ⟨l, d, e, r, rfl, he, hm⟩ | ⟨he, _⟩
  · rwa [he]
  · obtain ⟨hdf, ⟨_, hed⟩, hv⟩ := alike_of_merge hm
    rw [List.forall_mem_append, List.forall_mem_cons] at hes hesgs
    obtain ⟨g, hg, hdg⟩ := hesgs.2.1
    obtain ⟨g', hg', hfg'⟩ := hfgs
    -- the two bounds are alike, and hence one entry
    have hgd : g.Alike d := alike_symm hes.2.1 hdg.1
    obtain rfl : g = g' :=
      eq_of_alike hgs hgparts hg hg' (alike_trans hgd (alike_trans hdf hfg'.1))
    rw [he, List.forall_mem_append, List.forall_mem_cons]
    refine ⟨hesgs.1, ⟨g, hg, alike_trans hed hdg.1, ?_⟩, hesgs.2.2⟩
    rw [hv]
    exact (hjoin d.value (normal_value hes.2.1)).2.2 g.value (normal_value (hgparts g hg))
      hdg.2 hfg'.2
  · rw [he, List.forall_mem_append, List.forall_mem_singleton]
    exact ⟨hesgs, hfgs⟩

theorem normal_parts_insert (hes : ∀ e ∈ es, ∀ a ∈ e.parts, a.Normal)
    (hf : ∀ a ∈ f.parts, a.Normal) : ∀ e ∈ insert es f, ∀ a ∈ e.parts, a.Normal :=
  parts_insert hes hf fun b hb _ ha => UnionType.Normal.union ha (hf b hb)

theorem below_insertAll (hes : ∀ e ∈ es, ∀ a ∈ e.parts, a.Normal)
    (hfs : ∀ f ∈ fs, ∀ a ∈ f.parts, a.Normal) (hjoin : ∀ f ∈ fs, f.value.JoinsAt) :
    (∀ e ∈ es, ∃ d ∈ insertAll es fs, e.Below d) ∧ ∀ f ∈ fs, ∃ d ∈ insertAll es fs, f.Below d := by
  rw [insertAll_eq_foldl]
  induction fs generalizing es with
  | nil => exact ⟨fun e he => ⟨e, he, below_refl e⟩, fun f hf => by cases hf⟩
  | cons f fs ih =>
    rw [List.forall_mem_cons] at hfs hjoin
    obtain ⟨hleft, d, hd, hfd⟩ := below_insert hes hjoin.1
    obtain ⟨hrest, hright⟩ := ih (normal_parts_insert hes hfs.1) hfs.2 hjoin.2
    have habove {e : Entry ν} (h : ∃ d ∈ insert es f, e.Below d) :
        ∃ d ∈ fs.foldl insert (insert es f), e.Below d := by
      obtain ⟨d, hd, hed⟩ := h
      obtain ⟨d', hd', hdd'⟩ := hrest d hd
      exact ⟨d', hd', below_trans hed hdd'⟩
    rw [List.foldl_cons, List.forall_mem_cons]
    exact ⟨fun e he => habove (hleft e he), habove ⟨d, hd, hfd⟩, hright⟩

theorem insertAll_below (hgs : gs.Pairwise Apart) (hgparts : ∀ g ∈ gs, ∀ a ∈ g.parts, a.Normal)
    (hes : ∀ e ∈ es, ∀ a ∈ e.parts, a.Normal) (hfs : ∀ f ∈ fs, ∀ a ∈ f.parts, a.Normal)
    (hjoin : ∀ f ∈ fs, f.value.JoinsAt) (hesgs : ∀ e ∈ es, ∃ g ∈ gs, e.Below g)
    (hfsgs : ∀ f ∈ fs, ∃ g ∈ gs, f.Below g) : ∀ e ∈ insertAll es fs, ∃ g ∈ gs, e.Below g := by
  rw [insertAll_eq_foldl]
  induction fs generalizing es with
  | nil => exact hesgs
  | cons f fs ih =>
    rw [List.forall_mem_cons] at hfs hjoin hfsgs
    apply ih (normal_parts_insert hes hfs.1) hfs.2 hjoin.2 _ hfsgs.2
    exact insert_below hgs hgparts hes hjoin.1 hesgs hfsgs.1

end Entry

namespace UnionType

theorem joinsAt_base : (base : UnionType ν).JoinsAt := by
  intro a _
  rw [union_base]
  exact ⟨below_refl a, base_below a, fun c _ ha _ => ha⟩

theorem below_any (a : UnionType ν) : a.Below any :=
  .universal (isAny_of_iff.2 ⟨_, List.mem_singleton_self _, Vocabulary.isAny_any⟩)

theorem isAny_of_below {a b : UnionType ν} (ha : a.isAny = true) (h : a.Below b) :
    b.isAny = true := by
  obtain ⟨es⟩ := a
  obtain ⟨fs⟩ := b
  rw [isAny_of_iff] at ha ⊢
  rcases below_iff.1 h with h | h
  · exact h
  · obtain ⟨e, he, hany⟩ := ha
    obtain ⟨f, hf, hef, _⟩ := h e he
    exact ⟨f, hf, by rw [← Entry.isAny_of_alike hef, hany]⟩

/-- The union of two normal types is their least upper bound. -/
theorem joinsAt {b : UnionType ν} (hb : b.Normal) : b.JoinsAt := by
  induction b using parts_induction with
  | of fs ih =>
    obtain ⟨hfs, hfparts⟩ := each_of_iff.1 hb
    have hjoin : ∀ f ∈ fs, f.value.JoinsAt := by
      intro f hf
      exact Entry.value_induction joinsAt_base fun a ha => ih f hf a ha (hfparts f hf a ha)
    rintro ⟨es⟩ ha
    obtain ⟨hes, heparts⟩ := each_of_iff.1 ha
    rcases union_cases es fs with ⟨rfl, h⟩ | ⟨rfl, h⟩ | ⟨hany, h⟩ | ⟨_, _, he, hf, h⟩
    · rw [h]
      exact ⟨base_below _, below_refl _, fun c _ _ hc => hc⟩
    · rw [h]
      exact ⟨below_refl _, base_below _, fun c _ hc _ => hc⟩
    · rw [h]
      refine ⟨below_any _, below_any _, ?_⟩
      intro c _ hac hbc
      rcases hany with hany | hany
      · exact .universal (isAny_of_below (isAny_of_iff.2 hany) hac)
      · exact .universal (isAny_of_below (isAny_of_iff.2 hany) hbc)
    · rw [h]
      obtain ⟨hleft, hright⟩ := Entry.below_insertAll heparts hfparts hjoin
      refine ⟨below_iff.2 (Or.inr hleft), below_iff.2 (Or.inr hright), ?_⟩
      rintro ⟨gs⟩ hc hac hbc
      obtain ⟨hgs, hgparts⟩ := each_of_iff.1 hc
      rcases below_iff.1 hac with hany | hac
      · exact .universal (isAny_of_iff.2 hany)
      rcases below_iff.1 hbc with hany | hbc
      · exact .universal (isAny_of_iff.2 hany)
      exact below_iff.2 (Or.inr
        (Entry.insertAll_below hgs.apart hgparts heparts hfparts hjoin hac hbc))

section

variable {a b c : UnionType ν} (ha : a.Normal) (hb : b.Normal)
include ha hb

theorem below_union_left : a.Below (a.union b) := (joinsAt hb a ha).1

theorem below_union_right : b.Below (a.union b) := (joinsAt hb a ha).2.1

theorem union_below (hc : c.Normal) (hac : a.Below c) (hbc : b.Below c) : (a.union b).Below c :=
  (joinsAt hb a ha).2.2 c hc hac hbc

end

/-! ### Types below each other are the same -/

/-- No entry but the universal name absorbs a union. -/
def OneUniversal (es : List (Entry ν)) : Prop := ∀ e ∈ es, e.isAny = true → e = .universal

/-- The type is normal, and universal under one name only. -/
def Regular (t : UnionType ν) : Prop := t.Each fun es => Settled es ∧ OneUniversal es

theorem Regular.normal {t : UnionType ν} (h : t.Regular) : t.Normal := h.imp fun _ hes => hes.1

theorem eq_base_of_below {a : UnionType ν} (h : a.Below base) : a = base := by
  obtain ⟨es⟩ := a
  rcases below_iff.1 h with ⟨f, hf, _⟩ | h
  · cases hf
  · cases es with
    | nil => rfl
    | cons e es =>
      obtain ⟨f, hf, _⟩ := h e (List.mem_cons_self ..)
      cases hf

theorem eq_any_of_isAny {a : UnionType ν} (h : a.Regular) (hany : a.isAny = true) : a = any := by
  obtain ⟨es⟩ := a
  obtain ⟨⟨hes, hone⟩, _⟩ := each_of_iff.1 h
  obtain ⟨e, he, heany⟩ := isAny_of_iff.1 hany
  rcases es with _ | ⟨d, _ | ⟨d', es⟩⟩
  · cases he
  · obtain rfl := List.mem_singleton.1 he
    rw [hone e he heany]
    rfl
  · rw [hes.universal (by simp) e he] at heany
    cases heany

/-- No two entries of a settled union have one alike entry in another. -/
theorem length_le_of_alike {es fs : List (Entry ν)} (hes : es.Pairwise Entry.Apart)
    (heparts : ∀ e ∈ es, ∀ a ∈ e.parts, a.Normal)
    (h : ∀ e ∈ es, ∃ f ∈ fs, e.Alike f) : es.length ≤ fs.length := by
  refine (partners h ?_).1
  exact (Entry.exclusive_of_apart hes heparts).imp fun hexcl f _ hef hef' => hexcl f hef' hef

theorem regular_base : (base : UnionType ν).Regular :=
  .of ⟨⟨.nil, fun _ e he => by cases he⟩, fun e he => by cases he⟩ fun e he => by cases he

theorem same_of_below {a b : UnionType ν} (ha : a.Regular) (hb : b.Regular) (hab : a.Below b)
    (hba : b.Below a) : a.same b = true := by
  induction a using parts_induction generalizing b with
  | of es ih =>
    by_cases hany : (of es).isAny = true
    · rw [eq_any_of_isAny ha hany, eq_any_of_isAny hb (isAny_of_below hany hab)]
      exact same_refl any
    by_cases hany' : b.isAny = true
    · exact absurd (isAny_of_below hany' hba) hany
    obtain ⟨fs⟩ := b
    obtain ⟨⟨hes, _⟩, heparts⟩ := each_of_iff.1 ha
    obtain ⟨⟨hfs, _⟩, hfparts⟩ := each_of_iff.1 hb
    have hen : ∀ e ∈ es, ∀ a ∈ e.parts, a.Normal :=
      fun e he a ha => Regular.normal (heparts e he a ha)
    have hfn : ∀ f ∈ fs, ∀ a ∈ f.parts, a.Normal :=
      fun f hf a ha => Regular.normal (hfparts f hf a ha)
    have hab := (below_iff.1 hab).resolve_left fun h => hany' (isAny_of_iff.2 h)
    have hba := (below_iff.1 hba).resolve_left fun h => hany (isAny_of_iff.2 h)
    rw [same_of_iff]
    constructor
    · apply Nat.le_antisymm
      · exact length_le_of_alike hes.apart hen fun e he =>
          (hab e he).imp fun f hf => ⟨hf.1, hf.2.1⟩
      · exact length_le_of_alike hfs.apart hfn fun f hf =>
          (hba f hf).imp fun e he => ⟨he.1, he.2.1⟩
    · intro e he
      obtain ⟨f, hf, hef⟩ := hab e he
      obtain ⟨e', he', hfe'⟩ := hba f hf
      obtain rfl : e = e' := Entry.eq_of_alike hes.apart hen he he' (Entry.alike_trans hef.1 hfe'.1)
      refine ⟨f, hf, Entry.same_iff.2 ⟨hef.1, ?_⟩⟩
      have hf : f.value.Regular := Entry.value_induction regular_base (hfparts f hf)
      refine Entry.value_induction
        (P := fun v => v.Below f.value → f.value.Below v → v.same f.value = true) ?_ ?_ hef.2 hfe'.2
      · intro _ h
        rw [eq_base_of_below h]
        exact same_refl base
      · exact fun a ha h₁ h₂ => ih e he a ha (heparts e he a ha) hf h₁ h₂

theorem same_iff_below {a b : UnionType ν} (ha : a.Regular) (hb : b.Regular) :
    a.same b = true ↔ a.Below b ∧ b.Below a :=
  ⟨fun h => ⟨below_of_same h, below_of_same (same_symm ha.normal h)⟩,
    fun h => same_of_below ha hb h.1 h.2⟩

end UnionType

end UnionTyping
