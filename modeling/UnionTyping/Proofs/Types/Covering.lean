/-
  UnionTyping/Proofs/Types/Covering.lean
  ======================================
  **What a type covers** — a type covers another if their union adds nothing to
  it.  Two regular types that a type covers have a union that it covers
  (`Within.union`), and the union of regular types covers each of them
  (`within_unionAll`).  The covering type may be any type here, also one that no
  union leaves, so the order of types says nothing about it, and how entries are
  added has to be followed.

  Adding entries to `e :: es` adds those alike to `e` to `e` and the others to
  `es` (`insertAll_cons`).  So the entries `es` add nothing to `fs` exactly if
  each has one alike entry in `fs`, whose value covers its value, and nothing
  else in `fs` is dropped (`insertAll_same_iff`); and these conditions on `es`
  pass to a union (`Absorbs.insertAll`).
-/
import UnionTyping.Proofs.Types.Semilattice

namespace UnionTyping

variable {ν : Type} [DecidableEq ν] [Vocabulary ν]

/-! ### Adding entries, entry by entry -/

namespace Entry

/-- Being alike, as adding an entry finds it out. -/
def meets (d e : Entry ν) : Bool := d.same e || (d.merge e).isSome

theorem meets_iff {d e : Entry ν} : d.meets e = true ↔ d.Alike e := by
  have h : d.Apart e ↔ ¬d.meets e = true := by
    rw [Apart, meets, Bool.or_eq_true, not_or, Bool.not_eq_true, Bool.not_eq_true,
      Option.isSome_eq_false_iff, Option.isNone_iff_eq_none]
  rw [← not_iff_not, ← h, apart_iff]

theorem meets_congr {d e : Entry ν} (h : ∀ x, d.Alike x ↔ e.Alike x) : d.meets = e.meets := by
  funext x
  rw [Bool.eq_iff_iff, meets_iff, meets_iff, h]

theorem mem_filter_not_meets {e x : Entry ν} {fs : List (Entry ν)} :
    x ∈ fs.filter (fun f => !e.meets f) ↔ x ∈ fs ∧ ¬e.Alike x := by
  rw [List.mem_filter, Bool.not_eq_true', ← Bool.not_eq_true, meets_iff]

/-- An entry keeps its alike ones when it takes another in. -/
theorem alike_iff_of_merge {d f e : Entry ν} (h : merge d f = some e) (x : Entry ν) :
    e.Alike x ↔ d.Alike x := by
  obtain ⟨_, ⟨hde, hed⟩, _⟩ := alike_of_merge h
  exact ⟨alike_trans hde, alike_trans hed⟩

theorem insertAll_append (es fs gs : List (Entry ν)) :
    insertAll es (fs ++ gs) = insertAll (insertAll es fs) gs := by
  simp only [insertAll_eq_foldl, List.foldl_append]

theorem insertAll_cons_right (es : List (Entry ν)) (f : Entry ν) (fs : List (Entry ν)) :
    insertAll es (f :: fs) = insertAll (insert es f) fs := by
  simp only [insertAll_eq_foldl, List.foldl_cons]

variable {e f : Entry ν} {es fs : List (Entry ν)}

theorem insert_cons_of_not_alike (h : ¬e.Alike f) : insert (e :: es) f = e :: insert es f := by
  obtain ⟨hs, hm⟩ := apart_iff.2 h
  simp only [insert, insertWith, List.any_cons, hs, Bool.false_or, replaceFirst?, hm]
  split
  · rfl
  · cases replaceFirst? (fun d => d.merge f) es <;> rfl

theorem insert_of_same (h : ∃ d ∈ es, d.same f = true) : insert es f = es := by
  rw [insert, insertWith, if_pos (List.any_eq_true.2 h)]

/-- The first entry takes an alike one in, unless that is there already. -/
theorem insert_cons_of_alike (es : List (Entry ν)) (h : e.Alike f) :
    ∃ d, insert (e :: es) f = d :: es ∧ (∀ x, d.Alike x ↔ e.Alike x)
      ∧ ((d = e ∧ (e.same f = true ∨ ∃ x ∈ es, x.same f = true))
        ∨ ¬(e.same f = true ∨ ∃ x ∈ es, x.same f = true) ∧ e.merge f = some d) := by
  by_cases hsame : e.same f = true ∨ ∃ x ∈ es, x.same f = true
  · refine ⟨e, insert_of_same ?_, fun _ => Iff.rfl, Or.inl ⟨rfl, hsame⟩⟩
    simpa using hsame
  · rw [← meets_iff, meets, Bool.or_eq_true, Option.isSome_iff_exists] at h
    obtain ⟨d, hd⟩ := h.resolve_left fun h => hsame (Or.inl h)
    refine ⟨d, ?_, alike_iff_of_merge hd, Or.inr ⟨hsame, hd⟩⟩
    have hany : (e :: es).any (fun d => d.same f) = false := by
      simpa using hsame
    simp [insert, insertWith, hany, replaceFirst?, hd]

/-- Adding entries to `e :: es` adds those alike to `e` to `e` and the others to `es`. -/
theorem insertAll_cons (e : Entry ν) (es fs : List (Entry ν)) :
    ∃ d, (∀ x, d.Alike x ↔ e.Alike x)
      ∧ insertAll (e :: es) fs = d :: insertAll es (fs.filter fun f => !e.meets f) := by
  induction fs generalizing e es with
  | nil => exact ⟨e, fun _ => Iff.rfl, by simp [insertAll]⟩
  | cons f fs ih =>
    rw [insertAll_cons_right]
    by_cases h : e.Alike f
    · obtain ⟨d, hd, hde, _⟩ := insert_cons_of_alike es h
      obtain ⟨c, hc, hi⟩ := ih d es
      refine ⟨c, fun x => (hc x).trans (hde x), ?_⟩
      rw [hd, hi, meets_congr hde, List.filter_cons_of_neg]
      simpa using meets_iff.2 h
    · obtain ⟨c, hc, hi⟩ := ih e (insert es f)
      refine ⟨c, hc, ?_⟩
      rw [insert_cons_of_not_alike h, hi, List.filter_cons_of_pos, insertAll_cons_right]
      simpa using mt meets_iff.1 h

theorem insertAll_cons_of_not_alike (h : ∀ f ∈ fs, ¬e.Alike f) :
    insertAll (e :: es) fs = e :: insertAll es fs := by
  induction fs generalizing es with
  | nil => simp [insertAll]
  | cons f fs ih =>
    rw [List.forall_mem_cons] at h
    rw [insertAll_cons_right, insertAll_cons_right, insert_cons_of_not_alike h.1, ih h.2]

/-- Every entry is still there, up to its value. -/
theorem exists_mem_insertAll (fs : List (Entry ν)) :
    ∀ e ∈ es, ∃ d ∈ insertAll es fs, ∀ x, d.Alike x ↔ e.Alike x := by
  induction es generalizing fs with
  | nil => exact fun e he => by cases he
  | cons e es ih =>
    obtain ⟨d, hd, hi⟩ := insertAll_cons e es fs
    rw [hi]
    refine List.forall_mem_cons.2 ⟨⟨d, List.mem_cons_self .., hd⟩, fun e' he' => ?_⟩
    obtain ⟨d', hd', hde'⟩ := ih _ e' he'
    exact ⟨d', List.mem_cons_of_mem _ hd', hde'⟩

theorem insertAll_of_apart (h : (es ++ fs).Pairwise Apart) : insertAll es fs = es ++ fs := by
  induction fs generalizing es with
  | nil => simp [insertAll]
  | cons f fs ih =>
    have hf : ∀ d ∈ es, Apart d f := fun d hd =>
      (List.pairwise_append.1 h).2.2 d hd f (List.mem_cons_self ..)
    rw [insertAll_cons_right, insert_of_apart hf, ih (by simpa using h)]
    simp

/-- Entries that are all there change nothing. -/
theorem insertAll_of_same (h : ∀ f ∈ fs, ∃ e ∈ es, e.same f = true) : insertAll es fs = es := by
  induction fs with
  | nil => simp [insertAll]
  | cons f fs ih =>
    rw [List.forall_mem_cons] at h
    rw [insertAll_cons_right, insert_of_same h.1, ih h.2]

/-- Adding entries makes no more than there are, and as many only if they are
    all apart. -/
theorem length_insertAll_le (es fs : List (Entry ν)) :
    (insertAll es fs).length ≤ es.length + fs.length
      ∧ (es.length + fs.length ≤ (insertAll es fs).length → fs.Pairwise Apart
        ∧ ∀ e ∈ es, ∀ f ∈ fs, Apart e f) := by
  induction fs generalizing es with
  | nil => simp [insertAll]
  | cons f fs ih =>
    obtain ⟨hle, hapart⟩ := ih (insert es f)
    have hlen : (insert es f).length = es.length
        ∨ insert es f = es ++ [f] ∧ ∀ d ∈ es, Apart d f := by
      rcases insert_cases es f with ⟨_, he⟩ | ⟨l, d, e, r, rfl, he, _⟩ | h
      · exact Or.inl (by rw [he])
      · exact Or.inl (by rw [he, List.length_append, List.length_append]; rfl)
      · exact Or.inr h
    rw [insertAll_cons_right, List.length_cons]
    rcases hlen with hlen | ⟨he, hf⟩
    · rw [hlen] at hle
      exact ⟨by omega, fun h => by omega⟩
    · rw [he, List.length_append, List.length_singleton] at hle hapart
      rw [he]
      refine ⟨by omega, fun h => ?_⟩
      obtain ⟨hfs, hes⟩ := hapart (by omega)
      rw [List.forall_mem_append, List.forall_mem_singleton] at hes
      exact ⟨.cons hes.2 hfs, fun e he => List.forall_mem_cons.2 ⟨hf e he, hes.1 e he⟩⟩

/-! ### Places -/

theorem exclusive_of_regular (h : (UnionType.of es).Regular) : Exclusive es := by
  obtain ⟨⟨hes, _⟩, hparts⟩ := UnionType.each_of_iff.1 h
  exact exclusive_of_apart hes.apart fun e he a ha => UnionType.Regular.normal (hparts e he a ha)

/-- Each of `es` is alike to exactly one of `fs`. -/
def Once (es fs : List (Entry ν)) : Prop := ∀ e ∈ es, ∃ f, fs.filter e.meets = [f]

/-- Only what is alike to one of `es` is alike to an earlier one of `fs`. -/
def Housed (es fs : List (Entry ν)) : Prop :=
  fs.Pairwise fun x f => x.Alike f → ∃ e ∈ es, e.Alike f

theorem Once.eq {g : Entry ν} (h : Once es fs) (he : e ∈ es) (hf : f ∈ fs) (hg : g ∈ fs)
    (hef : e.Alike f) (heg : e.Alike g) : f = g := by
  obtain ⟨x, hx⟩ := h e he
  have hmem {y : Entry ν} (hy : y ∈ fs) (hey : e.Alike y) : y = x := by
    rw [← List.mem_singleton, ← hx]
    exact List.mem_filter.2 ⟨hy, meets_iff.2 hey⟩
  rw [hmem hf hef, hmem hg heg]

/-- The only alike one parts the others. -/
theorem Once.exists_split (h : Once es fs) (he : e ∈ es) :
    ∃ p f q, fs = p ++ f :: q ∧ e.Alike f ∧ (∀ x ∈ p, ¬e.Alike x) ∧ (∀ x ∈ q, ¬e.Alike x)
      ∧ fs.filter (fun x => !e.meets x) = p ++ q := by
  obtain ⟨f, hf⟩ := h e he
  obtain ⟨p, q, rfl, hp, hef, hq⟩ := List.filter_eq_cons_iff.1 hf
  rw [List.filter_eq_nil_iff] at hq
  refine ⟨p, f, q, rfl, meets_iff.1 hef, ?_, ?_, ?_⟩
  · exact fun x hx => mt meets_iff.2 (hp x hx)
  · exact fun x hx => mt meets_iff.2 (hq x hx)
  · have hdrop {l : List (Entry ν)} (hl : ∀ x ∈ l, ¬e.meets x = true) :
        l.filter (fun x => !e.meets x) = l := List.filter_eq_self.2 (by simpa using hl)
    rw [List.filter_append, List.filter_cons_of_neg (by simpa using hef), hdrop hp, hdrop hq]

theorem once_filter (h : Exclusive (e :: es)) :
    Once es (fs.filter fun f => !e.meets f) ↔ Once es fs := by
  rw [Exclusive, List.pairwise_cons] at h
  refine forall₂_congr fun e' he' => ?_
  rw [List.filter_filter]
  have hcongr : fs.filter (fun a => e'.meets a && !e.meets a) = fs.filter e'.meets := by
    refine List.filter_congr fun x _ => ?_
    have hx := h.1 e' he' x
    rw [← meets_iff, ← meets_iff] at hx
    cases hm : e'.meets x with
    | false => rfl
    | true => simpa using hx hm
  rw [hcongr]

theorem housed_filter : Housed es (fs.filter fun f => !e.meets f) ↔ Housed (e :: es) fs := by
  rw [Housed, Housed, List.pairwise_filter]
  refine List.Pairwise.iff ?_
  intro x f
  simp only [Bool.not_eq_true', ← Bool.not_eq_true, meets_iff, List.mem_cons, exists_eq_or_imp]
  constructor
  · intro h hxf
    by_cases hef : e.Alike f
    · exact Or.inl hef
    · exact Or.inr (h (fun hex => hef (alike_trans hex hxf)) hef hxf)
  · intro h _ hef hxf
    exact (h hxf).resolve_left hef

theorem insertAll_nil_of_housed (h : Housed [] fs) : insertAll [] fs = fs := by
  refine insertAll_of_apart (List.Pairwise.imp ?_ h)
  intro x f hxf
  exact apart_iff.2 fun halike => by simpa using hxf halike

/-- What is alike to none of the entries is added as it is. -/
theorem mem_insertAll_iff (h : Housed es fs) {x : Entry ν} (hx : ∀ e ∈ es, ¬e.Alike x) :
    x ∈ insertAll es fs ↔ x ∈ fs := by
  induction es generalizing fs with
  | nil => rw [insertAll_nil_of_housed h]
  | cons e es ih =>
    rw [List.forall_mem_cons] at hx
    obtain ⟨d, hd, hi⟩ := insertAll_cons e es fs
    rw [hi, List.mem_cons, ih (housed_filter.2 h) hx.2, mem_filter_not_meets, and_iff_left hx.1]
    refine or_iff_right ?_
    rintro rfl
    exact hx.1 ((hd x).1 (alike_refl x))

theorem length_filter_meets (e : Entry ν) (fs : List (Entry ν)) :
    fs.length = (fs.filter e.meets).length + (fs.filter fun f => !e.meets f).length :=
  List.length_eq_length_filter_add e.meets

/-- Where each entry has a place, adding makes no more than there are, and as
    many only if each takes its own and the rest is apart. -/
theorem once_and_housed (hes : Exclusive es) (h : ∀ e ∈ es, ∃ f ∈ fs, e.Alike f) :
    (insertAll es fs).length ≤ fs.length
      ∧ (fs.length ≤ (insertAll es fs).length → Once es fs ∧ Housed es fs) := by
  induction es generalizing fs with
  | nil =>
    obtain ⟨hle, hapart⟩ := length_insertAll_le [] fs
    rw [List.length_nil, Nat.zero_add] at hle hapart
    refine ⟨hle, fun hlen => ⟨List.forall_mem_nil _, ?_⟩⟩
    exact (hapart hlen).1.imp fun hxf halike => absurd halike (apart_iff.1 hxf)
  | cons e es ih =>
    have hexcl := List.pairwise_cons.1 hes
    rw [List.forall_mem_cons] at h
    obtain ⟨⟨f, hf, hef⟩, hrest⟩ := h
    have hpos : 0 < (fs.filter e.meets).length :=
      List.length_pos_of_mem (List.mem_filter.2 ⟨hf, meets_iff.2 hef⟩)
    have hleft : ∀ e' ∈ es, ∃ g ∈ fs.filter (fun f => !e.meets f), e'.Alike g := by
      intro e' he'
      obtain ⟨g, hg, hge⟩ := hrest e' he'
      exact ⟨g, mem_filter_not_meets.2 ⟨hg, hexcl.1 e' he' g hge⟩, hge⟩
    obtain ⟨hle, hall⟩ := ih hexcl.2 hleft
    obtain ⟨d, _, hi⟩ := insertAll_cons e es fs
    have hlen := length_filter_meets e fs
    rw [hi, List.length_cons]
    refine ⟨by omega, fun h => ?_⟩
    obtain ⟨honce, hhoused⟩ := hall (by omega)
    have hone : (fs.filter e.meets).length = 1 := by omega
    exact ⟨List.forall_mem_cons.2 ⟨List.length_eq_one_iff.1 hone, (once_filter hes).1 honce⟩,
      housed_filter.1 hhoused⟩

theorem length_insertAll (hes : Exclusive es) (honce : Once es fs) (h : Housed es fs) :
    (insertAll es fs).length = fs.length := by
  induction es generalizing fs with
  | nil => rw [insertAll_nil_of_housed h]
  | cons e es ih =>
    obtain ⟨d, _, hi⟩ := insertAll_cons e es fs
    obtain ⟨⟨f, hf⟩, hrest⟩ := List.forall_mem_cons.1 honce
    have hlen := length_filter_meets e fs
    rw [hf, List.length_singleton] at hlen
    rw [hi, List.length_cons, ih (List.pairwise_cons.1 hes).2 ((once_filter hes).2 hrest)
      (housed_filter.2 h)]
    omega

end Entry

/-! ### Types that add nothing -/

namespace UnionType

/-- The type adds nothing to `o`. -/
def Within (a o : UnionType ν) : Prop := (a.union o == o) = true

theorem within_cases {es fs : List (Entry ν)} (h : (of es).Within (of fs)) :
    es = [] ∨ any.same (of fs) = true
      ∨ (es ≠ [] ∧ fs ≠ [] ∧ (∀ e ∈ es, e.isAny = false) ∧ (∀ f ∈ fs, f.isAny = false)
        ∧ (of (Entry.insertAll es fs)).same (of fs) = true) := by
  rcases union_cases es fs with ⟨hes, _⟩ | ⟨rfl, hu⟩ | ⟨_, hu⟩ | ⟨hes, hfs, he, hf, hu⟩
  · exact Or.inl hes
  · rw [Within, hu] at h
    exact Or.inl (List.eq_nil_of_length_eq_zero (same_of_iff.1 h).1)
  · rw [Within, hu] at h
    exact Or.inr (Or.inl h)
  · rw [Within, hu] at h
    exact Or.inr (Or.inr ⟨hes, hfs, he, hf, h⟩)

theorem union_of_not_isAny {es fs : List (Entry ν)} (hes : es ≠ []) (hfs : fs ≠ [])
    (he : ∀ e ∈ es, e.isAny = false) (hf : ∀ f ∈ fs, f.isAny = false) :
    (of es).union (of fs) = of (Entry.insertAll es fs) := by
  rcases union_cases es fs with ⟨h, _⟩ | ⟨h, _⟩ | ⟨⟨e, hmem, hany⟩ | ⟨f, hmem, hany⟩, _⟩ | h
  · exact absurd h hes
  · exact absurd h hfs
  · rw [he e hmem] at hany
    cases hany
  · rw [hf f hmem] at hany
    cases hany
  · exact h.2.2.2.2

omit [DecidableEq ν] [Vocabulary ν] in
theorem isBase_iff {a : UnionType ν} : a.isBase = true ↔ a = .base := by
  obtain ⟨es⟩ := a
  simp [isBase, base]

theorem union_eq_base_iff {a b : UnionType ν} :
    a.union b = .base ↔ a = .base ∧ b = .base := by
  obtain ⟨es⟩ := a
  obtain ⟨fs⟩ := b
  simp only [base, of.injEq]
  rcases union_cases es fs with ⟨rfl, hu⟩ | ⟨rfl, hu⟩ | ⟨hany, hu⟩ | ⟨hes, _, _, _, hu⟩
  · simp [hu]
  · simp [hu]
  · refine iff_of_false ?_ ?_
    · rw [hu]
      exact fun h => by cases h
    · rintro ⟨rfl, rfl⟩
      simp at hany
  · rw [hu, of.injEq]
    exact iff_of_false (Entry.insertAll_ne_nil hes fs) fun h => hes h.1

theorem unionAll_eq_base_iff {ts : List (UnionType ν)} :
    unionAll ts = .base ↔ ∀ t ∈ ts, t = .base := by
  have go (a : UnionType ν) : ts.foldl union a = .base ↔ a = .base ∧ ∀ t ∈ ts, t = .base := by
    induction ts generalizing a with
    | nil => simp
    | cons t ts ih => rw [List.foldl_cons, ih, union_eq_base_iff, List.forall_mem_cons, and_assoc]
  rw [unionAll, go base]
  exact and_iff_right rfl

theorem eq_base_of_within {a : UnionType ν} (h : a.Within base) : a = base := by
  rw [Within, union_base] at h
  exact eq_base_of_below (below_of_same h)

theorem within_of_any_same {a o : UnionType ν} (h : any.same o = true) : a.Within o := by
  obtain ⟨es⟩ := a
  obtain ⟨fs⟩ := o
  have hany : ∃ f ∈ fs, f.isAny = true :=
    isAny_of_iff.1 (isAny_of_below (isAny_of_iff.2 ⟨_, List.mem_singleton_self _,
      Vocabulary.isAny_any⟩) (below_of_same h))
  obtain ⟨f, hf, hfany⟩ := hany
  rcases union_cases es fs with ⟨_, hu⟩ | ⟨rfl, _⟩ | ⟨_, hu⟩ | ⟨_, _, _, hnone, _⟩
  · rw [Within, hu]
    exact same_refl _
  · cases hf
  · rw [Within, hu]
    exact h
  · rw [hnone f hf] at hfany
    cases hfany

theorem within_of_same {a o : UnionType ν} (ha : a.Regular) (h : a.same o = true) :
    a.Within o := by
  obtain ⟨es⟩ := a
  obtain ⟨fs⟩ := o
  have hsymm := same_symm ha.normal h
  rcases union_cases es fs with ⟨_, hu⟩ | ⟨rfl, hu⟩ | ⟨hany, _⟩ | ⟨_, _, _, _, hu⟩
  · rw [Within, hu]
    exact same_refl _
  · rw [Within, hu]
    exact h
  · have haany : (of es).isAny = true := by
      rcases hany with hany | hany
      · exact isAny_of_iff.2 hany
      · exact isAny_of_below (isAny_of_iff.2 hany) (below_of_same hsymm)
    rw [eq_any_of_isAny ha haany] at h
    exact within_of_any_same h
  · obtain ⟨⟨hes, _⟩, heparts⟩ := each_of_iff.1 ha
    have hsurj := exists_same_of hes.apart (fun e he f _ =>
      Entry.same_symm fun a hae => Regular.normal (heparts e he a hae)) h
    rw [Within, hu, Entry.insertAll_of_same hsurj]
    exact h

/-- Two types that are the same as another have a union that is. -/
theorem same_union {a b o : UnionType ν} (ha : a.Regular) (hb : b.Regular) (hao : a.same o = true)
    (hbo : b.same o = true) : (a.union b).same o = true := by
  have hba : b.Below a := below_trans (below_of_same hbo) (below_of_same (same_symm ha.normal hao))
  have habove := below_union_left ha.normal hb.normal
  have hbelow := union_below ha.normal hb.normal ha.normal (below_refl a) hba
  exact same_trans (same_of_below (ha.union hb) ha hbelow habove) hao

end UnionType

/-! ### Entries that add nothing -/

namespace Entry

variable {e f : Entry ν} {es fs gs : List (Entry ν)}

/-- `f` takes `e` in: its value covers that of `e`, and no earlier one of `fs`
    stands for `f` unless `e` does. -/
structure FitsAt (fs : List (Entry ν)) (e f : Entry ν) : Prop where
  within : e.value.Within f.value
  same : ∀ x, [x, f].Sublist fs → x.same f = true → e.same f = true

/-- `d` is what `e` becomes when `fs` are added. -/
structure Placed (fs : List (Entry ν)) (e d : Entry ν) : Prop where
  alike_iff : ∀ x, d.Alike x ↔ e.Alike x
  same_iff : ∀ f ∈ fs, e.Alike f → (d.same f = true ↔ FitsAt fs e f)

theorem Placed.of_filter {e' d : Entry ν} (h : ∀ x, e'.Alike x → ¬e.Alike x)
    (hd : Placed (fs.filter fun f => !e.meets f) e' d) : Placed fs e' d where
  alike_iff := hd.alike_iff
  same_iff f hf hef := by
    rw [hd.same_iff f (mem_filter_not_meets.2 ⟨hf, h f hef⟩) hef]
    constructor
    · rintro ⟨hw, hs⟩
      refine ⟨hw, fun x hx hxf => hs x ?_ hxf⟩
      have hex : ¬e.Alike x := fun hex => h f hef (alike_trans hex (Entry.same_iff.1 hxf).1)
      have hfilter : [x, f].filter (fun f => !e.meets f) = [x, f] := by
        rw [List.filter_eq_self, List.forall_mem_cons, List.forall_mem_singleton]
        simp only [Bool.not_eq_true', ← Bool.not_eq_true, meets_iff]
        exact ⟨hex, h f hef⟩
      rw [← hfilter]
      exact hx.filter _
    · rintro ⟨hw, hs⟩
      exact ⟨hw, fun x hx => hs x (hx.trans List.filter_sublist)⟩

omit [DecidableEq ν] [Vocabulary ν] in
theorem pair_sublist_iff {x : Entry ν} {p q : List (Entry ν)} (hq : f ∉ q) :
    [x, f].Sublist (p ++ f :: q) ↔ x ∈ p := by
  constructor
  · intro h
    obtain ⟨l, r, hlr, hl, hr⟩ := List.sublist_append_iff.1 h
    rcases l with _ | ⟨y, l⟩
    · -- both would have to stand from `f` on
      obtain rfl : [x, f] = r := hlr
      refine absurd (hr.tail.subset ?_) hq
      exact List.mem_singleton_self f
    · obtain ⟨rfl, _⟩ := List.cons_eq_cons.1 hlr
      exact hl.subset (List.mem_cons_self ..)
  · intro hx
    exact (List.singleton_sublist.2 hx).append (List.singleton_sublist.2 (List.mem_cons_self ..))

/-- The first entry takes its own place, and the others are added to what is left. -/
theorem placed_cons (hes : Exclusive (e :: es)) (honce : Once (e :: es) fs)
    (hhoused : Housed (e :: es) fs) (hvalue : e.value.Regular) :
    ∃ d, Placed fs e d
      ∧ insertAll (e :: es) fs = d :: insertAll es (fs.filter fun f => !e.meets f) := by
  obtain ⟨p, f, q, rfl, hef, hp, hq, hrest⟩ := honce.exists_split (List.mem_cons_self ..)
  -- what comes before `f` and is the same as it is added to the others as it is
  have hbefore (x : Entry ν) (hxf : x.same f = true) : x ∈ insertAll es p ↔ x ∈ p := by
    have hhoused' := housed_filter.2 hhoused
    rw [hrest] at hhoused'
    refine mem_insertAll_iff (hhoused'.sublist (List.sublist_append_left p q)) ?_
    intro e' he' hx
    exact (List.pairwise_cons.1 hes).1 e' he' f (alike_trans hx (same_iff.1 hxf).1) hef
  have hsublist (x : Entry ν) : [x, f].Sublist (p ++ f :: q) ↔ x ∈ p :=
    pair_sublist_iff fun hf => hq f hf hef
  obtain ⟨d, hd, hde, hcase⟩ := insert_cons_of_alike (insertAll es p) hef
  refine ⟨d, ⟨hde, fun g hg heg => ?_⟩, ?_⟩
  · obtain rfl : g = f := honce.eq (List.mem_cons_self ..) hg (by simp) heg hef
    rcases hcase with ⟨rfl, hsame⟩ | ⟨hnone, hm⟩
    · constructor
      · exact fun h => ⟨UnionType.within_of_same hvalue (same_iff.1 h).2, fun _ _ _ => h⟩
      · rintro ⟨_, h⟩
        rcases hsame with hsame | ⟨x, hx, hxf⟩
        · exact hsame
        · exact h x ((hsublist x).2 ((hbefore x hxf).1 hx)) hxf
    · rw [same_iff, and_iff_right ((hde g).2 heg), (alike_of_merge hm).2.2]
      constructor
      · intro h
        refine ⟨h, fun x hx hxf => absurd ?_ hnone⟩
        exact Or.inr ⟨x, (hbefore x hxf).2 ((hsublist x).1 hx), hxf⟩
      · exact fun h => h.within
  · rw [hrest, insertAll_append, insertAll_cons_right, insertAll_cons_of_not_alike hp, hd,
      insertAll_cons_of_not_alike fun x hx hdx => hq x hx ((hde x).1 hdx), insertAll_append]

theorem placed_insertAll (hes : Exclusive es) (honce : Once es fs) (hhoused : Housed es fs)
    (hvalue : ∀ e ∈ es, e.value.Regular) :
    (∀ e ∈ es, ∃ d ∈ insertAll es fs, Placed fs e d)
      ∧ ∀ d ∈ insertAll es fs, d ∈ fs ∨ ∃ e ∈ es, Placed fs e d := by
  induction es generalizing fs with
  | nil =>
    rw [insertAll_nil_of_housed hhoused]
    exact ⟨List.forall_mem_nil _, fun d hd => Or.inl hd⟩
  | cons e es ih =>
    rw [List.forall_mem_cons] at hvalue
    obtain ⟨hexcl, hexcl'⟩ := List.pairwise_cons.1 hes
    obtain ⟨d, hd, hi⟩ := placed_cons hes honce hhoused hvalue.1
    obtain ⟨hplace, hfrom⟩ := ih hexcl' ((once_filter hes).2 (List.forall_mem_cons.1 honce).2)
      (housed_filter.2 hhoused) hvalue.2
    rw [hi, List.forall_mem_cons, List.forall_mem_cons]
    refine ⟨⟨⟨d, List.mem_cons_self .., hd⟩, ?_⟩, Or.inr ⟨e, List.mem_cons_self .., hd⟩, ?_⟩
    · intro e' he'
      obtain ⟨d', hd', hplaced⟩ := hplace e' he'
      exact ⟨d', List.mem_cons_of_mem _ hd', hplaced.of_filter (hexcl e' he')⟩
    · intro d' hd'
      rcases hfrom d' hd' with hd' | ⟨e', he', hplaced⟩
      · exact Or.inl (List.mem_of_mem_filter hd')
      · exact Or.inr ⟨e', List.mem_cons_of_mem _ he', hplaced.of_filter (hexcl e' he')⟩

/-- `fs` have a place for each of `es`, and nothing else of them is dropped when
    they are added. -/
structure Absorbs (fs es : List (Entry ν)) : Prop where
  once : Once es fs
  within : ∀ e ∈ es, ∀ f ∈ fs, e.Alike f → e.value.Within f.value
  housed : fs.Pairwise fun x f =>
    x.Alike f → ∃ e ∈ es, e.Alike f ∧ (x.same f = true → e.same f = true)

theorem regular_value {e : Entry ν} (h : ∀ a ∈ e.parts, a.Regular) : e.value.Regular :=
  value_induction UnionType.regular_base h

theorem insertAll_same_iff (hregular : (UnionType.of es).Regular) :
    (UnionType.of (insertAll es fs)).same (.of fs) = true ↔ Absorbs fs es := by
  have hes := exclusive_of_regular hregular
  have hvalue : ∀ e ∈ es, e.value.Regular :=
    fun e he => regular_value ((UnionType.each_of_iff.1 hregular).2 e he)
  rw [UnionType.same_of_iff]
  constructor
  · rintro ⟨hlen, hsame⟩
    have hsome : ∀ e ∈ es, ∃ f ∈ fs, e.Alike f := by
      intro e he
      obtain ⟨d, hd, hde⟩ := exists_mem_insertAll fs e he
      obtain ⟨f, hf, hdf⟩ := hsame d hd
      exact ⟨f, hf, (hde f).1 (same_iff.1 hdf).1⟩
    obtain ⟨honce, hhoused⟩ := (once_and_housed hes hsome).2 (Nat.le_of_eq hlen.symm)
    have hfits : ∀ e ∈ es, ∀ f ∈ fs, e.Alike f → FitsAt fs e f := by
      intro e he f hf hef
      obtain ⟨d, hd, hplaced⟩ := (placed_insertAll hes honce hhoused hvalue).1 e he
      obtain ⟨g, hg, hdg⟩ := hsame d hd
      have heg : e.Alike g := (hplaced.alike_iff g).1 (same_iff.1 hdg).1
      obtain rfl : f = g := honce.eq he hf hg hef heg
      exact (hplaced.same_iff f hf hef).1 hdg
    refine ⟨honce, fun e he f hf hef => (hfits e he f hf hef).within, ?_⟩
    refine List.pairwise_iff_forall_sublist.2 fun {x f} hxf halike => ?_
    obtain ⟨e, he, hef⟩ := List.pairwise_iff_forall_sublist.1 hhoused hxf halike
    have hf : f ∈ fs := hxf.subset (by simp)
    exact ⟨e, he, hef, (hfits e he f hf hef).same x hxf⟩
  · rintro ⟨honce, hwithin, hpairs⟩
    have hhoused : Housed es fs := hpairs.imp fun h halike => by
      obtain ⟨e, he, hef, _⟩ := h halike
      exact ⟨e, he, hef⟩
    refine ⟨length_insertAll hes honce hhoused, fun d hd => ?_⟩
    rcases (placed_insertAll hes honce hhoused hvalue).2 d hd with hd | ⟨e, he, hplaced⟩
    · exact ⟨d, hd, same_refl d⟩
    · obtain ⟨p, f, q, hfs, hef, _⟩ := honce.exists_split he
      have hf : f ∈ fs := by simp [hfs]
      refine ⟨f, hf, (hplaced.same_iff f hf hef).2 ⟨hwithin e he f hf hef, fun x hx hxf => ?_⟩⟩
      obtain ⟨e', he', hef', hsame⟩ :=
        List.pairwise_iff_forall_sublist.1 hpairs hx (same_iff.1 hxf).1
      rw [hes.eq he he' hef hef']
      exact hsame hxf

/-! ### A union of two types that add nothing -/

section

variable (hes : (UnionType.of es).Regular) (hgs : (UnionType.of gs).Regular)
include hes hgs

/-- What holds of the values of the entries alike to `f` and survives a union
    holds of the value of each such entry afterwards. -/
theorem value_of_mem_insertAll {C : UnionType ν → Prop}
    (hunion : ∀ v w, v.Regular → w.Regular → C v → C w → C (v.union w))
    (hesC : ∀ e ∈ es, e.Alike f → C e.value) (hgsC : ∀ g ∈ gs, g.Alike f → C g.value) :
    ∀ d ∈ insertAll es gs, d.Alike f → C d.value := by
  have hes := (UnionType.each_of_iff.1 hes).2
  have hgs := (UnionType.each_of_iff.1 hgs).2
  have h : ∀ d ∈ insertAll es gs, (∀ a ∈ d.parts, a.Regular) ∧ (d.Alike f → C d.value) := by
    refine forall_insertAll ?_ (fun e he => ⟨hes e he, hesC e he⟩) fun g hg => ⟨hgs g hg, hgsC g hg⟩
    rintro g hg d e hm ⟨hd, hdC⟩
    refine ⟨parts_of_merge hm hd fun b hb a ha => ha.union (hgs g hg b hb), fun hef => ?_⟩
    obtain ⟨hdg, ⟨hde, _⟩, hv⟩ := alike_of_merge hm
    have hdf : d.Alike f := alike_trans hde hef
    have hgf : g.Alike f := alike_trans (alike_symm (fun a ha => (hd a ha).normal) hdg) hdf
    rw [hv]
    exact hunion _ _ (regular_value hd) (regular_value (hgs g hg)) (hdC hdf) (hgsC g hg hgf)
  exact fun d hd => (h d hd).2

/-- `fs` have a place for each entry of a union if they have one for each of its sides. -/
theorem Absorbs.insertAll
    (hunion : ∀ f ∈ fs, ∀ v w : UnionType ν, v.Regular → w.Regular → v.Within f.value →
      w.Within f.value → (v.union w).Within f.value)
    (he : Absorbs fs es) (hg : Absorbs fs gs) : Absorbs fs (insertAll es gs) where
  once := by
    have h : ∀ d ∈ Entry.insertAll es gs, ∃ f, fs.filter d.meets = [f] := by
      refine forall_insertAll ?_ he.once hg.once
      intro g _ d e hm h
      rwa [meets_congr (alike_iff_of_merge hm)]
    exact h
  within d hd f hf hdf :=
    value_of_mem_insertAll hes hgs (hunion f hf) (fun e he' => he.within e he' f hf)
      (fun g hg' => hg.within g hg' f hf) d hd hdf
  housed := by
    refine (he.housed.and hg.housed).imp fun {x f} h halike => ?_
    obtain ⟨e, hmem, hef, hsame⟩ := h.1 halike
    obtain ⟨g, hgmem, hgf, hgsame⟩ := h.2 halike
    obtain ⟨d, hd, hde⟩ := exists_mem_insertAll gs e hmem
    refine ⟨d, hd, (hde f).2 hef, fun hxf => same_iff.2 ⟨(hde f).2 hef, ?_⟩⟩
    refine value_of_mem_insertAll hes hgs (C := fun v => v.same f.value = true)
      (fun v w hv hw => UnionType.same_union hv hw) ?_ ?_ d hd ((hde f).2 hef)
    · intro e' he' hef'
      rw [(exclusive_of_regular hes).eq he' hmem hef' hef]
      exact (same_iff.1 (hsame hxf)).2
    · intro g' hg' hgf'
      rw [(exclusive_of_regular hgs).eq hg' hgmem hgf' hgf]
      exact (same_iff.1 (hgsame hxf)).2

end

end Entry

namespace UnionType

/-- Two types that add nothing to another have a union that adds nothing to it. -/
theorem Within.union {a b o : UnionType ν} (ha : a.Regular) (hb : b.Regular) (hao : a.Within o)
    (hbo : b.Within o) : (a.union b).Within o := by
  induction o using parts_induction generalizing a b with
  | of fs ih =>
    obtain ⟨es⟩ := a
    obtain ⟨gs⟩ := b
    rcases within_cases hao with rfl | hany | ⟨hes, hfs, he, hf, hsame⟩
    · exact (base_union (of gs)).symm ▸ hbo
    · exact within_of_any_same hany
    rcases within_cases hbo with rfl | hany | ⟨hgs, _, hg, _, hgsame⟩
    · exact (union_base (of es)).symm ▸ hao
    · exact within_of_any_same hany
    have hunion : ∀ f ∈ fs, ∀ v w : UnionType ν, v.Regular → w.Regular → v.Within f.value →
        w.Within f.value → (v.union w).Within f.value := by
      intro f hf v w hv hw hvf hwf
      refine Entry.value_induction (P := fun u => v.Within u → w.Within u → (v.union w).Within u)
        ?_ (fun u hu => ih f hf u hu hv hw) hvf hwf
      intro hv hw
      rw [eq_base_of_within hv, base_union]
      exact hw
    have habsorbs := Entry.Absorbs.insertAll ha hb hunion
      ((Entry.insertAll_same_iff ha).1 hsame) ((Entry.insertAll_same_iff hb).1 hgsame)
    have hab := ha.union hb
    rw [union_of_not_isAny hes hgs he hg] at hab ⊢
    have hne : Entry.insertAll es gs ≠ [] := Entry.insertAll_ne_nil hes gs
    rw [Within, union_of_not_isAny hne hfs (Entry.isAny_insertAll he hg) hf]
    exact (Entry.insertAll_same_iff hab).2 habsorbs

theorem Within.unionAll {ts : List (UnionType ν)} {o : UnionType ν} (hts : ∀ t ∈ ts, t.Regular)
    (h : ∀ t ∈ ts, t.Within o) : (UnionType.unionAll ts).Within o := by
  refine (unionAll_induction (P := fun t => t.Regular ∧ t.Within o) ?_ ?_ ?_).2
  · exact fun a b ha hb => ⟨ha.1.union hb.1, ha.2.union ha.1 hb.1 hb.2⟩
  · intro _
    refine ⟨regular_base, ?_⟩
    rw [Within, base_union]
    exact same_refl o
  · exact fun t ht => ⟨hts t ht, h t ht⟩

/-- The union of regular types covers each of them. -/
theorem within_unionAll {ts : List (UnionType ν)} (hts : ∀ t ∈ ts, t.Regular) {t : UnionType ν}
    (ht : t ∈ ts) : t.Within (UnionType.unionAll ts) := by
  have hall := Regular.unionAll hts
  have hbelow : t.Below (UnionType.unionAll ts) :=
    (unionAll_below_iff (fun u hu => (hts u hu).normal) hall.normal).1 (below_refl _) t ht
  exact same_of_below ((hts t ht).union hall) hall
    (union_below (hts t ht).normal hall.normal hall.normal hbelow (below_refl _))
    (below_union_right (hts t ht).normal hall.normal)

end UnionType

end UnionTyping
