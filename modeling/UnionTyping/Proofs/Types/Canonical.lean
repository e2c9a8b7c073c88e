/-
  UnionTyping/Proofs/Types/Canonical.lean
  =======================================
  **Canonical types** — what a union leaves is settled: no entry repeats or meets
  an earlier one, and the universal type stands alone.  Settled entries united
  one by one come out as they went in (`unionAll_singles`).  A type is canonical
  if all its unions are settled and non-empty and its names can be written;
  canonical types are closed under union (`canonical_union`).
-/
import UnionTyping.Text.Name
import UnionTyping.Types.Source

namespace UnionTyping

open Text

variable {ν : Type} [DecidableEq ν] [Vocabulary ν]

/-! ### Entries that meet -/

namespace Entry

/-- The later entry `e` neither repeats `d` nor meets it. -/
def Apart (d e : Entry ν) : Prop := d.same e = false ∧ d.merge e = none

theorem merge_named_isSome {h k : ν} {as bs : List (UnionType ν)} :
    (merge (.named h as) (.named k bs)).isSome = true
      ↔ h = k ∧ ∃ a b, as = [a] ∧ bs = [b] := by
  rcases as with _ | ⟨a, _ | ⟨a', as⟩⟩ <;> rcases bs with _ | ⟨b, _ | ⟨b', bs⟩⟩ <;>
    simp [merge, apply_ite Option.isSome]

theorem merge_function_isSome {t u : FunctionTraits} {ps qs : List (UnionType ν)}
    {r s : UnionType ν} :
    (merge (.function t ps r) (.function u qs s)).isSome = true
      ↔ t = u ∧ UnionType.sameAll ps qs = true := by
  simp [merge, apply_ite Option.isSome]

@[simp] theorem merge_named_function {h : ν} {as ps : List (UnionType ν)} {t : FunctionTraits}
    {r : UnionType ν} : merge (.named h as) (.function t ps r) = none := by
  unfold merge
  rcases as with _ | ⟨a, _ | ⟨a', as⟩⟩ <;> rfl

@[simp] theorem merge_function_named {h : ν} {as ps : List (UnionType ν)} {t : FunctionTraits}
    {r : UnionType ν} : merge (.function t ps r) (.named h as) = none := by
  unfold merge
  rcases as with _ | ⟨a, _ | ⟨a', as⟩⟩ <;> rfl

/-- What two entries that meet become: the first with another argument or
    another result. -/
theorem eq_of_merge {d f e : Entry ν} (h : merge d f = some e) :
    (∃ k a b, d = .named k [a] ∧ f = .named k [b] ∧ e = .named k [a.union b])
      ∨ ∃ t ps qs r s, d = .function t ps r ∧ f = .function t qs s
        ∧ e = .function t ps (r.union s) := by
  unfold merge at h
  split at h
  · split at h
    · next hk =>
      subst hk
      obtain rfl := Option.some.inj h
      exact Or.inl ⟨_, _, _, rfl, rfl, rfl⟩
    · cases h
  · split at h
    · next ht =>
      obtain ⟨rfl, _⟩ := ht
      obtain rfl := Option.some.inj h
      exact Or.inr ⟨_, _, _, _, _, rfl, rfl, rfl⟩
    · cases h
  · cases h

/-- An entry meets another whatever argument or result that one has. -/
theorem merge_of_merge {c d f e : Entry ν} (h : merge d f = some e) :
    (merge c e).isSome = (merge c d).isSome ∧ (merge e c).isSome = (merge d c).isSome := by
  rcases eq_of_merge h with ⟨k, a, b, rfl, rfl, rfl⟩ | ⟨t, ps, qs, r, s, rfl, rfl, rfl⟩
  · cases c with
    | named h as =>
      constructor
      · rw [Bool.eq_iff_iff, merge_named_isSome, merge_named_isSome]
        simp
      · rw [Bool.eq_iff_iff, merge_named_isSome, merge_named_isSome]
        simp
    | function => simp
  · cases c with
    | named => simp
    | function =>
      constructor
      · rw [Bool.eq_iff_iff, merge_function_isSome, merge_function_isSome]
      · rw [Bool.eq_iff_iff, merge_function_isSome, merge_function_isSome]

/-- Where entries can meet, the ones that are the same do. -/
theorem merge_of_same {c d f e : Entry ν} (h : merge d f = some e) :
    (c.same e = true → (merge c e).isSome = true)
      ∧ (e.same c = true → (merge e c).isSome = true) := by
  have hone {as : List (UnionType ν)} {a : UnionType ν} :
      (UnionType.sameAll as [a] = true → ∃ b, as = [b])
        ∧ (UnionType.sameAll [a] as = true → ∃ b, as = [b]) := by
    rcases as with _ | ⟨b, _ | ⟨b', as⟩⟩ <;> simp [UnionType.sameAll]
  rcases eq_of_merge h with ⟨k, a, b, rfl, rfl, rfl⟩ | ⟨t, ps, qs, r, s, rfl, rfl, rfl⟩
  · cases c with
    | named j as =>
      constructor
      · intro hs
        simp only [same, Bool.and_eq_true, beq_iff_eq] at hs
        obtain ⟨rfl, hs⟩ := hs
        obtain ⟨x, rfl⟩ := hone.1 hs
        exact merge_named_isSome.2 ⟨rfl, _, _, rfl, rfl⟩
      · intro hs
        simp only [same, Bool.and_eq_true, beq_iff_eq] at hs
        obtain ⟨rfl, hs⟩ := hs
        obtain ⟨x, rfl⟩ := hone.2 hs
        exact merge_named_isSome.2 ⟨rfl, _, _, rfl, rfl⟩
    | function => simp [same]
  · cases c with
    | named => simp [same]
    | function =>
      constructor
      · intro hs
        simp only [same, Bool.and_eq_true, beq_iff_eq] at hs
        exact merge_function_isSome.2 hs.1
      · intro hs
        simp only [same, Bool.and_eq_true, beq_iff_eq] at hs
        exact merge_function_isSome.2 hs.1

/-- An entry stays apart from others when it takes another in. -/
theorem apart_of_merge {c d f e : Entry ν} (h : merge d f = some e) :
    (Apart c d → Apart c e) ∧ (Apart d c → Apart e c) := by
  obtain ⟨h₁, h₂⟩ := merge_of_merge (c := c) h
  obtain ⟨h₃, h₄⟩ := merge_of_same (c := c) h
  constructor
  · rintro ⟨_, hm⟩
    rw [hm, Option.isSome_none] at h₁
    constructor
    · cases hs : c.same e with
      | false => rfl
      | true => exact absurd (h₃ hs) (by rw [h₁]; decide)
    · exact Option.isSome_eq_false_iff.1 h₁ |> Option.isNone_iff_eq_none.1
  · rintro ⟨_, hm⟩
    rw [hm, Option.isSome_none] at h₂
    constructor
    · cases hs : e.same c with
      | false => rfl
      | true => exact absurd (h₄ hs) (by rw [h₂]; decide)
    · exact Option.isSome_eq_false_iff.1 h₂ |> Option.isNone_iff_eq_none.1

theorem isAny_of_merge {d f e : Entry ν} (h : merge d f = some e) : e.isAny = false := by
  rcases eq_of_merge h with ⟨k, a, b, rfl, rfl, rfl⟩ | ⟨t, ps, qs, r, s, rfl, rfl, rfl⟩ <;> rfl

end Entry

/-! ### Settled entries -/

/-- Entries as a union leaves them. -/
structure Settled (es : List (Entry ν)) : Prop where
  apart : es.Pairwise Entry.Apart
  universal : 1 < es.length → ∀ e ∈ es, e.isAny = false

theorem settled_singleton (e : Entry ν) : Settled [e] where
  apart := List.pairwise_singleton _ e
  universal h := absurd h (Nat.lt_irrefl 1)

theorem replaceFirst?_eq_none {α : Type} {f : α → Option α} {as : List α} :
    replaceFirst? f as = none ↔ ∀ a ∈ as, f a = none := by
  induction as with
  | nil => simp [replaceFirst?]
  | cons a as ih =>
    unfold replaceFirst?
    cases hf : f a with
    | some b => simp [hf]
    | none => simp [hf, ih]

theorem eq_of_replaceFirst? {α : Type} {f : α → Option α} {as bs : List α}
    (h : replaceFirst? f as = some bs) :
    ∃ l a b r, as = l ++ a :: r ∧ bs = l ++ b :: r ∧ f a = some b := by
  induction as generalizing bs with
  | nil => cases h
  | cons a as ih =>
    unfold replaceFirst? at h
    cases hf : f a with
    | some b =>
      rw [hf] at h
      obtain rfl := Option.some.inj h
      exact ⟨[], a, b, as, rfl, rfl, hf⟩
    | none =>
      rw [hf] at h
      obtain ⟨cs, hc, rfl⟩ := Option.map_eq_some_iff.1 h
      obtain ⟨l, x, y, r, rfl, rfl, hx⟩ := ih hc
      exact ⟨a :: l, x, y, r, rfl, rfl, hx⟩

namespace Entry

/-- The three ways in which entries take in another one. -/
theorem insert_cases (es : List (Entry ν)) (f : Entry ν) :
    ((∃ d ∈ es, d.same f = true) ∧ insert es f = es)
      ∨ (∃ l d e r, es = l ++ d :: r ∧ insert es f = l ++ e :: r ∧ merge d f = some e)
      ∨ (insert es f = es ++ [f] ∧ ∀ d ∈ es, Apart d f) := by
  unfold insert insertWith
  split
  · next hs => exact Or.inl ⟨List.any_eq_true.1 hs, rfl⟩
  · next hs =>
    cases hr : replaceFirst? (fun d => d.merge f) es with
    | some es' =>
      obtain ⟨l, d, e, r, rfl, rfl, hm⟩ := eq_of_replaceFirst? hr
      exact Or.inr (Or.inl ⟨l, d, e, r, rfl, rfl, hm⟩)
    | none =>
      refine Or.inr (Or.inr ⟨rfl, ?_⟩)
      intro d hd
      constructor
      · cases hsame : d.same f with
        | false => rfl
        | true => exact absurd (List.any_eq_true.2 ⟨d, hd, hsame⟩) hs
      · exact replaceFirst?_eq_none.1 hr d hd

theorem insert_of_apart {es : List (Entry ν)} {f : Entry ν} (h : ∀ d ∈ es, Apart d f) :
    insert es f = es ++ [f] := by
  have hs : es.any (fun d => d.same f) = false := by
    rw [List.any_eq_false]
    intro d hd
    rw [(h d hd).1]
    decide
  have hm : replaceFirst? (fun d => d.merge f) es = none :=
    replaceFirst?_eq_none.2 fun d hd => (h d hd).2
  simp [insert, insertWith, hs, hm]

theorem insert_ne_nil {es : List (Entry ν)} (h : es ≠ []) (f : Entry ν) : insert es f ≠ [] := by
  rcases insert_cases es f with ⟨_, he⟩ | ⟨l, d, e, r, _, he, _⟩ | ⟨he, _⟩
  · rw [he]
    exact h
  · simp [he]
  · simp [he]

/-- What holds of the entries and survives a meeting holds of the entries with
    one more. -/
theorem forall_insert {P : Entry ν → Prop} {es : List (Entry ν)} {f : Entry ν}
    (hmerge : ∀ d e, merge d f = some e → P d → P e) (hes : ∀ e ∈ es, P e) (hf : P f) :
    ∀ e ∈ insert es f, P e := by
  rcases insert_cases es f with ⟨_, he⟩ | ⟨l, d, e, r, rfl, he, hm⟩ | ⟨he, _⟩
  · rwa [he]
  · rw [he]
    rw [List.forall_mem_append, List.forall_mem_cons] at hes ⊢
    exact ⟨hes.1, hmerge d e hm hes.2.1, hes.2.2⟩
  · rw [he, List.forall_mem_append, List.forall_mem_singleton]
    exact ⟨hes, hf⟩

theorem forall_insertAll {P : Entry ν → Prop} {es fs : List (Entry ν)}
    (hmerge : ∀ f ∈ fs, ∀ d e, merge d f = some e → P d → P e) (hes : ∀ e ∈ es, P e)
    (hfs : ∀ f ∈ fs, P f) : ∀ e ∈ insertAll es fs, P e := by
  rw [insertAll_eq_foldl]
  induction fs generalizing es with
  | nil => exact hes
  | cons f fs ih =>
    rw [List.forall_mem_cons] at hmerge hfs
    exact ih hmerge.2 (forall_insert hmerge.1 hes hfs.1) hfs.2

/-- A condition that an entry made of two has exactly if both have it, and that entries
    which are the same share, asks nothing more of the entries with one more than of
    those before and of the new one. -/
theorem forall_insert_iff {P : Entry ν → Prop} {es : List (Entry ν)} {f : Entry ν}
    (hsame : ∀ d ∈ es, d.same f = true → P d → P f)
    (hmerge : ∀ d ∈ es, ∀ e, merge d f = some e → (P e ↔ P d ∧ P f)) :
    (∀ e ∈ insert es f, P e) ↔ (∀ e ∈ es, P e) ∧ P f := by
  rcases insert_cases es f with ⟨⟨d, hd, hs⟩, he⟩ | ⟨l, d, e, r, rfl, he, hm⟩ | ⟨he, _⟩
  · rw [he, iff_self_and]
    exact fun hall => hsame d hd hs (hall d hd)
  · rw [he, List.forall_mem_append, List.forall_mem_append, List.forall_mem_cons,
      List.forall_mem_cons, hmerge d (by simp) e hm, and_right_comm (a := P d), ← and_assoc]
  · rw [he, List.forall_mem_append, List.forall_mem_singleton]

/-- `R` is what the entries have to keep for that. -/
theorem forall_insertAll_iff {R P : Entry ν → Prop} {es fs : List (Entry ν)}
    (hsame : ∀ f ∈ fs, ∀ d, R d → d.same f = true → P d → P f)
    (hmerge : ∀ f ∈ fs, ∀ d e, merge d f = some e → R d → R e ∧ (P e ↔ P d ∧ P f))
    (hes : ∀ e ∈ es, R e) (hfs : ∀ f ∈ fs, R f) :
    (∀ e ∈ insertAll es fs, P e) ↔ (∀ e ∈ es, P e) ∧ ∀ f ∈ fs, P f := by
  rw [insertAll_eq_foldl]
  induction fs generalizing es with
  | nil => simp
  | cons f fs ih =>
    rw [List.forall_mem_cons] at hsame hmerge hfs
    have hkept : ∀ e ∈ insert es f, R e :=
      forall_insert (fun d e hm hd => (hmerge.1 d e hm hd).1) hes hfs.1
    rw [List.foldl_cons, ih hsame.2 hmerge.2 hkept hfs.2, List.forall_mem_cons, ← and_assoc,
      forall_insert_iff (fun d hd => hsame.1 d (hes d hd))
        fun d hd e hm => (hmerge.1 d e hm (hes d hd)).2]

theorem isAny_insertAll {es fs : List (Entry ν)} (hes : ∀ e ∈ es, e.isAny = false)
    (hfs : ∀ f ∈ fs, f.isAny = false) : ∀ e ∈ insertAll es fs, e.isAny = false :=
  forall_insertAll (fun _ _ _ _ hm _ => isAny_of_merge hm) hes hfs

theorem apart_insert {es : List (Entry ν)} {f : Entry ν} (h : es.Pairwise Apart) :
    (insert es f).Pairwise Apart := by
  rcases insert_cases es f with ⟨_, he⟩ | ⟨l, d, e, r, rfl, he, hm⟩ | ⟨he, hf⟩
  · rwa [he]
  · rw [he]
    rw [List.pairwise_append, List.pairwise_cons] at h ⊢
    obtain ⟨hl, ⟨hdr, hr⟩, hlr⟩ := h
    refine ⟨hl, ⟨?_, hr⟩, ?_⟩
    · intro c hc
      exact (apart_of_merge hm).2 (hdr c hc)
    · intro c hc x hx
      rcases List.mem_cons.1 hx with rfl | hx
      · exact (apart_of_merge hm).1 (hlr c hc d (List.mem_cons_self ..))
      · exact hlr c hc x (List.mem_cons_of_mem _ hx)
  · rw [he, List.pairwise_append]
    refine ⟨h, List.pairwise_singleton _ _, ?_⟩
    intro c hc x hx
    rw [List.mem_singleton.1 hx]
    exact hf c hc

theorem apart_insertAll {es : List (Entry ν)} (h : es.Pairwise Apart) (fs : List (Entry ν)) :
    (insertAll es fs).Pairwise Apart := by
  rw [insertAll_eq_foldl]
  induction fs generalizing es with
  | nil => exact h
  | cons f fs ih => exact ih (apart_insert h)

theorem settled_insertAll {es fs : List (Entry ν)} (h : es.Pairwise Apart)
    (hes : ∀ e ∈ es, e.isAny = false) (hfs : ∀ f ∈ fs, f.isAny = false) :
    Settled (insertAll es fs) where
  apart := apart_insertAll h fs
  universal := fun _ => isAny_insertAll hes hfs

theorem insertAll_ne_nil {es : List (Entry ν)} (h : es ≠ []) (fs : List (Entry ν)) :
    insertAll es fs ≠ [] := by
  rw [insertAll_eq_foldl]
  induction fs generalizing es with
  | nil => exact h
  | cons f fs ih => exact ih (insert_ne_nil h f)

end Entry

namespace UnionType

/-- The four ways in which two types unite. -/
theorem union_cases (es fs : List (Entry ν)) :
    (es = [] ∧ (of es).union (of fs) = of fs) ∨ (fs = [] ∧ (of es).union (of fs) = of es)
      ∨ (((∃ e ∈ es, e.isAny = true) ∨ ∃ f ∈ fs, f.isAny = true)
        ∧ (of es).union (of fs) = any)
      ∨ (es ≠ [] ∧ fs ≠ [] ∧ (∀ e ∈ es, e.isAny = false) ∧ (∀ f ∈ fs, f.isAny = false)
        ∧ (of es).union (of fs) = of (Entry.insertAll es fs)) := by
  unfold union
  split
  · next h => exact Or.inl ⟨by simpa [isBase] using h, rfl⟩
  · next h =>
    split
    · next hf => exact Or.inr (Or.inl ⟨by simpa using hf, rfl⟩)
    · next hf =>
      split
      · next ha =>
        simp only [isAny, entries_of, Bool.or_eq_true, List.any_eq_true] at ha
        exact Or.inr (Or.inr (Or.inl ⟨ha, rfl⟩))
      · next ha =>
        simp only [isAny, entries_of, Bool.or_eq_true, List.any_eq_true, not_or, not_exists,
          not_and, Bool.not_eq_true] at ha
        refine Or.inr (Or.inr (Or.inr ⟨?_, ?_, ha.1, ha.2, rfl⟩))
        · rintro rfl
          exact h rfl
        · rintro rfl
          exact hf rfl

/-- What holds of types and survives a union holds of the union of a list. -/
theorem unionAll_induction {P : UnionType ν → Prop} (hunion : ∀ a b, P a → P b → P (a.union b))
    {ts : List (UnionType ν)} (hbase : ts = [] → P base) (hts : ∀ t ∈ ts, P t) :
    P (unionAll ts) := by
  have go : ∀ (ts : List (UnionType ν)) (a : UnionType ν), P a → (∀ t ∈ ts, P t) →
      P (ts.foldl union a) := by
    intro ts
    induction ts with
    | nil => exact fun a ha _ => ha
    | cons t ts ih =>
      intro a ha hts
      rw [List.forall_mem_cons] at hts
      exact ih _ (hunion a t ha hts.1) hts.2
  cases ts with
  | nil => exact hbase rfl
  | cons t ts =>
    rw [List.forall_mem_cons] at hts
    rw [unionAll, List.foldl_cons, base_union]
    exact go ts t hts.1 hts.2

theorem union_single {ds : List (Entry ν)} {e : Entry ν} (hne : ds ≠ [])
    (hds : ∀ d ∈ ds, d.isAny = false) (he : e.isAny = false) (ha : ∀ d ∈ ds, Entry.Apart d e) :
    (of ds).union (single e) = of (ds ++ [e]) := by
  rcases union_cases ds [e] with ⟨h, _⟩ | ⟨h, _⟩ | ⟨⟨d, hd, h⟩ | ⟨d, hd, h⟩, _⟩ | ⟨_, _, _, _, h⟩
  · exact absurd h hne
  · cases h
  · rw [hds d hd] at h
    cases h
  · rw [List.mem_singleton.1 hd, he] at h
    cases h
  · rw [single, h, Entry.insertAll_eq_foldl]
    exact congrArg of (Entry.insert_of_apart ha)

/-- Settled entries come out of a union as they went in. -/
theorem unionAll_singles {es : List (Entry ν)} (h : Settled es) :
    unionAll (es.map single) = of es := by
  have go : ∀ ds fs : List (Entry ν), Settled (ds ++ fs) → ds ≠ [] →
      (fs.map single).foldl union (of ds) = of (ds ++ fs) := by
    intro ds fs hs hne
    induction fs generalizing ds with
    | nil => simp
    | cons f fs ih =>
      have hlen : 1 < (ds ++ f :: fs).length := by
        have := List.length_pos_iff.2 hne
        simp only [List.length_append, List.length_cons]
        omega
      have hapart := (List.pairwise_append.1 hs.apart).2.2
      have hu : (of ds).union (single f) = of (ds ++ [f]) := by
        apply union_single hne
        · exact fun d hd => hs.universal hlen d (List.mem_append_left _ hd)
        · exact hs.universal hlen f (by simp)
        · exact fun d hd => hapart d hd f (List.mem_cons_self ..)
      rw [List.map_cons, List.foldl_cons, hu, ih (ds ++ [f]) (by simpa using hs) (by simp)]
      simp
  cases es with
  | nil => rfl
  | cons e es =>
    rw [unionAll, List.map_cons, List.foldl_cons, base_union]
    exact go [e] es h (by simp)

end UnionType

/-! ### Canonical types -/

mutual

/-- The unions of the type are settled and not empty, and its names can be
    written. -/
def SourceType.Canonical : SourceType → Prop
  | .of es => es ≠ [] ∧ Settled es ∧ SourceEntry.AllCanonical es

def SourceEntry.Canonical : SourceEntry → Prop
  | .named h as => isIdentifier h = true ∧ SourceType.AllCanonical as
  | .function t ps r =>
    (∀ g ∈ t.generics, isName g = true) ∧ (t.variadic = true → ps ≠ [])
      ∧ SourceType.AllCanonical ps ∧ SourceType.Canonical r

def SourceEntry.AllCanonical : List SourceEntry → Prop
  | [] => True
  | e :: es => SourceEntry.Canonical e ∧ SourceEntry.AllCanonical es

def SourceType.AllCanonical : List SourceType → Prop
  | [] => True
  | t :: ts => SourceType.Canonical t ∧ SourceType.AllCanonical ts

end

theorem SourceEntry.allCanonical_iff {es : List SourceEntry} :
    SourceEntry.AllCanonical es ↔ ∀ e ∈ es, SourceEntry.Canonical e := by
  induction es with
  | nil => simp [SourceEntry.AllCanonical]
  | cons e es ih => simp [SourceEntry.AllCanonical, ih]

theorem SourceType.allCanonical_iff {ts : List SourceType} :
    SourceType.AllCanonical ts ↔ ∀ t ∈ ts, SourceType.Canonical t := by
  induction ts with
  | nil => simp [SourceType.AllCanonical]
  | cons t ts ih => simp [SourceType.AllCanonical, ih]

theorem canonical_single {e : SourceEntry} (h : SourceEntry.Canonical e) :
    SourceType.Canonical (.single e) := by
  unfold UnionType.single SourceType.Canonical
  exact ⟨by simp, settled_singleton e, by simpa [SourceEntry.AllCanonical] using h⟩

theorem canonical_named {h : Name} {as : List SourceType} (hh : isIdentifier h = true)
    (has : ∀ a ∈ as, SourceType.Canonical a) : SourceType.Canonical (.named h as) := by
  apply canonical_single
  unfold SourceEntry.Canonical
  exact ⟨hh, SourceType.allCanonical_iff.2 has⟩

theorem canonical_any : SourceType.Canonical .any :=
  canonical_named (by decide) fun a ha => by cases ha

theorem canonical_list {t : SourceType} (h : SourceType.Canonical t) :
    SourceType.Canonical (.list t) :=
  canonical_named (by decide) fun a ha => by rwa [List.mem_singleton.1 ha]

mutual

theorem canonical_union (a : SourceType) (ha : SourceType.Canonical a) :
    (b : SourceType) → SourceType.Canonical b → SourceType.Canonical (a.union b)
  | .of fs, hb => by
    rcases a with ⟨es⟩
    rcases UnionType.union_cases es fs with ⟨_, h⟩ | ⟨_, h⟩ | ⟨_, h⟩ | ⟨hes, _, he, hf, h⟩
    · rwa [h]
    · rwa [h]
    · rw [h]
      exact canonical_any
    · rw [h]
      unfold SourceType.Canonical at ha hb ⊢
      refine ⟨Entry.insertAll_ne_nil hes fs, Entry.settled_insertAll ha.2.1.apart he hf, ?_⟩
      exact canonical_insertAll es ha.2.2 fs hb.2.2

theorem canonical_insertAll (es : List SourceEntry) (hes : SourceEntry.AllCanonical es) :
    (fs : List SourceEntry) → SourceEntry.AllCanonical fs →
      SourceEntry.AllCanonical (Entry.insertAll es fs)
  | [], _ => by
    unfold Entry.insertAll
    exact hes
  | f :: fs, hfs => by
    unfold SourceEntry.AllCanonical at hfs
    unfold Entry.insertAll
    apply canonical_insertAll _ _ fs hfs.2
    rw [SourceEntry.allCanonical_iff] at hes ⊢
    exact Entry.forall_insert (fun d e hm hd => canonical_merge d hd f hfs.1 e hm) hes hfs.1

theorem canonical_merge (d : SourceEntry) (hd : SourceEntry.Canonical d) :
    (f : SourceEntry) → SourceEntry.Canonical f → (e : SourceEntry) → Entry.merge d f = some e →
      SourceEntry.Canonical e
  | .named k bs, hf, e, hm => by
    rcases Entry.eq_of_merge hm with ⟨k', a, b, rfl, hb, rfl⟩ | ⟨_, _, _, _, _, _, hb, _⟩
    · cases hb
      unfold SourceEntry.Canonical SourceType.AllCanonical at hd hf ⊢
      exact ⟨hd.1, canonical_union a hd.2.1 b hf.2.1, hd.2.2⟩
    · cases hb
  | .function u qs s, hf, e, hm => by
    rcases Entry.eq_of_merge hm with ⟨_, _, _, _, hb, _⟩ | ⟨t, ps, qs', r, s', rfl, hb, rfl⟩
    · cases hb
    · cases hb
      unfold SourceEntry.Canonical at hd hf ⊢
      exact ⟨hd.1, hd.2.1, hd.2.2.1, canonical_union r hd.2.2.2 s hf.2.2.2⟩

end

theorem canonical_unionAll {ts : List SourceType} (h : ∀ t ∈ ts, SourceType.Canonical t)
    (hne : ts ≠ []) : SourceType.Canonical (.unionAll ts) :=
  UnionType.unionAll_induction (fun a b ha => canonical_union a ha b) (fun he => absurd he hne) h

end UnionTyping
