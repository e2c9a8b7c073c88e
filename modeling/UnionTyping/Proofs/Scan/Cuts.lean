/-
  UnionTyping/Proofs/Scan/Cuts.lean
  =================================
  **Where a text is cut.**  Each way of cutting a text is described twice: the
  pieces that a cut returns make up the text again (`eq_of_...`), and a text put
  together from balanced pieces is cut exactly between them.  The second half is
  what lets a reader find the pieces that a writer has put down.
-/
import UnionTyping.Proofs.Scan.Sealed

namespace UnionTyping

/-! ### Going on at the top level -/

namespace Nesting

/-- At the top level a character does what it does at the beginning of a text. -/
theorem advance_of_atTop {s : Nesting} {c : Char} (hs : s.atTop = true)
    (hc : s.isTip c = false) : s.advance c = start.advance c := by
  have h := atTop_iff.1 hs
  rw [advance_eq_shift h.1 hc, shift_zero h.2]

theorem scan_of_atTop {s : Nesting} {t : Text} (hs : s.atTop = true) (hf : s.Fits t)
    (ht : t ≠ []) : scan s t = scan .start t := by
  have h := atTop_iff.1 hs
  rw [scan_eq_shift h.1 hf ht, shift_zero h.2]

theorem atTop_scan_of_atTop {s : Nesting} {t : Text} (hs : s.atTop = true) (hf : s.Fits t) :
    (scan s t).atTop = (scan .start t).atTop := by
  by_cases ht : t = []
  · rw [ht]
    exact hs
  · rw [scan_of_atTop hs hf ht]

end Nesting

namespace Text

open Nesting

/-! ### The two general cuts -/

section

variable {q : Nesting → Char → Bool} {p : Nesting → Char → Text → Bool} {s : Nesting}

theorem cutLast_eq_none_iff {t : Text} :
    cutLast q s t = none ↔ ∀ l c r, t = l ++ c :: r → q (scan s l) c = false := by
  induction t generalizing s with
  | nil => simp [cutLast]
  | cons d t ih =>
    constructor
    · intro h l c r he
      simp only [cutLast] at h
      split at h
      · cases h
      · next hn =>
        split at h
        · cases h
        · next hq =>
          cases l with
          | nil =>
            obtain ⟨rfl, _⟩ := List.cons.inj he
            simpa using hq
          | cons e l =>
            obtain ⟨rfl, he'⟩ := List.cons.inj he
            exact ih.1 hn l c r he'
    · intro h
      have hn : cutLast q (s.advance d) t = none :=
        ih.2 fun l c r he => h (d :: l) c r (by rw [he]; rfl)
      have hq : q s d = false := h [] d t rfl
      simp [cutLast, hn, hq]

theorem cutLast_append_cons {l r : Text} {c : Char} (hc : q (scan s l) c = true)
    (hr : cutLast q ((scan s l).advance c) r = none) :
    cutLast q s (l ++ c :: r) = some (l, r) := by
  induction l generalizing s with
  | nil =>
    have hc' : q s c = true := hc
    have hr' : cutLast q (s.advance c) r = none := hr
    simp [cutLast, hr', hc']
  | cons d l ih =>
    have h := ih (s := s.advance d) hc hr
    simp [cutLast, h]

theorem cutFirst_append_cons {l r : Text} {c : Char} (hc : p (scan s l) c r = true)
    (hl : ∀ l' c' r', l = l' ++ c' :: r' → p (scan s l') c' (r' ++ c :: r) = false) :
    cutFirst p s (l ++ c :: r) = some (l, r) := by
  induction l generalizing s with
  | nil =>
    have hc' : p s c r = true := hc
    simp [cutFirst, hc']
  | cons d l ih =>
    have h₀ : p s d (l ++ c :: r) = false := hl [] d l rfl
    have h₁ := ih (s := s.advance d) hc fun l' c' r' he => hl (d :: l') c' r' (by rw [he]; rfl)
    simp [cutFirst, h₀, h₁]

theorem cutFirst_eq_none_iff {t : Text} :
    cutFirst p s t = none ↔ ∀ l c r, t = l ++ c :: r → p (scan s l) c r = false := by
  induction t generalizing s with
  | nil => simp [cutFirst]
  | cons d t ih =>
    constructor
    · intro h l c r he
      simp only [cutFirst] at h
      split at h
      · cases h
      · next hp =>
        cases l with
        | nil =>
          obtain ⟨rfl, rfl⟩ := List.cons.inj he
          simpa using hp
        | cons e l =>
          obtain ⟨rfl, he'⟩ := List.cons.inj he
          exact ih.1 (Option.map_eq_none_iff.1 h) l c r he'
    · intro h
      have hn : cutFirst p (s.advance d) t = none :=
        ih.2 fun l c r he => h (d :: l) c r (by rw [he]; rfl)
      have hp : p s d t = false := h [] d t rfl
      simp [cutFirst, hn, hp]

/-- Before the first cut the condition does not hold. -/
theorem not_before_cutFirst {t l r : Text} (h : cutFirst p s t = some (l, r)) :
    ∀ l' c' r', t = l' ++ c' :: r' → l'.length < l.length → p (scan s l') c' r' = false := by
  induction t generalizing s l with
  | nil => cases h
  | cons c t ih =>
    intro l' c' r' he hlt
    simp only [cutFirst] at h
    split at h
    · obtain ⟨rfl, _⟩ := Prod.mk.inj (Option.some.inj h)
      cases hlt
    · next hc =>
      obtain ⟨⟨l₁, r₁⟩, hcut, hpair⟩ := Option.map_eq_some_iff.1 h
      obtain ⟨rfl, rfl⟩ := Prod.mk.inj hpair
      cases l' with
      | nil =>
        obtain ⟨rfl, rfl⟩ := List.cons.inj he
        simpa using hc
      | cons d l' =>
        obtain ⟨rfl, he'⟩ := List.cons.inj he
        exact ih hcut l' c' r' he' (Nat.lt_of_succ_lt_succ hlt)

end

/-! ### Splitting at every separator -/

theorem splitOutside_cons (bs : List Bracket) (d : Char) (s : Nesting) (c : Char) (t : Text) :
    splitOutside bs d s (c :: t)
      = if c = d ∧ s.atTopOf bs = true then [] :: splitOutside bs d (s.advance c) t
        else (splitOutside bs d (s.advance c) t).modifyHead (c :: ·) := by
  obtain ⟨p, ps, hp⟩ := List.exists_cons_of_ne_nil (splitOutside_ne_nil bs d (s.advance c) t)
  simp only [splitOutside, hp, List.modifyHead_cons]

theorem exists_splitOutside_eq_concat (bs : List Bracket) (d : Char) (s : Nesting) (t : Text) :
    ∃ others last, splitOutside bs d s t = others ++ [last] := by
  obtain ⟨others, last, h⟩ := (List.eq_nil_or_concat (splitOutside bs d s t)).resolve_left
    (splitOutside_ne_nil bs d s t)
  exact ⟨others, last, h.trans List.concat_eq_append⟩

/-- Of two texts the last piece of the first and the first piece of the second are
    joined, and the others stay as they are. -/
theorem splitOutside_append {bs : List Bracket} {d : Char} {s : Nesting} {t u : Text}
    {others rest : List Text} {last first : Text}
    (ht : splitOutside bs d s t = others ++ [last])
    (hu : splitOutside bs d (scan s t) u = first :: rest) :
    splitOutside bs d s (t ++ u) = others ++ (last ++ first) :: rest := by
  induction t generalizing s others last with
  | nil =>
    obtain ⟨rfl, hlast⟩ := List.append_inj' (show [] ++ [[]] = others ++ [last] from ht) rfl
    obtain rfl := (List.cons.inj hlast).1
    exact hu
  | cons c t ih =>
    rw [List.cons_append, splitOutside_cons]
    rw [splitOutside_cons] at ht
    by_cases hc : c = d ∧ s.atTopOf bs = true
    · rw [if_pos hc] at ht ⊢
      cases others with
      | nil => exact absurd (List.cons.inj ht).2 (splitOutside_ne_nil bs d (s.advance c) t)
      | cons q others =>
        obtain ⟨rfl, hrest⟩ := List.cons.inj ht
        rw [ih hrest hu, List.cons_append]
    · rw [if_neg hc] at ht ⊢
      obtain ⟨p, ps, hp⟩ := List.exists_cons_of_ne_nil (splitOutside_ne_nil bs d (s.advance c) t)
      rw [hp, List.modifyHead_cons] at ht
      cases others with
      | nil =>
        obtain ⟨rfl, rfl⟩ := List.cons.inj ht
        have hone : splitOutside bs d (s.advance c) t = [] ++ [p] := hp
        rw [ih hone hu]
        rfl
      | cons q others =>
        obtain ⟨rfl, rfl⟩ := List.cons.inj ht
        have hmany : splitOutside bs d (s.advance c) t = (p :: others) ++ [last] := hp
        rw [ih hmany hu]
        rfl

theorem splitTop_eq_singleton {d : Char} {t : Text} (h : Avoids (· == d) t) :
    splitTop d t = [t] := by
  have go : ∀ (s : Nesting) (t : Text),
      (∀ l c r, t = l ++ c :: r → (scan s l).atTop = true → (c == d) = false) →
      splitOutside Bracket.all d s t = [t] := by
    intro s t ht
    induction t generalizing s with
    | nil => rfl
    | cons c t ih =>
      have h₁ : splitOutside Bracket.all d (s.advance c) t = [t] :=
        ih (s.advance c) fun l e r he => ht (c :: l) e r (by rw [he]; rfl)
      have h₂ : ¬(c = d ∧ s.atTopOf Bracket.all = true) := by
        rintro ⟨rfl, htop⟩
        have h₃ := ht [] c t rfl htop
        simp at h₃
      simp only [splitOutside, h₁, if_neg h₂]
  exact go .start t h

/-- At the top level splitting goes on as at the beginning of a text. -/
theorem splitOutside_of_atTop {d : Char} {s : Nesting} {u : Text} (hs : s.atTop = true)
    (hf : s.Fits u) : splitOutside Bracket.all d s u = splitTop d u := by
  cases u with
  | nil => rfl
  | cons c u =>
    have hstart : Nesting.start.atTopOf Bracket.all = true := by decide
    have htop : s.atTopOf Bracket.all = true := hs
    simp only [splitTop, splitOutside, advance_of_atTop hs (hf c rfl), htop, hstart]

theorem fits_separator {d : Char} {s : Nesting} (hstem : d ≠ '~' ∧ d ≠ '=') (u : Text) :
    (s.advance d).Fits u :=
  fits_of_previous ⟨fun h => hstem.1 (Option.some.inj h), fun h => hstem.2 (Option.some.inj h)⟩

/-- Behind a separator splitting starts anew. -/
theorem splitOutside_advance {d : Char} {s : Nesting} (hd : isPlain d = true)
    (hstem : d ≠ '~' ∧ d ≠ '=') (hs : s.atTop = true) (u : Text) :
    splitOutside Bracket.all d (s.advance d) u = splitTop d u :=
  splitOutside_of_atTop (atTop_advance_of_isPlain hs hd) (fits_separator hstem u)

/-- A separator at the top level parts the pieces before it from those behind. -/
theorem splitTop_append {d : Char} {t u : Text} (hd : isPlain d = true)
    (hstem : d ≠ '~' ∧ d ≠ '=') (ht : (scan .start t).atTop = true) :
    splitTop d (t ++ d :: u) = splitTop d t ++ splitTop d u := by
  obtain ⟨others, last, hlast⟩ : ∃ others last, splitTop d t = others ++ [last] :=
    exists_splitOutside_eq_concat Bracket.all d .start t
  have hu : splitOutside Bracket.all d (scan .start t) (d :: u) = [] :: splitTop d u := by
    rw [splitOutside_cons, if_pos ⟨rfl, ht⟩, splitOutside_advance hd hstem ht]
  rw [splitTop, splitOutside_append hlast hu, hlast]
  simp

/-- A balanced piece ends at the next separator. -/
theorem splitTop_append_cons {d : Char} {t u : Text} (hd : isPlain d = true)
    (hstem : d ≠ '~' ∧ d ≠ '=') (ht : Balanced t) (ha : Avoids (· == d) t) :
    splitTop d (t ++ d :: u) = t :: splitTop d u := by
  rw [splitTop_append hd hstem ht.atTop, splitTop_eq_singleton ha, List.singleton_append]

theorem splitTop_intercalate {d : Char} (hd : isPlain d = true) (hstem : d ≠ '~' ∧ d ≠ '=')
    {ts : List Text} (hne : ts ≠ []) (h : ∀ t ∈ ts, Balanced t ∧ Avoids (· == d) t) :
    splitTop d ([d].intercalate ts) = ts := by
  induction ts with
  | nil => exact absurd rfl hne
  | cons t ts ih =>
    obtain ⟨hb, ha⟩ := h t (List.mem_cons_self ..)
    cases ts with
    | nil =>
      rw [List.intercalate_singleton]
      exact splitTop_eq_singleton ha
    | cons u ts =>
      rw [List.intercalate_cons_cons, List.append_assoc, List.singleton_append,
        splitTop_append_cons hd hstem hb ha,
        ih (by simp) fun v hv => h v (List.mem_cons_of_mem _ hv)]

theorem intercalate_splitTop (d : Char) (t : Text) : [d].intercalate (splitTop d t) = t :=
  intercalate_splitOutside _ _ _ _

/-- The pieces of a text between separators `d`.  Each begins anew, no separator is left
    in it, and if it is not the last one it ends at the top level. -/
inductive Parted (d : Char) : Text → List Text → Prop
  | last {t : Text} : Avoids (· == d) t → Parted d t [t]
  | cons {p t : Text} {ps : List Text} : Avoids (· == d) p → (scan .start p).atTop = true →
      Parted d t ps → Parted d (p ++ d :: t) (p :: ps)

section

variable {d : Char} {t : Text} {ps : List Text}

theorem Parted.ne_nil (h : Parted d t ps) : ps ≠ [] := by
  cases h <;> exact List.cons_ne_nil _ _

theorem Parted.avoids (h : Parted d t ps) : ∀ p ∈ ps, Avoids (· == d) p := by
  induction h with
  | last ha => exact List.forall_mem_singleton.2 ha
  | cons ha _ _ ih => exact List.forall_mem_cons.2 ⟨ha, ih⟩

theorem Parted.atTop (h : Parted d t ps) : ∀ p ∈ ps.dropLast, (scan .start p).atTop = true := by
  induction h with
  | last => exact fun p hp => by cases hp
  | cons _ htop hrest ih =>
    rw [List.dropLast_cons_of_ne_nil hrest.ne_nil]
    exact List.forall_mem_cons.2 ⟨htop, ih⟩

/-- The first separator parts a text. -/
theorem avoids_or_exists_separator (d : Char) (t : Text) :
    Avoids (· == d) t
      ∨ ∃ p u, t = p ++ d :: u ∧ (scan .start p).atTop = true ∧ Avoids (· == d) p := by
  rcases h : cutFirst (fun s c _ => c == d && s.atTop) .start t with _ | ⟨p, u⟩
  · left
    intro l c r he htop
    have hc := cutFirst_eq_none_iff.1 h l c r he
    simpa [htop] using hc
  · right
    obtain ⟨c, rfl, hc⟩ := eq_of_cutFirst h
    simp only [Bool.and_eq_true, beq_iff_eq] at hc
    obtain ⟨rfl, htop⟩ := hc
    refine ⟨p, u, rfl, htop, ?_⟩
    rintro l e r rfl hl
    have hfirst := not_before_cutFirst h l e (r ++ c :: u) (by simp) (by simp)
    simpa [hl] using hfirst

theorem exists_parted (d : Char) (t : Text) : ∃ ps, Parted d t ps := by
  induction hn : t.length using Nat.strong_induction_on generalizing t with
  | _ n ih =>
    rcases avoids_or_exists_separator d t with ha | ⟨p, u, rfl, htop, ha⟩
    · exact ⟨[t], .last ha⟩
    · obtain ⟨ps, hps⟩ := ih u.length (by simp [← hn]; omega) u rfl
      exact ⟨p :: ps, .cons ha htop hps⟩

/-- Splitting finds these pieces and no others. -/
theorem splitTop_eq_iff (hd : isPlain d = true) (hstem : d ≠ '~' ∧ d ≠ '=') :
    splitTop d t = ps ↔ Parted d t ps := by
  have hsplit {t : Text} {ps : List Text} (h : Parted d t ps) : splitTop d t = ps := by
    induction h with
    | last ha => exact splitTop_eq_singleton ha
    | cons ha htop _ ih =>
      rw [splitTop_append hd hstem htop, splitTop_eq_singleton ha, ih, List.singleton_append]
  refine ⟨?_, hsplit⟩
  rintro rfl
  obtain ⟨ps, hps⟩ := exists_parted d t
  rwa [hsplit hps]

/-- A text ends at the top level exactly if its last piece does. -/
theorem Parted.atTop_getLast? (h : Parted d t ps) (hd : isPlain d = true)
    (hstem : d ≠ '~' ∧ d ≠ '=') {p : Text} (hp : ps.getLast? = some p) :
    (scan .start t).atTop = (scan .start p).atTop := by
  induction h with
  | last =>
    rw [List.getLast?_singleton] at hp
    rw [Option.some.inj hp]
  | @cons q t ps _ htop hrest ih =>
    have htail : ps.getLast? = some p := by
      rw [← hp, List.getLast?_cons_of_ne_nil hrest.ne_nil]
    rw [← ih htail, scan_append]
    exact atTop_scan_of_atTop (atTop_advance_of_isPlain htop hd) (fits_separator hstem t)

end

/-- A separator at the top level is in no piece. -/
theorem avoids_of_mem_splitTop {d : Char} {t p : Text} (hd : isPlain d = true)
    (hstem : d ≠ '~' ∧ d ≠ '=') (hp : p ∈ splitTop d t) : Avoids (· == d) p :=
  ((splitTop_eq_iff hd hstem).1 rfl).avoids p hp

/-- A text in one piece has no separator at the top level. -/
theorem avoids_of_length_splitTop {d : Char} {t : Text} (hd : isPlain d = true)
    (hstem : d ≠ '~' ∧ d ≠ '=') (h : (splitTop d t).length ≤ 1) : Avoids (· == d) t := by
  obtain ⟨p, ps, hp⟩ := List.exists_cons_of_ne_nil (splitOutside_ne_nil Bracket.all d .start t)
  have hsplit : splitTop d t = p :: ps := hp
  have hps : ps = [] := by
    rw [hsplit, List.length_cons] at h
    exact List.eq_nil_of_length_eq_zero (by omega)
  have ht := intercalate_splitTop d t
  rw [hsplit, hps, List.intercalate_singleton] at ht
  exact avoids_of_mem_splitTop hd hstem (by rw [hsplit, ht]; exact List.mem_cons_self ..)

end Text

end UnionTyping
