/-
  UnionTyping/Proofs/Scan/Slices.lean
  ===================================
  **Pieces are slices** — a cut is named by the offset of a character in the UTF-8
  form of a text, and what is cut out is the slice before it or behind it.  No
  offset falls inside a character or outside the text, whatever characters there
  are: each slice is there, and it is the piece (`slicesOnBoundaries`).
-/
import UnionTyping.Proofs.Scan.Groups
import UnionTyping.Proofs.Text.Bytes
import UnionTyping.Scan.Offset

namespace UnionTyping

namespace Text

variable {t : Text}

/-! ### Steps -/

/-- The slices around a character at offset `i`. -/
structure SlicesAround (t : Text) (i : Nat) (c : Char) (l r : Text) : Prop where
  before : slice? t 0 i = some l
  char : slice? t i (i + c.utf8Size) = some [c]
  behind : slice? t (i + c.utf8Size) (utf8Length t) = some r

theorem slicesAround_of_eq {l r : Text} {c : Char} (h : t = l ++ c :: r) :
    SlicesAround t (utf8Length l) c l r := by
  have hc : t = l ++ ([c] ++ r) := h
  have hr : t = (l ++ [c]) ++ r := by rw [hc, List.append_assoc]
  refine ⟨slice?_left h, slice?_middle hc rfl (by simp), ?_⟩
  have hs := slice?_right hr
  rwa [utf8Length_append, utf8Length_cons, utf8Length_nil, Nat.add_zero] at hs

/-- A step knows what stands before its character. -/
theorem mem_steps_iff {s : Nesting} {i : Nat} {step : Step} :
    step ∈ steps s i t ↔ ∃ l r, t = l ++ step.char :: r ∧ step.index = i + utf8Length l
      ∧ step.before = scan s l := by
  induction t generalizing s i with
  | nil => simp [steps]
  | cons c t ih =>
    rw [steps, List.mem_cons, ih]
    constructor
    · rintro (rfl | ⟨l, r, rfl, hindex, hbefore⟩)
      · exact ⟨[], t, rfl, rfl, rfl⟩
      · refine ⟨c :: l, r, rfl, ?_, hbefore⟩
        rw [hindex, utf8Length_cons, Nat.add_assoc]
    · rintro ⟨l, r, ht, hindex, hbefore⟩
      cases l with
      | nil =>
        obtain ⟨rfl, rfl⟩ := List.cons.inj ht
        cases step
        exact Or.inl (by simp_all)
      | cons d l =>
        obtain ⟨rfl, rfl⟩ := List.cons.inj ht
        refine Or.inr ⟨l, r, rfl, ?_, hbefore⟩
        rw [hindex, utf8Length_cons, Nat.add_assoc]

/-! ### Pieces between separators -/

/-- The offsets of the separators `d` at the top level, from `i` on. -/
def separatorsFrom (d : Char) (s : Nesting) (i : Nat) (t : Text) : List Nat :=
  ((steps s i t).filter fun step => step.char == d && step.before.atTop).map Step.index

/-- The offsets of the separators `d` of a text. -/
def separators (d : Char) (t : Text) : List Nat := separatorsFrom d .start 0 t

theorem separatorsFrom_cons (d : Char) (s : Nesting) (i : Nat) (c : Char) (t : Text) :
    separatorsFrom d s i (c :: t)
      = if c = d ∧ s.atTop = true then i :: separatorsFrom d (s.advance c) (i + c.utf8Size) t
        else separatorsFrom d (s.advance c) (i + c.utf8Size) t := by
  by_cases h : c = d ∧ s.atTop = true
  · rw [if_pos h]
    simp [separatorsFrom, steps, h.1, h.2]
  · rw [if_neg h]
    simp only [separatorsFrom, steps]
    rw [List.filter_cons_of_neg (by simpa using h)]

/-- With the beginning `piece` of the first piece already passed.  The induction is
    on what is still to be scanned; `l` is what stands before the current piece. -/
theorem slices_splitOutside {d : Char} {s : Nesting} {whole l piece : Text}
    (h : whole = l ++ (piece ++ t)) :
    List.zipWith (slice? whole)
        (utf8Length l :: (separatorsFrom d s (utf8Length (l ++ piece)) t).map (· + d.utf8Size))
        (separatorsFrom d s (utf8Length (l ++ piece)) t ++ [utf8Length whole])
      = ((splitOutside Bracket.all d s t).modifyHead (piece ++ ·)).map some := by
  induction t generalizing s l piece with
  | nil =>
    rw [List.append_nil] at h
    simp [separatorsFrom, steps, splitOutside, slice?_right h]
  | cons c t ih =>
    have hoffset : utf8Length (l ++ (piece ++ [c])) = utf8Length (l ++ piece) + c.utf8Size := by
      simp [Nat.add_assoc]
    rw [separatorsFrom_cons, splitOutside]
    by_cases hd : c = d ∧ s.atTop = true
    · rw [if_pos hd, if_pos (show c = d ∧ s.atTopOf Bracket.all = true from hd)]
      obtain ⟨rfl, _⟩ := hd
      have hnext : whole = (l ++ (piece ++ [c])) ++ ([] ++ t) := by simp [h]
      have hpiece : slice? whole (utf8Length l) (utf8Length (l ++ piece)) = some piece :=
        slice?_middle h rfl (utf8Length_append l piece)
      have hrest := ih (s := s.advance c) hnext
      rw [List.append_nil, hoffset] at hrest
      rw [List.map_cons, List.cons_append, List.zipWith_cons_cons, hpiece, hrest]
      cases splitOutside Bracket.all c (s.advance c) t <;> simp
    · have hnext : whole = l ++ ((piece ++ [c]) ++ t) := by simp [h]
      have hrest := ih (s := s.advance c) hnext
      rw [hoffset] at hrest
      obtain ⟨p, ps, hp⟩ := List.exists_cons_of_ne_nil
        (splitOutside_ne_nil Bracket.all d (s.advance c) t)
      rw [if_neg hd, if_neg (show ¬(c = d ∧ s.atTopOf Bracket.all = true) from hd), hrest, hp]
      simp

/-- The pieces of a text lie between its separators. -/
theorem slices_splitTop (d : Char) (t : Text) :
    List.zipWith (slice? t) (0 :: (separators d t).map (· + d.utf8Size))
        (separators d t ++ [utf8Length t]) = (splitTop d t).map some := by
  have h := slices_splitOutside (d := d) (s := .start) (show t = [] ++ ([] ++ t) from rfl)
  have hid : (splitOutside Bracket.all d .start t).modifyHead ([] ++ ·)
      = splitOutside Bracket.all d .start t := by
    cases splitOutside Bracket.all d .start t <;> rfl
  rwa [hid] at h

/-! ### All cuts -/

/-- Every slice that is taken of a text is there, and is the piece that it is taken
    for. -/
structure SlicesOnBoundaries (t : Text) : Prop where
  /-- A scan stops at characters. -/
  step : ∀ step ∈ steps .start 0 t, ∃ l r, SlicesAround t step.index step.char l r
  /-- The pieces of a list. -/
  pieces : ∀ d, List.zipWith (slice? t) (0 :: (separators d t).map (· + d.utf8Size))
    (separators d t ++ [utf8Length t]) = (splitTop d t).map some
  /-- Both sides of a dot. -/
  last : ∀ c l r, cutLastTop c t = some (l, r) →
    ∃ i, lastTopIndex? c t = some i ∧ SlicesAround t i c l r
  /-- Both sides of an equals sign. -/
  assignment : ∀ l r, cutAssignment t = some (l, r) →
    ∃ i, assignmentIndex? t = some i ∧ SlicesAround t i '=' l r
  /-- The bracket that closes the one at an offset. -/
  closing : ∀ b i e, groupEnd? b t i = some e → i < e
    ∧ ∃ l inner r, SlicesAround t i b.opening l (inner ++ b.closing :: r)
      ∧ slice? t (i + 1) e = some inner ∧ SlicesAround t e b.closing (l ++ b.opening :: inner) r
  /-- The inside of a group at the beginning and what follows it. -/
  group : ∀ b inner rest, group? b t = some (inner, rest) → ∃ e, groupEnd? b t 0 = some e
    ∧ slice? t 1 e = some inner ∧ slice? t (e + 1) (utf8Length t) = some rest
  /-- What stands before a group at the end, and the inside of the group. -/
  lastGroup : ∀ b before inner, lastGroup? b t = some (before, inner) →
    ∃ i, lastOpeningIndex? b t = some i ∧ groupEnd? b t i = some (utf8Length t - 1)
      ∧ slice? t 0 i = some before ∧ slice? t (i + 1) (utf8Length t - 1) = some inner
  /-- The inside of a text between two brackets, whether they belong together or not. -/
  inside : ∀ b, 2 ≤ utf8Length t → t.head? = some (Bracket.opening b) →
    t.getLast? = some (Bracket.closing b) → slice? t 1 (utf8Length t - 1) = some (inside t)
  /-- A name at the beginning and what follows it. -/
  name : ∃ i, slice? t 0 i = some (t.takeWhile isNameChar)
    ∧ slice? t i (utf8Length t) = some (t.dropWhile isNameChar)

theorem utf8Size_opening (b : Bracket) : b.opening.utf8Size = 1 := by cases b <;> rfl

theorem utf8Size_closing (b : Bracket) : b.closing.utf8Size = 1 := by cases b <;> rfl

/-- What `groupEnd?` finds, from the offset of the opening bracket on. -/
theorem groupEnd?_eq_some_iff {b : Bracket} {i e : Nat} :
    groupEnd? b t i = some e ↔ ∃ l tail inner rest, splitAtByte? i t = some (l, tail)
      ∧ group? b tail = some (inner, rest) ∧ e = i + 1 + utf8Length inner := by
  simp only [groupEnd?, Option.bind_eq_bind, Option.bind_eq_some_iff, Option.pure_def,
    Option.some.injEq, Prod.exists]
  constructor
  · rintro ⟨l, tail, hsplit, inner, rest, hgroup, rfl⟩
    exact ⟨l, tail, inner, rest, hsplit, hgroup, rfl⟩
  · rintro ⟨l, tail, inner, rest, hsplit, hgroup, rfl⟩
    exact ⟨l, tail, hsplit, inner, rest, hgroup, rfl⟩

theorem slices_group {b : Bracket} {l inner r : Text}
    (h : t = l ++ b.opening :: (inner ++ b.closing :: r)) :
    SlicesAround t (utf8Length l) b.opening l (inner ++ b.closing :: r)
      ∧ slice? t (utf8Length l + 1) (utf8Length l + 1 + utf8Length inner) = some inner
      ∧ SlicesAround t (utf8Length l + 1 + utf8Length inner) b.closing (l ++ b.opening :: inner)
        r := by
  have hopening := utf8Size_opening b
  have hinner : t = (l ++ [b.opening]) ++ (inner ++ b.closing :: r) := by simp [h]
  have hclosing : t = (l ++ b.opening :: inner) ++ b.closing :: r := by simp [h]
  refine ⟨slicesAround_of_eq h, slice?_middle hinner (by simp [hopening]) (by simp [hopening]), ?_⟩
  have hs := slicesAround_of_eq hclosing
  have hoffset : utf8Length (l ++ b.opening :: inner) = utf8Length l + 1 + utf8Length inner := by
    simp [hopening, Nat.add_assoc]
  rwa [hoffset] at hs

/-- The group at the beginning, by the end that `groupEnd?` finds. -/
theorem slices_group? {b : Bracket} {inner rest : Text} (h : group? b t = some (inner, rest)) :
    ∃ e, groupEnd? b t 0 = some e ∧ slice? t 1 e = some inner
      ∧ slice? t (e + 1) (utf8Length t) = some rest := by
  have ht : t = [] ++ b.opening :: (inner ++ b.closing :: rest) := (eq_of_group? h).1
  obtain ⟨_, hinner, hrest⟩ := slices_group ht
  rw [utf8Length_nil, Nat.zero_add] at hinner hrest
  have hbehind := hrest.behind
  rw [utf8Size_closing] at hbehind
  have hend : groupEnd? b t 0 = some (1 + utf8Length inner) :=
    groupEnd?_eq_some_iff.2 ⟨[], t, inner, rest, by cases t <;> rfl, h, by rw [Nat.zero_add]⟩
  exact ⟨_, hend, hinner, hbehind⟩

/-- The group at the end closes at the last byte. -/
theorem slices_lastGroup? {b : Bracket} {before inner : Text}
    (h : lastGroup? b t = some (before, inner)) :
    ∃ i, lastOpeningIndex? b t = some i ∧ groupEnd? b t i = some (utf8Length t - 1)
      ∧ slice? t 0 i = some before ∧ slice? t (i + 1) (utf8Length t - 1) = some inner := by
  have ht := (eq_of_lastGroup? h).1
  obtain ⟨hopening, hinner, _⟩ := slices_group ht
  have hlength : utf8Length before + 1 + utf8Length inner = utf8Length t - 1 := by
    simp only [ht, utf8Length_append, utf8Length_cons, utf8Length_nil, utf8Size_opening,
      utf8Size_closing]
    omega
  rw [hlength] at hinner
  obtain ⟨hcut, hgroup⟩ := cut_of_lastGroup? h
  have hsplit := splitAtByte?_utf8Length_append before (b.opening :: (inner ++ [b.closing]))
  rw [← ht] at hsplit
  have hend := groupEnd?_eq_some_iff.2 ⟨before, _, inner, [], hsplit, hgroup, rfl⟩
  rw [hlength] at hend
  exact ⟨utf8Length before, by rw [lastOpeningIndex?, hcut, Option.map_some], hend,
    hopening.before, hinner⟩

/-- A text between two brackets is the brackets around its inside. -/
theorem eq_opening_inside_closing {b : Bracket} (hlength : 2 ≤ utf8Length t)
    (hhead : t.head? = some b.opening) (hlast : t.getLast? = some b.closing) :
    t = b.opening :: (inside t ++ [b.closing]) := by
  obtain ⟨c, u, rfl⟩ := List.exists_cons_of_ne_nil (l := t) (by rintro rfl; cases hhead)
  obtain rfl : c = b.opening := Option.some.inj hhead
  have hne : u ≠ [] := by
    rintro rfl
    simp [utf8Size_opening] at hlength
  rw [List.getLast?_cons_of_ne_nil hne, List.getLast?_eq_some_getLast hne] at hlast
  rw [← Option.some.inj hlast]
  exact congrArg (b.opening :: ·) (List.dropLast_concat_getLast hne).symm

theorem slices_inside {b : Bracket} (hlength : 2 ≤ utf8Length t)
    (hhead : t.head? = some b.opening) (hlast : t.getLast? = some b.closing) :
    slice? t 1 (utf8Length t - 1) = some (inside t) := by
  have ht := eq_opening_inside_closing hlength hhead hlast
  have hend : utf8Length t - 1 = 1 + utf8Length (inside t) := by
    have hlength := congrArg utf8Length ht
    simp only [utf8Length_append, utf8Length_cons, utf8Length_nil, utf8Size_opening,
      utf8Size_closing] at hlength
    omega
  have hmiddle : t = [b.opening] ++ (inside t ++ [b.closing]) := ht
  refine slice?_middle hmiddle ?_ ?_
  · simp [utf8Size_opening]
  · simpa [utf8Size_opening] using hend

theorem slicesOnBoundaries (t : Text) : SlicesOnBoundaries t where
  step := by
    intro step hstep
    obtain ⟨l, r, ht, hindex, _⟩ := mem_steps_iff.1 hstep
    rw [Nat.zero_add] at hindex
    rw [hindex]
    exact ⟨l, r, slicesAround_of_eq ht⟩
  pieces d := slices_splitTop d t
  last := by
    intro c l r h
    obtain ⟨d, ht, hp⟩ := eq_of_cutLast h
    simp only [Bool.and_eq_true, beq_iff_eq] at hp
    obtain ⟨rfl, _⟩ := hp
    exact ⟨utf8Length l, by rw [lastTopIndex?, h, Option.map_some], slicesAround_of_eq ht⟩
  assignment := by
    intro l r h
    obtain ⟨d, ht, hp⟩ := eq_of_cutFirst h
    simp only [isAssignment, Bool.and_eq_true, beq_iff_eq] at hp
    obtain ⟨⟨⟨rfl, _⟩, _⟩, _⟩ := hp
    exact ⟨utf8Length l, by rw [assignmentIndex?, h, Option.map_some], slicesAround_of_eq ht⟩
  closing := by
    intro b i e h
    obtain ⟨l, tail, inner, r, hsplit, hgroup, rfl⟩ := groupEnd?_eq_some_iff.1 h
    obtain ⟨ht, hl⟩ := append_of_splitAtByte? hsplit
    rw [(eq_of_group? hgroup).1] at ht
    have hs := slices_group ht
    rw [hl] at hs
    exact ⟨by omega, l, inner, r, hs⟩
  group _ _ _ h := slices_group? h
  lastGroup _ _ _ h := slices_lastGroup? h
  inside _ hlength hhead hlast := slices_inside hlength hhead hlast
  name := ⟨_, slice?_left List.takeWhile_append_dropWhile.symm,
    slice?_right List.takeWhile_append_dropWhile.symm⟩

end Text

end UnionTyping
