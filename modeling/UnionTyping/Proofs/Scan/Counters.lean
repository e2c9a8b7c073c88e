/-
  UnionTyping/Proofs/Scan/Counters.lean
  =====================================
  **Counting in words of 32 bits.**  A character changes a depth by one at most, so a
  scan of fewer than 2³¹ characters never reaches a depth that a word of 32 bits
  cannot hold, and a scanner with such counters takes the same steps as one that
  counts with integers.

  The invariant is the room that is left (`HasRoom`): a depth that can go up or down
  by as many as there are characters to come.  Each recursion over a text keeps it, and
  from that every function of the scanner gives the same with both ways to count
  (`scanner_advance32`).
-/
import Mathlib.Algebra.Group.Int.Defs
import Mathlib.Algebra.Group.Nat.Defs
import UnionTyping.Scan.Offset

namespace UnionTyping

/-! ### The room that is left -/

theorem Depths.wrap_eq_self {d : Depths} (h : ∀ b, -2 ^ 31 ≤ d.get b ∧ d.get b < 2 ^ 31) :
    d.wrap = d := by
  apply ext_get
  intro b
  rw [get_wrap, Int32.toInt_ofInt_of_le (h b).1 (h b).2]

namespace Nesting

/-- A word of 32 bits holds every depth here and after `n` more characters. -/
def HasRoom (s : Nesting) (n : Nat) : Prop :=
  ∀ b, -2 ^ 31 + (n : Int) ≤ s.depth b ∧ s.depth b + (n : Int) < 2 ^ 31

variable {s : Nesting} {n : Nat}

theorem hasRoom_start (hn : n < 2 ^ 31) : start.HasRoom n := by
  intro b
  rw [depth_start]
  omega

theorem HasRoom.advance (h : s.HasRoom (n + 1)) (c : Char) : (s.advance c).HasRoom n := by
  intro b
  have hroom := h b
  have hweight := s.weight_bounds c b
  rw [depth_advance]
  omega

/-- Where there is room for a character no counter wraps around at it. -/
theorem HasRoom.advance32_eq (h : s.HasRoom (n + 1)) (c : Char) : s.advance32 c = s.advance c := by
  have hfits : ∀ b, -2 ^ 31 ≤ (s.advance c).depth b ∧ (s.advance c).depth b < 2 ^ 31 := by
    intro b
    have hroom := h.advance c b
    omega
  have hwrap : (s.advance c).depths.wrap = (s.advance c).depths := Depths.wrap_eq_self hfits
  rw [advance32, hwrap]

end Nesting

namespace Text

open Nesting

/-! ### Recursions over a text -/

section

variable {s : Nesting} {t : Text}

theorem foldl_advance32 (h : s.HasRoom t.length) : t.foldl advance32 s = scan s t := by
  induction t generalizing s with
  | nil => rfl
  | cons c t ih => rw [List.foldl_cons, h.advance32_eq, ih (h.advance c), scan_cons]

theorem cutFirst_advance32 (p : Nesting → Char → Text → Bool) (h : s.HasRoom t.length) :
    cutFirst p s t advance32 = cutFirst p s t := by
  induction t generalizing s with
  | nil => rfl
  | cons c t ih => simp only [cutFirst, h.advance32_eq, ih (h.advance c)]

theorem cutLast_advance32 (p : Nesting → Char → Bool) (h : s.HasRoom t.length) :
    cutLast p s t advance32 = cutLast p s t := by
  induction t generalizing s with
  | nil => rfl
  | cons c t ih => simp only [cutLast, h.advance32_eq, ih (h.advance c)]

theorem splitOutside_advance32 (bs : List Bracket) (d : Char) (h : s.HasRoom t.length) :
    splitOutside bs d s t advance32 = splitOutside bs d s t := by
  induction t generalizing s with
  | nil => rfl
  | cons c t ih => simp only [splitOutside, h.advance32_eq, ih (h.advance c)]

theorem staysBalanced_advance32 (b : Bracket) (h : s.HasRoom t.length) :
    staysBalanced b s t advance32 = staysBalanced b s t := by
  induction t generalizing s with
  | nil => rfl
  | cons c t ih => simp only [staysBalanced, h.advance32_eq, ih (h.advance c)]

end

/-! ### Texts with fewer characters than a counter can count -/

section

variable {t : Text}

theorem group?_advance32 (b : Bracket) (ht : t.length < 2 ^ 31) :
    group? b t advance32 = group? b t := by
  cases t with
  | nil => rfl
  | cons c t =>
    have hroom : start.HasRoom (t.length + 1) := hasRoom_start ht
    simp only [group?, hroom.advance32_eq, cutFirst_advance32 _ (hroom.advance c)]

theorem isGroup_advance32 (b : Bracket) (ht : t.length < 2 ^ 31) :
    isGroup b t advance32 = isGroup b t := by
  cases t with
  | nil => rfl
  | cons c t =>
    have hinner : t.dropLast.length < 2 ^ 31 := by
      simp only [List.length_dropLast, List.length_cons] at ht ⊢
      omega
    simp only [isGroup, isBalanced, staysBalanced_advance32 b (hasRoom_start ht),
      staysBalanced_advance32 b (hasRoom_start hinner)]

theorem groupEnd?_advance32 (b : Bracket) (i : Nat) (ht : t.length < 2 ^ 31) :
    groupEnd? b t i advance32 = groupEnd? b t i := by
  apply Option.bind_congr
  rintro ⟨l, tail⟩ hsplit
  have htail : tail.length < 2 ^ 31 := by
    obtain ⟨rfl, _⟩ := append_of_splitAtByte? hsplit
    rw [List.length_append] at ht
    omega
  simp only [group?_advance32 b htail]

/-- Words of 32 bits are enough to scan a text of fewer than 2³¹ characters: the nesting
    is the same after each of its beginnings, and with it whatever a scan finds. -/
theorem scanner_advance32 (ht : t.length < 2 ^ 31) :
    (∀ l, l <+: t → l.foldl advance32 .start = scan .start l)
      ∧ (∀ bs d, splitOutside bs d .start t advance32 = splitOutside bs d .start t)
      ∧ (∀ c, lastTopIndex? c t advance32 = lastTopIndex? c t)
      ∧ (∀ b, lastOpeningIndex? b t advance32 = lastOpeningIndex? b t)
      ∧ assignmentIndex? t advance32 = assignmentIndex? t
      ∧ (∀ b, isGroup b t advance32 = isGroup b t)
      ∧ ∀ b i, groupEnd? b t i advance32 = groupEnd? b t i := by
  have hroom : start.HasRoom t.length := hasRoom_start ht
  refine ⟨?_, fun bs d => splitOutside_advance32 bs d hroom, ?_, ?_, ?_,
    fun b => isGroup_advance32 b ht, fun b i => groupEnd?_advance32 b i ht⟩
  · intro l hl
    exact foldl_advance32 (hasRoom_start (Nat.lt_of_le_of_lt hl.length_le ht))
  · intro c
    simp only [lastTopIndex?, cutLastTop, cutLast_advance32 _ hroom]
  · intro b
    simp only [lastOpeningIndex?, cutLastOpening, cutLast_advance32 _ hroom]
  · simp only [assignmentIndex?, cutAssignment, cutFirst_advance32 _ hroom]

end

end Text

end UnionTyping
