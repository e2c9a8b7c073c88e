/-
  UnionTyping/Proofs/Number/Range.lean
  ====================================
  **Where numbers end** — a literal may have any number of digits, and the number that
  is nearest to it may be infinite.  A rounded count always has 53 significant bits at
  most (`roundCount_dvd`), so that only its size decides whether it is representable.
  Where counts end at a power of two, the last unit before it is rounded up from its
  half on (`roundCount_lt_iff`): a tie goes to the even count, which is the power of
  two.  A literal therefore names a finite number exactly if what it writes is less
  than `2 ^ 1024 - 2 ^ 970` (`isFinite_iff_isInRange`).
-/
import UnionTyping.Proofs.Number.ReadBack

namespace UnionTyping

open Text

-- a power of natural numbers is `Nat.pow`, whatever algebra is imported besides
attribute [local instance (high)] instPowNat

namespace Double

/-! ### Rounding to a whole number -/

/-- Rounding goes down or up to the next whole number. -/
theorem roundHalfEven_bounds (n d : Nat) :
    n / d ≤ roundHalfEven n d ∧ roundHalfEven n d ≤ n / d + 1 := by
  unfold roundHalfEven
  simp only
  split <;> omega

/-- An even number is reached from half a unit below it on: a tie goes up to it. -/
theorem roundHalfEven_lt_iff {n d k : Nat} (hd : 0 < d) (hk : k % 2 = 0) (hpos : 0 < k) :
    roundHalfEven n d < k ↔ 2 * n < (2 * k - 1) * d := by
  obtain ⟨j, rfl⟩ : ∃ j, k = j + 1 := ⟨k - 1, by omega⟩
  have hn : d * (n / d) + n % d = n := Nat.div_add_mod n d
  have hr : n % d < d := Nat.mod_lt n hd
  have hfactor : (2 * (j + 1) - 1) * d = 2 * (d * j) + d := by
    rw [show 2 * (j + 1) - 1 = 2 * j + 1 by omega, Nat.add_mul, Nat.one_mul, Nat.mul_assoc,
      Nat.mul_comm j d]
  obtain ⟨hlower, hupper⟩ := roundHalfEven_bounds n d
  rw [hfactor]
  rcases Nat.lt_trichotomy (n / d) j with hlt | heq | hgt
  · have hmul : d * (n / d + 1) ≤ d * j := Nat.mul_le_mul_left d hlt
    rw [Nat.mul_add, Nat.mul_one] at hmul
    omega
  · -- the quotient is odd, so that a tie goes up
    rw [heq] at hn
    have hround : roundHalfEven n d = if d ≤ 2 * (n % d) then j + 1 else j := by
      unfold roundHalfEven
      simp only [heq]
      split <;> split <;> omega
    rw [hround]
    split <;> omega
  · have hmul : d * (j + 1) ≤ d * (n / d) := Nat.mul_le_mul_left d hgt
    rw [Nat.mul_add, Nat.mul_one] at hmul
    omega

/-! ### Rounding to 53 significant bits -/

section

variable {n d e m : Nat}

/-- The quotient has no more than 53 bits from the last one that is kept on. -/
theorem quotient_lt (n d : Nat) : n / d < 2 ^ (53 : Nat) * 2 ^ ((n / d).log2 - 52) := by
  refine Nat.lt_of_lt_of_le Nat.lt_log2_self ?_
  rw [← Nat.pow_add]
  exact Nat.pow_le_pow_right (by decide) (by omega)

theorem le_quotient (he : (n / d).log2 - 52 = e) (hpos : 0 < e) :
    2 ^ (52 : Nat) * 2 ^ e ≤ n / d := by
  have hlog : (n / d).log2 = 52 + e := by omega
  have hne : n / d ≠ 0 := by
    intro hz
    rw [hz, Nat.log2_zero] at hlog
    omega
  rw [← Nat.pow_add, ← hlog]
  exact Nat.log2_self_le hne

/-- The kept bits are 53, unless rounding has made them the next power of two. -/
theorem roundHalfEven_le (n d : Nat) :
    roundHalfEven n (d * 2 ^ ((n / d).log2 - 52)) ≤ 2 ^ (53 : Nat) := by
  have hquotient : n / (d * 2 ^ ((n / d).log2 - 52)) < 2 ^ (53 : Nat) := by
    rw [← Nat.div_div_eq_div_mul]
    exact Nat.div_lt_of_lt_mul (by rw [Nat.mul_comm]; exact quotient_lt n d)
  have hround := (roundHalfEven_bounds n (d * 2 ^ ((n / d).log2 - 52))).2
  omega

/-- A rounded count has no more than 53 significant bits. -/
theorem roundCount_dvd (n d : Nat) : 2 ^ ((roundCount n d).log2 - 52) ∣ roundCount n d := by
  have hk := roundHalfEven_le n d
  unfold roundCount
  simp only
  generalize roundHalfEven n (d * 2 ^ ((n / d).log2 - 52)) = k at hk ⊢
  generalize (n / d).log2 - 52 = e
  rcases Nat.lt_or_eq_of_le hk with hlt | rfl
  · by_cases hz : k * 2 ^ e = 0
    · rw [hz]
      exact Nat.dvd_zero _
    · have hbits : (k * 2 ^ e).log2 < 53 + e := by
        rw [Nat.log2_lt hz, Nat.pow_add]
        exact Nat.mul_lt_mul_of_pos_right hlt (Nat.two_pow_pos e)
      exact Nat.dvd_mul_left_of_dvd (Nat.pow_dvd_pow 2 (by omega)) k
  · rw [← Nat.pow_add, Nat.log2_two_pow]
    exact Nat.pow_dvd_pow 2 (by omega)

/-! ### The end of the range -/

/-- Half a unit below `2 ^ (54 + m)`, where 53 significant bits are kept. -/
def halfUnitBelow (m : Nat) : Nat := (2 ^ (54 : Nat) - 1) * 2 ^ m

theorem halfUnitBelow_add (m k : Nat) : halfUnitBelow (m + k) = halfUnitBelow m * 2 ^ k := by
  rw [halfUnitBelow, Nat.pow_add, ← Nat.mul_assoc, halfUnitBelow]

theorem roundCount_lt_of_le (hd : 0 < d) (he : (n / d).log2 - 52 = e) (hlow : e ≤ m) :
    roundCount n d < 2 ^ (54 + m) ∧ n < d * halfUnitBelow m := by
  have hunit : 0 < 2 ^ m := Nat.two_pow_pos m
  have hle : 2 ^ e ≤ 2 ^ m := Nat.pow_le_pow_right (by decide) hlow
  have hk := roundHalfEven_le n d
  have hquotient := quotient_lt n d
  rw [he] at hk hquotient
  constructor
  · have hcount : roundCount n d ≤ 2 ^ (53 : Nat) * 2 ^ m := by
      unfold roundCount
      simp only [he]
      exact Nat.mul_le_mul hk hle
    rw [Nat.pow_add]
    omega
  · have hbound := Nat.mul_le_mul_left (2 ^ (53 : Nat)) hle
    rw [Nat.mul_comm, ← Nat.div_lt_iff_lt_mul hd, halfUnitBelow]
    omega

/-- Next to the limit a unit is twice what it is below. -/
theorem roundCount_lt_iff_of_eq (hd : 0 < d) (he : (n / d).log2 - 52 = m + 1) :
    roundCount n d < 2 ^ (54 + m) ↔ n < d * halfUnitBelow m := by
  have hunit : 0 < 2 ^ (m + 1) := Nat.two_pow_pos (m + 1)
  have hrange : 2 ^ (54 + m) = 2 ^ (53 : Nat) * 2 ^ (m + 1) := by
    rw [← Nat.pow_add]
    congr 1
    omega
  have hlimit : (2 * 2 ^ (53 : Nat) - 1) * (d * 2 ^ (m + 1)) = 2 * (d * halfUnitBelow m) := by
    have hodd : 2 * 2 ^ (53 : Nat) - 1 = 2 ^ (54 : Nat) - 1 := rfl
    have hdouble : 2 ^ (m + 1) = 2 * 2 ^ m := Nat.pow_succ'
    rw [hodd, hdouble, halfUnitBelow, Nat.mul_left_comm d, Nat.mul_left_comm _ 2,
      Nat.mul_left_comm d]
  calc roundCount n d < 2 ^ (54 + m)
      ↔ roundHalfEven n (d * 2 ^ (m + 1)) * 2 ^ (m + 1) < 2 ^ (53 : Nat) * 2 ^ (m + 1) := by
        rw [hrange, roundCount, he]
    _ ↔ roundHalfEven n (d * 2 ^ (m + 1)) < 2 ^ (53 : Nat) := Nat.mul_lt_mul_right hunit
    _ ↔ 2 * n < (2 * 2 ^ (53 : Nat) - 1) * (d * 2 ^ (m + 1)) :=
        roundHalfEven_lt_iff (Nat.mul_pos hd hunit) (by decide) (by decide)
    _ ↔ n < d * halfUnitBelow m := by
        rw [hlimit, Nat.mul_lt_mul_left (show 0 < 2 by decide)]

theorem le_roundCount_of_lt (he : (n / d).log2 - 52 = e) (hhigh : m + 1 < e) :
    2 ^ (54 + m) ≤ roundCount n d ∧ d * halfUnitBelow m ≤ n := by
  have hquotient := le_quotient he (by omega)
  have hrange : 2 ^ (54 + m) ≤ 2 ^ (52 : Nat) * 2 ^ e := by
    rw [← Nat.pow_add]
    exact Nat.pow_le_pow_right (by decide) (by omega)
  constructor
  · have hkept : 2 ^ (52 : Nat) ≤ n / (d * 2 ^ e) := by
      rw [← Nat.div_div_eq_div_mul]
      exact (Nat.le_div_iff_mul_le (Nat.two_pow_pos e)).2 hquotient
    have hround : 2 ^ (52 : Nat) ≤ roundHalfEven n (d * 2 ^ e) :=
      Nat.le_trans hkept (roundHalfEven_bounds n (d * 2 ^ e)).1
    rw [roundCount, he]
    exact Nat.le_trans hrange (Nat.mul_le_mul_right _ hround)
  · have hlimit : halfUnitBelow m ≤ n / d := by
      rw [Nat.pow_add] at hrange
      unfold halfUnitBelow
      omega
    exact Nat.le_trans (Nat.mul_le_mul_left d hlimit) (Nat.mul_div_le n d)

/-- Where counts end at a power of two, a fraction is rounded to it from half a unit
    below it on. -/
theorem roundCount_lt_iff (m : Nat) (hd : 0 < d) :
    roundCount n d < 2 ^ (54 + m) ↔ n < d * halfUnitBelow m := by
  rcases Nat.lt_trichotomy ((n / d).log2 - 52) (m + 1) with hlow | hmiddle | hhigh
  · obtain ⟨hcount, hn⟩ := roundCount_lt_of_le hd rfl (Nat.le_of_lt_succ hlow)
    exact iff_of_true hcount hn
  · exact roundCount_lt_iff_of_eq hd hmiddle
  · obtain ⟨hcount, hn⟩ := le_roundCount_of_lt rfl hhigh
    exact iff_of_false (Nat.not_lt.2 hcount) (Nat.not_lt.2 hn)

/-- A fraction is out of range from half a unit above the largest number on, which is
    `2 ^ 1024 - 2 ^ 970`. -/
theorem isFinite_ofRatio_iff (negative : Bool) (hd : 0 < d) :
    (ofRatio negative n d).isFinite = true ↔ n < d * (halfUnitBelow 970 * 2 ^ (1074 : Nat)) := by
  have hexponent : 54 + (970 + 1074) = 2098 := rfl
  have hrepresentable : Representable (roundCount n d)
      ↔ roundCount n d < 2 ^ (54 + (970 + 1074)) := by
    rw [Representable, hexponent, and_iff_left (roundCount_dvd n d)]
  rw [← halfUnitBelow_add 970 1074, ← roundCount_lt_iff _ hd, ← hrepresentable, ofRatio]
  split
  · next h => exact iff_of_true rfl h
  · next h => exact iff_of_false Bool.false_ne_true h

end

/-- What goes out of range is a number of whole digits, whatever the places behind the
    point. -/
theorem isFinite_ofDecimal_iff (negative : Bool) (digits places : Nat) :
    (ofDecimal negative digits (-(places : Int))).isFinite = true
      ↔ digits < 10 ^ places * halfUnitBelow 970 := by
  have hquantum : 0 < 2 ^ (1074 : Nat) := Nat.two_pow_pos 1074
  have hpositive : 0 < 10 ^ places := Nat.pow_pos (by decide)
  have hratio : (ofRatio negative (digits * 2 ^ (1074 : Nat)) (10 ^ places)).isFinite = true
      ↔ digits < 10 ^ places * halfUnitBelow 970 := by
    rw [isFinite_ofRatio_iff negative hpositive, ← Nat.mul_assoc, Nat.mul_lt_mul_right hquantum]
  unfold ofDecimal
  split
  · next h =>
    obtain rfl : places = 0 := by omega
    have hwhole : digits * 10 ^ (-((0 : Nat) : Int)).toNat = digits := Nat.mul_one digits
    rwa [hwhole]
  · rwa [Int.neg_neg, Int.toNat_natCast]

end Double

/-! ### Literals -/

/-- The digits of a literal write a number below the limit, `2 ^ 1024 - 2 ^ 970`. -/
def isInRange (t : Text) : Bool :=
  (pointed? (splitSign t).2).any fun (digits, exponent) =>
    Nat.ofDigitChars 10 digits 0 < 10 ^ (-exponent).toNat * Double.halfUnitBelow 970

theorem exists_places_of_pointed? {t digits : Text} {exponent : Int}
    (h : pointed? t = some (digits, exponent)) : ∃ places : Nat, exponent = -(places : Int) := by
  unfold pointed? at h
  simp only at h
  split at h
  · split at h
    · cases h
    · obtain ⟨_, rfl⟩ := Prod.mk.inj (Option.some.inj h)
      exact ⟨0, rfl⟩
  · next fraction _ =>
    split at h
    · obtain ⟨_, rfl⟩ := Prod.mk.inj (Option.some.inj h)
      exact ⟨fraction.length, rfl⟩
    · cases h
  · cases h

/-- Whether a literal names a finite number is written in its digits. -/
theorem isFinite_iff_isInRange {t : Text} {x : Double} (h : Double.ofPositional? t = some x) :
    x.isFinite = true ↔ isInRange t = true := by
  have hvalue : (pointed? (splitSign t).2).map (fun p => Double.ofDecimal (splitSign t).1
      (Nat.ofDigitChars 10 p.1 0) p.2) = some x := h
  obtain ⟨⟨digits, exponent⟩, hp, rfl⟩ := Option.map_eq_some_iff.1 hvalue
  obtain ⟨places, rfl⟩ := exists_places_of_pointed? hp
  have hrange : isInRange t
      = decide (Nat.ofDigitChars 10 digits 0 < 10 ^ places * Double.halfUnitBelow 970) := by
    rw [isInRange, hp, Option.any_some]
    dsimp only
    rw [Int.neg_neg, Int.toNat_natCast]
  rw [hrange, decide_eq_true_iff]
  exact Double.isFinite_ofDecimal_iff _ _ _

end UnionTyping
