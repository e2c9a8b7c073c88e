/-
  UnionTyping/Number/Double.lean
  ==============================
  **Double-precision numbers** — a finite one is a sign and a count of quanta,
  where a quantum is 2^-1074, the least positive number of the format.  A count
  is representable if it has at most 53 significant bits and stays below
  2^2098, so each number has exactly one representation here, apart from the
  two zeros.

  `ofRatio` is the only way from a fraction to a number: it rounds to the
  nearest representable count, ties to the even one, and goes to infinity from
  half a unit above the largest.  `ofRatio_quanta`: a representable count
  rounds to itself.
-/
namespace UnionTyping

-- a power of natural numbers is `Nat.pow`, whatever algebra is imported besides
attribute [local instance (high)] instPowNat

/-- Counts of quanta that a double-precision number can have. -/
def Representable (n : Nat) : Prop := n < 2 ^ (2098 : Nat) ∧ 2 ^ (n.log2 - 52) ∣ n

instance (n : Nat) : Decidable (Representable n) := inferInstanceAs (Decidable (_ ∧ _))

/-- A double-precision number. -/
inductive Double where
  | nan
  | infinite (negative : Bool)
  | finite (negative : Bool) (quanta : Nat) (representable : Representable quanta)
  deriving DecidableEq

namespace Double

def zero (negative : Bool) : Double :=
  finite negative 0 ⟨Nat.two_pow_pos 2098, Nat.dvd_zero _⟩

/-- Equality as the arithmetic has it: the zeros are equal, and what is not a
    number is not equal to itself. -/
def same : Double → Double → Bool
  | nan, _ => false
  | _, nan => false
  | infinite a, infinite b => a == b
  | finite a m _, finite b n _ => m == n && (a == b || m == 0)
  | _, _ => false

def isFinite : Double → Bool
  | finite .. => true
  | _ => false

theorem same_self_iff {x : Double} : x.same x = true ↔ x ≠ nan := by
  cases x <;> simp [same]

/-! ### Rounding -/

/-- `n / d` to the nearest whole number, ties to the even one. -/
def roundHalfEven (n d : Nat) : Nat :=
  let q := n / d
  let r := n % d
  if d < 2 * r ∨ (2 * r = d ∧ q % 2 = 1) then q + 1 else q

/-- `n / d` rounded to 53 significant bits. -/
def roundCount (n d : Nat) : Nat :=
  let unit := 2 ^ ((n / d).log2 - 52)
  roundHalfEven n (d * unit) * unit

/-- The number nearest to `n / d` quanta. -/
def ofRatio (negative : Bool) (n d : Nat) : Double :=
  if h : Representable (roundCount n d) then finite negative _ h else infinite negative

theorem roundHalfEven_mul (m d : Nat) (hd : 0 < d) : roundHalfEven (m * d) d = m := by
  simp [roundHalfEven, Nat.mul_div_cancel _ hd, Nat.mul_mod_left]
  omega

theorem roundCount_mul {m d : Nat} (hd : 0 < d) (hm : Representable m) :
    roundCount (m * d) d = m := by
  obtain ⟨k, hk⟩ := hm.2
  have hunit : 0 < 2 ^ (m.log2 - 52) := Nat.two_pow_pos _
  simp only [roundCount, Nat.mul_div_cancel _ hd]
  generalize 2 ^ (m.log2 - 52) = unit at hk hunit
  subst hk
  rw [show unit * k * d = k * (d * unit) by ac_rfl,
    roundHalfEven_mul _ _ (Nat.mul_pos hd hunit), Nat.mul_comm]

theorem ofRatio_quanta {m d : Nat} (negative : Bool) (hd : 0 < d) (hm : Representable m) :
    ofRatio negative (m * d) d = finite negative m hm := by
  simp [ofRatio, roundCount_mul hd hm, hm]

/-! ### Decimals -/

/-- The number nearest to `digits * 10 ^ exponent`. -/
def ofDecimal (negative : Bool) (digits : Nat) (exponent : Int) : Double :=
  if 0 ≤ exponent then
    ofRatio negative (digits * 10 ^ exponent.toNat * 2 ^ (1074 : Nat)) 1
  else
    ofRatio negative (digits * 2 ^ (1074 : Nat)) (10 ^ (-exponent).toNat)

end Double

end UnionTyping
