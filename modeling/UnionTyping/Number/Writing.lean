/-
  UnionTyping/Number/Writing.lean
  ===============================
  **Writing numbers** — a finite number is written with the fewest digits that
  read back as it, and among those with the nearest; of two equally near ones
  the larger is taken.

  Every number has an exact decimal (`exact`), with as many places as its binary
  fraction has.  "The first `n` digits" are a quotient of its digits by a power
  of ten, and the two candidates with `n` digits are that quotient and its
  successor.  Candidates are tested by the reader itself (`readsBack`); the exact
  decimal is the last resort, which makes the choice total.

  Two layouts share the digits: `text` never uses an exponent, `listing` does
  below 10^-4 and from 10^16 on and always shows a fraction or an exponent.
-/
import UnionTyping.Number.Reading

namespace UnionTyping.Double

open UnionTyping

-- a power of natural numbers is `Nat.pow`, whatever algebra is imported besides
attribute [local instance (high)] instPowNat

/-- A decimal: `digits * 10 ^ exponent`. -/
structure Decimal where
  digits : Nat
  exponent : Int
  deriving DecidableEq

/-! ### The exact decimal -/

/-- Divide by `2 ^ j` if that leaves no remainder, and count the division. -/
def takeTwos (p : Nat × Nat) (j : Nat) : Nat × Nat :=
  if p.1 % 2 ^ j = 0 then (p.1 / 2 ^ j, p.2 + j) else p

/-- A number as `m * 2 ^ k`, with the largest `k` below 2048. -/
def splitTwos (n : Nat) : Nat × Nat :=
  [1024, 512, 256, 128, 64, 32, 16, 8, 4, 2, 1].foldl takeTwos (n, 0)

theorem mul_takeTwos (p : Nat × Nat) (j : Nat) :
    (takeTwos p j).1 * 2 ^ (takeTwos p j).2 = p.1 * 2 ^ p.2 := by
  unfold takeTwos
  split
  · next h =>
    show p.1 / 2 ^ j * 2 ^ (p.2 + j) = p.1 * 2 ^ p.2
    rw [Nat.pow_add, Nat.mul_comm (2 ^ p.2), ← Nat.mul_assoc,
      Nat.div_mul_cancel (Nat.dvd_of_mod_eq_zero h)]
  · rfl

theorem mul_splitTwos (n : Nat) : (splitTwos n).1 * 2 ^ (splitTwos n).2 = n := by
  have fold : ∀ (js : List Nat) (p : Nat × Nat),
      (js.foldl takeTwos p).1 * 2 ^ (js.foldl takeTwos p).2 = p.1 * 2 ^ p.2 := by
    intro js
    induction js with
    | nil => intro p; rfl
    | cons j js ih => intro p; rw [List.foldl_cons, ih, mul_takeTwos]
  rw [splitTwos, fold]
  simp

/-- The decimal that is equal to a count of quanta. -/
def exact (quanta : Nat) : Decimal :=
  let (m, k) := splitTwos quanta
  if k ≤ 1074 then ⟨m * 5 ^ (1074 - k), -(1074 - k : Nat)⟩ else ⟨m * 2 ^ (k - 1074), 0⟩

/-! ### The shortest decimal -/

/-- The decimal reads back as the count of quanta. -/
def readsBack (quanta : Nat) (d : Decimal) : Bool :=
  match ofDecimal false d.digits d.exponent with
  | finite _ n _ => n == quanta
  | _ => false

/-- The two decimals with `n` digits around a decimal with `length` digits, the
    nearer one first. -/
def neighbours (d : Decimal) (length n : Nat) : List Decimal :=
  let unit := 10 ^ (length - n)
  let q := d.digits / unit
  let r := d.digits % unit
  let exponent := d.exponent + (length - n : Nat)
  let below : Decimal := ⟨q, exponent⟩
  let above : Decimal := if q + 1 = 10 ^ n then ⟨1, exponent + n⟩ else ⟨q + 1, exponent⟩
  if 2 * r < unit then [below, above] else [above, below]

/-- The shortest decimal that reads back, the nearest one of that length. -/
def shortest (quanta : Nat) : Decimal :=
  let d := exact quanta
  let length := (Nat.toDigits 10 d.digits).length
  let candidates := (List.range 17).flatMap fun n => neighbours d length (n + 1)
  (candidates.find? (readsBack quanta)).getD d

/-! ### Layout -/

/-- Digits and a power of ten without an exponent. -/
def positional (digits : Text) (exponent : Int) : Text :=
  if 0 ≤ exponent then digits ++ List.replicate exponent.toNat '0'
  else
    let places := (-exponent).toNat
    if places < digits.length then
      digits.take (digits.length - places) ++ '.' :: digits.drop (digits.length - places)
    else '0' :: '.' :: (List.replicate (places - digits.length) '0' ++ digits)

def sign (negative : Bool) : Text := if negative then ['-'] else []

/-- The digits and the power of ten that a count of quanta is written with. -/
def written (quanta : Nat) : Text × Int :=
  if quanta = 0 then (['0'], 0)
  else
    let d := shortest quanta
    (Nat.toDigits 10 d.digits, d.exponent)

/-- The text of a number in the language. -/
def text : Double → Text
  | nan => "NaN".toList
  | infinite negative => sign negative ++ "inf".toList
  | finite negative quanta _ =>
    let (digits, exponent) := written quanta
    sign negative ++ positional digits exponent

/-- One digit, the others behind a point, and the power of ten. -/
def scientific (digits : Text) (exponent : Int) : Text :=
  let fraction := digits.tail
  digits.take 1 ++ (if fraction.isEmpty then [] else '.' :: fraction)
    ++ 'e' :: (toString (exponent + fraction.length)).toList

/-- The text of a number in a listing. -/
def listing : Double → Text
  | nan => "NaN".toList
  | infinite negative => sign negative ++ "inf".toList
  | finite negative quanta _ =>
    let (digits, exponent) := written quanta
    let magnitude := exponent + digits.length
    sign negative ++
      if quanta ≠ 0 ∧ (magnitude < -3 ∨ 16 < magnitude) then scientific digits exponent
      else
        let plain := positional digits exponent
        if plain.contains '.' then plain else plain ++ ".0".toList

end UnionTyping.Double
