/-
  UnionTyping/Number/Reading.lean
  ===============================
  **Reading numbers.**  Three questions are kept apart:
  * `isNumeral`: does a text have the shape of a number literal, that is an
    optional sign, decimal digits of any script and at most one point with
    digits on at least one side?
  * `ofPositional?`: which number does such a text name?  Only ASCII digits
    have a value.
  * `ofText?`: which number does a text name that may also be written with an
    exponent, or be one of the words `inf`, `infinity` and `nan`?
-/
import UnionTyping.Number.Double
import UnionTyping.Text.Digit

namespace UnionTyping

open Text

/-- Digits with at most one point among them, and at least one digit. -/
def isPointed (t : Text) : Bool :=
  match t.dropWhile isDecimalDigit with
  | [] => !t.isEmpty
  | '.' :: fraction =>
    fraction.all isDecimalDigit && (t.head? != some '.' || !fraction.isEmpty)
  | _ => false

/-- A sign and what follows it; no sign is a plus. -/
def splitSign : Text → Bool × Text
  | '-' :: t => (true, t)
  | '+' :: t => (false, t)
  | t => (false, t)

/-- The shape of a number literal. -/
def isNumeral (t : Text) : Bool := isPointed (splitSign t).2

/-- The digits of a pointed numeral without the point, and the power of ten
    that they count. -/
def pointed? (t : Text) : Option (Text × Int) :=
  let whole := t.takeWhile Char.isDigit
  match t.dropWhile Char.isDigit with
  | [] => if whole.isEmpty then none else some (whole, 0)
  | '.' :: fraction =>
    if fraction.all Char.isDigit && !(whole.isEmpty && fraction.isEmpty) then
      some (whole ++ fraction, -fraction.length)
    else none
  | _ => none

namespace Double

/-- The number that a sign, digits and a point name. -/
def ofPositional? (t : Text) : Option Double :=
  let (negative, t) := splitSign t
  (pointed? t).map fun (digits, exponent) =>
    ofDecimal negative (Nat.ofDigitChars 10 digits 0) exponent

/-- The whole number after an exponent mark. -/
def exponent? (t : Text) : Option Int :=
  let (negative, digits) := splitSign t
  if digits.isEmpty || !digits.all Char.isDigit then none
  else
    let n : Int := Nat.ofDigitChars 10 digits 0
    some (if negative then -n else n)

/-- `digits * 10 ^ exponent`, decided by the magnitude alone where a written
    exponent takes it far out of range. -/
def ofScientific (negative : Bool) (digits : Text) (exponent : Int) : Double :=
  let n := Nat.ofDigitChars 10 digits 0
  if n = 0 then zero negative
  else if 400 < exponent then infinite negative
  else if exponent + digits.length < -400 then zero negative
  else ofDecimal negative n exponent

/-- The number that a text names, exponents and words included. -/
def ofText? (t : Text) : Option Double :=
  let (negative, t) := splitSign t
  let word := t.map Char.toLower
  if word = "inf".toList ∨ word = "infinity".toList then some (infinite negative)
  else if word = "nan".toList then some nan
  else
    let mantissa := t.takeWhile fun c => !(c == 'e' || c == 'E')
    match t.dropWhile fun c => !(c == 'e' || c == 'E') with
    | [] => (pointed? mantissa).map fun (digits, shift) => ofScientific negative digits shift
    | _ :: written => do
      let (digits, shift) ← pointed? mantissa
      let exponent ← exponent? written
      return ofScientific negative digits (shift + exponent)

end Double

end UnionTyping
