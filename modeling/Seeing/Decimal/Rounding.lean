import Seeing.Scalar.Binary

/-!
# Rounding to decimal grids

A decimal is a whole coefficient times a power of ten. Here a positive fraction of whole numbers is
rounded to a decimal, either with a given number of places after the point or with a given number
of significant digits. The arithmetic is exact, and a tie goes to the even coefficient.
-/

namespace Seeing

/-- The number `coefficient * 10 ^ exponent`. -/
structure Decimal where
  /-- The whole coefficient. -/
  coefficient : Nat
  /-- The exponent of ten. -/
  exponent : Int
  deriving DecidableEq, Repr

namespace Decimal

/-- The quotient of two whole numbers rounded to the nearest, a tie going to the even one. -/
def roundDiv (num den : Nat) : Nat :=
  let quotient := num / den
  let twice := 2 * (num % den)
  if twice < den then quotient
  else if den < twice then quotient + 1
  else quotient + quotient % 2

/-- The number of decimal digits of a whole number. -/
def digitCount (n : Nat) : Nat := (Nat.toDigits 10 n).length

/-- The exponent of the leading decimal digit of the positive fraction `num / den`. -/
def leadingExponent (num den : Nat) : Int :=
  if den ≤ num then (digitCount (num / den) : Int) - 1
  else
    let d := digitCount (den / num)
    if num * Nat.pow 10 (d - 1) = den then 1 - (d : Int) else -(d : Int)

/-- The fraction `num / den` in units of `10 ^ exponent`. -/
def inUnits (num den : Nat) (exponent : Int) : Nat × Nat :=
  match exponent with
  | .ofNat e => (num, den * Nat.pow 10 e)
  | .negSucc e => (num * Nat.pow 10 (e + 1), den)

/-- The fraction `num / den` rounded to a multiple of `10 ^ exponent`. -/
def onGrid (num den : Nat) (exponent : Int) : Decimal :=
  let (n, d) := inUnits num den exponent
  ⟨roundDiv n d, exponent⟩

/-- The fraction `num / den` rounded to `places` digits after the point. -/
def ofPlaces (num den places : Nat) : Decimal := onGrid num den (-(places : Int))

/-- The fraction `num / den` rounded to `digits` significant digits. A coefficient that the rounding
takes to the next power of ten has its last zero dropped. -/
def ofSignificant (num den digits : Nat) : Decimal :=
  let rounded := onGrid num den (leadingExponent num den + 1 - (digits : Int))
  if rounded.coefficient = Nat.pow 10 digits then
    ⟨Nat.pow 10 (digits - 1), rounded.exponent + 1⟩
  else rounded

/-- The decimal without the zeros that end its coefficient, by at most `fuel` of them. -/
def strip : Nat → Decimal → Decimal
  | 0, d => d
  | fuel + 1, d =>
    if d.coefficient ≠ 0 ∧ d.coefficient % 10 = 0 then
      strip fuel ⟨d.coefficient / 10, d.exponent + 1⟩
    else d

/-- The digits written positionally, without an exponent: zeros are filled in up to the point, and a
point is written only when digits follow it. -/
def positional (d : Decimal) : List Char :=
  let digits := Nat.toDigits 10 d.coefficient
  match d.exponent with
  | .ofNat e => if d.coefficient = 0 then ['0'] else digits ++ List.replicate e '0'
  | .negSucc e =>
    let places := e + 1
    let padded := List.replicate (places + 1 - digits.length) '0' ++ digits
    padded.take (padded.length - places) ++ '.' :: padded.drop (padded.length - places)

end Decimal

end Seeing
