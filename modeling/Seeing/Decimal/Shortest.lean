import Seeing.Decimal.Rounding

/-!
# Shortest decimals

Many decimals read back as the same machine number: those in the interval of reals that round to
it. The shortest has the fewest digits, and of these it is the nearest to the number. It is found by
trying one digit, two digits and so on: a grid of decimals has a point in the interval if and only
if one of the two neighbours of the number on this grid lies in it.
-/

namespace Seeing

namespace Binary

/-- The interval of reals that round to the number `significand * 2 ^ exponent`, in quarters of the
unit `2 ^ exponent`. Below a power of two the neighbour is only half as far, unless the unit is
already the smallest. -/
def quarterBounds (b : Binary) : Nat × Nat :=
  let atPower := b.significand = Nat.pow 2 52 ∧ -1074 < b.exponent
  (4 * b.significand - (if atPower then 1 else 2), 4 * b.significand + 2)

/-- Whether the decimal `coefficient * 10 ^ exponent` rounds to the number. The ends of the interval
do if the significand is even. -/
def readsBack (b : Binary) (d : Decimal) : Bool :=
  let (low, high) := b.quarterBounds
  -- both sides in units of `2 ^ (exponent - 2)`, cleared of fractions
  let (num, den) := match d.exponent with
    | .ofNat e => (d.coefficient * Nat.pow 10 e, 1)
    | .negSucc e => (d.coefficient, Nat.pow 10 (e + 1))
  let (num, den) := match b.exponent - 2 with
    | .ofNat e => (num, den * Nat.pow 2 e)
    | .negSucc e => (num * Nat.pow 2 (e + 1), den)
  if b.significand % 2 = 0 then low * den ≤ num ∧ num ≤ high * den
  else low * den < num ∧ num < high * den

end Binary

namespace Decimal

/-- The decimal with `digits` digits that reads back as the number and is nearest to it, if there is
one. -/
def shortestWith? (b : Binary) (digits : Nat) : Option Decimal :=
  let (num, den) := b.fraction
  let exponent := leadingExponent num den + 1 - (digits : Int)
  let (n, d) := inUnits num den exponent
  let below : Decimal := ⟨n / d, exponent⟩
  let above : Decimal := ⟨n / d + 1, exponent⟩
  let nearestFirst := if 2 * (n % d) ≤ d then [below, above] else [above, below]
  nearestFirst.find? b.readsBack

/-- The decimal with the fewest digits that reads back as the number. Seventeen always suffice. -/
def shortest (b : Binary) : Decimal :=
  if b.significand = 0 then ⟨0, 0⟩
  else
    let found := (List.range 17).findSome? fun k => shortestWith? b (k + 1)
    strip 400 (found.getD (ofSignificant b.fraction.1 b.fraction.2 17))

end Decimal

end Seeing
