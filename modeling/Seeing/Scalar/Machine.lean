import Seeing.Scalar
import Seeing.Scalar.BesselJ0
import Seeing.Scalar.Binary
import Seeing.Scalar.Gamma

/-!
# Machine numbers as scalars

Double precision numbers are the scalars that the programs run on. Rounding to whole numbers,
counting and remainders are written out, so that they can be evaluated in proofs. The elementary
functions are the system's.
-/

namespace Seeing.Machine

/-- The magnitude from which on every machine number is whole. -/
def wholeFrom : Float := 4503599627370496

/-- The whole part toward zero. -/
def truncate (x : Float) : Float :=
  if x.abs < wholeFrom then
    let whole := x.abs.toUInt64.toFloat
    if x < 0 then -whole else whole
  else x

/-- The largest whole number not above `x`. A whole number is left as it is, with its sign. -/
def floor (x : Float) : Float :=
  let whole := truncate x
  if x < whole then whole - 1 else if whole == x then x else whole

/-- The smallest whole number not below `x`. -/
def ceil (x : Float) : Float := -floor (-x)

/-- The nearest whole number, a half going away from zero. -/
def round (x : Float) : Float :=
  let size := x.abs
  let whole := floor size
  let nearest := if size - whole < 0.5 then whole else whole + 1
  if x < 0 then -nearest else nearest

/-- The machine number of a count. A count of up to fifty three bits is a number exactly. -/
def ofNat (n : Nat) : Float :=
  if n < 9007199254740992 then n.toUInt64.toFloat else Float.ofNat n

/-- The count of whole units, limited to the counts of sixty four bits. -/
def toNat (x : Float) : Nat := x.toUInt64.toNat

/-- The remainder of a positive number of any size by a positive count. It is exact: the whole
numbers of units of the last place are divided. -/
def remainder (x : Float) (n : Nat) : Float :=
  if x < ofNat n then x
  else
    let b := Binary.ofFloat x
    match b.exponent with
    | .ofNat e => Float.ofNat (b.significand * Nat.pow 2 e % n)
    | .negSucc e =>
      Float.ofNat (b.significand % (n * Nat.pow 2 (e + 1))) * Binary.powerOfTwo b.exponent

/-- The remainder by a positive count, from zero up to the count. A negative number short of a
multiple by less than the precision gives the count itself. -/
def wrap (x : Float) (n : Nat) : Float :=
  if x.isFinite then
    if x < 0 then
      let r := -remainder (-x) n
      if r < 0 then r + ofNat n else r
    else remainder x n
  else 0.0 / 0.0

/-- The length of a vector with components `0 ≤ y ≤ x` whose squares neither overflow nor vanish:
the root of the sum of the squares, with its rounding error taken out. -/
def lengthOfSafe (x y : Float) : Float :=
  let h := Float.sqrt (x * x + y * y)
  if h ≤ 2 * y then
    let delta := h - y
    let a := x * (2 * delta - x)
    let b := (delta - 2 * (x - y)) * delta
    h - (a + b) / (2 * h)
  else
    let delta := h - x
    let a := 2 * delta * (x - 2 * y)
    let b := (4 * delta - y) * y + delta * delta
    h - (a + b) / (2 * h)

/-- The size beyond which squares may overflow. -/
def squareOverflow : Float := 1e153

/-- The size below which squares may vanish. -/
def squareUnderflow : Float := 1e-138

/-- The ratio of the components below which the smaller one does not count. -/
def negligible : Float := 5.551115123125783e-17

/-- The length of a vector with components `0 ≤ y ≤ x`, scaled where squares would overflow or
vanish. -/
def lengthOfSorted (x y : Float) : Float :=
  if y ≤ x * negligible then x + y
  else if squareOverflow < x then
    lengthOfSafe (x * Binary.powerOfTwo (-600)) (y * Binary.powerOfTwo (-600)) *
      Binary.powerOfTwo 600
  else if y < squareUnderflow then
    lengthOfSafe (x * Binary.powerOfTwo 600) (y * Binary.powerOfTwo 600) *
      Binary.powerOfTwo (-600)
  else lengthOfSafe x y

/-- The length of the vector with the given components. It is infinite as soon as one of them
is. -/
def hypot (x y : Float) : Float :=
  if x.isInf || y.isInf then 1.0 / 0.0
  else if x.abs < y.abs then lengthOfSorted y.abs x.abs else lengthOfSorted x.abs y.abs

end Seeing.Machine

namespace Seeing

instance instScalarFloat : Scalar Float where
  decidableLT := inferInstance
  decidableLE := inferInstance
  ofNat := Machine.ofNat
  ofDecimal := Float.ofScientific
  sqrt := Float.sqrt
  exp := Float.exp
  log := Float.log
  log10 := Float.log10
  pow := Float.pow
  sin := Float.sin
  cos := Float.cos
  hypot := Machine.hypot
  pi := 3.141592653589793
  floor := Machine.floor
  ceil := Machine.ceil
  round := Machine.round
  toNat := Machine.toNat
  isCountable := fun x => x < 18446744073709551616
  wrap := Machine.wrap
  isFinite := Float.isFinite
  besselJ0 := J0.eval
  gamma := Gamma.eval

end Seeing
