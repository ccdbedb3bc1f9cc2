/-!
# Scalars

The simulation is written once for every kind of number. `Scalar α` collects what it asks of `α`:
the four operations, an order that may leave some values incomparable (a machine number that is no
number compares with nothing), the elementary and special functions of the theory, and the few
conversions between numbers and counts.

The machine numbers of `Seeing.Scalar.Machine` are the instance that runs. Over the real numbers
the same definitions state the theory in exact arithmetic.
-/

namespace Seeing

/-- What the simulation asks of its numbers. -/
class Scalar (α : Type) extends Add α, Sub α, Mul α, Div α, Neg α, BEq α, LT α, LE α where
  /-- The order is decidable. -/
  decidableLT : DecidableLT α
  /-- The weak order is decidable. -/
  decidableLE : DecidableLE α
  /-- The number of a count. -/
  ofNat : Nat → α
  /-- The number `m * 10 ^ e`, or `m * 10 ^ (-e)` when the flag is set. -/
  ofDecimal : (m : Nat) → Bool → (e : Nat) → α
  /-- The square root. -/
  sqrt : α → α
  /-- The exponential. -/
  exp : α → α
  /-- The natural logarithm. -/
  log : α → α
  /-- The logarithm to base ten. -/
  log10 : α → α
  /-- The real power `x ^ y`. -/
  pow : α → α → α
  /-- The sine of an angle in radians. -/
  sin : α → α
  /-- The cosine of an angle in radians. -/
  cos : α → α
  /-- The length of the vector with the two given components. -/
  hypot : α → α → α
  /-- Half of a turn in radians. -/
  pi : α
  /-- The largest whole number not above. -/
  floor : α → α
  /-- The smallest whole number not below. -/
  ceil : α → α
  /-- The nearest whole number, a half going away from zero. -/
  round : α → α
  /-- The count of whole units, zero for what is negative or no number. -/
  toNat : α → Nat
  /-- Whether the value is a number small enough for its whole units to be counted. -/
  isCountable : α → Bool
  /-- The remainder of the division by a positive count, from zero up to the count. -/
  wrap : α → Nat → α
  /-- Whether the value is a number of finite size. -/
  isFinite : α → Bool
  /-- The Bessel function of the first kind and order zero. -/
  besselJ0 : α → α
  /-- Euler's Gamma function. -/
  gamma : α → α

attribute [reducible, instance] Scalar.decidableLT Scalar.decidableLE

-- A type with operations of its own keeps them: those of the class are for the types without any.
attribute [instance (low)] Scalar.toAdd Scalar.toSub Scalar.toMul Scalar.toDiv Scalar.toNeg
  Scalar.toBEq Scalar.toLT Scalar.toLE Scalar.decidableLT Scalar.decidableLE

variable {α : Type} [Scalar α]

instance (priority := 10) instOfNatScalar (n : Nat) : OfNat α n := ⟨Scalar.ofNat n⟩

instance (priority := 10) instOfScientificScalar : OfScientific α := ⟨Scalar.ofDecimal⟩

instance (priority := low) instInhabitedScalar : Inhabited α := ⟨0⟩

namespace Scalar

/-- One half. -/
def half : α := 0.5

/-- The larger of two values. One that compares with nothing gives way to the other. -/
def larger (x y : α) : α :=
  if x ≤ y then y else if y ≤ x then x else if y ≤ y then y else x

/-- The smaller of two values. One that compares with nothing gives way to the other. -/
def smaller (x y : α) : α :=
  if x ≤ y then x else if y ≤ x then y else if y ≤ y then y else x

/-- The reciprocal. -/
def recip (x : α) : α := 1 / x

/-- The square. -/
def square (x : α) : α := x * x

/-- The sum of the values of `f` at the counts below `n`, from zero up. -/
@[specialize] def sumBelow (n : Nat) (f : Nat → α) : α :=
  Nat.fold n (fun i _ total => total + f i) 0

theorem sumBelow_zero (f : Nat → α) : sumBelow 0 f = 0 := rfl

theorem sumBelow_succ (n : Nat) (f : Nat → α) : sumBelow (n + 1) f = sumBelow n f + f n := rfl

/-- The sum of a list of values, from its head. -/
def sumList (xs : List α) : α := xs.foldl (· + ·) 0

/-- The sum of an array of values, from its first. -/
def sumArray (xs : Array α) : α := xs.foldl (· + ·) 0

theorem sumArray_eq_sumList (xs : Array α) : sumArray xs = sumList xs.toList := by
  simp [sumArray, sumList]

/-- The angle in radians of an angle in seconds of arc. -/
def ofArcsec (x : α) : α := x * (pi / 180) / 60 / 60

/-- The angle in seconds of arc of an angle in radians. -/
def toArcsec (x : α) : α := 60 * (60 * (x * (180 / pi)))

end Scalar

end Seeing
