import Seeing.Scalar

/-!
# The structure function above a cutoff

The mean square of the phase difference between two points is
`6.88 (ρ/r₀)^(5/3) G (k ρ/r₀) / G 0` when only the wavenumbers above `k / r₀` are kept. Here
`G u = ∫ x^(-8/3) (1 - J₀ x) dx` from `u` on. The integral is taken by the trapezoidal rule on a
logarithmic grid, with closed forms below and beyond it.
-/

namespace Seeing.Structure

variable {α : Type} [Scalar α]

/-- The coefficient of the structure function of Kolmogorov turbulence. -/
def coefficient : α := 6.883877

/-- The upper end of the grid. -/
def gridEnd : α := 1000

/-- The lower end of the grid. Below, the integrand is `x^(-2/3) / 4`. -/
def gridStart : α := 0.000001

/-- The number of intervals of the grid. -/
def gridIntervals : Nat := 2000

/-- The exponent with which the integrand falls off on a logarithmic grid. -/
def fallOff : α := -(5 / 3)

/-- The argument below which the series of `1 - J₀` is used. -/
def seriesEnd : α := 0.001

/-- `1 - J₀ x`, by its series for small arguments. -/
def oneMinusJ0 (x : α) : α :=
  if x < seriesEnd then
    let x2 := x * x
    x2 / 4 - x2 * x2 / 64
  else 1 - Scalar.besselJ0 x

/-- The closed form of the integral from zero on. -/
def wholeIntegral : α :=
  let a : α := 8 / 3
  Scalar.pi /
    (Scalar.pow 2 a * Scalar.square (Scalar.gamma (Scalar.half * (a + 1))) *
      Scalar.sin (Scalar.half * Scalar.pi * (a - 1)))

/-- The integral beyond `u` of the integrand without its oscillation. -/
def farIntegral (u : α) : α := 0.6 * Scalar.pow u fallOff

/-- The integral from `u` up to the start of the grid. -/
def nearIntegral (u : α) : α :=
  if u < gridStart then
    0.75 * (Scalar.pow gridStart (1 / 3) - Scalar.pow (Scalar.larger u 0) (1 / 3))
  else 0

/-- The trapezoidal rule on the logarithmic grid from `u` to its end. -/
def gridIntegral (u : α) : α :=
  let start := Scalar.log u
  let step := (Scalar.log gridEnd - start) / Scalar.ofNat gridIntervals
  Scalar.sumBelow (gridIntervals + 1) (fun k =>
    let x := Scalar.exp (start + Scalar.ofNat k * step)
    let w : α := if k = 0 ∨ k = gridIntervals then Scalar.half else 1
    w * Scalar.pow x fallOff * oneMinusJ0 x) * step

/-- The integral from `u` on. -/
def tailIntegral (u : α) : α :=
  let start := Scalar.larger u gridStart
  if gridEnd ≤ start then farIntegral start
  else nearIntegral u + gridIntegral start + farIntegral gridEnd

/-- The structure function at a separation in metres, for the Fried parameter `r0` in metres and the
cutoff in units of its inverse. -/
def function (separation r0 cutoff : α) : α :=
  if separation == 0 then 0
  else
    coefficient * Scalar.pow (separation / r0) (5 / 3) *
      tailIntegral (cutoff * separation / r0) / wholeIntegral

/-- The number of intervals of the table of the structure function. -/
def tableIntervals : Nat := 512

/-- The structure function at equally spaced separations from zero to `reach`. -/
def table (r0 cutoff reach : α) : Vector α (tableIntervals + 1) :=
  Vector.ofFn fun k =>
    function (reach * Scalar.ofNat k / Scalar.ofNat tableIntervals) r0 cutoff

/-- The structure function at a separation in units of the interval of its table, by linear
interpolation. Beyond the table it keeps the last value. -/
def lookUp (table : Vector α (tableIntervals + 1)) (u : α) : α :=
  let k := Nat.min (Scalar.toNat (Scalar.floor u)) (tableIntervals - 1)
  have hk : k + 1 < tableIntervals + 1 := by
    have : k ≤ tableIntervals - 1 := Nat.min_le_right _ _
    unfold tableIntervals at *
    omega
  let w := Scalar.smaller (u - Scalar.ofNat k) 1
  (1 - w) * table[k] + w * table[k + 1]

end Seeing.Structure
