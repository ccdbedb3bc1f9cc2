/-!
# The Gamma function on machine numbers

Positive arguments are moved up by `Γ (x + 1) = x Γ x` until Stirling's series has converged.
Negative ones follow by reflection.
-/

namespace Seeing.Gamma

/-- The argument from which on Stirling's series is used. -/
def far : Float := 16

/-- Stirling's series of the logarithm of the Gamma function. -/
def logStirling (x : Float) : Float :=
  let r := 1 / x
  let r2 := r * r
  let tail := r * (1 / 12 - r2 * (1 / 360 - r2 * (1 / 1260 - r2 * (1 / 1680 - r2 *
    (1 / 1188 - r2 * (691 / 360360 - r2 / 156))))))
  (x - 0.5) * Float.log x - x + 0.9189385332046727 + tail

/-- The argument moved up by at most `steps` units, with the product of the arguments passed. -/
def lift : Nat → Float → Float → Float × Float
  | 0, x, passed => (x, passed)
  | steps + 1, x, passed => if far ≤ x then (x, passed) else lift steps (x + 1) (passed * x)

/-- The Gamma function at a positive argument. -/
def ofPositive (x : Float) : Float :=
  let (y, passed) := lift 16 x 1
  Float.exp (logStirling y) / passed

/-- The Gamma function. -/
def eval (x : Float) : Float :=
  if 0 < x then ofPositive x
  else 3.141592653589793 / (Float.sin (3.141592653589793 * x) * ofPositive (1 - x))

end Seeing.Gamma
