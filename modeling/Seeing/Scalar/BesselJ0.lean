/-!
# The Bessel function of order zero on machine numbers

`J₀ x` is the mean of `cos (x sin θ)` over a turn. Up to `J0.reach` that mean is taken over equally
spaced angles: the sum is exact but for Bessel functions of an order so high that they vanish at
this precision. Beyond, the expansion for large arguments has converged before its terms grow.
-/

namespace Seeing.J0

/-- The argument up to which the mean over angles is used. -/
def reach : Float := 25

/-- The number of panels of a quarter turn. -/
def panels : Nat := 16

/-- The sines of the angles strictly inside the first quarter turn. -/
def nodes : FloatArray :=
  ⟨(Array.range (panels - 1)).map fun k =>
    Float.sin ((k + 1).toUInt64.toFloat * 3.141592653589793 / 32)⟩

/-- The mean of `cos (x sin θ)` over the angles, folded onto a quarter turn. -/
def meanOverAngles (x : Float) : Float :=
  let inner := nodes.foldl (fun total s => total + Float.cos (x * s)) 0
  (1 + Float.cos x + 2 * inner) / 32

/-- One term of the expansion for large arguments: `(2k-1)² / (8kx)` times the one before. -/
def nextTerm (x : Float) (k : Nat) (term : Float) : Float :=
  let odd := (2 * k - 1).toUInt64.toFloat
  term * (odd * odd) / ((8 * k).toUInt64.toFloat * x)

/-- The two slowly varying amplitudes of the expansion, of the cosine and of the sine. The sign of
the terms changes after every second one. -/
def amplitudes (x : Float) : Nat → Nat → Float → Float → Float → Float × Float
  | 0, _, _, p, q => (p, q)
  | fuel + 1, k, term, p, q =>
    let term := nextTerm x k term
    match k % 4 with
    | 1 => amplitudes x fuel (k + 1) term p (q - term)
    | 2 => amplitudes x fuel (k + 1) term (p - term) q
    | 3 => amplitudes x fuel (k + 1) term p (q + term)
    | _ => amplitudes x fuel (k + 1) term (p + term) q

/-- The expansion for large arguments, with the phase `x - π/4` split into sine and cosine. -/
def expansion (x : Float) : Float :=
  let (p, q) := amplitudes x 22 1 1 1 0
  let s := Float.sin x
  let c := Float.cos x
  (p * (c + s) - q * (s - c)) / Float.sqrt (3.141592653589793 * x)

/-- The Bessel function of the first kind and order zero. -/
def eval (x : Float) : Float :=
  if x.abs ≤ reach then meanOverAngles x.abs
  else if x.isInf then 0
  else expansion x.abs

end Seeing.J0
