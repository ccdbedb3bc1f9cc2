import Seeing.Amplitude
import Seeing.Grid

/-!
# Discrete Fourier transforms

The transforms are not normalised: a forward transform followed by an inverse one multiplies by the
number of values. `directTransform` is the defining sum. `transform` computes the same values by
splitting a long row at its smallest factor `p` into `p` interleaved rows, and `Grid.transform`
applies it along the rows and the columns of a square.

A transform needs only rotations by multiples of `1 / n` of a turn, so it takes the rotation as a
parameter: that of a row split by `p` is the rotation by `p` times as much.
-/

namespace Seeing

/-- The two transforms differ by the sense in which they rotate. -/
inductive Direction
  /-- The transform with the kernel `exp (-2πi jk/n)`. -/
  | forward
  /-- The transform with the kernel `exp (2πi jk/n)`. -/
  | inverse
  deriving DecidableEq, Repr

variable {α : Type} [Scalar α]

/-- The amplitude `exp (∓2πi k/n)`. -/
def Direction.root (d : Direction) (n k : Nat) : Amplitude α :=
  let angle : α := 2 * Scalar.pi * Scalar.ofNat k / Scalar.ofNat n
  match d with
  | .forward => ⟨Scalar.cos angle, -Scalar.sin angle⟩
  | .inverse => ⟨Scalar.cos angle, Scalar.sin angle⟩

/-- A quarter of a turn in the sense of the transform. -/
def Direction.quarterTurn (d : Direction) (a : Amplitude α) : Amplitude α :=
  match d with
  | .forward => -a.quarterTurn
  | .inverse => a.quarterTurn

/-- The roots `exp (∓2πi k/n)` for all `k` below `n`. -/
def Direction.roots (d : Direction) (n : Nat) : Vector (Amplitude α) n :=
  Vector.ofFn fun k => d.root n k.val

/-- The amplitude `a` rotated by `k / n` of a turn, for tabulated roots. Whole quarter turns are
exact. -/
def Direction.rotate (d : Direction) {n : Nat} (roots : Vector (Amplitude α) n) (k : Nat)
    (a : Amplitude α) : Amplitude α :=
  if hn : 0 < n then
    let m := k % n
    have hm : m < n := Nat.mod_lt k hn
    if m = 0 then a
    else if 4 * m = n then d.quarterTurn a
    else if 2 * m = n then -a
    else if 4 * m = 3 * n then -d.quarterTurn a
    else roots[m] * a
  else a

/-- The defining sum of the transform: the value `k` is the sum of the values `j` rotated by
`j * k`. -/
def directTransform (rotate : Nat → Amplitude α → Amplitude α) {n : Nat}
    (x : Vector (Amplitude α) n) : Vector (Amplitude α) n :=
  Vector.ofFn fun k => Amplitude.sumBelow n fun j hj => rotate (j * k.val) x[j]

/-- The smallest factor above one, or the number itself if there is none. -/
def smallestFactor (n : Nat) : Nat :=
  ((List.range n).find? fun p => 2 ≤ p ∧ n % p = 0).getD n

theorem everyNth_lt {n p : Nat} (j : Fin (n / p)) (r : Fin p) : j.val * p + r.val < n := by
  have hj : (j.val + 1) * p ≤ n / p * p := Nat.mul_le_mul_right p j.isLt
  have hp := Nat.div_mul_le_self n p
  have hr := r.isLt
  rw [Nat.add_mul, Nat.one_mul] at hj
  omega

/-- The values at the places `r`, `r + p`, `r + 2p` and so on. -/
def everyNth {β : Type} {n : Nat} (p : Nat) (x : Vector β n) (r : Fin p) : Vector β (n / p) :=
  Vector.ofFn fun j =>
    have hlt := everyNth_lt j r
    x[j.val * p + r.val]

/-- The length of a row up to which the defining sum is used. -/
def directLength : Nat := 16

/-- The transform of a row. A long row is split into interleaved rows, whose transforms are combined
by one more rotation each. -/
def transform {n : Nat} (rotate : Nat → Amplitude α → Amplitude α) (x : Vector (Amplitude α) n) :
    Vector (Amplitude α) n :=
  let p := smallestFactor n
  if h : directLength < n ∧ 2 ≤ p ∧ p ≤ n then
    let parts : Vector (Vector (Amplitude α) (n / p)) p :=
      Vector.ofFn fun r => transform (fun k => rotate (k * p)) (everyNth p x r)
    have hm : 0 < n / p := Nat.div_pos h.2.2 (by omega)
    Vector.ofFn fun k => Amplitude.sumBelow p fun r hr =>
      have hk : k.val % (n / p) < n / p := Nat.mod_lt _ hm
      rotate (r * k.val) parts[r][k.val % (n / p)]
  else directTransform rotate x
termination_by n
decreasing_by
  have := Nat.div_lt_self (n := n) (k := p) (by omega) (by omega)
  assumption

namespace Grid

variable {n : Nat}

/-- The transform along the rows and then along the columns of a square, which become rows for that
time. -/
def transform (d : Direction) (g : Grid n n (Amplitude α)) : Grid n n (Amplitude α) :=
  let roots := d.roots n
  let alongRows := mapRows (Seeing.transform (d.rotate roots))
  (alongRows (alongRows g).transposeInPlace).transposeInPlace

/-- The square with the value of cell `(0, 0)` moved to the centre `(n/2, n/2)` and all others moved
along, around the edges. -/
def recentre {β : Type} (g : Grid n n β) : Grid n n β :=
  ofFn fun i j =>
    have hn : 0 < n := Nat.lt_of_le_of_lt (Nat.zero_le _) i.isLt
    g.get ⟨(i.val + n - n / 2) % n, Nat.mod_lt _ hn⟩ ⟨(j.val + n - n / 2) % n, Nat.mod_lt _ hn⟩

end Grid

/-- The frequencies of a transform of `n` samples with spacing `d`: zero, the positive ones, and
then the negative ones up to the last before zero. -/
def sampleFrequencies (n : Nat) (d : α) : Vector α n :=
  let step : α := 1 / (Scalar.ofNat n * d)
  Vector.ofFn fun i =>
    if i.val ≤ (n - 1) / 2 then Scalar.ofNat i.val * step
    else (Scalar.ofNat i.val - Scalar.ofNat n) * step

end Seeing
