import Seeing.Random
import Seeing.Transform

/-!
# Phase screens

A phase screen is a square sheet of phase that repeats at its edges and moves with the wind. It is
the real part of an inverse transform of random modes: every mode gets a normal deviate for each of
its parts, scaled by the spectrum of the turbulence. The modes below a cutoff and the mean are left
out, but their deviates are drawn all the same, so that the cutoff only decides which modes of one
realisation are kept.

`PhaseScreen.ofDeviates` is the screen as a function of the deviates, `PhaseScreen.draw` takes them
from a source.
-/

namespace Seeing

variable {α : Type} [Scalar α]

/-- The power spectrum of the phase at 500 nm, at a frequency in cycles per metre, for the Fried
parameter `r0` and the outer scale in metres. -/
def phaseSpectrum (frequency r0 outerScale : α) : α :=
  0.023 * Scalar.pow r0 (-(5 / 3)) *
    Scalar.pow (frequency * frequency + 1 / (outerScale * outerScale)) (-(11 / 6))

/-- A periodic sheet of phase carried by the wind. -/
structure PhaseScreen (α : Type) where
  /-- The number of pixels along a side. -/
  side : Nat
  /-- The size of a pixel in metres. -/
  scale : α
  /-- The velocity of the sheet in metres per second. -/
  velocity : α × α
  /-- The phase at the pixels in radians at 500 nm. -/
  phases : Grid side side α
  /-- There is at least one pixel. -/
  side_pos : 0 < side

namespace PhaseScreen

/-- What the statistics of a screen depend on. -/
structure Statistics (α : Type) where
  /-- The size of a pixel in metres. -/
  scale : α
  /-- The Fried parameter at 500 nm in metres. -/
  r0 : α
  /-- The outer scale in metres. -/
  outerScale : α
  /-- The wavenumber in radians per metre below which modes are left out. -/
  cutoff : α

/-- The root mean square of each part of the mode with the given frequency, zero for the modes that
are left out. -/
def Statistics.modeSize (s : Statistics α) (side : Nat) (frequency : α) : α :=
  if frequency == 0 || 2 * Scalar.pi * frequency < s.cutoff then 0
  else
    Scalar.sqrt (phaseSpectrum frequency s.r0 s.outerScale) *
      Scalar.recip (Scalar.ofNat side * s.scale)

/-- The modes of a screen from the deviates of their parts. -/
def modes (s : Statistics α) {side : Nat} (deviates : Grid side side (Amplitude α)) :
    Grid side side (Amplitude α) :=
  let frequencies := sampleFrequencies side s.scale
  .ofFn fun i j =>
    let frequency := Scalar.hypot (frequencies.get i) (frequencies.get j)
    (deviates.get i j).scale (s.modeSize side frequency)

/-- The screen made from the deviates of its modes. -/
def ofDeviates (s : Statistics α) (velocity : α × α) {side : Nat} (side_pos : 0 < side)
    (deviates : Grid side side (Amplitude α)) : PhaseScreen α where
  side := side
  scale := s.scale
  velocity := velocity
  phases := ((modes s deviates).transform .inverse).map (·.re)
  side_pos := side_pos

variable [RandomSource α]

/-- A deviate for the real part of a mode and one for its imaginary part. -/
def drawDeviate : StateM (RandomSource.State α) (Amplitude α) := do
  let re ← RandomSource.normal
  let im ← RandomSource.normal
  pure ⟨re, im⟩

/-- The deviates of all modes, row after row. -/
def drawDeviates (side : Nat) :
    StateM (RandomSource.State α) (Grid side side (Amplitude α)) := fun s =>
  let drawn := drawMany (side * side) (drawDeviate (α := α)) s
  (⟨⟨drawn.1, size_drawMany _ _ s⟩⟩, drawn.2)

/-- A random screen. -/
def draw (s : Statistics α) (velocity : α × α) (side : Nat) (side_pos : 0 < side) :
    StateM (RandomSource.State α) (PhaseScreen α) := do
  let deviates ← drawDeviates side
  pure (ofDeviates s velocity side_pos deviates)

omit [RandomSource α]

/-- The side length of the screen in metres. -/
def size (p : PhaseScreen α) : α := Scalar.ofNat p.side * p.scale

/-- The phase at the pixel `(i, j)`, counted around the edges. -/
def pixel (p : PhaseScreen α) (i j : Nat) : α :=
  p.phases.get ⟨i % p.side, Nat.mod_lt _ p.side_pos⟩ ⟨j % p.side, Nat.mod_lt _ p.side_pos⟩

/-- The phase at the point `(x, y)` in metres and the time `t` in seconds, between pixels by
bilinear interpolation. -/
def phase (p : PhaseScreen α) (x y t : α) : α :=
  let u := Scalar.wrap ((x - p.velocity.1 * t) / p.scale) p.side
  let v := Scalar.wrap ((y - p.velocity.2 * t) / p.scale) p.side
  let i := Scalar.toNat (Scalar.floor u) % p.side
  let j := Scalar.toNat (Scalar.floor v) % p.side
  let du := u - Scalar.floor u
  let dv := v - Scalar.floor v
  (1 - du) * (1 - dv) * p.pixel i j + du * (1 - dv) * p.pixel (i + 1) j +
    (1 - du) * dv * p.pixel i (j + 1) + du * dv * p.pixel (i + 1) (j + 1)

end PhaseScreen

end Seeing
