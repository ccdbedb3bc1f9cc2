import Seeing.Grid
import Seeing.Scalar

/-!
# Pupils

The pupil of a telescope is an annulus, sampled on a square of an even number of pixels. The samples
are fine enough for the padded field of the image, and the square is wide enough for the image of a
point to be sampled at the resolution of the telescope.

The sample in column `i` of `n` lies at `(i - n/2 + 1/2) * scale`, so that the square is symmetric
about the axis of the telescope.
-/

namespace Seeing

/-- The choice of a pupil. -/
structure PupilSettings (α : Type) [Scalar α] where
  /-- The outer diameter in metres. -/
  diameter : α := 8.36
  /-- The inner diameter as a fraction of the outer one. -/
  obscuration : α := 0.61
  /-- The wavelength in nanometres. -/
  wavelength : α := 700
  /-- The factor by which the field is extended beyond that of the image. -/
  padding : α := 1
  /-- The factor by which the resolution is finer than needed. -/
  oversampling : α := 1
  /-- The largest sample in metres. -/
  maxScale : α := 0.0125
  /-- The field of the image in seconds of arc. -/
  field : α := 2.56

/-- The settings of a pupil that have to be positive. -/
inductive PupilQuantity where
  | diameter
  | wavelength
  | padding
  | oversampling
  | maxScale
  | field
  deriving DecidableEq, Repr

/-- Why there is no pupil. -/
inductive PupilError (α : Type) where
  /-- The obscuration is not a fraction below one. -/
  | obscuration (value : α)
  /-- A setting is not positive. -/
  | notPositive (what : PupilQuantity) (value : α)
  /-- No sample lies in the annulus. -/
  | empty

/-- A sampled annular pupil. -/
structure Pupil (α : Type) where
  /-- The outer diameter in metres. -/
  diameter : α
  /-- The inner diameter as a fraction of the outer one. -/
  obscuration : α
  /-- The number of samples along a side of the square. -/
  side : Nat
  /-- The size of a sample in metres. -/
  scale : α
  /-- The samples that lie in the annulus. -/
  mask : Grid side side Bool

/-- A sample in the annulus. -/
structure PupilSample (α : Type) where
  /-- Its place in the square, counted row after row. -/
  index : Nat
  /-- Its abscissa in metres. -/
  x : α
  /-- Its ordinate in metres. -/
  y : α

/-- The samples that have been found in an annulus, marked in the square and listed. -/
structure Illumination (α : Type) (side : Nat) where
  /-- The marks. -/
  mask : Grid side side Bool
  /-- The samples, in the order in which they were found. -/
  samples : Array (PupilSample α)

namespace Illumination

variable {α : Type} {side : Nat}

/-- Before a sample is found. -/
def dark (α : Type) (side : Nat) : Illumination α side := ⟨.constant side side false, #[]⟩

/-- After one more sample. -/
def add (l : Illumination α side) (s : PupilSample α) : Illumination α side :=
  ⟨l.mask.setAt s.index true, l.samples.push s⟩

end Illumination

namespace Pupil

variable {α : Type} [Scalar α]

/-- The coordinate of column or row `i` of `side`, in metres from the axis. -/
def coordinateOn (side : Nat) (scale : α) (i : Nat) : α :=
  (Scalar.ofNat i - Scalar.half * Scalar.ofNat side + Scalar.half) * scale

/-- Whether a point lies in the annulus, its edges included. -/
def annulus (diameter obscuration x y : α) : Bool :=
  let r := Scalar.hypot x y
  r ≤ Scalar.half * diameter && Scalar.half * diameter * obscuration ≤ r

/-- The even number of samples that covers `size` samples. What cannot be counted has none. -/
def evenSide (size : α) : Nat :=
  if Scalar.isCountable size then
    let n := Scalar.toNat (Scalar.ceil size)
    n + n % 2
  else 0

/-- The coordinate of column or row `i`. -/
def coordinate (p : Pupil α) (i : Nat) : α := coordinateOn p.side p.scale i

omit [Scalar α] in
/-- The number of samples in the annulus. -/
def count (p : Pupil α) : Nat := p.mask.toArray.count true

/-- The sample in column `i` and row `j`. -/
def sample (p : Pupil α) (i j : Fin p.side) : PupilSample α :=
  ⟨j.val * p.side + i.val, p.coordinate i, p.coordinate j⟩

/-- The samples in the annulus, row after row. -/
def samples (p : Pupil α) : Array (PupilSample α) :=
  Nat.fold p.side (fun j hj samples =>
    Nat.fold p.side (fun i hi (samples : Array (PupilSample α)) =>
      if p.mask.get ⟨i, hi⟩ ⟨j, hj⟩ then samples.push (p.sample ⟨i, hi⟩ ⟨j, hj⟩)
      else samples) samples) #[]

/-- The area of the samples in square metres. -/
def area (p : Pupil α) : α := Scalar.ofNat p.count * p.scale * p.scale

/-- The angle in seconds of arc between neighbouring values of the transform of the pupil. -/
def focalScale (p : Pupil α) (wavelength : α) : α :=
  Scalar.toArcsec (wavelength * 1e-9 / (Scalar.ofNat p.side * p.scale))

end Pupil

namespace PupilSettings

variable {α : Type} [Scalar α]

/-- The size of a sample: the largest one for which the transform covers twice the padded field. -/
def scale (s : PupilSettings α) : α :=
  Scalar.smaller s.maxScale
    (s.wavelength * 1e-9 / (2 * s.padding * Scalar.ofArcsec s.field))

/-- The number of samples along a side of the square, which is twice the diameter wide. -/
def side (s : PupilSettings α) : Nat :=
  Pupil.evenSide (2 * s.diameter * s.oversampling / s.scale)

/-- The settings that have to be positive, in the order in which they are looked at. -/
def positives (s : PupilSettings α) : List (PupilQuantity × α) :=
  [(.diameter, s.diameter), (.wavelength, s.wavelength), (.padding, s.padding),
    (.oversampling, s.oversampling), (.maxScale, s.maxScale), (.field, s.field)]

/-- What has been found after the cell in column `i` and row `j`, for the coordinates of the columns
and rows. -/
def visit (s : PupilSettings α) {side : Nat} (coordinates : Vector α side) (i j : Fin side)
    (l : Illumination α side) : Illumination α side :=
  if Pupil.annulus s.diameter s.obscuration (coordinates.get i) (coordinates.get j) then
    l.add ⟨j.val * side + i.val, coordinates.get i, coordinates.get j⟩
  else l

/-- The samples that lie in the annulus, looked for row after row. -/
def illumination (s : PupilSettings α) : Illumination α s.side :=
  let scale := s.scale
  let coordinates : Vector α s.side := Vector.ofFn fun i => Pupil.coordinateOn s.side scale i
  Nat.fold s.side (fun j hj l =>
    Nat.fold s.side (fun i hi l => s.visit coordinates ⟨i, hi⟩ ⟨j, hj⟩ l) l) (.dark α s.side)

/-- The pupil of the settings with the given mask. -/
def withMask (s : PupilSettings α) (mask : Grid s.side s.side Bool) : Pupil α where
  diameter := s.diameter
  obscuration := s.obscuration
  side := s.side
  scale := s.scale
  mask := mask

/-- The pupil of the settings, with the samples that lie in its annulus. -/
def sampled (s : PupilSettings α) : Pupil α := s.withMask s.illumination.mask

/-- The pupil of the settings, if they are in their ranges and there is a sample. -/
def build (s : PupilSettings α) : Except (PupilError α) (Pupil α) :=
  if !(0 ≤ s.obscuration && s.obscuration < 1) then .error (.obscuration s.obscuration)
  else
    match s.positives.find? fun (_, value) => !(0 < value) with
    | some (what, value) => .error (.notPositive what value)
    | none =>
      let found := s.illumination
      if found.samples.isEmpty then .error .empty else .ok (s.withMask found.mask)

end PupilSettings

end Seeing
