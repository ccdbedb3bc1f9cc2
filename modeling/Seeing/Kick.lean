import Seeing.Error
import Seeing.Kick.Structure
import Seeing.Transform

/-!
# The second kick

The image of a point through the turbulence above a cutoff, without drawing any turbulence. The
transfer function of the pupil is its autocorrelation. Turbulence attenuates it by `exp (-D/2)` at
every lag, where `D` is the structure function above the cutoff, and a transform of the product
gives the image on the focal grid of the pupil.
-/

namespace Seeing

/-- The image of a point by the second kick. -/
structure Kick (α : Type) where
  /-- The Fried parameter at 500 nm in metres. -/
  r0At500 : α
  /-- The wavelength in nanometres. -/
  wavelength : α
  /-- The number of photons of an image. -/
  photonCount : Nat
  /-- The number of pixels along a side of an image. -/
  imageSide : Nat
  /-- The size of a pixel of an image in seconds of arc. -/
  imageScale : α
  /-- The seed of the photons. -/
  seed : UInt64
  /-- The pupil. -/
  pupil : Pupil α

/-- The choice of a second kick. -/
structure KickSettings (α : Type) [Scalar α] where
  /-- The Fried parameter at 500 nm in metres. -/
  r0 : α := 0.15
  /-- The pupil, except for its field, which is that of the image. -/
  pupil : PupilSettings α := {}
  /-- The number of photons of an image. -/
  photonCount : Nat := 3000000
  /-- The number of pixels along a side of an image. -/
  imageSide : Nat := 64
  /-- The size of a pixel of an image in seconds of arc. -/
  imageScale : α := 0.04
  /-- The seed of the photons. -/
  seed : UInt64 := 3

variable {α : Type} [Scalar α]

/-- The pupil settings of an image: its field is the width of the image. -/
def PupilSettings.forImage (s : PupilSettings α) (side : Nat) (scale : α) : PupilSettings α :=
  { s with field := Scalar.ofNat side * scale }

/-- The second kick of the settings. -/
def KickSettings.build (s : KickSettings α) : Except (Error α) (Kick α) := do
  if !(0 < s.r0) then throw (.notPositive .r0 s.r0)
  if s.photonCount = 0 then throw (.notPositive .photonCount 0)
  let _ ← (Image.blank s.imageSide s.imageSide s.imageScale).mapError Error.image
  let pupil ← (s.pupil.forImage s.imageSide s.imageScale).build.mapError Error.pupil
  pure
    { r0At500 := s.r0
      wavelength := s.pupil.wavelength
      photonCount := s.photonCount
      imageSide := s.imageSide
      imageScale := s.imageScale
      seed := s.seed
      pupil := pupil }

namespace Kick

/-- The name of the method. -/
def name : String := "2nd kick"

/-- The Fried parameter at the wavelength of the image. -/
def r0 (k : Kick α) : α := friedAt k.r0At500 k.wavelength

/-- The distance in samples between two samples that are `i` places apart, counted around the edge
and so without sign beyond its half. -/
def lag (side i : Nat) : α :=
  if i < side / 2 then Scalar.ofNat i else Scalar.ofNat i - Scalar.ofNat side

/-- The largest distance in metres between two samples, counted around the edges. -/
def reach (k : Kick α) : α :=
  Scalar.sqrt 2 * Scalar.ofNat (k.pupil.side / 2) * k.pupil.scale

/-- The pupil as a field of light: one in the annulus and zero outside. -/
def pupilField (k : Kick α) : Grid k.pupil.side k.pupil.side (Amplitude α) :=
  k.pupil.mask.map fun inside => .ofReal (if inside then 1 else 0)

/-- The transfer function of the pupil: its autocorrelation, as the inverse transform of the squared
modulus of its transform. -/
def pupilTransfer (k : Kick α) : Grid k.pupil.side k.pupil.side (Amplitude α) :=
  ((k.pupilField.transform .forward).map fun a => .ofReal a.normSq).transform .inverse

/-- The structure function at the lags of the pupil. -/
def structureGrid (k : Kick α) (cutoff : α) : Grid k.pupil.side k.pupil.side α :=
  let table := Structure.table k.r0 cutoff k.reach
  let interval := k.reach / Scalar.ofNat Structure.tableIntervals
  let lags : Vector α k.pupil.side := Vector.ofFn fun i => lag k.pupil.side i * k.pupil.scale
  .ofFn fun i j => Structure.lookUp table (Scalar.hypot lags[i] lags[j] / interval)

/-- The transfer function attenuated by the turbulence above the cutoff. -/
def transfer (k : Kick α) (cutoff : α) : Grid k.pupil.side k.pupil.side (Amplitude α) :=
  let telescope := k.pupilTransfer
  let meanSquare := k.structureGrid cutoff
  .ofFn fun i j => (telescope.get i j).scale (Scalar.exp (-Scalar.half * meanSquare.get i j))

/-- The image on the focal grid of the pupil before it is normalised, with its centre at the first
cell. What rounding or the table makes negative is zero. -/
def rawImage (k : Kick α) (cutoff : α) : Grid k.pupil.side k.pupil.side α :=
  ((k.transfer cutoff).transform .forward).map fun a => Scalar.larger a.re 0

/-- The image on the focal grid of the pupil, with its centre in the middle and a flux of one. -/
def focalImage (k : Kick α) (cutoff : α) : Grid k.pupil.side k.pupil.side α :=
  let raw := k.rawImage cutoff
  let total := Scalar.sumArray raw.toArray
  raw.recentre.map (· / total)

end Kick

end Seeing
