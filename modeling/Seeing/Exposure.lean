import Seeing.Atmosphere.Settings
import Seeing.Image.Resample
import Seeing.Kick

/-!
# Long exposures

The image of a point through an atmosphere, by Fourier optics. At every time step the light that the
phase screens let into the pupil is transformed, and the squared moduli of the transforms are added
up. The sum is normalised and brought onto the pixels of the image.
-/

namespace Seeing

/-- A long exposure through an atmosphere. -/
structure Exposure (α : Type) where
  /-- The atmosphere, without screens. -/
  atmosphere : Atmosphere α
  /-- The nominal Fried parameter at 500 nm in metres. -/
  r0At500 : α
  /-- The wavelength in nanometres. -/
  wavelength : α
  /-- The number of time steps. -/
  stepCount : Nat
  /-- The length of a time step in seconds. -/
  timeStep : α
  /-- The number of pixels along a side of the image. -/
  imageSide : Nat
  /-- The size of a pixel of the image in seconds of arc. -/
  imageScale : α
  /-- The pupil. -/
  pupil : Pupil α

/-- The choice of a long exposure. -/
structure ExposureSettings (α : Type) [Scalar α] where
  /-- The atmosphere. -/
  atmosphere : AtmosphereSettings α := {}
  /-- The pupil, except for its field and its largest sample: they are those of the image and of the
  screens. -/
  pupil : PupilSettings α := {}
  /-- The exposure time in seconds. -/
  exposureTime : α := 30
  /-- The length of a time step in seconds. -/
  timeStep : α := 0.025
  /-- The number of pixels along a side of the image. -/
  imageSide : Nat := 64
  /-- The size of a pixel of the image in seconds of arc. -/
  imageScale : α := 0.04

variable {α : Type} [Scalar α]

namespace ExposureSettings

/-- The settings that have to be positive, in the order in which they are looked at. -/
def positives (s : ExposureSettings α) : List (Quantity × α) :=
  [(.exposureTime, s.exposureTime), (.timeStep, s.timeStep)]

/-- The number of time steps, at least one. -/
def stepCount (s : ExposureSettings α) : Nat :=
  Nat.max (Scalar.toNat (Scalar.round (s.exposureTime / s.timeStep))) 1

/-- The settings of the pupil. -/
def pupilSettings (s : ExposureSettings α) : PupilSettings α :=
  { s.pupil with maxScale := s.atmosphere.screenScale }.forImage s.imageSide s.imageScale

/-- The long exposure of the settings. -/
def build (s : ExposureSettings α) : Except (Error α) (Exposure α) := do
  if let some (what, value) := s.positives.find? fun (_, value) => !(0 < value) then
    throw (.notPositive what value)
  let _ ← (Image.blank s.imageSide s.imageSide s.imageScale).mapError Error.image
  let pupil ← s.pupilSettings.build.mapError Error.pupil
  let atmosphere ← s.atmosphere.build
  pure
    { atmosphere := atmosphere
      r0At500 := s.atmosphere.r0
      wavelength := s.pupil.wavelength
      stepCount := s.stepCount
      timeStep := s.timeStep
      imageSide := s.imageSide
      imageScale := s.imageScale
      pupil := pupil }

/-- What the log tells about the exposure built from the settings. -/
def records (s : ExposureSettings α) (e : Exposure α) : List (Record α) :=
  .pupil e.pupil.side e.pupil.scale e.pupil.count :: s.atmosphere.records e.atmosphere

end ExposureSettings

/-- What the log tells about the second kick built from settings. -/
def Kick.records (k : Kick α) : List (Record α) :=
  [.pupil k.pupil.side k.pupil.scale k.pupil.count]

namespace Exposure

/-- The name of the method. -/
def name : String := "FFT"

/-- The nominal Fried parameter at the wavelength of the image. -/
def r0 (e : Exposure α) : α := friedAt e.r0At500 e.wavelength

/-- The light through the screens of an atmosphere at a sample of the pupil and a time: of modulus
one, with the phase of the screens. -/
def light (e : Exposure α) (a : Atmosphere α) (t : α) (s : PupilSample α) : Amplitude α :=
  .ofPhase (a.phase s.x s.y t e.wavelength)

/-- The storage of a long exposure. Every time step writes its light over that of the step
before. -/
structure Buffers (α : Type) (side : Nat) where
  /-- The light in the square of the pupil, and then its transform. -/
  field : Grid side side (Amplitude α)
  /-- The sum of the images so far, with their centre at the first cell and not normalised. -/
  total : Grid side side α

/-- The storage before the first time step. -/
def Buffers.blank (α : Type) [Scalar α] (side : Nat) : Buffers α side where
  field := .constant side side .zero
  total := .constant side side 0

/-- The light at the given samples at a time, and none elsewhere, in the place of `field`. -/
def illuminate (e : Exposure α) (a : Atmosphere α) (samples : Array (PupilSample α)) (t : α)
    (field : Grid e.pupil.side e.pupil.side (Amplitude α)) :
    Grid e.pupil.side e.pupil.side (Amplitude α) :=
  samples.foldl (fun field s => field.setAt s.index (e.light a t s)) (field.map fun _ => .zero)

/-- One time step: the image at a time is added to the sum. -/
def accumulate (e : Exposure α) (a : Atmosphere α) (samples : Array (PupilSample α)) (t : α)
    (b : Buffers α e.pupil.side) : Buffers α e.pupil.side :=
  let field := (e.illuminate a samples t b.field).transform .forward
  { field := field
    total := .zipWith (fun x c => x + c.normSq) b.total field }

/-- The storage after the given number of time steps. -/
def expose (e : Exposure α) (a : Atmosphere α) (count : Nat) : Buffers α e.pupil.side :=
  let samples := e.pupil.samples
  Nat.fold count (fun k _ => e.accumulate a samples (Scalar.ofNat k * e.timeStep))
    (.blank α e.pupil.side)

/-- The sum of the images at the time steps. -/
def rawImage (e : Exposure α) (a : Atmosphere α) : Grid e.pupil.side e.pupil.side α :=
  (e.expose a e.stepCount).total

/-- The image on the focal grid of the pupil, with its centre in the middle and a flux of one. -/
def focalImage (e : Exposure α) (a : Atmosphere α) : Grid e.pupil.side e.pupil.side α :=
  let raw := e.rawImage a
  let total := Scalar.sumArray raw.toArray
  raw.recentre.map (· / total)

/-- The image of the flux on the focal grid. -/
def resample (e : Exposure α) (focal : Grid e.pupil.side e.pupil.side α) :
    Except (Error α) (Image α) :=
  (Image.resample focal (e.pupil.focalScale e.wavelength) e.imageSide e.imageScale).mapError
    Error.image

/-- There can be the arrays of an exposure: the light in the square of the pupil, the list of the
screens, and the pixels of the image. -/
def Storable {α : Type} (e : Exposure α) : Prop :=
  Storage.HoldsSquare e.pupil.side Storage.amplitudeBytes ∧
    Storage.Holds e.atmosphere.layers.length Storage.screenBytes ∧
    Storage.HoldsSquare e.imageSide Storage.realBytes

instance {α : Type} (e : Exposure α) : Decidable e.Storable :=
  inferInstanceAs (Decidable (_ ∧ _ ∧ _))

/-- The image through the screens of an atmosphere. -/
def develop (e : Exposure α) (a : Atmosphere α) : Except (Failure (Error α)) (Image α) :=
  if e.Storable then Failure.ofExcept (e.resample (e.focalImage a)) else .error .crash

variable [RandomSource α]

/-- The atmosphere with screens that keep the turbulence above a cutoff, in units of the inverse
Fried parameter. -/
def instantiate? (e : Exposure α) (cutoff : α) : Option (Atmosphere α) :=
  e.atmosphere.instantiate? (cutoff / e.r0)

/-- The image of a cutoff. -/
def image (e : Exposure α) (cutoff : α) : Except (Failure (Error α)) (Image α) :=
  match e.instantiate? cutoff with
  | none => .error .crash
  | some a => e.develop a

/-- Draws the image of a cutoff. -/
def draw {m : Type → Type} [Monad m] [MonadLog α m] (e : Exposure α) (cutoff : α) :
    ExceptT (Failure (Error α)) m (Image α) := do
  MonadLog.record (m := m) (e.atmosphere.screenRecord (cutoff / e.r0))
  match e.instantiate? cutoff with
  | none => throw .crash
  | some a =>
    MonadLog.record (m := m) (.exposure e.stepCount e.timeStep)
    ExceptT.mk (pure (e.develop a))

end Exposure

end Seeing
