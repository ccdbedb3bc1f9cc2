import Seeing.Comparison.Sweep
import Seeing.Exposure
import Seeing.Figure
import Seeing.Kick.Photons

/-!
# Comparisons

A comparison sets up a long exposure and a second kick under the same conditions, draws their images
over a range of cutoffs, and shows them in a figure. Its seed gives rise to three streams: the seed
itself for the winds, the next for the screens, and the one after that for the photons.
-/

namespace Seeing

/-- The choice of a comparison. -/
structure ComparisonSettings (α : Type) [Scalar α] where
  /-- The seed. -/
  seed : UInt64 := 1
  /-- The Fried parameter at 500 nm in metres. -/
  r0 : α := 0.15
  /-- The factor that multiplies the turbulence of every layer. -/
  strength : α := 1
  /-- The outer scale in metres. -/
  outerScale : α := 25
  /-- The number of layers. -/
  layerCount : Nat := 6
  /-- The reference profile that the layers are sampled from. -/
  reference : ReferenceProfile α := .cerroPachon
  /-- The length of a time step in seconds. -/
  timeStep : α := 0.025
  /-- The exposure time in seconds. -/
  exposureTime : α := 30
  /-- The side length of the screens in metres. -/
  screenSize : α := 102.4
  /-- The size of a pixel of the screens in metres. -/
  screenScale : α := 0.0125
  /-- The speed that winds stay below, in metres per second. -/
  maxSpeed : α := 20
  /-- The first cutoff. -/
  firstCutoff : α := 0.05
  /-- The last cutoff. -/
  lastCutoff : α := 0.5
  /-- The number of photons of a second kick. -/
  photonCount : Nat := 3000000
  /-- The wavelength in nanometres. -/
  wavelength : α := 700
  /-- The outer diameter of the pupil in metres. -/
  diameter : α := 8.36
  /-- The inner diameter as a fraction of the outer one. -/
  obscuration : α := 0.61
  /-- The number of pixels along a side of an image. -/
  imageSide : Nat := 64
  /-- The size of a pixel of an image in seconds of arc. -/
  imageScale : α := 0.04
  /-- The factor by which the field is extended beyond that of the image. -/
  padding : α := 1
  /-- The factor by which the resolution is finer than needed. -/
  oversampling : α := 1
  /-- The path of the figure. -/
  figurePath : String := "output/secondKick.png"

/-- A comparison of a long exposure and a second kick. -/
structure Comparison (α : Type) [Scalar α] where
  /-- The atmosphere, with the winds that were drawn. -/
  atmosphere : AtmosphereSettings α
  /-- The long exposure. -/
  exposure : Exposure α
  /-- The second kick. -/
  kick : Kick α
  /-- The cutoffs. -/
  cutoffs : List α
  /-- How the sizes of the images are measured. -/
  moments : MomentsFit α
  /-- The layout of the figure. -/
  figure : Figure
  /-- The path of the figure. -/
  figurePath : String

variable {α : Type} [Scalar α]

namespace ComparisonSettings

/-- The pupil of both methods, before its field and its largest sample are set. -/
def pupil (s : ComparisonSettings α) : PupilSettings α where
  diameter := s.diameter
  obscuration := s.obscuration
  wavelength := s.wavelength
  padding := s.padding
  oversampling := s.oversampling

/-- The atmosphere for a turbulence profile. -/
def atmosphere (s : ComparisonSettings α) (turbulence : TurbulenceProfile α) :
    AtmosphereSettings α where
  r0 := s.r0
  strength := s.strength
  outerScale := s.outerScale
  turbulence := turbulence
  screenSize := s.screenSize
  screenScale := s.screenScale
  seed := s.seed + 1

/-- The long exposure through an atmosphere. -/
def exposure (s : ComparisonSettings α) (atmosphere : AtmosphereSettings α) :
    ExposureSettings α where
  atmosphere := atmosphere
  pupil := s.pupil
  exposureTime := s.exposureTime
  timeStep := s.timeStep
  imageSide := s.imageSide
  imageScale := s.imageScale

/-- The second kick. -/
def kick (s : ComparisonSettings α) : KickSettings α where
  r0 := s.r0
  pupil := { s.pupil with maxScale := s.screenScale }
  photonCount := s.photonCount
  imageSide := s.imageSide
  imageScale := s.imageScale
  seed := s.seed + 2

variable [RandomSource α]

/-- The turbulence profile, with its random winds. -/
def turbulence (s : ComparisonSettings α) :
    Except (Failure (Error α)) (TurbulenceProfile α) :=
  match TurbulenceProfile.ofReference s.reference s.layerCount with
  | .ok profile => .ok (profile.randomWind s.maxSpeed (RandomSource.ofSeed s.seed)).1
  | .error failure => .error (failure.map fun fault => .atmosphere (.profile fault))

/-- The comparison of the settings. -/
def build (s : ComparisonSettings α) : Except (Failure (Error α)) (Comparison α) := do
  let cutoffs ←
    Failure.ofExcept ((Seeing.cutoffs s.firstCutoff s.lastCutoff).mapError Error.cutoffs)
  let turbulence ← s.turbulence
  let atmosphere := s.atmosphere turbulence
  let exposure ← Failure.ofExcept (s.exposure atmosphere).build
  let kick ← Failure.ofExcept s.kick.build
  pure
    { atmosphere := atmosphere
      exposure := exposure
      kick := kick
      cutoffs := cutoffs
      moments := {}
      figure := {}
      figurePath := s.figurePath }

omit [RandomSource α]

/-- What the log tells about the comparison built from the settings. -/
def records (s : ComparisonSettings α) (c : Comparison α) : List (Record α) :=
  (s.exposure c.atmosphere).records c.exposure ++ c.kick.records ++
    [.sampling c.exposure.pupil.side c.exposure.pupil.scale]

end ComparisonSettings

/-- Measures the size of an image. A failure is recorded. -/
def MomentsFit.size {m : Type → Type} [Monad m] [MonadLog α m] (fit : MomentsFit α)
    (image : Image α) : m (Option α) := do
  match fit.find image with
  | .ok shape => pure (some shape.size)
  | .error e =>
    MonadLog.record (.unmeasured e)
    pure none

namespace Comparison

variable {m : Type → Type} [Monad m]

/-- Draws and measures the images of the cutoffs. -/
def points [RandomSource α] [MonadLog α m] (c : Comparison α) :
    ExceptT (Failure (Error α)) m (List (SweepPoint α)) :=
  sweep (fun cutoff => c.exposure.draw (m := m) cutoff) (fun cutoff => c.kick.draw (m := m) cutoff)
    (fun image => ExceptT.lift (c.moments.size image)) c.cutoffs

/-- Draws and measures the images of the cutoffs, and saves their points. -/
def runWith [RandomSource α] [MonadLog α m]
    (save : List (SweepPoint α) → ExceptT FigureError m Unit) (c : Comparison α) :
    ExceptT (Failure (Error α)) m (List (SweepPoint α)) := do
  let points ← c.points (m := m)
  let saved ← ExceptT.lift (save points).run
  match saved with
  | .ok () => pure points
  | .error e => throw (.error (.figure e))

/-- Draws and measures the images of the cutoffs, and writes the figure. -/
def run [RandomSource Float] [MonadLog Float m] [Disk m] (c : Comparison Float) :
    ExceptT (Failure (Error Float)) m (List (SweepPoint Float)) :=
  c.runWith fun points => c.figure.save (m := m) points c.figurePath

end Comparison

/-- Writes the points of a sweep into a file. -/
def saveResults {m : Type → Type} [Monad m] [Disk m] (points : List (SweepPoint Float))
    (path : String) : ExceptT (Error Float) m Unit := do
  match ← (Disk.write path (.pickle (pickleOfPoints points)) : m (Except DiskError Unit)) with
  | .ok () => pure ()
  | .error cause => throw (.results cause path)

end Seeing
