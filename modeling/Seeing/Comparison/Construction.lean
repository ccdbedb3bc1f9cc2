import Seeing.Comparison

/-!
# Builders that keep records

A comparison is built part by part, and a part is recorded once it is built. Where a later part
cannot be built, the records of those before it stay.
-/

namespace Seeing

variable {α : Type} [Scalar α] {m : Type → Type} [Monad m] [MonadLog α m]

/-- Builds and records a pupil. -/
def PupilSettings.construct (s : PupilSettings α) : ExceptT (Error α) m (Pupil α) := do
  let pupil ← ExceptT.mk (pure (s.build.mapError Error.pupil))
  MonadLog.record (m := m) (.pupil pupil.side pupil.scale pupil.count)
  pure pupil

/-- Builds an atmosphere and records its layers. -/
def AtmosphereSettings.construct (s : AtmosphereSettings α) :
    ExceptT (Error α) m (Atmosphere α) := do
  let atmosphere ← ExceptT.mk (pure s.build)
  ExceptT.lift (forM (s.records atmosphere) (MonadLog.record (m := m)))
  pure atmosphere

/-- Builds a long exposure and records its parts. -/
def ExposureSettings.construct (s : ExposureSettings α) : ExceptT (Error α) m (Exposure α) := do
  if let some quantity := s.positives.find? fun quantity => !(0 < quantity.2) then
    throw (.notPositive quantity.1 quantity.2)
  let _ ← ExceptT.mk
    (pure ((Image.blank s.imageSide s.imageSide s.imageScale).mapError Error.image))
  let pupil ← s.pupilSettings.construct (m := m)
  let atmosphere ← s.atmosphere.construct (m := m)
  pure
    { atmosphere := atmosphere
      r0At500 := s.atmosphere.r0
      wavelength := s.pupil.wavelength
      stepCount := s.stepCount
      timeStep := s.timeStep
      imageSide := s.imageSide
      imageScale := s.imageScale
      pupil := pupil }

/-- Builds a second kick and records its pupil. -/
def KickSettings.construct (s : KickSettings α) : ExceptT (Error α) m (Kick α) := do
  if !(0 < s.r0) then throw (.notPositive .r0 s.r0)
  if s.photonCount = 0 then throw (.notPositive .photonCount 0)
  let _ ← ExceptT.mk
    (pure ((Image.blank s.imageSide s.imageSide s.imageScale).mapError Error.image))
  let pupil ← (s.pupil.forImage s.imageSide s.imageScale).construct (m := m)
  pure
    { r0At500 := s.r0
      wavelength := s.pupil.wavelength
      photonCount := s.photonCount
      imageSide := s.imageSide
      imageScale := s.imageScale
      seed := s.seed
      pupil := pupil }

/-- Builds a comparison and records its parts. -/
def ComparisonSettings.construct [RandomSource α] (s : ComparisonSettings α) :
    ExceptT (Failure (Error α)) m (Comparison α) := do
  let cutoffs ← ExceptT.mk (pure (Failure.ofExcept
    ((Seeing.cutoffs s.firstCutoff s.lastCutoff).mapError Error.cutoffs)))
  let turbulence ← ExceptT.mk (pure s.turbulence)
  let atmosphere := s.atmosphere turbulence
  let exposure ← ExceptT.adapt Failure.error ((s.exposure atmosphere).construct (m := m))
  let kick ← ExceptT.adapt Failure.error (s.kick.construct (m := m))
  MonadLog.record (m := m) (.sampling exposure.pupil.side exposure.pupil.scale)
  pure
    { atmosphere := atmosphere
      exposure := exposure
      kick := kick
      cutoffs := cutoffs
      moments := {}
      figure := {}
      figurePath := s.figurePath }

end Seeing
