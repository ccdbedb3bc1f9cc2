import Seeing.Cutoff
import Seeing.Disk
import Seeing.Image
import Seeing.Pupil
import Seeing.Turbulence.Profile

/-!
# Errors

The errors that building and running a simulation can report, by their causes. Their texts are in
`Seeing.Report`.
-/

namespace Seeing

/-- The settings of a simulation that have to be positive. -/
inductive Quantity where
  | r0
  | strength
  | outerScale
  | photonCount
  | exposureTime
  | timeStep
  deriving DecidableEq, Repr

/-- Why there is no atmosphere, or no reference profile to make one from. -/
inductive AtmosphereError (α : Type) where
  /-- The turbulence profile, or the reference profile it is sampled from, is not valid. -/
  | profile (fault : ProfileFault)
  /-- A screen of this size cannot have at least two pixels of this size. -/
  | sampling (size scale : α)
  /-- The file of a reference profile cannot be read. -/
  | unreadable (cause : DiskError) (path : String)
  /-- The file of a reference profile holds no reference profile. -/
  | malformed

/-- Why there is no figure. -/
inductive FigureError where
  /-- The results are not as many as the columns. -/
  | points (found : Nat)
  /-- A panel would have no pixel. -/
  | size (width height : Nat)
  /-- The directory of the figure cannot be made. -/
  | directory (cause : DiskError) (path : String)
  /-- The figure cannot be written. -/
  | drawing
  deriving DecidableEq, Repr

/-- Why the file of the settings of an atmosphere cannot be read or written. -/
inductive SettingsFileError where
  /-- The file cannot be opened. -/
  | opening (cause : DiskError) (path : String)
  /-- The file cannot be created. -/
  | creating (cause : DiskError) (path : String)
  /-- The file cannot be read. -/
  | reading (cause : DiskError) (path : String)
  /-- The file holds no settings. -/
  | malformed
  /-- The settings hold a count that is too large to be written. -/
  | tooLarge
  deriving DecidableEq, Repr

/-- Why a simulation cannot be built or run. -/
inductive Error (α : Type) where
  /-- There is no atmosphere. -/
  | atmosphere (cause : AtmosphereError α)
  /-- There is no pupil. -/
  | pupil (cause : PupilError α)
  /-- There is no image. -/
  | image (cause : ImageError α)
  /-- There are no cutoffs. -/
  | cutoffs (cause : CutoffError α)
  /-- There is no figure. -/
  | figure (cause : FigureError)
  /-- A setting is not positive. -/
  | notPositive (what : Quantity) (value : α)
  /-- The file of the results cannot be created. -/
  | results (cause : DiskError) (path : String)

end Seeing
