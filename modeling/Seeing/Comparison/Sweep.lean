import Seeing.Image
import Seeing.Pickle

/-!
# Sweeps over cutoffs

A sweep draws the images of two methods at each of its cutoffs and measures their sizes. The methods
and the measurement are actions of a monad, so that they may change a state, fail, or keep records.
A measurement that gives no size is not a failure.
-/

namespace Seeing

/-- The images and sizes of two methods at one cutoff. -/
structure SweepPoint (α : Type) where
  /-- The cutoff. -/
  cutoff : α
  /-- The image of the long exposure. -/
  exposure : Image α
  /-- The image of the second kick. -/
  kick : Image α
  /-- The size of the image of the long exposure in pixels, if it has one. -/
  exposureSize : Option α
  /-- The size of the image of the second kick in pixels, if it has one. -/
  kickSize : Option α

variable {α : Type} {m : Type → Type} [Monad m]

/-- The point of a sweep at a cutoff. Both images are drawn before they are measured. -/
def sweepPoint (exposure kick : α → m (Image α)) (size : Image α → m (Option α)) (cutoff : α) :
    m (SweepPoint α) := do
  let exposureImage ← exposure cutoff
  let kickImage ← kick cutoff
  let exposureSize ← size exposureImage
  let kickSize ← size kickImage
  pure ⟨cutoff, exposureImage, kickImage, exposureSize, kickSize⟩

/-- The points of a sweep over the cutoffs, one after the other. -/
def sweep (exposure kick : α → m (Image α)) (size : Image α → m (Option α)) :
    List α → m (List (SweepPoint α))
  | [] => pure []
  | cutoff :: cutoffs => do
    let point ← sweepPoint exposure kick size cutoff
    let points ← sweep exposure kick size cutoffs
    pure (point :: points)

/-- The value of an image in a pickle. -/
def Image.pickle (image : Image Float) : Pickle :=
  .record
    [("nx", .count image.width), ("ny", .count image.height), ("scale", .float image.scale),
      ("data", .list (image.values.toList.map .float))]

/-- The value of a point in a pickle. -/
def SweepPoint.pickle (p : SweepPoint Float) : Pickle :=
  let size : Option Float → Pickle
    | some x => .float x
    | none => .none
  .record
    [("kcrit", .float p.cutoff), ("fft", p.exposure.pickle), ("second_kick", p.kick.pickle),
      ("fft_sigma", size p.exposureSize), ("second_kick_sigma", size p.kickSize)]

/-- The value of the points of a sweep in a pickle. -/
def pickleOfPoints (points : List (SweepPoint Float)) : Pickle :=
  .record [("points", .list (points.map SweepPoint.pickle))]

end Seeing
