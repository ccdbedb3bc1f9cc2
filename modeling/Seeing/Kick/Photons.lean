import Seeing.Kick
import Seeing.Log
import Seeing.Random
import Seeing.Storage

/-!
# Shooting photons

An image is rendered by photons. Each is sent to a cell of the focal grid, chosen by the cumulative
flux of the cells, and within the cell to any place. It takes three uniform deviates: the cell, the
abscissa and the ordinate.
-/

namespace Seeing

variable {α : Type} [Scalar α]

/-- The cumulative sums of some values. -/
def cumulative (values : Array α) : Array α :=
  (values.foldl (fun (sums, total) x =>
    let total := total + x
    (sums.push total, total)) (Array.emptyWithCapacity values.size, (0 : α))).1

/-- A focal grid from which cells are chosen. -/
structure FocalCells (α : Type) where
  /-- The number of cells along a side. -/
  side : Nat
  /-- The size of a cell in seconds of arc. -/
  scale : α
  /-- The cumulative flux of the cells, row after row. -/
  cumulated : Array α

namespace FocalCells

/-- The flux of all cells. -/
def total (f : FocalCells α) : α := (f.cumulated.back?).getD 0

/-- The cell that holds a share of the flux, counted row after row. -/
def cellAt (f : FocalCells α) (share : α) : Nat :=
  let k := partitionPoint f.cumulated.size fun i => f.cumulated[i]?.any (· ≤ share)
  Nat.min k (f.side * f.side - 1)

/-- The coordinate of a place in the cell number `i` along an axis, in seconds of arc from the
centre. -/
def coordinate (f : FocalCells α) (i : Nat) (place : α) : α :=
  (Scalar.ofNat i - Scalar.ofNat (f.side / 2) + place - Scalar.half) * f.scale

/-- Where the photon of three uniform deviates lands. -/
def landing (f : FocalCells α) (u v w : α) : α × α :=
  let cell := f.cellAt (u * f.total)
  (f.coordinate (cell % f.side) v, f.coordinate (cell / f.side) w)

end FocalCells

/-- An image under photons, with the number of those that missed it. -/
structure Exposed (α : Type) where
  /-- The image. -/
  image : Image α
  /-- The number of photons that missed it. -/
  lost : Nat

/-- The image after one more photon. -/
def Exposed.add (e : Exposed α) (flux x y : α) : Exposed α :=
  match e with
  | ⟨image, lost⟩ =>
    match image.pixelAt? x y with
    | some (i, j) => ⟨image.addTo i j flux, lost⟩
    | none => ⟨image, lost + 1⟩

namespace Kick

/-- There can be the arrays of a second kick: the light in the square of the pupil, and the pixels
of the image. -/
def Storable {α : Type} (k : Kick α) : Prop :=
  Storage.HoldsSquare k.pupil.side Storage.amplitudeBytes ∧
    Storage.HoldsSquare k.imageSide Storage.realBytes

instance {α : Type} (k : Kick α) : Decidable k.Storable := inferInstanceAs (Decidable (_ ∧ _))

/-- The focal cells of an image on the focal grid of the pupil. -/
def focalCells (k : Kick α) (values : Array α) : FocalCells α :=
  ⟨k.pupil.side, k.pupil.focalScale k.wavelength, cumulative values⟩

variable [RandomSource α]

/-- Draws where a photon lands. -/
def drawLanding (f : FocalCells α) : StateM (RandomSource.State α) (α × α) := do
  let u ← RandomSource.uniform
  let v ← RandomSource.uniform
  let w ← RandomSource.uniform
  pure (f.landing u v w)

/-- An image after a number of photons of equal flux. -/
def expose (f : FocalCells α) (flux : α) (count : Nat) (start : Exposed α) :
    StateM (RandomSource.State α) (Exposed α) := fun s =>
  Nat.fold count (fun _ _ (e, s) =>
    let ((x, y), s) := drawLanding f s
    (e.add flux x y, s)) (start, s)

/-- The image of the given values on the focal grid, rendered by photons. -/
def shoot (k : Kick α) (values : Array α) :
    StateM (RandomSource.State α) (Except (Error α) (Exposed α)) := do
  match Image.blank k.imageSide k.imageSide k.imageScale with
  | .error e => pure (.error (.image e))
  | .ok image =>
    let flux := Scalar.recip (Scalar.ofNat k.photonCount)
    let exposed ← expose (k.focalCells values) flux k.photonCount ⟨image, 0⟩
    pure (.ok exposed)

omit [RandomSource α] in
/-- What the log tells about the photons that missed an image. -/
def lossRecord (k : Kick α) (e : Exposed α) : Record α := .lost e.lost k.photonCount

/-- The image of a cutoff, with the photons of the seed. -/
def image (k : Kick α) (cutoff : α) : Except (Failure (Error α)) (Exposed α) :=
  if k.Storable then
    Failure.ofExcept (k.shoot (k.focalImage cutoff).toArray (RandomSource.ofSeed k.seed)).1
  else .error .crash

/-- Draws the image of a cutoff. -/
def draw {m : Type → Type} [Monad m] [MonadLog α m] (k : Kick α) (cutoff : α) :
    ExceptT (Failure (Error α)) m (Image α) := do
  MonadLog.record (m := m) (.kick cutoff)
  let exposed ← ExceptT.mk (pure (k.image cutoff))
  MonadLog.record (m := m) (k.lossRecord exposed)
  pure exposed.image

end Kick

end Seeing
