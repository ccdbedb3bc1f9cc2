import Seeing.Decimal.Text
import Seeing.Image.Moments

/-!
# The log

What the simulation tells about its progress. A record is kept as what happened; `Record.text` puts
it into words.
-/

namespace Seeing

/-- Something that happened. -/
inductive Record (α : Type) where
  /-- A layer was added: its altitude, its wind and its Fried parameter. -/
  | layer (altitude vx vy r0 : α)
  /-- An atmosphere was built, with this Fried parameter. -/
  | atmosphere (r0 : α)
  /-- Screens are going to be drawn: their number, their side and their cutoff. -/
  | screens (count side : Nat) (cutoff : α)
  /-- A pupil was built: its side, the size of a sample and the number of samples in the annulus. -/
  | pupil (side : Nat) (scale : α) (count : Nat)
  /-- A comparison was built, with pupils of this side and sample size. -/
  | sampling (side : Nat) (scale : α)
  /-- A long exposure is going to be taken: its number of steps and their length. -/
  | exposure (steps : Nat) (step : α)
  /-- An image of the second kick is going to be drawn. -/
  | kick (cutoff : α)
  /-- Photons missed the image: how many of how many. -/
  | lost (count total : Nat)
  /-- The size of an image could not be measured. -/
  | unmeasured (error : MomentsError)
  /-- A label could not be drawn. -/
  | unlabelled (text : String)

/-- The words for an image without adaptive moments. -/
def MomentsError.message : MomentsError → String
  | .notConverged iterations =>
    "adaptive moments did not converge after " ++ toString iterations ++ " iterations"
  | .noFlux => "no positive flux under the weight function"
  | .notPositiveDefinite => "the moment matrix is not positive definite"
  | .outOfBounds => "the weight function moved outside of the image"

/-- A text in double quotes, with the quotes and backslashes in it escaped. -/
def quoted (text : String) : String :=
  let body := text.toList.flatMap fun c => if c = '"' ∨ c = '\\' then ['\\', c] else [c]
  .ofList ('"' :: body ++ ['"'])

namespace Record

open FloatText in
/-- The level of a record and what it says. -/
def text : Record Float → String
  | .layer altitude vx vy r0 =>
    "INFO: Adding layer at altitude " ++ fixed 5 2 altitude ++ " km with velocity (" ++
      fixed 5 2 vx ++ ", " ++ fixed 5 2 vy ++ ") m/s, and r0_500 " ++ fixed 5 3 r0 ++ " m."
  | .atmosphere r0 => "INFO: Atmosphere r0 at 500nm: " ++ fixed 0 3 r0 ++ "m"
  | .screens count side cutoff =>
    "INFO: Inflating " ++ toString count ++ " " ++ toString side ++ "x" ++ toString side ++
      " phase screens with kmin=" ++ fixed 0 3 cutoff ++ "rd/m"
  | .pupil side scale count =>
    "INFO: Aperture: " ++ toString side ++ "x" ++ toString side ++ " pupil samples of " ++
      fixed 0 2 (scale * 100) ++ "cm, " ++ toString count ++ " illuminated"
  | .sampling side scale =>
    "INFO: PSF sampling: " ++ toString side ++ "x" ++ toString side ++ " pupil pixels of " ++
      fixed 0 4 scale ++ "m"
  | .exposure steps step =>
    "INFO: Drawing with Fourier optics: " ++ toString steps ++ " steps of " ++ plain step ++ "s"
  | .kick cutoff => "INFO: Drawing the second kick with kcrit=" ++ fixed 0 4 cutoff
  | .lost count total =>
    "DEBUG: " ++ toString count ++ " photons out of " ++ toString total ++
      " fell outside the image"
  | .unmeasured error => "WARN: adaptive moments failed: " ++ error.message
  | .unlabelled label => "WARN: cannot draw label " ++ quoted label

end Record

/-- A monad that keeps records. -/
class MonadLog (α : outParam Type) (m : Type → Type) where
  /-- Keeps a record. -/
  record : Record α → m Unit

instance (priority := low) MonadLog.lift {α : Type} {m n : Type → Type} [MonadLift m n]
    [MonadLog α m] : MonadLog α n where
  record r := liftM (MonadLog.record r : m Unit)

/-- Records kept in a state. -/
abbrev Logged (α : Type) := StateM (Array (Record α))

instance instMonadLogLogged {α : Type} : MonadLog α (Logged α) where
  record r := modify (·.push r)

end Seeing
