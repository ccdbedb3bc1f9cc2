import Seeing.Atmosphere.Session
import Seeing.Comparison

/-!
# Comparisons in use

The two methods of a comparison are kept and asked for one image after the other. Each of them could
be changed by what it is asked. A long exposure draws its screens in a copy of its atmosphere, and a
second kick starts its photons from its seed.
-/

namespace Seeing

/-- An image that is asked for. -/
inductive Request (α : Type) where
  /-- A long exposure at a cutoff. -/
  | exposure (cutoff : α)
  /-- A second kick at a cutoff. -/
  | kick (cutoff : α)

variable {α : Type} [Scalar α] [RandomSource α] {m : Type → Type} [Monad m] [MonadLog α m]

/-- Actions that may fail, and that may change what is kept. -/
abbrev Keeping (α σ : Type) (m : Type → Type) (β : Type) :=
  ExceptT (Failure (Error α)) (StateT σ m) β

/-- Draws the image of a cutoff with a long exposure that is kept. -/
def Exposure.drawKept (cutoff : α) : Keeping α (Exposure α) m (Image α) := do
  let e ← get
  MonadLog.record (m := m) (e.atmosphere.screenRecord (cutoff / e.r0))
  let (returned, copy) := (Atmosphere.instantiate (cutoff / e.r0)).run e.atmosphere
  match returned with
  | none => throw .crash
  | some () =>
    MonadLog.record (m := m) (.exposure e.stepCount e.timeStep)
    ExceptT.mk (pure (e.develop copy))

/-- Draws the image of a cutoff with a second kick that is kept. -/
def Kick.drawKept (cutoff : α) : Keeping α (Kick α) m (Image α) := do
  let k ← get
  MonadLog.record (m := m) (.kick cutoff)
  let exposed ← ExceptT.mk (pure (k.image cutoff))
  MonadLog.record (m := m) (k.lossRecord exposed)
  pure exposed.image

namespace Comparison

/-- Draws an image with one of the methods of a comparison that is kept. -/
def serve : Request α → Keeping α (Comparison α) m (Image α)
  | .exposure cutoff => ExceptT.mk do
    let c ← get
    let (drawn, exposure) ← (Exposure.drawKept (m := m) cutoff).run.run c.exposure
    set { c with exposure := exposure }
    pure drawn
  | .kick cutoff => ExceptT.mk do
    let c ← get
    let (drawn, kick) ← (Kick.drawKept (m := m) cutoff).run.run c.kick
    set { c with kick := kick }
    pure drawn

/-- Draws some images, one after the other. A request that fails does not end the session. -/
def serveAll (requests : List (Request α)) :
    StateT (Comparison α) m (List (Except (Failure (Error α)) (Image α))) :=
  requests.mapM fun request => (serve request).run

/-- Draws and measures the images of the cutoffs of a comparison that is kept. -/
def sweepKept : Keeping α (Comparison α) m (List (SweepPoint α)) := do
  let c ← get
  sweep (fun cutoff => serve (.exposure cutoff)) (fun cutoff => serve (.kick cutoff))
    (fun image => ExceptT.lift (c.moments.size image)) c.cutoffs

end Comparison

end Seeing
