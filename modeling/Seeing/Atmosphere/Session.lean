import Seeing.Atmosphere

/-!
# Atmospheres in use

An atmosphere is kept while it is used. Its outer scale, the sizes of its screens and its seed may
be set at any time, and its screens are drawn in place whenever they are asked for. Screens are
those of the time at which they were drawn: setting a field leaves them as they are.

A call that would need a screen without pixels, or one that no array can hold, crashes. It draws the
screens of all layers before it puts them in the place of those before.
-/

namespace Seeing

namespace Atmosphere

/-- Something that is done to an atmosphere. -/
inductive Action (α : Type) where
  /-- Its outer scale is set. -/
  | setOuterScale (outerScale : α)
  /-- The side length of its screens is set. -/
  | setScreenSize (screenSize : α)
  /-- The size of a pixel of its screens is set. -/
  | setScreenScale (screenScale : α)
  /-- The seed of its screens is set. -/
  | setSeed (seed : UInt64)
  /-- Its screens are drawn, from a cutoff on. -/
  | instantiate (cutoff : α)

/-- Actions that change an atmosphere, and give nothing when they crash. -/
abbrev Using (α β : Type) := OptionT (StateM (Atmosphere α)) β

variable {α : Type} [Scalar α] [RandomSource α]

/-- The screen of a layer. -/
def drawScreen? (a : Atmosphere α) (cutoff : α) (layer : Layer α) (seed : UInt64) :
    Option (PhaseScreen α) :=
  if side_pos : 0 < a.screenSide then
    if Storage.HoldsSquare a.screenSide Storage.amplitudeBytes then
      some (PhaseScreen.draw (a.statistics cutoff layer) layer.velocity a.screenSide side_pos
        (RandomSource.ofSeed seed)).1
    else none
  else none

/-- Draws the screens. -/
def instantiate (cutoff : α) : Using α Unit := do
  let a ← get
  let screens ← (a.layers.zip a.screenSeeds).mapM fun (layer, seed) =>
    OptionT.mk (pure (a.drawScreen? cutoff layer seed))
  set { a with screens := screens }

/-- Does something to an atmosphere. -/
def perform : Action α → Using α Unit
  | .setOuterScale outerScale => modify ({ · with outerScale := outerScale })
  | .setScreenSize screenSize => modify ({ · with screenSize := screenSize })
  | .setScreenScale screenScale => modify ({ · with screenScale := screenScale })
  | .setSeed seed => modify ({ · with seed := seed })
  | .instantiate cutoff => instantiate cutoff

end Atmosphere

end Seeing
