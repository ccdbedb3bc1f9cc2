import Seeing.PhaseScreen
import Seeing.Storage
import Seeing.Turbulence.Profile

/-!
# Atmospheres

An atmosphere is a stack of turbulence layers. Its phase screens, one for each layer, are drawn by
`Atmosphere.instantiate?`. Each screen has a source of its own, seeded by a word that is drawn from
the seed of the atmosphere, so a screen depends on its layer and on nothing that concerns others.
-/

namespace Seeing

/-- A stack of turbulence layers with their phase screens. -/
structure Atmosphere (α : Type) where
  /-- The outer scale of the turbulence in metres. -/
  outerScale : α
  /-- The side length of the screens in metres. -/
  screenSize : α
  /-- The size of a pixel of the screens in metres. -/
  screenScale : α
  /-- The seed that the screens are drawn from. -/
  seed : UInt64
  /-- The layers from the first to the last. -/
  layers : List (Layer α)
  /-- The screens of the layers, none until they are drawn. -/
  screens : List (PhaseScreen α)

namespace Atmosphere

variable {α : Type} [Scalar α]

/-- The Fried parameter at 500 nm of all layers together. -/
def r0 (a : Atmosphere α) : α :=
  Scalar.pow (Scalar.sumList (a.layers.map fun l => Scalar.pow l.r0 (-(5 / 3)))) (-0.6)

/-- Whether screens have been drawn. -/
def isInstantiated (a : Atmosphere α) : Bool := !a.screens.isEmpty

/-- The number of pixels along the side of a screen, as rounded from the sizes. -/
def screenSide (a : Atmosphere α) : Nat :=
  Scalar.toNat (Scalar.round (a.screenSize / a.screenScale))

/-- What the statistics of the screen of a layer depend on. -/
def statistics (a : Atmosphere α) (cutoff : α) (l : Layer α) : PhaseScreen.Statistics α where
  scale := a.screenScale
  r0 := l.r0
  outerScale := a.outerScale
  cutoff := cutoff

variable [RandomSource α]

/-- The seeds of the screens. -/
def screenSeeds (a : Atmosphere α) : List UInt64 :=
  (drawMany a.layers.length (RandomSource.word (α := α)) (RandomSource.ofSeed a.seed)).1.toList

/-- The screens of the layers, for a side of at least one pixel. -/
def drawScreens (a : Atmosphere α) (cutoff : α) (side_pos : 0 < a.screenSide) :
    List (PhaseScreen α) :=
  a.layers.zipWith (fun layer seed =>
      (PhaseScreen.draw (a.statistics cutoff layer) layer.velocity a.screenSide side_pos
        (RandomSource.ofSeed seed)).1)
    a.screenSeeds

theorem drawScreens_eq_map (a : Atmosphere α) (cutoff : α) (side_pos : 0 < a.screenSide) :
    a.drawScreens cutoff side_pos = (a.layers.zip a.screenSeeds).map fun x =>
      (PhaseScreen.draw (a.statistics cutoff x.1) x.1.velocity a.screenSide side_pos
        (RandomSource.ofSeed x.2)).1 :=
  (List.map_uncurry_zip_eq_zipWith ..).symm

/-- The atmosphere with screens that keep the wavenumbers from `cutoff` on, in radians per metre.
There is none when a layer would get a screen without pixels, or one whose modes are more than an
array can hold. -/
def instantiate? (a : Atmosphere α) (cutoff : α) : Option (Atmosphere α) :=
  if a.layers.isEmpty then some { a with screens := [] }
  else if h : 0 < a.screenSide then
    if Storage.HoldsSquare a.screenSide Storage.amplitudeBytes then
      some { a with screens := a.drawScreens cutoff h }
    else none
  else none

omit [RandomSource α]

/-- The phase in radians at a wavelength in nanometres, through all layers at the point `(x, y)` in
metres and the time `t` in seconds. -/
def phase (a : Atmosphere α) (x y t wavelength : α) : α :=
  Scalar.sumList (a.screens.map fun s => s.phase x y t) * 500 / wavelength

end Atmosphere

end Seeing
