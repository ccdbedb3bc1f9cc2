import Seeing.Atmosphere
import Seeing.Error
import Seeing.Log

/-!
# Settings of an atmosphere

The choice of an atmosphere, the checks that it has to pass, and the atmosphere it gives.
-/

namespace Seeing

/-- The choice of an atmosphere. -/
structure AtmosphereSettings (α : Type) [Scalar α] where
  /-- The Fried parameter at 500 nm in metres. -/
  r0 : α := 0.15
  /-- The factor that multiplies the turbulence of every layer. -/
  strength : α := 1
  /-- The outer scale in metres. -/
  outerScale : α := 25
  /-- The layers. -/
  turbulence : TurbulenceProfile α := .cerroPachon
  /-- The side length of the screens in metres. -/
  screenSize : α := 102.4
  /-- The size of a pixel of the screens in metres. -/
  screenScale : α := 0.0125
  /-- The seed of the screens. -/
  seed : UInt64 := 2
  deriving BEq

namespace AtmosphereSettings

variable {α : Type} [Scalar α]

/-- The settings that have to be positive, in the order in which they are looked at. -/
def positives (s : AtmosphereSettings α) : List (Quantity × α) :=
  [(.r0, s.r0), (.strength, s.strength), (.outerScale, s.outerScale)]

/-- The layers of the settings. -/
def layers (s : AtmosphereSettings α) : List (Layer α) := s.turbulence.layers s.r0 s.strength

/-- The atmosphere of the settings, without screens. -/
def build (s : AtmosphereSettings α) : Except (Error α) (Atmosphere α) :=
  match s.turbulence.check with
  | .error fault => .error (.atmosphere (.profile fault))
  | .ok () =>
    match s.positives.find? fun (_, value) => !(0 < value) with
    | some (what, value) => .error (.notPositive what value)
    | none =>
      if 0 < s.screenScale && 2 * s.screenScale ≤ s.screenSize then
        .ok
          { outerScale := s.outerScale
            screenSize := s.screenSize
            screenScale := s.screenScale
            seed := s.seed
            layers := s.layers
            screens := [] }
      else .error (.atmosphere (.sampling s.screenSize s.screenScale))

/-- What the log tells about the atmosphere built from the settings. The Fried parameters of the
layers are those before the turbulence is multiplied. -/
def records (s : AtmosphereSettings α) (a : Atmosphere α) : List (Record α) :=
  (a.layers.map fun l =>
    .layer l.altitude l.velocity.1 l.velocity.2 (layerFried s.r0 l.weight)) ++ [.atmosphere a.r0]

end AtmosphereSettings

/-- What the log tells before the screens of an atmosphere are drawn. -/
def Atmosphere.screenRecord {α : Type} [Scalar α] (a : Atmosphere α) (cutoff : α) : Record α :=
  .screens a.layers.length a.screenSide cutoff

end Seeing
