import Seeing.Failure
import Seeing.Random
import Seeing.Turbulence.Reference

/-!
# Turbulence profiles

A turbulence profile lists the layers of the atmosphere: their altitudes, their fractions of the
turbulence and their winds. `TurbulenceProfile.ofReference` samples a reference profile at equally
spaced altitudes from the ground up, and `randomWind` blows a random wind over the layers.

The four lists and the count of layers are separate fields, because a profile may be read from a
file: `TurbulenceProfile.check` finds the list that does not match the count.
-/

namespace Seeing

/-- The Fried parameter at a wavelength in nanometres, from its value at 500 nm. -/
def friedAt {α : Type} [Scalar α] (r0 wavelength : α) : α :=
  r0 * Scalar.pow (wavelength / 500) 1.2

/-- The Fried parameter of a layer that holds the fraction `weight` of the turbulence. -/
def layerFried {α : Type} [Scalar α] (r0 weight : α) : α := r0 * Scalar.pow weight (-0.6)

/-- A layer of turbulence carried by the wind. -/
structure Layer (α : Type) where
  /-- The altitude in kilometres. -/
  altitude : α
  /-- The fraction of the turbulence. -/
  weight : α
  /-- The wind speed in metres per second. -/
  windSpeed : α
  /-- The wind direction in radians. -/
  windDirection : α
  /-- The Fried parameter of the layer at 500 nm in metres. -/
  r0 : α
  deriving Repr

/-- The components of the wind in metres per second. -/
def Layer.velocity {α : Type} [Scalar α] (l : Layer α) : α × α :=
  (l.windSpeed * Scalar.cos l.windDirection, l.windSpeed * Scalar.sin l.windDirection)

/-- The layers of an atmosphere. -/
structure TurbulenceProfile (α : Type) where
  /-- The number of layers. -/
  layerCount : Nat
  /-- The altitudes in kilometres. -/
  altitude : List α
  /-- The fractions of the turbulence. -/
  weight : List α
  /-- The wind speeds in metres per second. -/
  windSpeed : List α
  /-- The wind directions in radians. -/
  windDirection : List α
  deriving BEq, Repr

/-- The lists of a turbulence profile. -/
inductive LayerQuantity where
  | altitude
  | weight
  | windSpeed
  | windDirection
  deriving DecidableEq, Repr

/-- The plural under which messages speak of the quantity. -/
def LayerQuantity.plural : LayerQuantity → String
  | .altitude => "altitudes"
  | .weight => "weights"
  | .windSpeed => "wind speeds"
  | .windDirection => "wind directions"

/-- What is wrong with a turbulence profile. -/
inductive ProfileFault where
  /-- The reference profile it is sampled from is not valid. -/
  | reference (fault : ReferenceFault)
  /-- Fewer than two layers cannot be spaced. -/
  | layerCount (count : Nat)
  /-- A list does not have one value for each layer. -/
  | length (count found : Nat) (what : LayerQuantity)
  deriving DecidableEq, Repr

namespace TurbulenceProfile

variable {α : Type} [Scalar α]

/-- The `count` equally spaced altitudes from the ground up to `top`. -/
def spacedAltitudes (top : α) (count : Nat) : List α :=
  (List.range count).map fun i => top * Scalar.ofNat i / Scalar.ofNat (count - 1)

/-- The profile without wind whose fractions are proportional to the given strengths. -/
def normalized (altitude strength : List α) : TurbulenceProfile α :=
  let total := Scalar.sumList strength
  { layerCount := altitude.length
    altitude := altitude
    weight := strength.map (· / total)
    windSpeed := List.replicate altitude.length 0
    windDirection := List.replicate altitude.length 0 }

/-- The altitudes and strengths of `count` layers from the ground to the top of a reference
profile. -/
def sample? (reference : ReferenceProfile α) (count : Nat) : Option (List α × List α) := do
  let top ← reference.maxAltitude?
  let altitude := spacedAltitudes top count
  let strength ← altitude.mapM reference.interpolate?
  some (altitude, strength)

/-- The profile of `count` layers from the ground to the top of a reference profile. -/
def ofReference (reference : ReferenceProfile α) (count : Nat) :
    Except (Failure ProfileFault) (TurbulenceProfile α) := do
  match reference.check with
  | .error fault => .error (.error (.reference fault))
  | .ok () =>
    if count < 2 then .error (.error (.layerCount count))
    else
      let (altitude, strength) ← Failure.ofOption (sample? reference count)
      if 0 < Scalar.sumList strength then .ok (normalized altitude strength)
      else .error (.error (.reference .weights))

/-- The profile over Cerro Pachon, with as many layers as its table has altitudes. -/
def cerroPachon : TurbulenceProfile α :=
  let reference : ReferenceProfile α := .cerroPachon
  let (altitude, strength) :=
    (sample? reference reference.altitude.length).getD (reference.altitude, reference.weight)
  normalized altitude strength

/-- The wind of one layer: a speed below `maxSpeed`, and then any direction. -/
def drawWind [RandomSource α] (maxSpeed : α) : StateM (RandomSource.State α) (α × α) := do
  let speed ← RandomSource.uniform
  let turn ← RandomSource.uniform
  pure (speed * maxSpeed, turn * 2 * Scalar.pi)

/-- The profile with a random wind for each layer in turn. -/
def randomWind [RandomSource α] (maxSpeed : α) (p : TurbulenceProfile α) :
    StateM (RandomSource.State α) (TurbulenceProfile α) := do
  let winds ← drawMany p.layerCount (drawWind maxSpeed)
  pure { p with
    windSpeed := winds.toList.map (·.1)
    windDirection := winds.toList.map (·.2) }

/-- Accepts the profiles whose lists have one value for each layer. -/
def check (p : TurbulenceProfile α) : Except ProfileFault Unit :=
  let lengths : List (Nat × LayerQuantity) :=
    [(p.altitude.length, .altitude), (p.weight.length, .weight),
      (p.windSpeed.length, .windSpeed), (p.windDirection.length, .windDirection)]
  match lengths.find? (·.1 != p.layerCount) with
  | some (found, what) => .error (.length p.layerCount found what)
  | none => .ok ()

/-- The layers, when the Fried parameter of the whole atmosphere is `r0`. The turbulence of every
layer is multiplied by `strength`. -/
def layers (p : TurbulenceProfile α) (r0 strength : α) : List (Layer α) :=
  let fudge := Scalar.pow strength (-0.6)
  (p.altitude.zip p.weight).zipWith (fun (altitude, weight) (windSpeed, windDirection) =>
      { altitude, weight, windSpeed, windDirection, r0 := layerFried r0 weight * fudge })
    (p.windSpeed.zip p.windDirection)

end TurbulenceProfile

end Seeing
