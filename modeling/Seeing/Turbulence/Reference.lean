import Seeing.PartitionPoint
import Seeing.Scalar

/-!
# Reference profiles

A reference profile tabulates the relative strength of the turbulence over the altitude. Between its
altitudes the strength is linear, and beyond them it stays at the value of the nearest end.
-/

namespace Seeing

/-- The relative strength of the turbulence at given altitudes. -/
structure ReferenceProfile (α : Type) where
  /-- The altitudes in kilometres. -/
  altitude : List α
  /-- The strength at each altitude. -/
  weight : List α
  deriving Repr

/-- What is wrong with a reference profile. -/
inductive ReferenceFault where
  /-- The altitudes are missing, out of order, or not as many as the weights. -/
  | altitudes
  /-- A weight is negative or not finite, or no layer would have any. -/
  | weights
  deriving DecidableEq, Repr

namespace ReferenceProfile

variable {α : Type} [Scalar α]

/-- The profile measured on Cerro Pachon. -/
def cerroPachon : ReferenceProfile α where
  altitude := [0.0, 2.58, 5.16, 7.73, 12.89, 15.46]
  weight := [0.652, 0.172, 0.055, 0.025, 0.074, 0.022]

/-- Whether a value is followed by a smaller one. Values that compare with nothing pass. -/
def descends : List α → Bool
  | a :: b :: rest => b < a || descends (b :: rest)
  | _ => false

/-- Accepts the profiles with as many weights as altitudes, altitudes in order, and weights that are
finite and not negative. -/
def check (p : ReferenceProfile α) : Except ReferenceFault Unit :=
  if p.altitude.isEmpty || p.altitude.length != p.weight.length || descends p.altitude then
    .error .altitudes
  else if p.weight.any fun w => !(Scalar.isFinite w && 0 ≤ w) then .error .weights
  else .ok ()

/-- The highest altitude of the profile, if one of its altitudes is a number. -/
def maxAltitude? (p : ReferenceProfile α) : Option α :=
  p.altitude.foldl (fun highest h =>
    match highest with
    | some highest => some (Scalar.larger highest h)
    | none => if h ≤ h then some h else none) none

/-- The strength at an altitude. There is none when the table has no altitudes around it or lacks a
weight. -/
def interpolate? (p : ReferenceProfile α) (h : α) : Option α := do
  let first ← p.altitude.head?
  if h ≤ first then p.weight.head?
  else
    let last ← p.altitude.getLast?
    if last ≤ h then p.weight[p.altitude.length - 1]?
    else
      let k := partitionPoint p.altitude.length fun i => p.altitude[i]?.any (· ≤ h)
      if k = 0 then none
      else
        let h₀ ← p.altitude[k - 1]?
        let h₁ ← p.altitude[k]?
        let w₀ ← p.weight[k - 1]?
        let w₁ ← p.weight[k]?
        if h₁ == h₀ then some w₀
        else some (w₀ + (w₁ - w₀) * (h - h₀) / (h₁ - h₀))

end ReferenceProfile

end Seeing
