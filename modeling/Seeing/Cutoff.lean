import Seeing.Scalar

/-!
# Cutoffs

A comparison looks at four cutoffs of the turbulence, in units of the inverse Fried parameter, in
geometric progression between two positive ends.
-/

namespace Seeing

/-- Why there are no cutoffs. -/
inductive CutoffError (α : Type) where
  /-- An end of the range is not positive. -/
  | range (first last : α)

/-- The number of cutoffs. -/
def cutoffCount : Nat := 4

variable {α : Type} [Scalar α]

/-- The cutoffs from `first` to `last`, equally spaced in their logarithms. -/
def cutoffs (first last : α) : Except (CutoffError α) (List α) :=
  if 0 < first && 0 < last then
    let start := Scalar.log10 first
    let step := (Scalar.log10 last - start) / Scalar.ofNat (cutoffCount - 1)
    .ok ((List.range cutoffCount).map fun k => Scalar.pow 10 (start + Scalar.ofNat k * step))
  else .error (.range first last)

end Seeing
