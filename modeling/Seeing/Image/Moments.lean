import Seeing.Image

/-!
# Adaptive moments

The size and shape of an image are those of the elliptical Gaussian weight that matches it. Starting
from the moments of the positive pixels, the centre and the covariance of the weight are replaced by
the weighted moments of the image, with the covariance doubled because the weight counts twice,
until they stop changing. The size is the fourth root of the determinant of the covariance.

`MomentsFit.find` runs a budget of steps; one step is `MomentsFit.step`.
-/

namespace Seeing

/-- Why an image has no adaptive moments. -/
inductive MomentsError where
  /-- The weight still changed after the last iteration. -/
  | notConverged (iterations : Nat)
  /-- There is no positive flux under the weight. -/
  | noFlux
  /-- The covariance is not positive definite. -/
  | notPositiveDefinite
  /-- The weight left the image. -/
  | outOfBounds
  deriving DecidableEq, Repr

/-- The adaptive moments of an image, in pixels. -/
structure Shape (α : Type) where
  /-- The fourth root of the determinant of the covariance. -/
  size : α
  /-- The centre of the weight. -/
  centre : α × α
  /-- The amplitude of the best fitting Gaussian. -/
  amplitude : α
  /-- The ellipticity along the axes. -/
  e1 : α
  /-- The ellipticity along the diagonals. -/
  e2 : α
  /-- The number of iterations. -/
  iterations : Nat

/-- A symmetric matrix of second moments. -/
structure Covariance (α : Type) where
  /-- The moment along the first axis. -/
  xx : α
  /-- The mixed moment. -/
  xy : α
  /-- The moment along the second axis. -/
  yy : α

namespace Covariance

variable {α : Type} [Scalar α]

/-- The determinant. -/
def det (m : Covariance α) : α := m.xx * m.yy - m.xy * m.xy

/-- The trace. -/
def trace (m : Covariance α) : α := m.xx + m.yy

/-- The inverse, unless the determinant is zero. -/
def inverse? (m : Covariance α) : Option (Covariance α) :=
  let d := m.det
  if d == 0 then none else some ⟨m.yy / d, -m.xy / d, m.xx / d⟩

/-- The value of the quadratic form of the matrix on a vector. -/
def quadratic (m : Covariance α) (dx dy : α) : α :=
  (dx * m.xx + dy * m.xy) * dx + (dx * m.xy + dy * m.yy) * dy

/-- The largest magnitude of the entries of the difference of two matrices. -/
def distance (m m' : Covariance α) : α :=
  let size (x : α) : α := if x < 0 then -x else x
  Scalar.larger (Scalar.larger (size (m.xx - m'.xx)) (size (m.xy - m'.xy))) (size (m.yy - m'.yy))

end Covariance

/-- A Gaussian weight: its centre in pixels and its covariance. -/
structure Weight (α : Type) where
  /-- The abscissa of the centre. -/
  x : α
  /-- The ordinate of the centre. -/
  y : α
  /-- The covariance. -/
  covariance : Covariance α

/-- The weighted sums of an image about the centre of the weight. -/
structure WeightedSums (α : Type) where
  /-- The flux. -/
  flux : α
  /-- The first moment along the first axis. -/
  x : α
  /-- The first moment along the second axis. -/
  y : α
  /-- The second moments. -/
  second : Covariance α

/-- How adaptive moments are fitted. -/
structure MomentsFit (α : Type) [Scalar α] where
  /-- The largest number of iterations. -/
  maxIterations : Nat := 400
  /-- The change of the weight below which it has converged. -/
  tolerance : α := 1e-6
  /-- The size of the first weight in pixels, if it is not taken from the image. -/
  guess : Option α := none

namespace MomentsFit

variable {α : Type} [Scalar α]

/-- The squared distance from the centre, in units of the weight, beyond which pixels are left
out. -/
def reach : α := 36

/-- A fold over the pixels with their column and row, row after row. -/
def foldPixels {β : Type} (image : Image α) (f : β → (i j : Nat) → α → β) (init : β) : β :=
  Nat.fold image.height (fun j hj acc =>
    Nat.fold image.width (fun i hi acc => f acc i j (image.pixels.get ⟨i, hi⟩ ⟨j, hj⟩)) acc) init

/-- The weighted sums of an image for a weight with the given centre and inverse covariance. -/
def sums (image : Image α) (x y : α) (inverse : Covariance α) : WeightedSums α :=
  foldPixels image (fun s i j value =>
    let dx := Scalar.ofNat i - x
    let dy := Scalar.ofNat j - y
    let distance := inverse.quadratic dx dy
    if reach < distance then s
    else
      let w := value * Scalar.exp (-Scalar.half * distance)
      { flux := s.flux + w
        x := s.x + dx * w
        y := s.y + dy * w
        second :=
          ⟨s.second.xx + dx * dx * w, s.second.xy + dx * dy * w, s.second.yy + dy * dy * w⟩ })
    ⟨0, 0, 0, ⟨0, 0, 0⟩⟩

/-- The flux of the positive pixels and its first moments. -/
def positiveSums (image : Image α) : α × α × α :=
  foldPixels image (fun (flux, x, y) i j value =>
    let v := Scalar.larger value 0
    (flux + v, x + Scalar.ofNat i * v, y + Scalar.ofNat j * v)) (0, 0, 0)

/-- The second moment of the positive pixels about a centre, summed over the axes. -/
def positiveSpread (image : Image α) (x y : α) : α :=
  foldPixels image (fun total i j value =>
    let v := Scalar.larger value 0
    let dx := Scalar.ofNat i - x
    let dy := Scalar.ofNat j - y
    total + (dx * dx + dy * dy) * v) 0

/-- The round weight that the fit starts from. -/
def initial (fit : MomentsFit α) (image : Image α) : Except MomentsError (Weight α) :=
  let (flux, sx, sy) := positiveSums image
  if !(0 < flux) then .error .noFlux
  else
    let x := sx / flux
    let y := sy / flux
    let size :=
      match fit.guess with
      | some size => size
      | none => Scalar.larger (Scalar.sqrt (Scalar.half * positiveSpread image x y / flux)) 1
    .ok ⟨x, y, ⟨1 * size * size, 0 * size * size, 1 * size * size⟩⟩

/-- Whether a weight has left the image. -/
def isOutside (image : Image α) (w : Weight α) : Bool :=
  let bound := Scalar.square (Scalar.ofNat (Nat.max image.width image.height))
  !Scalar.isFinite w.x || !Scalar.isFinite w.y || w.x < 0 || w.y < 0 ||
    Scalar.ofNat image.width < w.x || Scalar.ofNat image.height < w.y ||
    bound < w.covariance.trace

/-- One iteration: the next weight, and whether it has converged. -/
def step (fit : MomentsFit α) (image : Image α) (w : Weight α) :
    Except MomentsError (Weight α × Bool) :=
  match w.covariance.inverse? with
  | none => .error .notPositiveDefinite
  | some inverse =>
    let s := sums image w.x w.y inverse
    if !(0 < s.flux) then .error .noFlux
    else
      let dx := s.x / s.flux
      let dy := s.y / s.flux
      let next : Covariance α :=
        ⟨(s.second.xx / s.flux - dx * dx) * 2, (s.second.xy / s.flux - dx * dy) * 2,
          (s.second.yy / s.flux - dy * dy) * 2⟩
      if !(0 < next.xx && 0 < next.det) then .error .notPositiveDefinite
      else
        let change := next.distance w.covariance / w.covariance.trace
        let moved : Weight α := ⟨w.x + dx, w.y + dy, next⟩
        if isOutside image moved then .error .outOfBounds
        else
          let converged :=
            Scalar.sqrt (dx * dx + dy * dy) < fit.tolerance && change < fit.tolerance
          .ok (moved, converged)

/-- The moments of an image for the weight that matches it. -/
def shapeOf (image : Image α) (w : Weight α) (iterations : Nat) : Except MomentsError (Shape α) :=
  match w.covariance.inverse? with
  | none => .error .notPositiveDefinite
  | some inverse =>
    let s := sums image w.x w.y inverse
    .ok
      { size := Scalar.pow w.covariance.det 0.25
        centre := (w.x, w.y)
        amplitude := 2 * s.flux
        e1 := (w.covariance.xx - w.covariance.yy) / w.covariance.trace
        e2 := 2 * w.covariance.xy / w.covariance.trace
        iterations := iterations }

/-- The fit from a weight on, with `remaining` iterations after those `done`. -/
def iterate (fit : MomentsFit α) (image : Image α) :
    (remaining done : Nat) → Weight α → Except MomentsError (Shape α)
  | 0, done, _ => .error (.notConverged done)
  | remaining + 1, done, w =>
    match fit.step image w with
    | .error e => .error e
    | .ok (next, true) => shapeOf image next (done + 1)
    | .ok (next, false) => fit.iterate image remaining (done + 1) next

/-- The adaptive moments of an image. -/
def find (fit : MomentsFit α) (image : Image α) : Except MomentsError (Shape α) :=
  match fit.initial image with
  | .error e => .error e
  | .ok w => fit.iterate image fit.maxIterations 0 w

end MomentsFit

end Seeing
