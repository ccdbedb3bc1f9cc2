import Seeing.Image

/-!
# Resampling a centred grid onto an image

A square grid of flux with its origin at the node `(n/2, n/2)` is brought onto the pixels of an
image. The flux is linear between the nodes in both directions and zero outside the cells between
nodes. Every pixel takes the mean of its values at four by four points, times its area in cells.
-/

namespace Seeing

namespace Image

variable {α : Type} [Scalar α]

/-- The number of points along each axis of a pixel at which the flux is read. -/
def subdivisions : Nat := 4

/-- The value of a grid at the place `(u, v)` in cells from its first node, by bilinear
interpolation. Outside the cells it is zero. -/
def interpolate {n : Nat} (grid : Grid n n α) (u v : α) : α :=
  if u < 0 ∨ v < 0 then 0
  else
    let i := Scalar.toNat (Scalar.floor u)
    let j := Scalar.toNat (Scalar.floor v)
    if h : i + 1 < n ∧ j + 1 < n then
      let du := u - Scalar.ofNat i
      let dv := v - Scalar.ofNat j
      let i₀ : Fin n := ⟨i, Nat.lt_of_succ_lt h.1⟩
      let j₀ : Fin n := ⟨j, Nat.lt_of_succ_lt h.2⟩
      let i₁ : Fin n := ⟨i + 1, h.1⟩
      let j₁ : Fin n := ⟨j + 1, h.2⟩
      (1 - du) * (1 - dv) * grid.get i₀ j₀ + du * (1 - dv) * grid.get i₁ j₀ +
        (1 - du) * dv * grid.get i₀ j₁ + du * dv * grid.get i₁ j₁
    else 0

/-- The coordinate of the point number `q` of the pixel number `i` on an axis of `count` pixels, in
seconds of arc from the centre. -/
def samplePoint (count : Nat) (scale : α) (i q : Nat) : α :=
  -Scalar.half * Scalar.ofNat count * scale + Scalar.ofNat i * scale +
    (Scalar.ofNat q + Scalar.half) * (scale / Scalar.ofNat subdivisions)

/-- The place in cells of a coordinate on a grid whose origin is the node `n/2`. -/
def gridPlace (n : Nat) (gridScale x : α) : α := x / gridScale + Scalar.ofNat (n / 2)

/-- The sum of the values at the points of one pixel. -/
def sampledSum {n : Nat} (grid : Grid n n α) (gridScale : α) (count : Nat) (scale : α)
    (i j : Nat) : α :=
  Nat.fold subdivisions (fun q _ total =>
    let y := samplePoint count scale j q
    Nat.fold subdivisions (fun p _ total =>
      let x := samplePoint count scale i p
      total + interpolate grid (gridPlace n gridScale x) (gridPlace n gridScale y)) total) 0

/-- The image of `count` by `count` pixels of a centred grid with nodes `gridScale` seconds of arc
apart. -/
def resample {n : Nat} (grid : Grid n n α) (gridScale : α) (count : Nat) (scale : α) :
    Except (ImageError α) (Image α) :=
  if !(0 < gridScale) then .error (.scale gridScale)
  else do
    let image ← blank count count scale
    let area := Scalar.square (scale / Scalar.ofNat subdivisions / gridScale)
    .ok { image with
      pixels := .ofFn fun i j => sampledSum grid gridScale count scale i j * area }

/-- The image of a centred grid given by its values, row after row. -/
def resampleArray (values : Array α) (n : Nat) (gridScale : α) (count : Nat) (scale : α) :
    Except (ImageError α) (Image α) :=
  match Grid.ofArray? n n values with
  | some grid => resample grid gridScale count scale
  | none => .error (.length (n * n) values.size)

end Image

end Seeing
