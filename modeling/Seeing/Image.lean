import Seeing.Grid
import Seeing.Scalar

/-!
# Images

An image is a rectangle of pixels that hold flux. Its centre is the middle of the rectangle, so the
pixel in column `i` of `width` covers the abscissae from `(i - width/2) * scale` inclusive to
`(i + 1 - width/2) * scale` exclusive, and rows likewise.
-/

namespace Seeing

/-- A rectangle of pixels. -/
structure Image (α : Type) where
  /-- The number of columns. -/
  width : Nat
  /-- The number of rows. -/
  height : Nat
  /-- The size of a pixel in seconds of arc. -/
  scale : α
  /-- The flux of the pixels. -/
  pixels : Grid width height α
  /-- There is a column. -/
  width_pos : 0 < width
  /-- There is a row. -/
  height_pos : 0 < height

/-- Why there is no image. -/
inductive ImageError (α : Type) where
  /-- The rectangle is empty. -/
  | size (width height : Nat)
  /-- The pixels have no positive size. -/
  | scale (value : α)
  /-- The values are not as many as the pixels. -/
  | length (expected found : Nat)

namespace Image

variable {α : Type} [Scalar α]

/-- The image whose pixels hold no flux. -/
def blank (width height : Nat) (scale : α) : Except (ImageError α) (Image α) :=
  if h : 0 < width ∧ 0 < height then
    if 0 < scale then
      .ok
        { width, height, scale
          pixels := .constant width height 0
          width_pos := h.1
          height_pos := h.2 }
    else .error (.scale scale)
  else .error (.size width height)

/-- The image with the given values, row after row. -/
def ofArray (width height : Nat) (scale : α) (values : Array α) :
    Except (ImageError α) (Image α) := do
  let image ← blank width height scale
  match Grid.ofArray? image.width image.height values with
  | some pixels => .ok { image with pixels := pixels }
  | none => .error (.length (width * height) values.size)

omit [Scalar α] in
/-- The pixel values, row after row. -/
def values (image : Image α) : Array α := image.pixels.toArray

omit [Scalar α] in
/-- The value at a column and row, found by counting rows of pixels. -/
def valueAt? (image : Image α) (i j : Nat) : Option α := image.values[j * image.width + i]?

/-- The place of a coordinate on an axis of `count` pixels: the number of whole pixels from the
edge, if the coordinate is not outside. -/
def place? (scale : α) (count : Nat) (x : α) : Option (Fin count) :=
  let u := Scalar.floor (x / scale + Scalar.half * Scalar.ofNat count)
  if u < 0 ∨ Scalar.ofNat count ≤ u then none
  else if h : Scalar.toNat u < count then some ⟨Scalar.toNat u, h⟩
  else none

/-- The column and row of the pixel that holds a point given in seconds of arc from the centre. -/
def pixelAt? (image : Image α) (x y : α) : Option (Fin image.width × Fin image.height) := do
  let i ← place? image.scale image.width x
  let j ← place? image.scale image.height y
  some (i, j)

/-- The image with flux added to one pixel. -/
def addTo (image : Image α) (i : Fin image.width) (j : Fin image.height) (value : α) : Image α :=
  { image with pixels := image.pixels.modify i j (· + value) }

/-- The image with flux added to the pixel that holds a point, and whether there is such a pixel. -/
def accumulate (image : Image α) (x y value : α) : Image α × Bool :=
  match image.pixelAt? x y with
  | some (i, j) => (image.addTo i j value, true)
  | none => (image, false)

/-- The sum of the pixel values. -/
def flux (image : Image α) : α := Scalar.sumArray image.values

/-- The smallest and the largest of the values that are numbers. -/
def range? (image : Image α) : Option (α × α) :=
  image.values.foldl (fun range x =>
    match range with
    | some (low, high) => some (Scalar.smaller low x, Scalar.larger high x)
    | none => if x ≤ x then some (x, x) else none) none

end Image

end Seeing
