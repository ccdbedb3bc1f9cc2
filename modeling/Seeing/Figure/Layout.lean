/-!
# The layout of the figure

The figure is divided into panels, two rows of four. A panel holds one image in a square area in its
middle, with space around it for the labels where the panel is large enough.
-/

namespace Seeing.Layout

/-- The number of columns of panels, one for each cutoff. -/
def columns : Nat := 4

/-- The number of rows of panels, one for each method. -/
def rows : Nat := 2

/-- Where part number `k` starts when a length is divided evenly into parts. The first parts take
one unit more until nothing is left over. -/
def partStart (length parts k : Nat) : Nat := k * (length / parts) + Nat.min k (length % parts)

/-- The size of part number `k` of a length. -/
def partSize (length parts k : Nat) : Nat :=
  partStart length parts (k + 1) - partStart length parts k

/-- A square area within a panel. -/
structure Area where
  /-- The columns left of it. -/
  left : Nat
  /-- The rows above it. -/
  top : Nat
  /-- Its side length. -/
  side : Nat
  deriving DecidableEq, Repr

/-- The columns right of an area in a panel of the given width. -/
def Area.right (a : Area) (width : Nat) : Nat := width - (a.side + a.left)

/-- The rows below an area in a panel of the given height. -/
def Area.bottom (a : Area) (height : Nat) : Nat := height - (a.side + a.top)

/-- The area of the image in a panel. -/
def imageArea (width height labelSize : Nat) : Area :=
  let smaller := Nat.min width height
  let side := Nat.min (Nat.max (smaller - 2 * labelSize) 1) smaller
  ⟨(width - side) / 2, (height - side) / 2, side⟩

end Seeing.Layout
