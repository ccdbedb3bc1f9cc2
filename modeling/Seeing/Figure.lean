import Seeing.Comparison.Sweep
import Seeing.Error
import Seeing.Figure.Layout
import Seeing.Log
import Seeing.Scalar.Machine

/-!
# The comparison figure

A figure shows the images of a sweep, one column for each cutoff, with the long exposures in the
upper row and the second kicks in the lower one. Every image is stretched over the colour scale.
Sizes, cutoffs and rows are labelled.

`Figure.drawing` is the raster, and `Figure.labels` lists the labels in the order in which they are
drawn. There are no glyphs, so a label leaves a record and no pixels.
-/

namespace Seeing

/-- The layout of a figure. -/
structure Figure where
  /-- The number of columns of pixels. -/
  width : Nat := 800
  /-- The number of rows of pixels. -/
  height : Nat := 500
  /-- The label of the upper row. -/
  upperLabel : String := "FFT"
  /-- The label of the lower row. -/
  lowerLabel : String := "2nd kick"
  /-- The space around each image for labels, in pixels. -/
  labelSize : Nat := 24
  deriving Repr

namespace Figure

/-- The pixels from the edge of an area of the given side to the line number `k` of `count` lines
across it. -/
def lineAt (side count k : Nat) : Nat :=
  Scalar.toNat (Scalar.floor (Float.ofNat (side - 1) * (Float.ofNat k / Float.ofNat count) + 0.001))

/-- A pixel of an image in its figure: its column, its row from the top, and the place of its value
on the colour scale. -/
structure Cell (α : Type) where
  /-- The column. -/
  column : Nat
  /-- The row. -/
  row : Nat
  /-- The place on the colour scale. -/
  parameter : α

/-- The smallest value of an image, and the difference to its largest one. A flat image has the
difference one. -/
def stretch {α : Type} [Scalar α] (image : Image α) : α × α :=
  match image.range? with
  | none => (0, 1)
  | some (low, high) => (low, if low < high then high - low else 1)

/-- The pixels of an image, row after row, with the colour scale stretched from the smallest value
to the largest. -/
def cells {α : Type} [Scalar α] (image : Image α) : Array (Cell α) :=
  let (low, span) := stretch image
  image.values.zipIdx.map fun (value, k) =>
    ⟨k % image.width, k / image.width, (value - low) / span⟩

/-- The raster with an image painted into an area, whose corner is given. Rows are counted from the
top of the area, lines from its bottom. -/
def paintImage (x y side : Nat) (image : Image Float) (r : Raster) : Raster :=
  (cells image).foldl (fun r c =>
    let left := lineAt side image.width c.column
    let right := lineAt side image.width (c.column + 1)
    let upper := lineAt side image.height (image.height - c.row)
    let lower := lineAt side image.height (image.height - c.row - 1)
    r.fill (x + left) (y + side - 1 - upper) (right - left) (upper - lower)
      (.ofParameter c.parameter)) r

/-- The raster with an image painted into a panel. -/
def paintPanel (f : Figure) (column row : Nat) (image : Image Float) (r : Raster) : Raster :=
  let area := Layout.imageArea (Layout.partSize f.width Layout.columns column)
    (Layout.partSize f.height Layout.rows row) f.labelSize
  paintImage (Layout.partStart f.width Layout.columns column + area.left)
    (Layout.partStart f.height Layout.rows row + area.top) area.side image r

/-- The raster of the points of a sweep. -/
def drawing (f : Figure) (points : List (SweepPoint Float)) : Raster :=
  points.zipIdx.foldl (fun r (point, column) =>
    f.paintPanel column 1 point.kick (f.paintPanel column 0 point.exposure r))
    (.blank f.width f.height)

/-- The labels of the points of a sweep. -/
def labels (f : Figure) (points : List (SweepPoint Float)) : List String :=
  let size (s : Option Float) : List String := (s.map (FloatText.fixed 6 3)).toList
  points.zipIdx.flatMap fun (point, column) =>
    size point.exposureSize ++ [FloatText.fixed 4 2 point.cutoff] ++
      (if column = 0 then [f.upperLabel] else []) ++ size point.kickSize ++
      (if column = 0 then [f.lowerLabel] else [])

/-- What keeps a figure from being drawn, before a disk is asked. -/
def check (f : Figure) (pointCount : Nat) : Except FigureError Unit :=
  if pointCount ≠ Layout.columns then .error (.points pointCount)
  else if f.width < Layout.columns ∨ f.height < Layout.rows then .error (.size f.width f.height)
  else .ok ()

/-- The endings of the names of figures. -/
def extensions : List String := ["png", "bmp", "jpg", "jpeg"]

/-- Makes the directory of a path, if it is not there. -/
def prepareDirectory {m : Type → Type} [Monad m] [Disk m] (path : String) :
    ExceptT FigureError m Unit := do
  match Path.parent? path with
  | none => pure ()
  | some directory =>
    if !(← (Disk.isThere directory : m Bool)) then
      match ← (Disk.makeDirectory directory : m (Except DiskError Unit)) with
      | .ok () => pure ()
      | .error cause => throw (.directory cause directory)

/-- Writes the figure of the points of a sweep, with the directories that hold it. -/
def save {m : Type → Type} [Monad m] [Disk m] [MonadLog Float m] (f : Figure)
    (points : List (SweepPoint Float)) (path : String) : ExceptT FigureError m Unit := do
  ExceptT.mk (pure (f.check points.length))
  prepareDirectory path
  for label in f.labels points do
    MonadLog.record (m := m) (.unlabelled label)
  if extensions.contains ((Path.extension? path).getD "") then
    match ← (Disk.write path (.raster (f.drawing points)) : m (Except DiskError Unit)) with
    | .ok () => pure ()
    | .error _ => throw .drawing
  else throw .drawing

end Figure

end Seeing
