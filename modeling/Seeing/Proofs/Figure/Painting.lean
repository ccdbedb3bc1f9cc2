import Seeing.Proofs.Figure.Layout
import Seeing.Proofs.Figure.Lines
import Seeing.Proofs.Figure.Raster
import Seeing.Proofs.Figure.Scale

/-!
# The painted figure

A pixel of an image is painted as a tile between the lines across and down the square of its panel.
The tiles of an image cover its canvas and do not overlap, columns from left to right and rows from
top to bottom: the canvas is `Tiled`.

The drawing is a white raster with the tiles of all panels laid over it, `drawing_eq_foldl`. As the
squares of different panels do not overlap, a pixel within a tile has its colour, `colour?_drawing`,
and one within no tile is white, `colour?_drawing_of_forall_notMem`. So the figure is `Drawn`.
-/

namespace Seeing

/-- The numbers of columns and rows are machine words. -/
def Image.IsAddressable (image : Image Float) : Prop :=
  image.width < 2 ^ 64 ∧ image.height < 2 ^ 64

/-- The images at a cutoff, from the upper panel to the lower. -/
def SweepPoint.images (point : SweepPoint Float) : List (Image Float) :=
  [point.exposure, point.kick]

namespace Figure

open Layout

variable (f : Figure) (column row : ℕ) (image : Image Float)

/-- The tile of a pixel of an image in a panel. -/
def tile (i : Fin image.width) (j : Fin image.height) : Tile where
  left := f.squareLeft column row + lineAt (f.area column row).side image.width i
  top := f.squareTop column row + rowStart (f.area column row).side image.height j
  width := lineAt (f.area column row).side image.width (i + 1) -
    lineAt (f.area column row).side image.width i
  height := rowStart (f.area column row).side image.height (j + 1) -
    rowStart (f.area column row).side image.height j
  colour := .ofParameter (parameter image i j)

/-- The tiles of an image in a panel, row after row. -/
def panelTiles : List Tile :=
  (List.finRange image.height).flatMap fun j =>
    (List.finRange image.width).map fun i => f.tile column row image i j

/-- The tiles of all panels, one column after the other. -/
def tiles (points : List (SweepPoint Float)) : List Tile :=
  points.zipIdx.flatMap fun p => p.1.images.zipIdx.flatMap fun q => f.panelTiles p.2 q.2 q.1

/-- The image in a panel. -/
def panelImage? (points : List (SweepPoint Float)) (column row : ℕ) : Option (Image Float) :=
  points[column]?.bind fun point => point.images[row]?

/-- The pixels that an image covers, which are those of its square but the last column and row. -/
def canvas : Finset (ℕ × ℕ) :=
  Finset.Ico (f.squareLeft column row) (f.squareLeft column row + ((f.area column row).side - 1)) ×ˢ
    Finset.Ico (f.squareTop column row) (f.squareTop column row + ((f.area column row).side - 1))

/-- There is one tile for each pixel of an image. The tiles cover the canvas and do not overlap.
Columns go from left to right, and rows from top to bottom. -/
structure Tiled : Prop where
  length_panelTiles : (f.panelTiles column row image).length = image.height * image.width
  canvas_subset : f.canvas column row ⊆ f.square column row
  tile_subset : ∀ i j, (f.tile column row image i j).pixels ⊆ f.canvas column row
  existsUnique_tile : ∀ x y, (x, y) ∈ f.canvas column row →
    ∃! cell : Fin image.width × Fin image.height,
      (x, y) ∈ (f.tile column row image cell.1 cell.2).pixels
  ascending : ∀ i j i' j' x y x' y', (x, y) ∈ (f.tile column row image i j).pixels →
    (x', y') ∈ (f.tile column row image i' j').pixels → (i < i' → x < x') ∧ (j < j' → y < y')

/-- In each panel there is an image. The drawing is white with the tiles of these images laid over
it, one after the other. A pixel of a tile has the colour of the tile. -/
structure Drawn (points : List (SweepPoint Float)) : Prop where
  exists_image : ∀ column < columns, ∀ row < rows,
    ∃ image, panelImage? points column row = some image
  laid : f.drawing points = (f.tiles points).foldl Raster.lay (.blank f.width f.height)
  tiled : ∀ column row image, panelImage? points column row = some image →
    f.Tiled column row image
  colour : ∀ column row image, panelImage? points column row = some image →
    ∀ i j x y, (x, y) ∈ (f.tile column row image i j).pixels →
      (f.drawing points).colour? x y = some (.ofParameter (parameter image i j))
  white : ∀ x < f.width, ∀ y < f.height, (∀ t ∈ f.tiles points, (x, y) ∉ t.pixels) →
    (f.drawing points).colour? x y = some .white

variable {f column row image} {i i' : Fin image.width} {j j' : Fin image.height} {x y x' y' : ℕ}

theorem mem_tile : (x, y) ∈ (f.tile column row image i j).pixels ↔
    (f.squareLeft column row + lineAt (f.area column row).side image.width i ≤ x ∧
        x < f.squareLeft column row + lineAt (f.area column row).side image.width (i + 1)) ∧
      f.squareTop column row + rowStart (f.area column row).side image.height j ≤ y ∧
        y < f.squareTop column row + rowStart (f.area column row).side image.height (j + 1) := by
  simp only [Tile.pixels, tile, Finset.mem_product, Finset.mem_Ico]
  omega

theorem mem_canvas : (x, y) ∈ f.canvas column row ↔
    (f.squareLeft column row ≤ x ∧ x < f.squareLeft column row + ((f.area column row).side - 1)) ∧
      f.squareTop column row ≤ y ∧
        y < f.squareTop column row + ((f.area column row).side - 1) := by
  simp only [canvas, Finset.mem_product, Finset.mem_Ico]

section Tiled

variable (himage : image.IsAddressable) (hside : (f.area column row).side ≤ 2 ^ 52)

include himage hside

theorem lineAt_succ_le (hlt : i < i') : lineAt (f.area column row).side image.width (i + 1) ≤
    lineAt (f.area column row).side image.width i' :=
  lineAt_mono image.width_pos himage.1 hside hlt i'.isLt.le

theorem rowStart_succ_le (hlt : j < j') : rowStart (f.area column row).side image.height (j + 1) ≤
    rowStart (f.area column row).side image.height j' :=
  monotoneOn_rowStart image.height_pos himage.2 hside (Nat.succ_le_of_lt j.isLt) j'.isLt.le hlt

theorem existsUnique_cell (hxy : (x, y) ∈ f.canvas column row) :
    ∃! cell : Fin image.width × Fin image.height,
      (x, y) ∈ (f.tile column row image cell.1 cell.2).pixels := by
  rw [mem_canvas] at hxy
  obtain ⟨i, ⟨hi, hline⟩, hunique⟩ :=
    existsUnique_between (x := x - f.squareLeft column row)
      (monotoneOn_lineAt image.width_pos himage.1 hside)
      (by rw [lineAt_zero image.width_pos himage.1 hside]; omega)
      (by rw [lineAt_self image.width_pos himage.1 hside]; omega)
  obtain ⟨j, ⟨hj, hstart⟩, hunique'⟩ :=
    existsUnique_between (x := y - f.squareTop column row)
      (monotoneOn_rowStart image.height_pos himage.2 hside)
      (by rw [rowStart_zero image.height_pos himage.2 hside]; omega)
      (by rw [rowStart_self image.height_pos himage.2 hside]; omega)
  have hmem : ∀ (i : Fin image.width) (j : Fin image.height),
      (x, y) ∈ (f.tile column row image i j).pixels ↔
        (lineAt (f.area column row).side image.width i ≤ x - f.squareLeft column row ∧
          x - f.squareLeft column row < lineAt (f.area column row).side image.width (i + 1)) ∧
        rowStart (f.area column row).side image.height j ≤ y - f.squareTop column row ∧
          y - f.squareTop column row < rowStart (f.area column row).side image.height (j + 1) := by
    intro i j
    rw [mem_tile]
    omega
  refine ⟨(⟨i, hi⟩, ⟨j, hj⟩), (hmem _ _).2 ⟨hline, hstart⟩, ?_⟩
  rintro ⟨i', j'⟩ hcell
  obtain ⟨hline', hstart'⟩ := (hmem i' j').1 hcell
  exact Prod.ext (Fin.ext (hunique i' ⟨i'.isLt, hline'⟩))
    (Fin.ext (hunique' j' ⟨j'.isLt, hstart'⟩))

theorem tiled : f.Tiled column row image := by
  refine ⟨by simp [panelTiles], ?_, ?_, fun x y => existsUnique_cell himage hside, ?_⟩
  · exact Finset.product_subset_product (Finset.Ico_subset_Ico le_rfl (by omega))
      (Finset.Ico_subset_Ico le_rfl (by omega))
  · rintro i j ⟨x, y⟩ hxy
    have hline := lineAt_le image.width_pos himage.1 hside (Nat.lt_iff_add_one_le.1 i.isLt)
    have hstart : rowStart (f.area column row).side image.height (j + 1) ≤
        (f.area column row).side - 1 := Nat.sub_le _ _
    rw [mem_tile] at hxy
    rw [mem_canvas]
    omega
  · intro i j i' j' x y x' y' hxy hxy'
    rw [mem_tile] at hxy hxy'
    constructor
    · intro hlt
      have hle := lineAt_succ_le himage hside hlt
      omega
    · intro hlt
      have hle := rowStart_succ_le himage hside hlt
      omega

end Tiled

section Drawing

/-- A figure whose sizes are machine words has small squares. -/
theorem side_le (hwidth : f.width < 2 ^ 32) (hcolumn : column < columns) (harranged : f.Arranged)
    (row : ℕ) : (f.area column row).side ≤ 2 ^ 52 := by
  have hacross := (harranged.centred column row).across
  have hpart : partSize f.width columns column ≤ f.width := partSize_le hcolumn
  omega

theorem paintPanel_eq_foldl (himage : image.IsAddressable)
    (hside : (f.area column row).side ≤ 2 ^ 52) (hpos : 0 < (f.area column row).side) (r : Raster) :
    f.paintPanel column row image r = (f.panelTiles column row image).foldl Raster.lay r := by
  have hpaint : f.paintPanel column row image r =
      (cells image).foldl (fun r c => r.fill
        (f.squareLeft column row + lineAt (f.area column row).side image.width c.column)
        (f.squareTop column row + (f.area column row).side - 1 -
          lineAt (f.area column row).side image.height (image.height - c.row))
        (lineAt (f.area column row).side image.width (c.column + 1) -
          lineAt (f.area column row).side image.width c.column)
        (lineAt (f.area column row).side image.height (image.height - c.row) -
          lineAt (f.area column row).side image.height (image.height - c.row - 1))
        (.ofParameter c.parameter)) r := rfl
  rw [hpaint, ← Array.foldl_toList, toList_cells, panelTiles]
  simp only [List.foldl_flatMap, List.foldl_map]
  congr 1
  funext r j
  congr 1
  funext r i
  have hupper := lineAt_le image.height_pos himage.2 hside (Nat.sub_le image.height j)
  have hlower := lineAt_le image.height_pos himage.2 hside (Nat.sub_le image.height (j + 1))
  simp only [Raster.lay, tile, rowStart, Nat.sub_sub image.height]
  congr 1 <;> omega

theorem mem_panelTiles {t : Tile} : t ∈ f.panelTiles column row image ↔
    ∃ i j, f.tile column row image i j = t := by
  simp only [panelTiles, List.mem_flatMap, List.mem_map, List.mem_finRange, true_and]
  exact exists_comm

theorem mem_tiles {points : List (SweepPoint Float)} {t : Tile} : t ∈ f.tiles points ↔
    ∃ column row image, panelImage? points column row = some image ∧
      ∃ i j, f.tile column row image i j = t := by
  simp only [tiles, List.mem_flatMap, Prod.exists, List.mk_mem_zipIdx_iff_getElem?,
    mem_panelTiles, panelImage?, Option.bind_eq_some_iff]
  constructor
  · rintro ⟨point, column, hpoint, image, row, himage, hcell⟩
    exact ⟨column, row, image, ⟨point, hpoint, himage⟩, hcell⟩
  · rintro ⟨column, row, image, ⟨point, hpoint, himage⟩, hcell⟩
    exact ⟨point, column, hpoint, image, row, himage, hcell⟩

variable {points : List (SweepPoint Float)} (hwidth : f.width < 2 ^ 32) (harranged : f.Arranged)
  (hcount : points.length = columns)
  (hpoints : ∀ point ∈ points, ∀ image ∈ point.images, image.IsAddressable)

include hwidth harranged hcount hpoints

/-- The drawing is its tiles laid over a white raster. -/
theorem drawing_eq_foldl :
    f.drawing points = (f.tiles points).foldl Raster.lay (.blank f.width f.height) := by
  have hdrawing : f.drawing points = points.zipIdx.foldl (fun r p =>
      f.paintPanel p.2 1 p.1.kick (f.paintPanel p.2 0 p.1.exposure r))
      (.blank f.width f.height) := rfl
  rw [hdrawing, tiles, List.foldl_flatMap]
  refine List.foldl_ext _ _ _ fun r p hp => ?_
  obtain ⟨point, column⟩ := p
  have hpoint := List.mk_mem_zipIdx_iff_getElem?.1 hp
  have hcolumn : column < columns := hcount ▸ (List.getElem?_eq_some_iff.1 hpoint).1
  have hmem := List.mem_of_getElem? hpoint
  have hpanel : ∀ image ∈ point.images, ∀ row r, f.paintPanel column row image r =
      (f.panelTiles column row image).foldl Raster.lay r := fun image himage row r =>
    paintPanel_eq_foldl (hpoints point hmem image himage)
      (side_le hwidth hcolumn harranged row) (harranged.centred column row).side_pos r
  rw [hpanel _ (by simp [SweepPoint.images]), hpanel _ (by simp [SweepPoint.images]),
    ← List.foldl_append]
  simp [SweepPoint.images, List.zipIdx]

omit hwidth harranged in
theorem of_panelImage? (himage : panelImage? points column row = some image) :
    column < columns ∧ row < rows ∧ image.IsAddressable := by
  obtain ⟨point, hpoint, hrow⟩ := Option.bind_eq_some_iff.1 himage
  obtain ⟨hlength, -⟩ := List.getElem?_eq_some_iff.1 hpoint
  obtain ⟨hrow', -⟩ := List.getElem?_eq_some_iff.1 hrow
  exact ⟨hcount ▸ hlength, hrow',
    hpoints point (List.mem_of_getElem? hpoint) image (List.mem_of_getElem? hrow)⟩

theorem tiled_of_panelImage? (himage : panelImage? points column row = some image) :
    f.Tiled column row image := by
  obtain ⟨hcolumn, -, haddressable⟩ := of_panelImage? hcount hpoints himage
  exact tiled haddressable (side_le hwidth hcolumn harranged row)

/-- A pixel of a tile has the colour of the tile. -/
theorem colour?_drawing (himage : panelImage? points column row = some image)
    (hxy : (x, y) ∈ (f.tile column row image i j).pixels) :
    (f.drawing points).colour? x y = some (.ofParameter (parameter image i j)) := by
  have htiled := tiled_of_panelImage? hwidth harranged hcount hpoints himage
  have hcanvas := htiled.tile_subset i j hxy
  have hsquare := htiled.canvas_subset hcanvas
  obtain ⟨hcolumn, hrow, -⟩ := of_panelImage? hcount hpoints himage
  have hinside := harranged.panel_subset column hcolumn row hrow
    (harranged.square_subset column row hsquare)
  rw [Finset.mem_product, Finset.mem_range, Finset.mem_range] at hinside
  have hblank : (Raster.blank f.width f.height).colour? x y = some .white := by
    rw [Raster.colour?_blank, if_pos hinside]
  rw [drawing_eq_foldl hwidth harranged hcount hpoints,
    Raster.colour?_foldl_lay_of_mem _ x y (c := .ofParameter (parameter image i j)) ?_
      ⟨_, mem_tiles.2 ⟨column, row, image, himage, i, j, rfl⟩, hxy⟩, hblank, Option.map_some]
  intro t ht hxy'
  obtain ⟨column', row', image', himage', i', j', rfl⟩ := mem_tiles.1 ht
  have htiled' := tiled_of_panelImage? hwidth harranged hcount hpoints himage'
  have hsquare' := htiled'.canvas_subset (htiled'.tile_subset i' j' hxy')
  -- a tile of another panel is in another square
  by_cases hplace : (column, row) = (column', row')
  · obtain ⟨rfl, rfl⟩ := Prod.mk.inj hplace
    obtain rfl := Option.some.inj (himage.symm.trans himage')
    have hcell : (i', j') = (i, j) := (htiled.existsUnique_tile x y hcanvas).unique hxy' hxy
    obtain ⟨rfl, rfl⟩ := Prod.mk.inj hcell
    rfl
  · exact absurd hsquare' (Finset.disjoint_left.1
      (harranged.disjoint column row column' row' hplace) hsquare)

/-- Where there is no tile, the drawing is white. -/
theorem colour?_drawing_of_forall_notMem (hx : x < f.width) (hy : y < f.height)
    (hout : ∀ t ∈ f.tiles points, (x, y) ∉ t.pixels) :
    (f.drawing points).colour? x y = some .white := by
  rw [drawing_eq_foldl hwidth harranged hcount hpoints,
    Raster.colour?_foldl_lay_of_forall_notMem _ x y hout, Raster.colour?_blank, if_pos ⟨hx, hy⟩]

omit hwidth harranged hpoints in
theorem exists_panelImage (hcolumn : column < columns) (hrow : row < rows) :
    ∃ image, panelImage? points column row = some image := by
  have hlength : column < points.length := hcount ▸ hcolumn
  have hlength' : row < points[column].images.length := hrow
  exact ⟨points[column].images[row], Option.bind_eq_some_iff.2
    ⟨points[column], List.getElem?_eq_getElem hlength, List.getElem?_eq_getElem hlength'⟩⟩

/-- The drawing of a figure with an image for each panel. -/
theorem drawn : f.Drawn points where
  exists_image _ hcolumn _ hrow := exists_panelImage hcount hcolumn hrow
  laid := drawing_eq_foldl hwidth harranged hcount hpoints
  tiled _ _ _ himage := tiled_of_panelImage? hwidth harranged hcount hpoints himage
  colour _ _ _ himage _ _ _ _ hxy := colour?_drawing hwidth harranged hcount hpoints himage hxy
  white _ hx _ hy hout :=
    colour?_drawing_of_forall_notMem hwidth harranged hcount hpoints hx hy hout

end Drawing

end Figure

end Seeing
