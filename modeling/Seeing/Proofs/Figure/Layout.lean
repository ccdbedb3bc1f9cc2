import Mathlib
import Seeing.Figure

/-!
# The panels of a figure and the squares of its images

The starts of the parts of a length ascend from zero to the length, so that each place is in one
part: `existsUnique_part`. Parts across and parts down are the panels of a figure.

The square of an image is in the middle of its panel, `Area.Centred`, whatever space its labels ask
for: `centred_imageArea`. So it does not leave the panel. Squares in different panels do not
overlap, however the figure is divided into panels: `Tiling.arranged`. The division into parts is a
tiling, `Figure.split`, and the figure is `Arranged`.
-/

namespace Seeing

/-- A place among ascending posts is behind one post and before the next. -/
theorem existsUnique_between {post : ℕ → ℕ} {n x : ℕ} (hpost : MonotoneOn post (Set.Iic n))
    (hlow : post 0 ≤ x) (hhigh : x < post n) :
    ∃! k, k < n ∧ post k ≤ x ∧ x < post (k + 1) := by
  obtain ⟨k, hk⟩ : ∃ k, k = Nat.findGreatest (post · ≤ x) n := ⟨_, rfl⟩
  have hbehind : post k ≤ x := by
    rw [hk]
    exact Nat.findGreatest_spec (P := (post · ≤ x)) n.zero_le hlow
  have hkn : k < n := by
    refine lt_of_le_of_ne (hk ▸ Nat.findGreatest_le n) ?_
    rintro rfl
    exact absurd hbehind (not_le.2 hhigh)
  have hbefore : x < post (k + 1) := not_le.1 <|
    Nat.findGreatest_is_greatest (P := (post · ≤ x)) (n := n) (hk ▸ k.lt_succ_self) hkn
  refine ⟨k, ⟨hkn, hbehind, hbefore⟩, ?_⟩
  rintro l ⟨hln, hbehind', hbefore'⟩
  by_contra hne
  rcases lt_or_gt_of_ne hne with hlt | hgt
  · have := hpost (show l + 1 ≤ n by omega) hkn.le hlt
    omega
  · have := hpost (show k + 1 ≤ n by omega) hln.le hgt
    omega

namespace Layout

section Parts

variable {length parts : ℕ}

theorem partStart_zero : partStart length parts 0 = 0 := by
  simp [partStart]

theorem partStart_parts (hparts : 0 < parts) : partStart length parts parts = length := by
  have hrest : length % parts < parts := Nat.mod_lt _ hparts
  have hmin : Nat.min parts (length % parts) = length % parts := Nat.min_eq_right hrest.le
  rw [partStart, hmin, Nat.div_add_mod]

theorem partStart_mono : Monotone (partStart length parts) := by
  intro k l hkl
  exact Nat.add_le_add (Nat.mul_le_mul_right _ hkl) (min_le_min_right _ hkl)

theorem partStart_add_partSize (k : ℕ) :
    partStart length parts k + partSize length parts k = partStart length parts (k + 1) :=
  Nat.add_sub_of_le (partStart_mono k.le_succ)

theorem partSize_le {k : ℕ} (hk : k < parts) : partSize length parts k ≤ length := by
  have hend : partStart length parts (k + 1) ≤ partStart length parts parts := partStart_mono hk
  rw [partStart_parts (k.zero_le.trans_lt hk), ← partStart_add_partSize] at hend
  omega

/-- If there is a place for every part, no part is empty. -/
theorem partSize_pos (hparts : 0 < parts) (hlength : parts ≤ length) (k : ℕ) :
    0 < partSize length parts k := by
  have hquotient : 0 < length / parts := Nat.div_pos hlength hparts
  have hrest : Nat.min k (length % parts) ≤ Nat.min (k + 1) (length % parts) :=
    min_le_min_right _ k.le_succ
  rw [partSize, partStart, partStart, Nat.succ_mul]
  omega

theorem existsUnique_part {x : ℕ} (hparts : 0 < parts) (hx : x < length) :
    ∃! k, k < parts ∧ partStart length parts k ≤ x ∧ x < partStart length parts (k + 1) := by
  refine existsUnique_between (partStart_mono.monotoneOn _) ?_ ?_
  · rw [partStart_zero]
    exact x.zero_le
  · rwa [partStart_parts hparts]

end Parts

/-- The area is a square in the middle of a panel. Where the space around it is odd, the larger part
is right of it and below. -/
structure Area.Centred (a : Area) (width height : ℕ) : Prop where
  side_pos : 0 < a.side
  across : a.left + a.side + a.right width = width
  down : a.top + a.side + a.bottom height = height
  right_eq : a.right width = a.left ∨ a.right width = a.left + 1
  bottom_eq : a.bottom height = a.top ∨ a.bottom height = a.top + 1

/-- The image is in the middle of its panel, and has a pixel also in a panel that is smaller than
the space for the labels. -/
theorem centred_imageArea {width height : ℕ} (hwidth : 0 < width) (hheight : 0 < height)
    (labelSize : ℕ) : (imageArea width height labelSize).Centred width height := by
  have hside : 0 < (imageArea width height labelSize).side ∧
      (imageArea width height labelSize).side ≤ width ∧
      (imageArea width height labelSize).side ≤ height := by
    simp only [imageArea, Nat.min_def, Nat.max_def]
    split_ifs <;> omega
  have hleft : (imageArea width height labelSize).left =
      (width - (imageArea width height labelSize).side) / 2 := rfl
  have htop : (imageArea width height labelSize).top =
      (height - (imageArea width height labelSize).side) / 2 := rfl
  refine ⟨hside.1, ?_, ?_, ?_, ?_⟩ <;> simp only [Area.right, Area.bottom] <;> omega

/-- A panel of a figure. -/
structure Panel where
  /-- The columns of the figure left of it. -/
  left : ℕ
  /-- The rows of the figure above it. -/
  top : ℕ
  /-- The number of its columns. -/
  width : ℕ
  /-- The number of its rows. -/
  height : ℕ

namespace Panel

variable (p : Panel) (labelSize : ℕ)

/-- The pixels of a panel, by column and row of the figure. -/
def pixels : Finset (ℕ × ℕ) :=
  Finset.Ico p.left (p.left + p.width) ×ˢ Finset.Ico p.top (p.top + p.height)

/-- The area of the image in a panel. -/
def area : Area := imageArea p.width p.height labelSize

/-- The pixels of the area of the image in a panel, by column and row of the figure. -/
def square : Finset (ℕ × ℕ) :=
  Finset.Ico (p.left + (p.area labelSize).left)
      (p.left + (p.area labelSize).left + (p.area labelSize).side) ×ˢ
    Finset.Ico (p.top + (p.area labelSize).top)
      (p.top + (p.area labelSize).top + (p.area labelSize).side)

variable {p labelSize}

theorem square_subset (hcentred : (p.area labelSize).Centred p.width p.height) :
    p.square labelSize ⊆ p.pixels := by
  have hacross := hcentred.across
  have hdown := hcentred.down
  exact Finset.product_subset_product (Finset.Ico_subset_Ico (by omega) (by omega))
    (Finset.Ico_subset_Ico (by omega) (by omega))

end Panel

/-- A division of a figure into panels of at least one pixel, in columns and rows. Each pixel of the
figure is in one panel. -/
structure Tiling (width height : ℕ) where
  /-- The panel of a column and a row. -/
  panel : ℕ → ℕ → Panel
  width_pos : ∀ column < columns, ∀ row < rows, 0 < (panel column row).width
  height_pos : ∀ column < columns, ∀ row < rows, 0 < (panel column row).height
  pixels_subset : ∀ column < columns, ∀ row < rows,
    (panel column row).pixels ⊆ Finset.range width ×ˢ Finset.range height
  existsUnique_panel : ∀ x < width, ∀ y < height, ∃! place : ℕ × ℕ,
    (place.1 < columns ∧ place.2 < rows) ∧ (x, y) ∈ (panel place.1 place.2).pixels

namespace Tiling

variable {width height : ℕ}

/-- Each image is in the middle of its panel, apart from the other images. -/
structure Arranged (t : Tiling width height) (labelSize : ℕ) : Prop where
  centred : ∀ column < columns, ∀ row < rows,
    ((t.panel column row).area labelSize).Centred (t.panel column row).width
      (t.panel column row).height
  square_subset : ∀ column < columns, ∀ row < rows,
    (t.panel column row).square labelSize ⊆ (t.panel column row).pixels
  disjoint : ∀ column < columns, ∀ row < rows, ∀ column' < columns, ∀ row' < rows,
    (column, row) ≠ (column', row') →
      Disjoint ((t.panel column row).square labelSize) ((t.panel column' row').square labelSize)

variable {t : Tiling width height} {column row column' row' : ℕ}

theorem disjoint_pixels (hcolumn : column < columns) (hrow : row < rows)
    (hcolumn' : column' < columns) (hrow' : row' < rows)
    (hne : (column, row) ≠ (column', row')) :
    Disjoint (t.panel column row).pixels (t.panel column' row').pixels := by
  rw [Finset.disjoint_left]
  rintro ⟨x, y⟩ hxy hxy'
  have hinside := t.pixels_subset column hcolumn row hrow hxy
  rw [Finset.mem_product, Finset.mem_range, Finset.mem_range] at hinside
  obtain ⟨place, -, hunique⟩ := t.existsUnique_panel x hinside.1 y hinside.2
  exact hne ((hunique (column, row) ⟨⟨hcolumn, hrow⟩, hxy⟩).trans
    (hunique (column', row') ⟨⟨hcolumn', hrow'⟩, hxy'⟩).symm)

theorem arranged (t : Tiling width height) (labelSize : ℕ) : t.Arranged labelSize := by
  have hcentred : ∀ column < columns, ∀ row < rows,
      ((t.panel column row).area labelSize).Centred (t.panel column row).width
        (t.panel column row).height := fun column hcolumn row hrow =>
    centred_imageArea (t.width_pos column hcolumn row hrow)
      (t.height_pos column hcolumn row hrow) labelSize
  have hsubset : ∀ column < columns, ∀ row < rows,
      (t.panel column row).square labelSize ⊆ (t.panel column row).pixels :=
    fun column hcolumn row hrow => Panel.square_subset (hcentred column hcolumn row hrow)
  refine ⟨hcentred, hsubset, ?_⟩
  intro column hcolumn row hrow column' hcolumn' row' hrow' hne
  exact (disjoint_pixels hcolumn hrow hcolumn' hrow' hne).mono
    (hsubset column hcolumn row hrow) (hsubset column' hcolumn' row' hrow')

end Tiling

end Layout

namespace Figure

open Layout

variable (f : Figure) (column row : ℕ)

/-- Where the panels of a column start. -/
def panelLeft : ℕ := partStart f.width columns column

/-- Where the panels of a row start. -/
def panelTop : ℕ := partStart f.height rows row

/-- The pixels of a panel, by column and row. -/
def panel : Finset (ℕ × ℕ) :=
  Finset.Ico (f.panelLeft column) (f.panelLeft (column + 1)) ×ˢ
    Finset.Ico (f.panelTop row) (f.panelTop (row + 1))

/-- The area of the image in a panel. -/
def area : Area :=
  imageArea (partSize f.width columns column) (partSize f.height rows row) f.labelSize

/-- Where the image in a panel starts across the figure. -/
def squareLeft : ℕ := f.panelLeft column + (f.area column row).left

/-- Where the image in a panel starts down the figure. -/
def squareTop : ℕ := f.panelTop row + (f.area column row).top

/-- The pixels of the area of the image in a panel, by column and row. -/
def square : Finset (ℕ × ℕ) :=
  Finset.Ico (f.squareLeft column row) (f.squareLeft column row + (f.area column row).side) ×ˢ
    Finset.Ico (f.squareTop column row) (f.squareTop column row + (f.area column row).side)

/-- Each pixel of the figure is in one panel, and each image in the middle of its panel, apart from
the other images. -/
structure Arranged : Prop where
  existsUnique_panel : ∀ x < f.width, ∀ y < f.height, ∃! place : ℕ × ℕ,
    (place.1 < columns ∧ place.2 < rows) ∧ (x, y) ∈ f.panel place.1 place.2
  panel_subset : ∀ column < columns, ∀ row < rows,
    f.panel column row ⊆ Finset.range f.width ×ˢ Finset.range f.height
  centred : ∀ column row, (f.area column row).Centred (partSize f.width columns column)
    (partSize f.height rows row)
  square_subset : ∀ column row, f.square column row ⊆ f.panel column row
  disjoint : ∀ column row column' row', (column, row) ≠ (column', row') →
    Disjoint (f.square column row) (f.square column' row')

variable {f column row} {column' row' : ℕ}

theorem mem_panel {x y : ℕ} : (x, y) ∈ f.panel column row ↔
    (f.panelLeft column ≤ x ∧ x < f.panelLeft (column + 1)) ∧
      f.panelTop row ≤ y ∧ y < f.panelTop (row + 1) := by
  simp only [panel, Finset.mem_product, Finset.mem_Ico]

theorem disjoint_panel (hne : (column, row) ≠ (column', row')) :
    Disjoint (f.panel column row) (f.panel column' row') := by
  have hapart : ∀ {length parts k l : ℕ}, k < l → Disjoint
      (Finset.Ico (partStart length parts k) (partStart length parts (k + 1)))
      (Finset.Ico (partStart length parts l) (partStart length parts (l + 1))) := by
    intro length parts k l hkl
    have hbefore : partStart length parts (k + 1) ≤ partStart length parts l := partStart_mono hkl
    exact Finset.disjoint_left.2 fun x hx hx' => by
      rw [Finset.mem_Ico] at hx hx'
      omega
  rw [panel, panel, Finset.disjoint_product]
  rcases lt_trichotomy column column' with hlt | rfl | hgt
  · exact .inl (hapart hlt)
  · right
    rcases lt_trichotomy row row' with hlt | rfl | hgt
    · exact hapart hlt
    · exact absurd rfl hne
    · exact (hapart hgt).symm
  · exact .inl (hapart hgt).symm

theorem existsUnique_panel {x y : ℕ} (hx : x < f.width) (hy : y < f.height) :
    ∃! place : ℕ × ℕ, (place.1 < columns ∧ place.2 < rows) ∧
      (x, y) ∈ f.panel place.1 place.2 := by
  have hcolumns : 0 < columns := by decide
  have hrows : 0 < rows := by decide
  obtain ⟨column, ⟨hcolumn, hleft⟩, -⟩ := existsUnique_part hcolumns hx
  obtain ⟨row, ⟨hrow, htop⟩, -⟩ := existsUnique_part hrows hy
  have hmem : (x, y) ∈ f.panel column row := mem_panel.2 ⟨hleft, htop⟩
  refine ⟨(column, row), ⟨⟨hcolumn, hrow⟩, hmem⟩, ?_⟩
  rintro ⟨column', row'⟩ ⟨-, hmem'⟩
  by_contra hne
  exact Finset.disjoint_left.1 (disjoint_panel hne) hmem' hmem

theorem panel_subset (hcolumn : column < columns) (hrow : row < rows) :
    f.panel column row ⊆ Finset.range f.width ×ˢ Finset.range f.height := by
  have hright : f.panelLeft (column + 1) ≤ f.width :=
    (partStart_mono hcolumn).trans_eq (partStart_parts (by decide))
  have hbottom : f.panelTop (row + 1) ≤ f.height :=
    (partStart_mono hrow).trans_eq (partStart_parts (by decide))
  rintro ⟨x, y⟩ hxy
  rw [mem_panel] at hxy
  rw [Finset.mem_product, Finset.mem_range, Finset.mem_range]
  exact ⟨hxy.1.2.trans_le hright, hxy.2.2.trans_le hbottom⟩

/-- The panel of a column and a row, if the figure is divided evenly. -/
def panelAt (f : Figure) (column row : ℕ) : Panel where
  left := partStart f.width columns column
  top := partStart f.height rows row
  width := partSize f.width columns column
  height := partSize f.height rows row

theorem pixels_panelAt : (f.panelAt column row).pixels = f.panel column row := by
  rw [Panel.pixels, panel, panelAt, partStart_add_partSize, partStart_add_partSize]
  rfl

theorem square_panelAt : (f.panelAt column row).square f.labelSize = f.square column row := rfl

/-- The division into parts is a tiling. -/
def split (f : Figure) (hwidth : columns ≤ f.width) (hheight : rows ≤ f.height) :
    Tiling f.width f.height where
  panel := f.panelAt
  width_pos column _ _ _ := partSize_pos (by decide) hwidth column
  height_pos _ _ row _ := partSize_pos (by decide) hheight row
  pixels_subset _ hcolumn _ hrow := pixels_panelAt.subset.trans (panel_subset hcolumn hrow)
  existsUnique_panel x hx y hy := by
    simp only [pixels_panelAt]
    exact existsUnique_panel hx hy

/-- A figure with a pixel for every panel is arranged. -/
theorem arranged (hwidth : columns ≤ f.width) (hheight : rows ≤ f.height) : f.Arranged := by
  have hcentred : ∀ column row, (f.area column row).Centred (partSize f.width columns column)
      (partSize f.height rows row) := fun column row =>
    centred_imageArea (partSize_pos (by decide) hwidth column)
      (partSize_pos (by decide) hheight row) f.labelSize
  have hsubset : ∀ column row, f.square column row ⊆ f.panel column row := by
    intro column row
    rw [← square_panelAt, ← pixels_panelAt]
    exact Panel.square_subset (hcentred column row)
  refine ⟨fun _ hx _ hy => existsUnique_panel hx hy,
    fun _ hcolumn _ hrow => panel_subset hcolumn hrow, hcentred, hsubset, ?_⟩
  intro column row column' row' hne
  exact (disjoint_panel hne).mono (hsubset column row) (hsubset column' row')

end Figure

end Seeing
