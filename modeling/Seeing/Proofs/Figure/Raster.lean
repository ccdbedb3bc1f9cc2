import Mathlib
import Seeing.Figure.Raster

/-!
# Painted rasters

A tile is a rectangle of pixels with its colour. Laying one paints its pixels and leaves all others
alone, `colour?_lay`. Where tiles are laid one after the other, a pixel outside of them all keeps
its colour, `colour?_foldl_lay_of_forall_notMem`, and one that is in tiles of one colour only gets
this colour, `colour?_foldl_lay_of_mem`.
-/

namespace Seeing

/-- A rectangle of pixels, `width` columns from `left` on and `height` rows from `top` on, and a
colour for it. -/
structure Tile where
  /-- The first column. -/
  left : ℕ
  /-- The first row. -/
  top : ℕ
  /-- The number of columns. -/
  width : ℕ
  /-- The number of rows. -/
  height : ℕ
  /-- The colour. -/
  colour : Colour

/-- The columns and rows of the pixels of a tile. -/
def Tile.pixels (t : Tile) : Finset (ℕ × ℕ) :=
  Finset.Ico t.left (t.left + t.width) ×ˢ Finset.Ico t.top (t.top + t.height)

namespace Raster

variable (r : Raster) (x y : ℕ)

/-- The colour of the pixel in a column and a row, if there is one. -/
def colour? : Option Colour :=
  if hx : x < r.width then
    if hy : y < r.height then some (r.pixels.get ⟨x, hx⟩ ⟨y, hy⟩) else none
  else none

theorem colour?_of_not_lt {r : Raster} {x y : ℕ} (h : ¬(x < r.width ∧ y < r.height)) :
    r.colour? x y = none := by
  rw [colour?]
  split_ifs with hx hy
  · exact absurd ⟨hx, hy⟩ h
  · rfl
  · rfl

theorem colour?_blank (width height : ℕ) :
    (blank width height).colour? x y =
      if x < width ∧ y < height then some .white else none := by
  split_ifs with h
  · simp only [colour?, blank, dif_pos h.1, dif_pos h.2, Grid.get_constant]
  · exact colour?_of_not_lt h

theorem colour?_paint (x' y' : ℕ) (c : Colour) :
    (r.paint x' y' c).colour? x y =
      if x = x' ∧ y = y' then (r.colour? x y).map fun _ => c else r.colour? x y := by
  rw [paint]
  by_cases hinside : x' < r.width ∧ y' < r.height
  · rw [dif_pos hinside]
    by_cases hxy : x < r.width ∧ y < r.height
    · simp only [colour?, dif_pos hxy.1, dif_pos hxy.2, Option.map_some]
      rw [Grid.get_modify]
      simp only [Fin.mk.injEq, eq_comm]
      split_ifs <;> rfl
    · rw [colour?_of_not_lt hxy, Option.map_none, ite_self]
      exact colour?_of_not_lt hxy
  · rw [dif_neg hinside]
    split_ifs with heq
    · obtain ⟨rfl, rfl⟩ := heq
      rw [colour?_of_not_lt hinside, Option.map_none]
    · rfl

/-- The pixels of a row that are painted one after the other. -/
theorem colour?_fold_paint (x' y' w : ℕ) (c : Colour) :
    (Nat.fold w (fun i _ r => r.paint (x' + i) y' c) r).colour? x y =
      if x ∈ Finset.Ico x' (x' + w) ∧ y = y' then (r.colour? x y).map fun _ => c
      else r.colour? x y := by
  induction w with
  | zero => simp
  | succ w ih =>
      rw [Nat.fold_succ, colour?_paint, ih]
      simp only [Finset.mem_Ico]
      cases r.colour? x y <;> split_ifs <;> first | rfl | omega

theorem colour?_fill (x' y' w h : ℕ) (c : Colour) :
    (r.fill x' y' w h c).colour? x y =
      if x ∈ Finset.Ico x' (x' + w) ∧ y ∈ Finset.Ico y' (y' + h) then
        (r.colour? x y).map fun _ => c
      else r.colour? x y := by
  rw [fill]
  induction h with
  | zero => simp
  | succ h ih =>
      rw [Nat.fold_succ, colour?_fold_paint, ih]
      simp only [Finset.mem_Ico]
      cases r.colour? x y <;> split_ifs <;> first | rfl | omega

/-- The raster with a tile laid over it. -/
def lay (t : Tile) : Raster := r.fill t.left t.top t.width t.height t.colour

theorem colour?_lay (t : Tile) :
    (r.lay t).colour? x y =
      if (x, y) ∈ t.pixels then (r.colour? x y).map fun _ => t.colour else r.colour? x y := by
  simp only [lay, colour?_fill, Tile.pixels, Finset.mem_product]

/-- A pixel outside of all tiles keeps its colour. -/
theorem colour?_foldl_lay_of_forall_notMem {tiles : List Tile}
    (hout : ∀ t ∈ tiles, (x, y) ∉ t.pixels) :
    (tiles.foldl lay r).colour? x y = r.colour? x y := by
  induction tiles generalizing r with
  | nil => rfl
  | cons t tiles ih =>
      rw [List.foldl_cons, ih _ fun t' ht' => hout t' (List.mem_cons_of_mem t ht'), colour?_lay,
        if_neg (hout t List.mem_cons_self)]

/-- A pixel whose tiles have all the same colour gets this colour. -/
theorem colour?_foldl_lay_of_mem {tiles : List Tile} {c : Colour}
    (hcolour : ∀ t ∈ tiles, (x, y) ∈ t.pixels → t.colour = c)
    (hin : ∃ t ∈ tiles, (x, y) ∈ t.pixels) :
    (tiles.foldl lay r).colour? x y = (r.colour? x y).map fun _ => c := by
  induction tiles generalizing r with
  | nil => simp at hin
  | cons t tiles ih =>
      rw [List.foldl_cons]
      have hrest : ∀ t' ∈ tiles, (x, y) ∈ t'.pixels → t'.colour = c :=
        fun t' ht' => hcolour t' (List.mem_cons_of_mem t ht')
      by_cases hlater : ∃ t' ∈ tiles, (x, y) ∈ t'.pixels
      · rw [ih _ hrest hlater, colour?_lay]
        split_ifs <;> simp [Function.comp_def]
      · have ht : (x, y) ∈ t.pixels := by
          obtain ⟨t', ht', hpixel⟩ := hin
          rcases List.mem_cons.1 ht' with rfl | ht'
          · exact hpixel
          · exact absurd ⟨t', ht', hpixel⟩ hlater
        rw [colour?_foldl_lay_of_forall_notMem _ _ _ fun t' ht' hpixel =>
          hlater ⟨t', ht', hpixel⟩, colour?_lay, if_pos ht, hcolour t List.mem_cons_self ht]

end Raster

end Seeing
