import Seeing.Image
import Seeing.Proofs.Real

/-!
# The pixels of an image

The pixels cover the image without overlap, each including its lower edges and excluding
its upper ones. The pixel that is found for a point is the one that covers it:
`pixelAt?_eq_some_iff`.
-/

namespace Seeing

namespace Image

/-- The pixel in column `i` and row `j` covers the point. -/
def Covers (image : Image ℝ) (i : Fin image.width) (j : Fin image.height) (x y : ℝ) :
    Prop :=
  ((i - image.width / 2) * image.scale ≤ x ∧ x < (i + 1 - image.width / 2) * image.scale) ∧
    (j - image.height / 2) * image.scale ≤ y ∧
      y < (j + 1 - image.height / 2) * image.scale

/-- An image with the given number of pixels along both of its sides and with pixels of the
given size, none of them negative. -/
structure Renders (image : Image ℝ) (side : ℕ) (scale : ℝ) : Prop where
  width_eq : image.width = side
  height_eq : image.height = side
  scale_eq : image.scale = scale
  nonneg : ∀ i j, 0 ≤ image.pixels.get i j

noncomputable instance instDecidableCovers (image : Image ℝ) (i : Fin image.width)
    (j : Fin image.height) (x y : ℝ) : Decidable (image.Covers i j x y) :=
  inferInstanceAs (Decidable (_ ∧ _))

theorem blank_eq_ok_iff {width height : ℕ} {scale : ℝ} {image : Image ℝ} :
    blank width height scale = .ok image ↔
      ∃ (hwidth : 0 < width) (hheight : 0 < height), 0 < scale ∧
        image = ⟨width, height, scale, .constant width height 0, hwidth, hheight⟩ := by
  rw [blank]
  by_cases hsides : 0 < width ∧ 0 < height
  · by_cases hscale : 0 < scale
    · simp [hsides, hscale, eq_comm]
    · simp [hsides, hscale]
  · rw [dif_neg hsides]
    simp only [reduceCtorEq, false_iff, not_exists]
    intro hwidth hheight
    exact absurd ⟨hwidth, hheight⟩ hsides

theorem shape_of_blank {width height : ℕ} {scale : ℝ} {image : Image ℝ}
    (hblank : blank width height scale = .ok image) :
    0 < image.scale ∧ image.width = width ∧ image.height = height ∧ image.scale = scale := by
  obtain ⟨hwidth, hheight, hscale, rfl⟩ := blank_eq_ok_iff.1 hblank
  exact ⟨hscale, rfl, rfl, rfl⟩

theorem get_of_blank {width height : ℕ} {scale : ℝ} {image : Image ℝ}
    (hblank : blank width height scale = .ok image) (i : Fin image.width)
    (j : Fin image.height) : image.pixels.get i j = 0 := by
  obtain ⟨hwidth, hheight, -, rfl⟩ := blank_eq_ok_iff.1 hblank
  exact Grid.get_constant 0 i j

theorem place?_eq_some_iff_floor {scale : ℝ} {count : ℕ} {x : ℝ} {i : Fin count} :
    place? scale count x = some i ↔ ⌊x / scale + 1 / 2 * count⌋ = (i : ℤ) := by
  have hplace : place? scale count x =
      if ((⌊x / scale + 1 / 2 * count⌋ : ℤ) : ℝ) < 0 ∨
          (count : ℝ) ≤ (⌊x / scale + 1 / 2 * count⌋ : ℤ) then none
      else if h : ⌊((⌊x / scale + 1 / 2 * count⌋ : ℤ) : ℝ)⌋₊ < count then some ⟨_, h⟩
      else none := by
    rw [place?, Scalar.real_zero, Scalar.real_half]
    rfl
  rw [hplace]
  generalize ⌊x / scale + 1 / 2 * count⌋ = place
  have hnatural : ⌊(place : ℝ)⌋₊ = place.toNat := by
    rw [← Int.floor_toNat, Int.floor_intCast]
  have hnegative : (place : ℝ) < 0 ↔ place < 0 := Int.cast_lt_zero
  have hbeyond : (count : ℝ) ≤ place ↔ (count : ℤ) ≤ place := by
    rw [← Int.cast_natCast, Int.cast_le]
  simp only [hnatural, hnegative, hbeyond]
  have hi := i.isLt
  split_ifs with houtside hinside
  · rw [false_iff]
    omega
  · rw [Option.some.injEq, Fin.ext_iff]
    simp only
    omega
  · rw [false_iff]
    omega

theorem place?_eq_some_iff {scale : ℝ} (hscale : 0 < scale) {count : ℕ} {x : ℝ}
    {i : Fin count} :
    place? scale count x = some i ↔
      (i - count / 2) * scale ≤ x ∧ x < (i + 1 - count / 2) * scale := by
  rw [place?_eq_some_iff_floor, Int.floor_eq_iff, ← le_div_iff₀ hscale, ← div_lt_iff₀ hscale]
  push_cast
  constructor <;> intro h <;> constructor <;> linarith [h.1, h.2]

variable {image : Image ℝ} (hscale : 0 < image.scale) {x y : ℝ}

include hscale in
theorem pixelAt?_eq_some_iff {i : Fin image.width} {j : Fin image.height} :
    image.pixelAt? x y = some (i, j) ↔ image.Covers i j x y := by
  rw [Covers, ← place?_eq_some_iff hscale, ← place?_eq_some_iff hscale, pixelAt?]
  simp [Option.bind_eq_some_iff]

include hscale in
theorem pixelAt?_eq_none_iff :
    image.pixelAt? x y = none ↔ ∀ i j, ¬image.Covers i j x y := by
  simp only [← pixelAt?_eq_some_iff hscale]
  rw [Option.eq_none_iff_forall_ne_some, Prod.forall]

include hscale in
theorem covers_iff_of_covers {i : Fin image.width} {j : Fin image.height}
    (hcovers : image.Covers i j x y) (i' : Fin image.width) (j' : Fin image.height) :
    image.Covers i' j' x y ↔ i' = i ∧ j' = j := by
  have hpixel := (pixelAt?_eq_some_iff hscale).2 hcovers
  rw [← pixelAt?_eq_some_iff hscale, hpixel, Option.some.injEq, Prod.mk.injEq, eq_comm,
    @eq_comm _ j]

include hscale in
/-- A point lies in one pixel or outside the image. -/
theorem existsUnique_covers_or_forall_not (x y : ℝ) :
    (∃! pixel : Fin image.width × Fin image.height, image.Covers pixel.1 pixel.2 x y) ∨
      ∀ i j, ¬image.Covers i j x y := by
  cases hpixel : image.pixelAt? x y with
  | none => exact .inr ((pixelAt?_eq_none_iff hscale).1 hpixel)
  | some pixel =>
      refine .inl ⟨pixel, (pixelAt?_eq_some_iff hscale).1 hpixel, ?_⟩
      intro other hother
      rw [← pixelAt?_eq_some_iff hscale, hpixel] at hother
      exact (Option.some.inj hother).symm

theorem flux_eq_sum (image : Image ℝ) :
    image.flux = ∑ j, ∑ i, image.pixels.get i j :=
  Grid.sumArray_toArray image.pixels

theorem flux_of_blank {width height : ℕ} {scale : ℝ} {image : Image ℝ}
    (hblank : blank width height scale = .ok image) : image.flux = 0 := by
  simp [flux_eq_sum, get_of_blank hblank]

theorem get_addTo (image : Image ℝ) (i i' : Fin image.width) (j j' : Fin image.height)
    (value : ℝ) : (image.addTo i j value).pixels.get i' j' =
      image.pixels.get i' j' + if i = i' ∧ j = j' then value else 0 := by
  refine (Grid.get_modify image.pixels i i' j j' (· + value)).trans ?_
  split_ifs with h
  · obtain ⟨rfl, rfl⟩ := h
    rfl
  · rw [add_zero]

theorem flux_addTo (image : Image ℝ) (i : Fin image.width) (j : Fin image.height)
    (value : ℝ) : (image.addTo i j value).flux = image.flux + value := by
  have hsum : (image.addTo i j value).flux =
      ∑ j', ∑ i', (image.pixels.get i' j' + if i = i' ∧ j = j' then value else 0) := by
    rw [flux_eq_sum]
    exact Finset.sum_congr rfl fun j' _ =>
      Finset.sum_congr rfl fun i' _ => get_addTo image i i' j j' value
  rw [hsum, flux_eq_sum]
  simp only [Finset.sum_add_distrib, ite_and, Finset.sum_ite_eq, Finset.mem_univ, if_true]

section Arrival

variable {image : Image ℝ}

/-- Flux that arrives at a point is added to the pixel that covers it, or refused if there is
none. -/
theorem accumulate_eq (hscale : 0 < image.scale) (pixels : Grid image.width image.height ℝ)
    (x y value : ℝ) :
    ∃ pixels' : Grid image.width image.height ℝ,
      ({ image with pixels := pixels } : Image ℝ).accumulate x y value =
          ({ image with pixels := pixels' }, decide (∃ i j, image.Covers i j x y)) ∧
        ∀ i j, pixels'.get i j = pixels.get i j + if image.Covers i j x y then value else 0 := by
  -- the flux in the pixels has no part in finding the one that covers a point
  have hpixelAt : ({ image with pixels := pixels } : Image ℝ).pixelAt? x y =
      image.pixelAt? x y := rfl
  rw [accumulate, hpixelAt]
  cases hpixel : image.pixelAt? x y with
  | none =>
      have hnone := (pixelAt?_eq_none_iff hscale).1 hpixel
      refine ⟨pixels, by simp [hnone], ?_⟩
      intro i j
      rw [if_neg (hnone i j), add_zero]
  | some pixel =>
      obtain ⟨a, b⟩ := pixel
      have hcovers : image.Covers a b x y := (pixelAt?_eq_some_iff hscale).1 hpixel
      have hfound : ∃ i j, image.Covers i j x y := ⟨a, b, hcovers⟩
      refine ⟨_, by rw [decide_eq_true hfound]; rfl, fun i j =>
        (get_addTo { image with pixels := pixels } a i b j value).trans ?_⟩
      simp only [covers_iff_of_covers hscale hcovers, eq_comm]

/-- The flux of an image grows by what it takes. -/
theorem flux_accumulate (image : Image ℝ) (x y value : ℝ) :
    (image.accumulate x y value).1.flux =
      image.flux + if (image.accumulate x y value).2 then value else 0 := by
  rw [accumulate]
  cases image.pixelAt? x y with
  | none => simp
  | some pixel => exact flux_addTo image pixel.1 pixel.2 value

end Arrival

end Image

end Seeing
