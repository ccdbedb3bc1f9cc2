import Seeing.Proofs.Checks
import Seeing.Proofs.Image.Flux

/-!
# Flux that arrives at points

The flux that arrives at a point goes to the one pixel that covers the point, or is refused if the
point is not in the image: `Image.accumulate_eq`. The pixels tile the image,
`Image.exists_covers_iff`, so it is refused only there. What one arrival does a sequence of them
does, `Image.accumulateAll_eq`: each pixel grows by what arrives in it.
-/

namespace Seeing

namespace Image

section Places

variable {α : Type} [Scalar α]

/-- The number of whole pixels from the edge of an axis to a coordinate. -/
def placeOf (scale : α) (count : ℕ) (x : α) : α :=
  Scalar.floor (x / scale + Scalar.half * Scalar.ofNat count)

/-- The place of a coordinate passes the test of the bounds of an axis. -/
def Admits (scale : α) (count : ℕ) (x : α) : Prop :=
  ¬(placeOf scale count x < 0 ∨ Scalar.ofNat count ≤ placeOf scale count x)

/-- Flux that arrives at a point. -/
structure Deposit (α : Type) where
  /-- The abscissa of the point. -/
  x : α
  /-- The ordinate of the point. -/
  y : α
  /-- The flux. -/
  value : α

/-- The image after flux has arrived at some points, one after the other, and whether it was taken
each time. -/
def accumulateAll (image : Image α) : List (Deposit α) → Image α × List Bool
  | [] => (image, [])
  | d :: deposits =>
      let next := image.accumulate d.x d.y d.value
      let rest := next.1.accumulateAll deposits
      (rest.1, next.2 :: rest.2)

/-- A coordinate is counted to a pixel if it passes the test. -/
theorem place?_eq_some_iff_admits {scale x : α} {count : ℕ} {i : Fin count} :
    place? scale count x = some i ↔
      Admits scale count x ∧ Scalar.toNat (placeOf scale count x) = i := by
  simp only [place?, Admits, placeOf]
  split_ifs with hout hlt
  · simp [hout]
  · simp [hout, Fin.ext_iff]
  · simp only [false_iff, not_and]
    exact fun _ heq => hlt (heq ▸ i.isLt)

end Places

/-- The point lies in the image. -/
def Holds (image : Image ℝ) (x y : ℝ) : Prop :=
  (-(image.width * image.scale) / 2 ≤ x ∧ x < image.width * image.scale / 2) ∧
    -(image.height * image.scale) / 2 ≤ y ∧ y < image.height * image.scale / 2

noncomputable instance instDecidableHolds (image : Image ℝ) (x y : ℝ) :
    Decidable (image.Holds x y) :=
  inferInstanceAs (Decidable (_ ∧ _))

/-- The ways to come by an image. -/
inductive Made : Image ℝ → Prop where
  | blank {width height : ℕ} {scale : ℝ} {image : Image ℝ}
      (hblank : Image.blank width height scale = .ok image) : Made image
  | ofArray {width height : ℕ} {scale : ℝ} {values : Array ℝ} {image : Image ℝ}
      (hvalues : Image.ofArray width height scale values = .ok image) : Made image
  | resample {values : Array ℝ} {n count : ℕ} {gridScale scale : ℝ} {image : Image ℝ}
      (hresample : Image.resampleArray values n gridScale count scale = .ok image) : Made image

theorem Made.scale_pos {image : Image ℝ} (hmade : image.Made) : 0 < image.scale := by
  cases hmade with
  | blank hblank => exact (shape_of_blank hblank).1
  | @ofArray width height scale values _ hvalues =>
      rw [Image.ofArray, bind_eq_ok_iff] at hvalues
      obtain ⟨empty, hblank, hpixels⟩ := hvalues
      split at hpixels
      · cases hpixels
        exact (shape_of_blank hblank).1
      · cases hpixels
  | @resample values n count gridScale scale _ hresample =>
      rw [resampleArray] at hresample
      split at hresample
      · rw [Image.resample] at hresample
        split_ifs at hresample
        rw [bind_eq_ok_iff] at hresample
        obtain ⟨empty, hblank, hpixels⟩ := hresample
        cases hpixels
        exact (shape_of_blank hblank).1
      · cases hresample

section Reading

/-- A cell is found by counting whole rows. -/
theorem valueAt?_eq (image : Image ℝ) (i : Fin image.width) (j : Fin image.height) :
    image.valueAt? i j = some (image.pixels.get i j) :=
  Array.getElem?_eq_getElem _

theorem size_values (image : Image ℝ) : image.values.size = image.width * image.height := by
  rw [values, Grid.size_toArray, mul_comm]

end Reading

section Axis

variable {scale : ℝ} {count : ℕ} {x : ℝ}

theorem placeOf_eq (scale : ℝ) (count : ℕ) (x : ℝ) :
    placeOf scale count x = (⌊x / scale + 1 / 2 * count⌋ : ℤ) := by
  rw [placeOf, Scalar.real_half]
  rfl

/-- The test of the bounds lets no place through that is not on the axis. -/
theorem toNat_placeOf_lt (hadmits : Admits scale count x) :
    Scalar.toNat (placeOf scale count x) < count := by
  simp only [Admits, placeOf_eq, Scalar.real_lt, Scalar.real_le, Scalar.real_zero,
    Scalar.real_ofNat, not_or, not_lt, not_le] at hadmits
  obtain ⟨hnonneg, hlt⟩ := hadmits
  have hnonneg' : 0 ≤ x / scale + 1 / 2 * count := Int.floor_nonneg.1 (by exact_mod_cast hnonneg)
  rw [placeOf, Scalar.real_half]
  refine (Scalar.toNat_floor (x / scale + 1 / 2 * count)).trans_lt ((Nat.floor_lt hnonneg').2 ?_)
  exact_mod_cast Int.floor_lt.1 (by exact_mod_cast hlt)

theorem exists_place?_iff (hscale : 0 < scale) :
    (∃ i, place? scale count x = some i) ↔
      -(count * scale) / 2 ≤ x ∧ x < count * scale / 2 := by
  have hlower : 0 ≤ ⌊x / scale + 1 / 2 * count⌋ ↔ -(count * scale) / 2 ≤ x := by
    rw [Int.floor_nonneg, ← neg_le_iff_add_nonneg, le_div_iff₀ hscale]
    ring_nf
  have hupper : ⌊x / scale + 1 / 2 * count⌋ < (count : ℤ) ↔ x < count * scale / 2 := by
    rw [Int.floor_lt, Int.cast_natCast, ← lt_sub_iff_add_lt, div_lt_iff₀ hscale]
    ring_nf
  simp only [place?_eq_some_iff_floor]
  rw [← hlower, ← hupper]
  constructor
  · rintro ⟨i, hi⟩
    omega
  · rintro ⟨hnonneg, hlt⟩
    obtain ⟨k, hk⟩ := Int.eq_ofNat_of_zero_le hnonneg
    exact ⟨⟨k, by omega⟩, hk⟩

end Axis

section Arrivals

variable {image : Image ℝ} (hscale : 0 < image.scale)

include hscale in
/-- The pixels cover the image and nothing else. -/
theorem exists_covers_iff (x y : ℝ) : (∃ i j, image.Covers i j x y) ↔ image.Holds x y := by
  simp only [Covers, Holds, ← exists_place?_iff hscale, ← place?_eq_some_iff hscale,
    exists_and_left, exists_and_right]

include hscale in
/-- After any sequence of arrivals every pixel has grown by what arrived in it. -/
theorem accumulateAll_eq (pixels : Grid image.width image.height ℝ)
    (deposits : List (Deposit ℝ)) :
    ∃ pixels' : Grid image.width image.height ℝ,
      ({ image with pixels := pixels } : Image ℝ).accumulateAll deposits =
          ({ image with pixels := pixels' }, deposits.map fun d => decide (image.Holds d.x d.y)) ∧
        (∀ i j, pixels'.get i j = pixels.get i j +
          ((deposits.filter fun d => image.Covers i j d.x d.y).map (·.value)).sum) ∧
        ({ image with pixels := pixels' } : Image ℝ).flux =
          ({ image with pixels := pixels } : Image ℝ).flux +
            ((deposits.filter fun d => image.Holds d.x d.y).map (·.value)).sum := by
  induction deposits generalizing pixels with
  | nil => exact ⟨pixels, rfl, by simp, by simp⟩
  | cons d deposits ih =>
      obtain ⟨next, hnext, hget⟩ := accumulate_eq hscale pixels d.x d.y d.value
      simp only [exists_covers_iff hscale] at hnext
      obtain ⟨pixels', hrest, hget', hflux'⟩ := ih next
      have hflux := flux_accumulate { image with pixels := pixels } d.x d.y d.value
      rw [hnext] at hflux
      refine ⟨pixels', by rw [accumulateAll, hnext, hrest]; rfl, ?_, ?_⟩
      · intro i j
        rw [hget', hget, List.filter_cons]
        split_ifs <;> simp_all [add_assoc]
      · rw [hflux', hflux, List.filter_cons]
        by_cases hholds : image.Holds d.x d.y <;> simp [hholds, add_assoc]

end Arrivals

/-- What the image makes of flux that arrives at a point. -/
structure Takes (image : Image ℝ) (x y value : ℝ) : Prop where
  /-- What passes the test of the bounds is counted to a cell of the image. -/
  index_lt : Admits image.scale image.width x → Admits image.scale image.height y →
    Scalar.toNat (placeOf image.scale image.height y) * image.width +
      Scalar.toNat (placeOf image.scale image.width x) < image.values.size
  hit : image.Holds x y → ∃ i j, (∀ i' j', image.Covers i' j' x y ↔ i' = i ∧ j' = j) ∧
    ∃ pixels : Grid image.width image.height ℝ,
      image.accumulate x y value = ({ image with pixels := pixels }, true) ∧
      pixels.get i j = image.pixels.get i j + value ∧
      ∀ i' j', ¬(i' = i ∧ j' = j) → pixels.get i' j' = image.pixels.get i' j'
  miss : ¬image.Holds x y → image.accumulate x y value = (image, false)

theorem takes {image : Image ℝ} (hscale : 0 < image.scale) (x y value : ℝ) :
    image.Takes x y value where
  index_lt hx hy := by
    rw [values, Grid.size_toArray]
    exact Grid.index_lt ⟨_, toNat_placeOf_lt hx⟩ ⟨_, toNat_placeOf_lt hy⟩
  hit hholds := by
    obtain ⟨pixels, haccumulate, hget⟩ := accumulate_eq hscale image.pixels x y value
    obtain ⟨i, j, hcovers⟩ := (exists_covers_iff hscale x y).2 hholds
    have hunique := covers_iff_of_covers hscale hcovers
    refine ⟨i, j, hunique, pixels, ?_, ?_, ?_⟩
    · have hfound : ∃ i j, image.Covers i j x y := ⟨i, j, hcovers⟩
      rw [decide_eq_true hfound] at haccumulate
      exact haccumulate
    · rw [hget, if_pos hcovers]
    · intro i' j' hne
      rw [hget, if_neg fun hcovers' => hne ((hunique i' j').1 hcovers'), add_zero]
  miss hholds := by
    rw [accumulate, (pixelAt?_eq_none_iff hscale).2]
    rintro i j hcovers
    exact hholds ((exists_covers_iff hscale x y).1 ⟨i, j, hcovers⟩)

/-- Whatever has arrived at an image, it has kept its pixels and each of them can be read. It has
grown by what it has taken, each pixel by what has arrived in it, and it takes what arrives next. -/
theorem accumulateAll_of_made {image : Image ℝ} (hmade : image.Made)
    (before : List (Deposit ℝ)) :
    ∃ pixels : Grid image.width image.height ℝ,
      let now : Image ℝ := { image with pixels := pixels }
      image.accumulateAll before = (now, before.map fun d => decide (image.Holds d.x d.y)) ∧
        now.values.size = image.width * image.height ∧
        (∀ (i : Fin image.width) (j : Fin image.height),
          now.valueAt? i j = some (image.pixels.get i j +
            ((before.filter fun d => image.Covers i j d.x d.y).map (·.value)).sum)) ∧
        now.flux = image.flux +
          ((before.filter fun d => image.Holds d.x d.y).map (·.value)).sum ∧
        ∀ x y value, now.Takes x y value := by
  have hscale := hmade.scale_pos
  obtain ⟨pixels, hbefore, hget, hflux⟩ := accumulateAll_eq hscale image.pixels before
  refine ⟨pixels, hbefore, size_values _, ?_, hflux, takes hscale⟩
  intro i j
  rw [← hget]
  exact valueAt?_eq { image with pixels := pixels } i j

/-- Of two arrivals at the edges of three by two pixels the one at the lower edge is taken. -/
theorem accumulateAll_of_made_edges :
    ∃ image : Image ℝ, blank 3 2 (1 / 2) = .ok image ∧ image.Made ∧
      (image.accumulateAll [⟨-3 / 4, 2 / 5, 2⟩, ⟨3 / 4, 0, 5⟩]).2 = [true, false] ∧
      (image.accumulateAll [⟨-3 / 4, 2 / 5, 2⟩, ⟨3 / 4, 0, 5⟩]).1.flux = 2 := by
  have hblank := blank_eq_ok_iff.2 ⟨three_pos, two_pos, one_half_pos (α := ℝ), rfl⟩
  obtain ⟨pixels, hall, -, -, hflux, -⟩ :=
    accumulateAll_of_made (.blank hblank) [⟨-3 / 4, 2 / 5, 2⟩, ⟨3 / 4, 0, 5⟩]
  refine ⟨_, hblank, .blank hblank, ?_, ?_⟩
  · rw [hall]
    norm_num [Holds]
  · rw [hall, hflux, flux_of_blank hblank]
    norm_num [Holds]

end Image

end Seeing
