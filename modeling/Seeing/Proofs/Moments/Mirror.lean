import Seeing.Proofs.Moments.Bounds
import Seeing.Proofs.Moments.Copy

/-!
# Fits to mirrored images

The pixels of an axis go from zero to one less than their number, and a mirror takes the
one end to the other. The bounds of a centre go from zero to the number. So a centre
beyond the last pixel, by up to one, is in bounds, and its mirror image before the first
pixel is not: `isOutside_mirror_ne_iff`. At such a centre the fit to an image goes on and
the fit to the mirror image ends, or the other way around. That is all that can set them
apart, `find_mirrored_iff`, and it takes negative pixels. Three columns of 1, -3 and 7 do
it in a single iteration.
-/

namespace Seeing

/-- The image with its columns in reverse order. -/
def Image.mirrored {α : Type} (image : Image α) : Image α :=
  { image with pixels := .ofFn fun i j => image.pixels.get i.rev j }

/-- The image with its rows in reverse order. -/
def Image.flipped {α : Type} (image : Image α) : Image α :=
  { image with pixels := .ofFn fun i j => image.pixels.get i j.rev }

/-- The shape in the image with its columns in reverse order. -/
noncomputable def Shape.mirrored (width : ℕ) (s : Shape ℝ) : Shape ℝ :=
  { s with centre := (width - 1 - s.centre.1, s.centre.2), e2 := -s.e2 }

/-- The shape in the image with its rows in reverse order. -/
noncomputable def Shape.flipped (height : ℕ) (s : Shape ℝ) : Shape ℝ :=
  { s with centre := (s.centre.1, height - 1 - s.centre.2), e2 := -s.e2 }

theorem natCast_rev_real {n : ℕ} (i : Fin n) : ((i.rev : ℕ) : ℝ) = n - 1 - i := by
  rw [Fin.val_rev, Nat.cast_sub i.isLt, Nat.cast_succ]
  ring

namespace Copy

variable (image : Image ℝ)

/-- The image with its columns in reverse order, as a copy. -/
noncomputable def mirror : Copy image image.mirrored where
  motion := .mirror (image.width - 1)
  gain := 1
  gain_pos := Real.zero_lt_one
  pixel := ⟨fun p => (p.1.rev, p.2), fun p => (p.1.rev, p.2),
    fun p => Prod.ext (Fin.rev_rev p.1) rfl, fun p => Prod.ext (Fin.rev_rev p.1) rfl⟩
  place_pixel p := by
    rw [Motion.place_mirror, ← natCast_rev_real]
    rfl
  get_pixel p := (Grid.get_ofFn _ p.1.rev p.2).trans (by rw [Fin.rev_rev, one_mul])

/-- The image with its rows in reverse order, as a copy. -/
noncomputable def flip : Copy image image.flipped where
  motion := .flip (image.height - 1)
  gain := 1
  gain_pos := Real.zero_lt_one
  pixel := ⟨fun p => (p.1, p.2.rev), fun p => (p.1, p.2.rev),
    fun p => Prod.ext rfl (Fin.rev_rev p.2), fun p => Prod.ext rfl (Fin.rev_rev p.2)⟩
  place_pixel p := by
    rw [Motion.place_flip, ← natCast_rev_real]
    rfl
  get_pixel p := (Grid.get_ofFn _ p.1 p.2.rev).trans (by rw [Fin.rev_rev, one_mul])

theorem motion_mirror : (mirror image).motion = .mirror (image.width - 1) := rfl

theorem motion_flip : (flip image).motion = .flip (image.height - 1) := rfl

theorem shape_mirror : (mirror image).shape = Shape.mirrored image.width := by
  funext s
  rw [shape, motion_mirror, Motion.place_mirror]
  simp [mirror, Shape.mirrored, Motion.parity, Motion.sense, Motion.mirror]

theorem shape_flip : (flip image).shape = Shape.flipped image.height := by
  funext s
  rw [shape, motion_flip, Motion.place_flip]
  simp [flip, Shape.flipped, Motion.parity, Motion.sense, Motion.flip]

end Copy

namespace MomentsFit

/-- A place on an axis of `count` pixels that is in bounds only as it is or only mirrored: before
the first pixel or beyond the last one, by up to one. -/
def OnBrink (count : ℕ) (x : ℝ) : Prop := (-1 ≤ x ∧ x < 0) ∨ (count - 1 < x ∧ x ≤ count)

/-- A weight on whose bounds an image and the one with reversed columns disagree. -/
def OverhangsX (image : Image ℝ) (v : Weight ℝ) : Prop :=
  OnBrink image.width v.x ∧ (0 ≤ v.y ∧ v.y ≤ image.height) ∧
    v.covariance.trace ≤ (max image.width image.height : ℕ) ^ 2

/-- A weight on whose bounds an image and the one with reversed rows disagree. -/
def OverhangsY (image : Image ℝ) (v : Weight ℝ) : Prop :=
  OnBrink image.height v.y ∧ (0 ≤ v.x ∧ v.x ≤ image.width) ∧
    v.covariance.trace ≤ (max image.width image.height : ℕ) ^ 2

section Bounds

variable {fit : MomentsFit ℝ} {image : Image ℝ} {v : Weight ℝ}

theorem onBrink_iff {count : ℕ} (hcount : 0 < count) {x : ℝ} :
    OnBrink count x ↔
      ¬((0 ≤ count - 1 - x ∧ count - 1 - x ≤ count) ↔ (0 ≤ x ∧ x ≤ count)) := by
  have hone : (1 : ℝ) ≤ count := Nat.one_le_cast.2 hcount
  constructor
  · rintro (⟨hlo, hhi⟩ | ⟨hlo, hhi⟩) hiff
    · exact absurd (hiff.1 ⟨by linarith, by linarith⟩).1 (by linarith)
    · exact absurd (hiff.2 ⟨by linarith, by linarith⟩).1 (by linarith)
  · intro hne
    by_contra hbrink
    rw [OnBrink, not_or, not_and_or, not_and_or, not_le, not_lt, not_lt, not_le] at hbrink
    apply hne
    constructor
    · rintro ⟨hlo, hhi⟩
      obtain ⟨hbefore | hbefore, -⟩ := hbrink <;> constructor <;> linarith
    · rintro ⟨hlo, hhi⟩
      obtain ⟨-, hbeyond | hbeyond⟩ := hbrink <;> constructor <;> linarith

theorem isOutside_mirror_ne_iff :
    isOutside image.mirrored ((Copy.mirror image).motion.weight v) ≠ isOutside image v ↔
      OverhangsX image v := by
  have hmirrored : isOutside image.mirrored ((Copy.mirror image).motion.weight v) = false ↔
      (0 ≤ image.width - 1 - v.x ∧ image.width - 1 - v.x ≤ image.width) ∧
        (0 ≤ v.y ∧ v.y ≤ image.height) ∧
          v.covariance.trace ≤ (max image.width image.height : ℕ) ^ 2 := by
    rw [isOutside_eq_false_iff, Motion.weight, Copy.motion_mirror, Motion.place_mirror,
      Motion.trace_turn]
    rfl
  rw [ne_eq, isOutside_eq_iff, hmirrored, isOutside_eq_false_iff, and_congr_left_iff,
    Classical.not_imp, and_comm, OverhangsX, onBrink_iff image.width_pos]

theorem isOutside_flip_ne_iff :
    isOutside image.flipped ((Copy.flip image).motion.weight v) ≠ isOutside image v ↔
      OverhangsY image v := by
  have hflipped : isOutside image.flipped ((Copy.flip image).motion.weight v) = false ↔
      (0 ≤ image.height - 1 - v.y ∧ image.height - 1 - v.y ≤ image.height) ∧
        (0 ≤ v.x ∧ v.x ≤ image.width) ∧
          v.covariance.trace ≤ (max image.width image.height : ℕ) ^ 2 := by
    rw [isOutside_eq_false_iff, Motion.weight, Copy.motion_flip, Motion.place_flip,
      Motion.trace_turn, and_left_comm]
    rfl
  rw [ne_eq, isOutside_eq_iff, hflipped, isOutside_eq_false_iff.trans and_left_comm,
    and_congr_left_iff, Classical.not_imp, and_comm, OverhangsY, onBrink_iff image.height_pos]

/-- Without negative pixels all weights that a fit tests are confined. -/
theorem Tests.confined (hpixels : ∀ i j, 0 ≤ image.pixels.get i j)
    (hv : fit.Tests image v) : Confined image v := by
  obtain ⟨n, w, -, -, inverse, -, hflux, -, rfl⟩ := hv
  exact confined_moved hpixels (by simpa using hflux)

theorem Confined.not_overhangsX (hv : Confined image v) : ¬OverhangsX image v := by
  rintro ⟨⟨-, hbefore⟩ | ⟨hbeyond, -⟩, -⟩
  · exact absurd hv.x_nonneg (not_le.2 hbefore)
  · exact absurd hv.x_le (not_le.2 hbeyond)

theorem Confined.not_overhangsY (hv : Confined image v) : ¬OverhangsY image v := by
  rintro ⟨⟨-, hbefore⟩ | ⟨hbeyond, -⟩, -⟩
  · exact absurd hv.y_nonneg (not_le.2 hbefore)
  · exact absurd hv.y_le (not_le.2 hbeyond)

end Bounds

/-- A fit to the image with its columns in reverse order fails in the same way or finds the
mirrored shape, unless the fit to the image tests a weight that overhangs and only one of the two
fits ends out of bounds. The same holds of the rows. Without negative pixels it is always so. -/
theorem find_mirrored_iff (fit : MomentsFit ℝ) (image : Image ℝ) :
    (fit.find image.mirrored = (fit.find image).map (Shape.mirrored image.width) ↔
      ∀ v, fit.Tests image v → OverhangsX image v →
        fit.find image = .error .outOfBounds ∧
          fit.find image.mirrored = .error .outOfBounds) ∧
    (fit.find image.flipped = (fit.find image).map (Shape.flipped image.height) ↔
      ∀ v, fit.Tests image v → OverhangsY image v →
        fit.find image = .error .outOfBounds ∧
          fit.find image.flipped = .error .outOfBounds) ∧
    ((∀ i j, 0 ≤ image.pixels.get i j) →
      fit.find image.mirrored = (fit.find image).map (Shape.mirrored image.width) ∧
        fit.find image.flipped = (fit.find image).map (Shape.flipped image.height)) := by
  have hmirror := (Copy.mirror image).find_eq_map_iff fit
  have hflip := (Copy.flip image).find_eq_map_iff fit
  simp only [Copy.shape_mirror, isOutside_mirror_ne_iff] at hmirror
  simp only [Copy.shape_flip, isOutside_flip_ne_iff] at hflip
  refine ⟨hmirror, hflip, fun hpixels => ⟨hmirror.2 ?_, hflip.2 ?_⟩⟩
  · intro v htests hoverhangs
    exact absurd hoverhangs (htests.confined hpixels).not_overhangsX
  · intro v htests hoverhangs
    exact absurd hoverhangs (htests.confined hpixels).not_overhangsY

/-- Four equal pixels have mirrored shapes. -/
theorem find_mirrored_iff_fourPixels : (∀ i j, 0 ≤ fourPixels.pixels.get i j) ∧
    ∃ s, ({} : MomentsFit ℝ).find fourPixels = .ok s ∧
      ({} : MomentsFit ℝ).find fourPixels.mirrored = .ok (s.mirrored 2) ∧
      ({} : MomentsFit ℝ).find fourPixels.flipped = .ok (s.flipped 2) := by
  obtain ⟨s, hs⟩ := find_fourPixels
  obtain ⟨-, -, hboth⟩ := find_mirrored_iff {} fourPixels
  obtain ⟨hmirrored, hflipped⟩ := hboth fourPixels_nonneg
  rw [hs] at hmirrored hflipped
  exact ⟨fourPixels_nonneg, s, hs, hmirrored, hflipped⟩

section Brink

/-- Two equal rows of the three pixels 1, -3 and 7. -/
noncomputable def brinkPixels : Image ℝ where
  width := 3
  height := 2
  scale := 1
  pixels := .ofFn fun i _ => (![1, -3, 7] i : ℤ)
  width_pos := Nat.succ_pos 2
  height_pos := Nat.two_pos

/-- A single iteration that starts from a wide weight. -/
noncomputable def brinkFit : MomentsFit ℝ := { maxIterations := 1, guess := some (100 : ℕ) }

/-- The weight that it starts from. -/
noncomputable def brinkWeight : Weight ℝ :=
  ⟨(7 / 4 : ℚ), (1 / 2 : ℚ), ⟨(10000 : ℕ), 0, (10000 : ℕ)⟩⟩

theorem brinkWeight_eq : brinkWeight = ⟨7 / 4, 1 / 2, ⟨10000, 0, 10000⟩⟩ := by
  norm_num [brinkWeight]

/-- The pixels as values of a polynomial at their columns. -/
theorem get_brinkPixels (p : Fin brinkPixels.width × Fin brinkPixels.height) :
    brinkPixels.pixels.get p.1 p.2 = 7 * p.1 ^ 2 - 11 * p.1 + 1 := by
  have hcolumn : ∀ i : Fin 3, ((![1, -3, 7] i : ℤ) : ℝ) = 7 * (i : ℝ) ^ 2 - 11 * i + 1 := by
    intro i
    fin_cases i <;> norm_num
  exact (Grid.get_ofFn _ p.1 p.2).trans (hcolumn p.1)

theorem sum_brinkPixels (f : ℝ → ℝ → ℝ) :
    ∑ p : Fin brinkPixels.width × Fin brinkPixels.height, f p.1 p.2 =
      f 0 0 + f 0 1 + (f 1 0 + f 1 1) + (f 2 0 + f 2 1) := by
  change ∑ p : Fin 3 × Fin 2, f p.1 p.2 = _
  rw [Fintype.sum_prod_type]
  simp [Fin.sum_univ_three, Fin.sum_univ_two]

theorem initial_brinkPixels : brinkFit.initial brinkPixels = .ok brinkWeight := by
  have hsums : positiveSums brinkPixels = (16, 28, 8) := by
    rw [positiveSums_eq]
    simp only [positivePart, get_brinkPixels]
    rw [sum_brinkPixels fun x _ => max (7 * x ^ 2 - 11 * x + 1) 0,
      sum_brinkPixels fun x _ => x * max (7 * x ^ 2 - 11 * x + 1) 0,
      sum_brinkPixels fun x y => y * max (7 * x ^ 2 - 11 * x + 1) 0]
    norm_num
  rw [initial, hsums]
  simp only [brinkFit, brinkWeight, Scalar.real_one, Scalar.real_zero, one_mul, zero_mul]
  rw [if_neg (by simp)]
  norm_num

/-- The share of a column that the wide weight takes. -/
noncomputable def brinkShare (x : ℝ) : ℝ :=
  Real.exp (-(1 / 2) * (((x - brinkWeight.x) ^ 2 + (1 / 2) ^ 2) / brinkWeight.covariance.xx))

/-- It is nearly all of the column. -/
theorem brinkShare_bounds {x : ℝ} (hx : (x - 7 / 4) ^ 2 ≤ 4) :
    1 - 1 / 1000 ≤ brinkShare x ∧ brinkShare x ≤ 1 := by
  have hexp := Real.add_one_le_exp (-(1 / 2) * (((x - 7 / 4) ^ 2 + (1 / 2) ^ 2) / 10000))
  have hsquare := sq_nonneg (x - 7 / 4)
  rw [brinkShare, brinkWeight_eq]
  exact ⟨by linarith, Real.exp_le_one_iff.2 (by linarith)⟩

theorem weighted_brinkPixels (p : Fin brinkPixels.width × Fin brinkPixels.height) :
    weighted brinkPixels brinkWeight brinkWeight.covariance.inverse p =
      (7 * p.1 ^ 2 - 11 * p.1 + 1) * brinkShare p.1 := by
  have hdistance : distance brinkPixels brinkWeight brinkWeight.covariance.inverse p =
      ((p.1 - 7 / 4) ^ 2 + (1 / 2) ^ 2) / 10000 := by
    obtain ⟨i, j⟩ := p
    rw [distance, Covariance.quadratic_eq, Covariance.inverse, Covariance.det_eq, brinkWeight_eq]
    fin_cases j <;> (norm_num; ring)
  have hreach : ¬reach < distance brinkPixels brinkWeight brinkWeight.covariance.inverse p := by
    rw [hdistance, not_lt, real_reach]
    obtain ⟨i, j⟩ := p
    fin_cases i <;> norm_num
  rw [weighted, if_neg hreach, hdistance, get_brinkPixels, brinkShare, brinkWeight_eq]

/-- The sums over two equal rows with the given weighted pixels. -/
noncomputable def brinkSums (p q r : ℝ) : WeightedSums ℝ :=
  let d (x : ℝ) : ℝ := x - brinkWeight.x
  ⟨2 * (p + q + r), 2 * (d 0 * p + d 1 * q + d 2 * r), 0,
    ⟨2 * (d 0 ^ 2 * p + d 1 ^ 2 * q + d 2 ^ 2 * r), 0, (p + q + r) / 2⟩⟩

theorem sumsUnder_brinkPixels :
    sumsUnder brinkPixels brinkWeight brinkWeight.covariance.inverse =
      brinkSums (brinkShare 0) (-3 * brinkShare 1) (7 * brinkShare 2) := by
  have hsum : ∀ f : ℝ → ℝ → ℝ, ∑ p : Fin brinkPixels.width × Fin brinkPixels.height,
      f p.1 p.2 * weighted brinkPixels brinkWeight brinkWeight.covariance.inverse p =
        (f 0 0 + f 0 1) * brinkShare 0 + (f 1 0 + f 1 1) * (-3 * brinkShare 1) +
          (f 2 0 + f 2 1) * (7 * brinkShare 2) := by
    intro f
    simp only [weighted_brinkPixels]
    rw [sum_brinkPixels fun x y => f x y * ((7 * x ^ 2 - 11 * x + 1) * brinkShare x)]
    ring
  have hflux := hsum fun _ _ => 1
  simp only [one_mul] at hflux
  rw [sumsUnder_eq, hflux, hsum fun x _ => x - brinkWeight.x, hsum fun _ y => y - brinkWeight.y,
    hsum fun x _ => (x - brinkWeight.x) * (x - brinkWeight.x),
    hsum fun x y => (x - brinkWeight.x) * (y - brinkWeight.y),
    hsum fun _ y => (y - brinkWeight.y) * (y - brinkWeight.y), brinkSums, brinkWeight_eq]
  simp only [WeightedSums.mk.injEq, Covariance.mk.injEq]
  refine ⟨?_, ?_, ?_, ?_, ?_, ?_⟩ <;> ring

theorem covariance_brinkSums {p q r : ℝ} (hflux : p + q + r ≠ 0) :
    (brinkSums p q r).covariance =
      ⟨2 * (p * q + 4 * (p * r) + q * r) / (p + q + r) ^ 2, 0, 1 / 2⟩ := by
  simp only [WeightedSums.covariance, WeightedSums.shift, brinkSums, Scalar.real_div,
    Scalar.real_mul, Scalar.real_sub, Scalar.real_literal, zero_div, mul_zero, sub_zero,
    zero_mul, Covariance.mk.injEq, true_and]
  constructor
  · field_simp
    ring
  · field_simp

theorem moved_brinkSums {p q r : ℝ} (hflux : p + q + r ≠ 0) :
    (brinkWeight.moved (brinkSums p q r)).x = 2 - (2 * p + q) / (p + q + r) ∧
      (brinkWeight.moved (brinkSums p q r)).y = 1 / 2 := by
  simp only [Weight.moved, WeightedSums.shift, brinkSums, brinkWeight_eq, Scalar.real_add,
    Scalar.real_div, zero_div, add_zero, and_true]
  field_simp
  ring

/-- The iteration moves beyond the last column, by less than one. -/
theorem movesTo_brinkPixels : ∃ v, MovesTo brinkPixels brinkWeight v ∧ 2 < v.x ∧ v.x ≤ 3 ∧
    v.y = 1 / 2 ∧ v.covariance.trace ≤ 9 := by
  obtain ⟨ha, ha'⟩ : 1 - 1 / 1000 ≤ brinkShare 0 ∧ brinkShare 0 ≤ 1 :=
    brinkShare_bounds (by norm_num)
  obtain ⟨hb, hb'⟩ : 1 - 1 / 1000 ≤ brinkShare 1 ∧ brinkShare 1 ≤ 1 :=
    brinkShare_bounds (by norm_num)
  obtain ⟨hc, hc'⟩ : 1 - 1 / 1000 ≤ brinkShare 2 ∧ brinkShare 2 ≤ 1 :=
    brinkShare_bounds (by norm_num)
  have hsums := sumsUnder_brinkPixels
  generalize brinkShare 0 = a, brinkShare 1 = b, brinkShare 2 = c at ha ha' hb hb' hc hc' hsums
  have hflux : 4 < a + -3 * b + 7 * c := by linarith
  have hflux₀ : a + -3 * b + 7 * c ≠ 0 := by linarith
  have hab : a * b ≤ 1 := mul_le_one₀ ha' (by linarith) hb'
  have hbc : b * c ≤ 1 := mul_le_one₀ hb' (by linarith) hc'
  have hac : (1 - 1 / 1000) * (1 - 1 / 1000) ≤ a * c :=
    mul_le_mul ha hc (by norm_num) (by linarith)
  have hspread : 0 < 2 * (a * (-3 * b) + 4 * (a * (7 * c)) + -3 * b * (7 * c)) /
      (a + -3 * b + 7 * c) ^ 2 := div_pos (by linarith) (pow_pos (by linarith) 2)
  obtain ⟨hx, hy⟩ := moved_brinkSums hflux₀
  have hcovariance := covariance_brinkSums hflux₀
  rw [← hsums] at hx hy hcovariance
  refine ⟨_, ⟨brinkWeight.covariance.inverse, ?_, ?_, ?_, rfl⟩, ?_, ?_, hy, ?_⟩
  · refine (Covariance.inverse?_eq_some_iff _).2 ⟨?_, rfl⟩
    norm_num [brinkWeight_eq, Covariance.det_eq]
  · rw [hsums, Scalar.real_zero, brinkSums]
    linarith
  · rw [hcovariance, Covariance.isPositive_iff_trace, Covariance.trace_eq, Covariance.det_eq]
    exact ⟨by linarith, by linarith⟩
  · have hstep : (2 * a + -3 * b) / (a + -3 * b + 7 * c) < 0 :=
      div_neg_of_neg_of_pos (by linarith) (by linarith)
    linarith
  · have hstep : -1 ≤ (2 * a + -3 * b) / (a + -3 * b + 7 * c) := by
      rw [le_div_iff₀ (by linarith)]
      linarith
    linarith
  · have hxx : 2 * (a * (-3 * b) + 4 * (a * (7 * c)) + -3 * b * (7 * c)) /
        (a + -3 * b + 7 * c) ^ 2 ≤ 8 := by
      have hsquare : 4 ^ 2 ≤ (a + -3 * b + 7 * c) ^ 2 := by gcongr
      have hac' : a * c ≤ 1 := mul_le_one₀ ha' (by linarith) hc'
      have hab' : 0 ≤ a * b := mul_nonneg (by linarith) (by linarith)
      have hbc' : 0 ≤ b * c := mul_nonneg (by linarith) (by linarith)
      rw [div_le_iff₀ (by positivity)]
      linarith
    rw [Weight.moved, hcovariance, Covariance.trace_eq]
    linarith

/-- A fit that ends beyond the last column of an image, and the fit to the mirror image, which is
out of bounds. -/
theorem find_mirrored_ne_brinkPixels :
    brinkFit.find brinkPixels ≠ .error .outOfBounds ∧
      brinkFit.find brinkPixels.mirrored = .error .outOfBounds ∧
      brinkFit.find brinkPixels.mirrored ≠
        (brinkFit.find brinkPixels).map (Shape.mirrored brinkPixels.width) := by
  obtain ⟨v, hmoves, hx, hx', hy, htrace⟩ := movesTo_brinkPixels
  have hfirst : brinkFit.Reaches brinkPixels 0 brinkWeight :=
    reaches_zero_iff.2 initial_brinkPixels
  have hinside : isOutside brinkPixels v = false := by
    refine isOutside_eq_false_iff.2 ⟨⟨by linarith, hx'.trans ?_⟩, ⟨?_, ?_⟩, htrace.trans ?_⟩
    · norm_num [brinkPixels]
    · rw [hy]
      norm_num
    · rw [hy]
      norm_num [brinkPixels]
    · norm_num [brinkPixels]
  have hbeyond : OverhangsX brinkPixels v :=
    ⟨.inr ⟨by norm_num [brinkPixels]; linarith, (isOutside_eq_false_iff.1 hinside).1.2⟩,
      (isOutside_eq_false_iff.1 hinside).2⟩
  have hstays : brinkFit.find brinkPixels ≠ .error .outOfBounds := by
    intro hfind
    obtain hinitial | ⟨w, -, hbudget⟩ | ⟨n, w, hn, hw, hstep⟩ := find_eq_error_iff_step.1 hfind
    · cases initial_brinkPixels.symm.trans hinitial
    · cases hbudget
    · obtain rfl : n = 0 := Nat.lt_one_iff.1 hn
      obtain rfl := Except.ok.inj (initial_brinkPixels.symm.trans (reaches_zero_iff.1 hw))
      obtain ⟨settled, hmoved⟩ := hmoves.step_eq brinkFit
      rw [hstep, hinside] at hmoved
      cases hmoved
  have hleaves : brinkFit.find brinkPixels.mirrored = .error .outOfBounds := by
    refine ((Copy.mirror brinkPixels).movesTo_copy hmoves).find_eq_outOfBounds Nat.one_pos
      (hfirst.map ((Copy.mirror brinkPixels).initial_copy brinkFit) ?_) ?_
    · exact fun k _ hk => absurd hk (Nat.not_lt_zero k)
    · have hne := isOutside_mirror_ne_iff.2 hbeyond
      rwa [hinside, ne_eq, Bool.not_eq_false] at hne
  exact ⟨hstays, hleaves, fun hlaw =>
    hstays (eq_error_of_map_eq_error (hlaw.symm.trans hleaves))⟩

end Brink

end MomentsFit

end Seeing
