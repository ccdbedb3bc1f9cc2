import Seeing.Proofs.Moments.Bounds

/-!
# The shape that a fit reports

Whatever the signs of the pixels, a weight that has passed the tests of an iteration has
a positive definite covariance, with a trace below the square of the longer side, and a
centre in the image: `tested_of_step`. The size and the ellipticities are functions of
that covariance, and its determinant ties them to each other.
-/

namespace Seeing

namespace Covariance

variable {m : Covariance ℝ}

/-- The square root of the determinant is at most half of the trace. -/
theorem IsPositive.sqrt_det_le (hm : m.IsPositive) : √m.det ≤ m.trace / 2 := by
  apply Real.sqrt_le_iff.2
  refine ⟨(half_pos hm.trace_pos).le, ?_⟩
  rw [det_eq, trace_eq]
  nlinarith [sq_nonneg (m.xx - m.yy), mul_self_nonneg m.xy]

/-- The ellipticities, by the determinant and the trace. -/
theorem IsPositive.ellipticity_eq (hm : m.IsPositive) :
    ((m.xx - m.yy) / m.trace) ^ 2 + (2 * m.xy / m.trace) ^ 2 =
      1 - 4 * m.det / m.trace ^ 2 := by
  have htrace := hm.trace_pos.ne'
  field_simp
  rw [det_eq, trace_eq]
  ring

end Covariance

namespace MomentsFit

/-- What the tests of an iteration leave: a positive definite covariance, bounded by the
longer side of the image, and a centre in the image. -/
structure Tested (image : Image ℝ) (w : Weight ℝ) : Prop where
  isPositive : w.covariance.IsPositive
  x_nonneg : 0 ≤ w.x
  x_le : w.x ≤ image.width
  y_nonneg : 0 ≤ w.y
  y_le : w.y ≤ image.height
  trace_le : w.covariance.trace ≤ (max image.width image.height : ℕ) ^ 2

variable {fit : MomentsFit ℝ} {image : Image ℝ} {w v : Weight ℝ}

theorem tested_of_step {settled : Bool} (hstep : fit.step image w = .ok (v, settled)) :
    Tested image v := by
  obtain ⟨inverse, -, -, hpositive, houtside, rfl, -⟩ := step_eq_ok_iff.1 hstep
  obtain ⟨⟨hx, hwidth⟩, ⟨hy, hheight⟩, htrace⟩ := isOutside_eq_false_iff.1 houtside
  exact ⟨hpositive, hx, hwidth, hy, hheight, htrace⟩

section Shape

variable {s : Shape ℝ} {iterations : ℕ}

theorem size_sq_of_shapeOf (hw : Tested image w) (hs : shapeOf image w iterations = .ok s) :
    0 < s.size ∧ s.size ^ 2 = √w.covariance.det := by
  have hdet := (Covariance.isPositive_iff.1 hw.isPositive).2
  have hsize : s.size = w.covariance.det ^ (1 / 4 : ℝ) := by
    obtain ⟨inverse, -, heq⟩ := shapeOf_eq_ok_iff.1 hs
    rw [heq]
    simp only [Scalar.real_pow, Scalar.real_decimal]
    norm_num
  rw [hsize]
  refine ⟨Real.rpow_pos_of_pos hdet _, ?_⟩
  rw [← Real.rpow_natCast, ← Real.rpow_mul hdet.le, Real.sqrt_eq_rpow]
  norm_num

theorem ellipticity_of_shapeOf (hw : Tested image w)
    (hs : shapeOf image w iterations = .ok s) :
    s.e1 ^ 2 + s.e2 ^ 2 = 1 - 4 * s.size ^ 4 / w.covariance.trace ^ 2 := by
  have hfourth : s.size ^ 4 = w.covariance.det := by
    have hdet := (Covariance.isPositive_iff.1 hw.isPositive).2
    calc
      s.size ^ 4 = (s.size ^ 2) ^ 2 := by ring
      _ = w.covariance.det := by
        rw [(size_sq_of_shapeOf hw hs).2, Real.sq_sqrt hdet.le]
  obtain ⟨inverse, -, heq⟩ := shapeOf_eq_ok_iff.1 hs
  rw [hfourth, ← hw.isPositive.ellipticity_eq, heq]

end Shape

/-- The shape of any image for which there is one: it takes between one and the largest
number of iterations, has a positive size, bounded by the longer side, a centre in the
image and an ellipticity below one, which the size and the trace of the last covariance
determine. Only the first weight of a fit can lack an inverse. -/
theorem find_shape (fit : MomentsFit ℝ) (image : Image ℝ) :
    (∀ s, fit.find image = .ok s →
      (1 ≤ s.iterations ∧ s.iterations ≤ fit.maxIterations) ∧
      (0 < s.size ∧ s.size ^ 2 ≤ (max image.width image.height : ℕ) ^ 2 / 2) ∧
      (0 ≤ s.centre.1 ∧ s.centre.1 ≤ image.width) ∧
      (0 ≤ s.centre.2 ∧ s.centre.2 ≤ image.height) ∧
      s.e1 ^ 2 + s.e2 ^ 2 < 1 ∧
      ∃ w v, fit.Reaches image (s.iterations - 1) w ∧ fit.step image w = .ok (v, true) ∧
        shapeOf image v s.iterations = .ok s ∧
        0 < v.covariance.trace ∧
        v.covariance.trace ≤ (max image.width image.height : ℕ) ^ 2 ∧
        s.e1 ^ 2 + s.e2 ^ 2 = 1 - 4 * s.size ^ 4 / v.covariance.trace ^ 2) ∧
    (∀ n w, fit.Reaches image n w → w.covariance.inverse? = none → n = 0) ∧
    ∀ n w v, fit.Reaches image n w → fit.step image w = .ok (v, true) →
      v.covariance.inverse? ≠ none := by
  refine ⟨?_, ?_, fun n w v _ hstep => inverse?_ne_none_of_step hstep⟩
  · intro s hfind
    obtain ⟨n, w, v, hn, hreaches, hstep, hshape⟩ := find_eq_ok_iff.1 hfind
    have htested := tested_of_step hstep
    have htrace := htested.isPositive.trace_pos
    obtain ⟨hsize, hsquare⟩ := size_sq_of_shapeOf htested hshape
    have hellipticity := ellipticity_of_shapeOf htested hshape
    have hiterations : s.iterations = n + 1 ∧ s.centre = (v.x, v.y) := by
      obtain ⟨inverse, -, rfl⟩ := shapeOf_eq_ok_iff.1 hshape
      exact ⟨rfl, rfl⟩
    obtain ⟨hiterations, hcentre⟩ := hiterations
    rw [hiterations, hcentre]
    refine ⟨⟨by omega, by omega⟩, ⟨hsize, ?_⟩, ⟨htested.x_nonneg, htested.x_le⟩,
      ⟨htested.y_nonneg, htested.y_le⟩, ?_, w, v, hreaches, hstep, hshape, htrace,
      htested.trace_le, hellipticity⟩
    · rw [hsquare]
      exact htested.isPositive.sqrt_det_le.trans
        (div_le_div_of_nonneg_right htested.trace_le zero_le_two)
    · rw [hellipticity]
      have : 0 < 4 * s.size ^ 4 / v.covariance.trace ^ 2 := by positivity
      linarith
  · intro n w hreaches hnone
    cases n with
    | zero => rfl
    | succ n => exact absurd hnone (inverse?_ne_none_of_reaches hreaches)

/-- The shape of four equal pixels. -/
theorem find_shape_fourPixels : ∃ s, ({} : MomentsFit ℝ).find fourPixels = .ok s ∧
    0 < s.size ∧ s.size ^ 2 ≤ 2 ∧ s.e1 ^ 2 + s.e2 ^ 2 < 1 := by
  obtain ⟨s, hs⟩ := find_fourPixels
  obtain ⟨hshape, -, -⟩ := find_shape {} fourPixels
  obtain ⟨-, ⟨hpos, hsize⟩, -, -, hellipticity, -⟩ := hshape s hs
  refine ⟨s, hs, hpos, hsize.trans_eq ?_, hellipticity⟩
  norm_num [fourPixels]

end MomentsFit

end Seeing
