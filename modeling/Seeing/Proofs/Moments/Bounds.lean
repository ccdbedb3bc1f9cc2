import Seeing.Proofs.Moments.Flux

/-!
# The weights of a fit stay in the image

Under any weight the mean of pixels that are not negative lies among the pixels, and
their covariance is bounded by the sides of the image: `confined_moved`. So no fit to
such an image leaves it. The covariance fails to be positive exactly if all pixels with
flux within the reach of the weight lie on one line, which is the only way in which an
iteration ends with a matrix that is not positive definite.
-/

namespace Seeing

namespace MomentsFit

/-- A centre among the pixels of an image, with a positive semidefinite covariance that
the sides of the image bound. -/
structure Confined (image : Image ℝ) (w : Weight ℝ) : Prop where
  x_nonneg : 0 ≤ w.x
  x_le : w.x ≤ image.width - 1
  y_nonneg : 0 ≤ w.y
  y_le : w.y ≤ image.height - 1
  posSemidef : w.covariance.toMatrix.PosSemidef
  trace_le : w.covariance.trace ≤
    (((image.width : ℝ) - 1) ^ 2 + ((image.height : ℝ) - 1) ^ 2) / 2

/-- The pixels with flux within the reach of a weight. -/
def litPixels (image : Image ℝ) (w : Weight ℝ) (inverse : Covariance ℝ) : Set (ℝ × ℝ) :=
  {q | ∃ (i : Fin image.width) (j : Fin image.height), 0 < image.pixels.get i j ∧
    inverse.quadratic (i - w.x) (j - w.y) ≤ 36 ∧ q = ((i : ℝ), (j : ℝ))}

variable {fit : MomentsFit ℝ} {image : Image ℝ} {w v : Weight ℝ} {inverse : Covariance ℝ}

/-- The bounds of a weight. -/
theorem isOutside_eq_false_iff : isOutside image w = false ↔
    (0 ≤ w.x ∧ w.x ≤ image.width) ∧ (0 ≤ w.y ∧ w.y ≤ image.height) ∧
      w.covariance.trace ≤ (max image.width image.height : ℕ) ^ 2 := by
  simp only [isOutside, Scalar.isFinite, Bool.not_true, Bool.false_or, Bool.or_eq_false_iff,
    decide_eq_false_iff_not, Scalar.real_lt, Scalar.real_zero, Scalar.real_ofNat, not_lt, sq]
  constructor
  · rintro ⟨⟨⟨⟨hx, hy⟩, hwidth⟩, hheight⟩, htrace⟩
    exact ⟨⟨hx, hwidth⟩, ⟨hy, hheight⟩, htrace⟩
  · rintro ⟨⟨hx, hwidth⟩, ⟨hy, hheight⟩, htrace⟩
    exact ⟨⟨⟨⟨hx, hy⟩, hwidth⟩, hheight⟩, htrace⟩

theorem isOutside_eq_iff {image' : Image ℝ} : isOutside image w = isOutside image' v ↔
    (isOutside image w = false ↔ isOutside image' v = false) := by
  cases isOutside image w <;> cases isOutside image' v <;> simp

theorem Confined.isOutside_eq_false (hw : Confined image w) : isOutside image w = false := by
  have hwidth : (1 : ℝ) ≤ image.width := Nat.one_le_cast.2 image.width_pos
  have hheight : (1 : ℝ) ≤ image.height := Nat.one_le_cast.2 image.height_pos
  have hside : w.covariance.trace ≤ (max image.width image.height : ℕ) ^ 2 := by
    have hle : ((image.width : ℝ) - 1) ^ 2 ≤ (max image.width image.height : ℕ) ^ 2 := by
      have : (image.width : ℝ) ≤ (max image.width image.height : ℕ) :=
        Nat.cast_le.2 (le_max_left _ _)
      nlinarith
    have hle' : ((image.height : ℝ) - 1) ^ 2 ≤ (max image.width image.height : ℕ) ^ 2 := by
      have : (image.height : ℝ) ≤ (max image.width image.height : ℕ) :=
        Nat.cast_le.2 (le_max_right _ _)
      nlinarith
    have := hw.trace_le
    linarith
  have hx := hw.x_le
  have hy := hw.y_le
  exact isOutside_eq_false_iff.2
    ⟨⟨hw.x_nonneg, by linarith⟩, ⟨hw.y_nonneg, by linarith⟩, hside⟩

theorem nonempty_litPixels_iff (hpixels : ∀ i j, 0 ≤ image.pixels.get i j) :
    (litPixels image w inverse).Nonempty ↔ 0 < (sumsUnder image w inverse).flux := by
  rw [flux_pos_iff hpixels]
  constructor
  · rintro ⟨_, i, j, hpixel, hreach, rfl⟩
    exact ⟨(i, j), hpixel, hreach⟩
  · rintro ⟨⟨i, j⟩, hpixel, hreach⟩
    exact ⟨_, i, j, hpixel, hreach, rfl⟩

theorem support_window (hpixels : ∀ i j, 0 ≤ image.pixels.get i j)
    (hflux : 0 < ∑ p, weighted image w inverse p) :
    (window w inverse hpixels hflux).support = litPixels image w inverse := by
  ext q
  constructor
  · rintro ⟨p, hp, rfl⟩
    obtain ⟨hpixel, hreach⟩ := (weighted_pos_iff w inverse p).1 hp
    exact ⟨p.1, p.2, hpixel, hreach, rfl⟩
  · rintro ⟨i, j, hpixel, hreach, rfl⟩
    exact ⟨(i, j), (weighted_pos_iff w inverse (i, j)).2 ⟨hpixel, hreach⟩, rfl⟩

/-- Wherever a weight is, it moves among the pixels. -/
theorem confined_moved (hpixels : ∀ i j, 0 ≤ image.pixels.get i j)
    (hflux : 0 < (sumsUnder image w inverse).flux) :
    Confined image (w.moved (sumsUnder image w inverse)) := by
  rw [flux_sumsUnder] at hflux
  rw [moved_sumsUnder w inverse hpixels hflux]
  set m := window w inverse hpixels hflux
  have hlast : ∀ {n : ℕ} (i : Fin n), (i : ℝ) ≤ n - 1 := by
    intro n i
    rw [le_sub_iff_add_le]
    exact_mod_cast i.isLt
  have hx : ∀ p, 0 ≤ m.x p ∧ m.x p ≤ image.width - 1 :=
    fun p => ⟨Nat.cast_nonneg _, hlast p.1⟩
  have hy : ∀ p, 0 ≤ m.y p ∧ m.y p ≤ image.height - 1 :=
    fun p => ⟨Nat.cast_nonneg _, hlast p.2⟩
  refine ⟨m.le_mean fun p => (hx p).1, m.mean_le fun p => (hx p).2,
    m.le_mean fun p => (hy p).1, m.mean_le fun p => (hy p).2,
    m.covariance.posSemidef_toMatrix m.quadratic_covariance_nonneg, ?_⟩
  simpa using m.trace_covariance_le hx hy

/-- The covariance that a weight moves to is positive unless the pixels with flux within
its reach lie on one line. -/
theorem isPositive_covariance_sumsUnder_iff (hpixels : ∀ i j, 0 ≤ image.pixels.get i j)
    (hflux : 0 < (sumsUnder image w inverse).flux) :
    (sumsUnder image w inverse).covariance.IsPositive ↔
      ¬Collinear ℝ (litPixels image w inverse) := by
  rw [flux_sumsUnder] at hflux
  rw [← support_window hpixels hflux, ← Masses.isPositive_covariance_iff]
  have hmoved : (sumsUnder image w inverse).covariance =
      (window w inverse hpixels hflux).covariance :=
    congrArg Weight.covariance (moved_sumsUnder w inverse hpixels hflux)
  rw [hmoved]

theorem confined_of_step {settled : Bool} (hpixels : ∀ i j, 0 ≤ image.pixels.get i j)
    (hstep : fit.step image w = .ok (v, settled)) : Confined image v := by
  obtain ⟨inverse, -, hflux, -, -, rfl, -⟩ := step_eq_ok_iff.1 hstep
  exact confined_moved hpixels (by simpa using hflux)

/-- A fit to an image without negative pixels never leaves the image: every iteration
moves the centre among the pixels and makes the covariance positive semidefinite, with a
trace bounded by the sides. If there is an inverse to start with, it fails for a matrix
that is not positive definite exactly if it comes to a weight with some pixels with flux
in its reach, and all of these on one line. -/
theorem find_ne_outOfBounds (fit : MomentsFit ℝ) {image : Image ℝ}
    (hpixels : ∀ i j, 0 ≤ image.pixels.get i j) :
    fit.find image ≠ .error .outOfBounds ∧
    (∀ w inverse, w.covariance.inverse? = some inverse →
      0 < (sumsUnder image w inverse).flux →
        Confined image (w.moved (sumsUnder image w inverse))) ∧
    (∀ w v settled, fit.step image w = .ok (v, settled) → Confined image v) ∧
    ∀ w₀, fit.initial image = .ok w₀ → w₀.covariance.inverse? ≠ none →
      (fit.find image = .error .notPositiveDefinite ↔
        ∃ n w inverse, n < fit.maxIterations ∧ fit.Reaches image n w ∧
          w.covariance.inverse? = some inverse ∧
          (litPixels image w inverse).Nonempty ∧
          Collinear ℝ (litPixels image w inverse)) := by
  refine ⟨?_, fun w inverse _ hflux => confined_moved hpixels hflux,
    fun w v settled hstep => confined_of_step hpixels hstep, ?_⟩
  · intro hfind
    obtain hinitial | ⟨w, -, hbudget⟩ | ⟨n, w, -, -, hstep⟩ :=
      find_eq_error_iff_step.1 hfind
    · cases (initial_eq_error_iff.1 hinitial).1
    · cases hbudget
    · obtain ⟨inverse, -, hflux, -, houtside⟩ := step_eq_outOfBounds_iff.1 hstep
      rw [(confined_moved hpixels (by simpa using hflux)).isOutside_eq_false] at houtside
      cases houtside
  · intro w₀ hinitial hinverse₀
    have hreached : ∀ n w, fit.Reaches image n w → w.covariance.inverse? ≠ none := by
      intro n w hreaches
      cases n with
      | zero =>
          rw [reaches_zero_iff, hinitial] at hreaches
          obtain rfl := Except.ok.inj hreaches
          exact hinverse₀
      | succ n => exact inverse?_ne_none_of_reaches hreaches
    constructor
    · intro hfind
      obtain hfirst | ⟨w, -, hbudget⟩ | ⟨n, w, hn, hreaches, hstep⟩ :=
        find_eq_error_iff_step.1 hfind
      · cases (initial_eq_error_iff.1 hfirst).1
      · cases hbudget
      · obtain hnone | ⟨inverse, hinverse, hflux, hpositive⟩ :=
          step_eq_notPositiveDefinite_iff.1 hstep
        · exact absurd hnone (hreached n w hreaches)
        · rw [Scalar.real_zero] at hflux
          rw [isPositive_covariance_sumsUnder_iff hpixels hflux, not_not] at hpositive
          exact ⟨n, w, inverse, hn, hreaches, hinverse,
            (nonempty_litPixels_iff hpixels).2 hflux, hpositive⟩
    · rintro ⟨n, w, inverse, hn, hreaches, hinverse, hlit, hline⟩
      have hflux := (nonempty_litPixels_iff hpixels).1 hlit
      refine find_eq_error_iff_step.2 (.inr (.inr ⟨n, w, hn, hreaches, ?_⟩))
      refine step_eq_notPositiveDefinite_iff.2 (.inr
        ⟨inverse, hinverse, by simpa using hflux, ?_⟩)
      rwa [isPositive_covariance_sumsUnder_iff hpixels hflux, not_not]

/-- The default fit to four equal pixels stays among them, and none of its weights has
only pixels on one line within its reach. -/
theorem find_ne_outOfBounds_fourPixels :
    (∀ i j, 0 ≤ fourPixels.pixels.get i j) ∧
      ({} : MomentsFit ℝ).find fourPixels ≠ .error .outOfBounds ∧
      Confined fourPixels (middleWeight (1 / 2)) ∧
      (middleWeight 1).covariance.inverse? ≠ none ∧
      ∀ n w inverse, n < 400 → ({} : MomentsFit ℝ).Reaches fourPixels n w →
        w.covariance.inverse? = some inverse → (litPixels fourPixels w inverse).Nonempty →
          ¬Collinear ℝ (litPixels fourPixels w inverse) := by
  have hinverse : (middleWeight 1).covariance.inverse? ≠ none := by
    rw [Ne, Covariance.inverse?_eq_none_iff]
    simp [middleWeight, Covariance.det_eq]
  obtain ⟨hinside, -, hstep, hline⟩ := find_ne_outOfBounds {} fourPixels_nonneg
  refine ⟨fourPixels_nonneg, hinside, hstep _ _ _ converged_fourPixels, hinverse, ?_⟩
  intro n w inverse hn hreaches hw hlit hcollinear
  obtain ⟨s, hs⟩ := find_fourPixels
  rw [(hline _ initial_fourPixels hinverse).2
    ⟨n, w, inverse, hn, hreaches, hw, hlit, hcollinear⟩] at hs
  cases hs

end MomentsFit

end Seeing
