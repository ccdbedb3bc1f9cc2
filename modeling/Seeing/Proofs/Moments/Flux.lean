import Seeing.Proofs.Moments.Window

/-!
# The flux under the weights of a fit

An image without negative pixels has flux under every weight that a fit comes to. Under
the first one this is so if its size is taken from the image, because some pixel with
flux is not farther from the mean than the pixels are on average. Under every later one
the same holds of the distances in units of the weight, which have the mean one. So a
fit misses the flux under its first weight or not at all.
-/

namespace Seeing

namespace MomentsFit

section Initial

variable (image : Image ℝ)

/-- The flux of a pixel, zero if it is negative. -/
noncomputable def positivePart (p : Fin image.width × Fin image.height) : ℝ :=
  max (image.pixels.get p.1 p.2) 0

theorem positiveSums_eq : positiveSums image =
    (∑ p, positivePart image p,
      ∑ p : Fin image.width × Fin image.height, p.1 * positivePart image p,
      ∑ p : Fin image.width × Fin image.height, p.2 * positivePart image p) := by
  refine Prod.ext ?_ (Prod.ext ?_ ?_)
  · refine (apply_foldPixels image (fun b : ℝ × ℝ × ℝ => b.1) _ (positivePart image)
      ?_ _).trans (by simp)
    intro b i j
    simp only [Scalar.larger_eq_max, Scalar.real_zero]
    rfl
  · refine (apply_foldPixels image (fun b : ℝ × ℝ × ℝ => b.2.1) _
      (fun p => p.1 * positivePart image p) ?_ _).trans (by simp)
    intro b i j
    simp only [Scalar.larger_eq_max, Scalar.real_zero, Scalar.real_ofNat]
    rfl
  · refine (apply_foldPixels image (fun b : ℝ × ℝ × ℝ => b.2.2) _
      (fun p => p.2 * positivePart image p) ?_ _).trans (by simp)
    intro b i j
    simp only [Scalar.larger_eq_max, Scalar.real_zero, Scalar.real_ofNat]
    rfl

theorem positiveSpread_eq (x y : ℝ) : positiveSpread image x y =
    ∑ p : Fin image.width × Fin image.height,
      ((p.1 - x) * (p.1 - x) + (p.2 - y) * (p.2 - y)) * positivePart image p := by
  refine (apply_foldPixels image (fun b : ℝ => b) _ (fun p =>
    ((p.1 - x) * (p.1 - x) + (p.2 - y) * (p.2 - y)) * positivePart image p) ?_ _).trans
      (by simp)
  intro b i j
  simp only [Scalar.larger_eq_max, Scalar.real_zero, Scalar.real_ofNat]
  rfl

/-- The positive pixels as masses. -/
noncomputable def positives (hflux : 0 < ∑ p, positivePart image p) :
    Masses (Fin image.width × Fin image.height) where
  mass := positivePart image
  x p := p.1
  y p := p.2
  mass_nonneg _ := le_max_right _ _
  total_pos := hflux

theorem sum_positivePart_pos_iff :
    0 < ∑ p, positivePart image p ↔ ∃ i j, 0 < image.pixels.get i j := by
  have hnonneg : ∀ p, 0 ≤ positivePart image p := fun p => le_max_right _ _
  rw [Finset.sum_pos_iff_of_nonneg fun p _ => hnonneg p]
  simp [positivePart]

variable {image} {fit : MomentsFit ℝ}

theorem initial_eq_error_iff {e : MomentsError} :
    fit.initial image = .error e ↔ e = .noFlux ∧ ¬∃ i j, 0 < image.pixels.get i j := by
  rw [← sum_positivePart_pos_iff, initial, positiveSums_eq]
  by_cases hflux : 0 < ∑ p, positivePart image p
  · simp [hflux]
  · simp [hflux, eq_comm]

/-- A first weight whose size is taken from the image is round, about the mean of the
positive pixels, with a size of at least one and of at least their spread. -/
theorem initial_eq_ok {w : Weight ℝ} (hguess : fit.guess = none)
    (hinitial : fit.initial image = .ok w) :
    ∃ (hflux : 0 < ∑ p, positivePart image p) (size : ℝ),
      w.x = (positives image hflux).mean (positives image hflux).x ∧
      w.y = (positives image hflux).mean (positives image hflux).y ∧
      w.covariance = ⟨size * size, 0, size * size⟩ ∧ 1 ≤ size ∧
      (positives image hflux).mean (fun p =>
        (p.1 - w.x) * (p.1 - w.x) + (p.2 - w.y) * (p.2 - w.y)) ≤ 2 * (size * size) := by
  have hflux : 0 < ∑ p, positivePart image p := by
    by_contra hflux
    rw [sum_positivePart_pos_iff] at hflux
    rw [initial_eq_error_iff.2 ⟨rfl, hflux⟩] at hinitial
    cases hinitial
  rw [initial, positiveSums_eq] at hinitial
  simp only [Scalar.real_zero, hflux, decide_true, Bool.not_true, Bool.false_eq_true, if_false,
    hguess, Scalar.larger_eq_max, positiveSpread_eq, Scalar.real_half, Scalar.real_one,
    one_mul, zero_mul, Except.ok.injEq] at hinitial
  subst hinitial
  refine ⟨hflux, _, rfl, rfl, rfl, le_max_right _ _, ?_⟩
  have hroot : ∀ spread total : ℝ, spread / total ≤
      2 * (max √(1 / 2 * spread / total) 1 * max √(1 / 2 * spread / total) 1) := by
    intro spread total
    have hsquare := (Real.sqrt_le_iff.1 (le_max_left √(1 / 2 * spread / total) 1)).2
    have hhalf : 1 / 2 * spread / total = 1 / 2 * (spread / total) := by ring
    linarith
  exact hroot _ _

end Initial

section Flux

variable {fit : MomentsFit ℝ} {image : Image ℝ} {w v : Weight ℝ} {inverse : Covariance ℝ}
  (hpixels : ∀ i j, 0 ≤ image.pixels.get i j)

include hpixels in
/-- There is flux under a weight if some pixel within the reach has flux. -/
theorem flux_pos_iff : 0 < (sumsUnder image w inverse).flux ↔
    ∃ p : Fin image.width × Fin image.height,
      0 < image.pixels.get p.1 p.2 ∧ distance image w inverse p ≤ 36 := by
  rw [flux_sumsUnder,
    Finset.sum_pos_iff_of_nonneg fun p _ => weighted_nonneg w inverse hpixels p]
  simp [weighted_pos_iff]

include hpixels in
/-- There is flux under the first weight if its size is taken from the image. -/
theorem flux_pos_of_initial (hguess : fit.guess = none)
    (hinitial : fit.initial image = .ok w) (hinverse : w.covariance.inverse? = some inverse) :
    0 < (sumsUnder image w inverse).flux := by
  obtain ⟨hflux, size, -, -, hcovariance, hsize, hspread⟩ := initial_eq_ok hguess hinitial
  obtain ⟨p, hp, hle⟩ := (positives image hflux).exists_le_mean fun p =>
    (p.1 - w.x) * (p.1 - w.x) + (p.2 - w.y) * (p.2 - w.y)
  have hpixel : 0 < image.pixels.get p.1 p.2 := by
    simpa [positives, positivePart] using hp
  refine (flux_pos_iff hpixels).2 ⟨p, hpixel, ?_⟩
  obtain ⟨-, rfl⟩ := w.covariance.inverse?_eq_some_iff.1 hinverse
  have hdistance : distance image w w.covariance.inverse p =
      ((p.1 - w.x) * (p.1 - w.x) + (p.2 - w.y) * (p.2 - w.y)) / (size * size) := by
    rw [distance, Covariance.quadratic_eq, hcovariance, Covariance.inverse,
      Covariance.det_eq]
    field_simp
    ring
  rw [hdistance, div_le_iff₀ (by positivity)]
  nlinarith

include hpixels in
/-- There is flux under every weight that an iteration moves to. -/
theorem flux_pos_of_step {settled : Bool} (hstep : fit.step image w = .ok (v, settled))
    (hinverse : v.covariance.inverse? = some inverse) :
    0 < (sumsUnder image v inverse).flux := by
  obtain ⟨before, -, hflux, -, -, rfl, -⟩ := step_eq_ok_iff.1 hstep
  rw [Scalar.real_zero, flux_sumsUnder] at hflux
  rw [moved_sumsUnder w before hpixels hflux] at hinverse ⊢
  set m := window w before hpixels hflux
  obtain ⟨hdet, rfl⟩ := m.covariance.inverse?_eq_some_iff.1 hinverse
  obtain ⟨p, hp, hle⟩ := m.exists_le_mean fun p =>
    m.covariance.inverse.quadratic (m.x p - m.mean m.x) (m.y p - m.mean m.y)
  rw [m.mean_inverse_quadratic hdet] at hle
  refine (flux_pos_iff hpixels).2 ⟨p, ((weighted_pos_iff w before p).1 hp).1, ?_⟩
  have hdistance : distance image ⟨m.mean m.x, m.mean m.y, m.covariance⟩
      m.covariance.inverse p ≤ 1 := hle
  linarith

end Flux

section Failure

variable {fit : MomentsFit ℝ} {image : Image ℝ} {w v : Weight ℝ}

/-- After an iteration there is an inverse. -/
theorem inverse?_ne_none_of_step {settled : Bool}
    (hstep : fit.step image w = .ok (v, settled)) : v.covariance.inverse? ≠ none := by
  obtain ⟨inverse, -, -, hpositive, -, rfl, -⟩ := step_eq_ok_iff.1 hstep
  exact hpositive.inverse?_ne_none

/-- Only the first weight of a fit can lack an inverse. -/
theorem inverse?_ne_none_of_reaches {n : ℕ} (hreaches : fit.Reaches image (n + 1) w) :
    w.covariance.inverse? ≠ none := by
  obtain ⟨_, -, hstep⟩ := reaches_succ_iff.1 hreaches
  exact inverse?_ne_none_of_step hstep

/-- A fit fails before or in an iteration or at the end of the budget: there is a shape
after the last iteration. -/
theorem find_eq_error_iff_step {e : MomentsError} :
    fit.find image = .error e ↔
      fit.initial image = .error e ∨
        (∃ w, fit.Reaches image fit.maxIterations w ∧
          e = .notConverged fit.maxIterations) ∨
        ∃ n w, n < fit.maxIterations ∧ fit.Reaches image n w ∧ fit.step image w = .error e := by
  rw [find_eq_error_iff]
  refine or_congr_right (or_congr_right (exists_congr fun n => exists_congr fun w =>
    and_congr_right fun _ => and_congr_right fun _ => ?_))
  constructor
  · rintro (hstep | ⟨v, hstep, hshape⟩)
    · exact hstep
    · exact absurd (shapeOf_eq_error_iff.1 hshape).1 (inverse?_ne_none_of_step hstep)
  · exact .inl

end Failure

section FourPixels

/-- Two by two pixels of flux one. -/
noncomputable def fourPixels : Image ℝ where
  width := 2
  height := 2
  scale := 1
  pixels := .constant 2 2 1
  width_pos := two_pos
  height_pos := two_pos

theorem get_fourPixels (i : Fin fourPixels.width) (j : Fin fourPixels.height) :
    fourPixels.pixels.get i j = 1 :=
  Grid.get_constant (1 : ℝ) i j

theorem fourPixels_nonneg (i : Fin fourPixels.width) (j : Fin fourPixels.height) :
    0 ≤ fourPixels.pixels.get i j := by
  rw [get_fourPixels]
  exact zero_le_one

/-- The round weight in the middle of four pixels with the given variance. -/
noncomputable def middleWeight (variance : ℝ) : Weight ℝ :=
  ⟨1 / 2, 1 / 2, ⟨variance, 0, variance⟩⟩

theorem sum_fourPixels (f : ℝ → ℝ → ℝ) :
    ∑ p : Fin fourPixels.width × Fin fourPixels.height, f p.1 p.2 =
      f 0 0 + f 0 1 + (f 1 0 + f 1 1) := by
  change ∑ p : Fin 2 × Fin 2, f p.1 p.2 = _
  rw [Fintype.sum_prod_type]
  simp [Fin.sum_univ_two]

theorem initial_fourPixels :
    ({} : MomentsFit ℝ).initial fourPixels = .ok (middleWeight 1) := by
  have hpositive : ∀ p, positivePart fourPixels p = 1 := by
    intro p
    rw [positivePart, get_fourPixels, max_eq_left zero_le_one]
  have hsums : positiveSums fourPixels = (4, 2, 2) := by
    rw [positiveSums_eq]
    simp only [hpositive, mul_one]
    rw [sum_fourPixels fun _ _ => 1, sum_fourPixels fun x _ => x, sum_fourPixels fun _ y => y]
    norm_num
  have hspread : positiveSpread fourPixels (1 / 2) (1 / 2) = 2 := by
    rw [positiveSpread_eq]
    simp only [hpositive, mul_one]
    rw [sum_fourPixels fun x y => (x - 1 / 2) * (x - 1 / 2) + (y - 1 / 2) * (y - 1 / 2)]
    norm_num
  have hroot : max √(1 / 2 * 2 / 4) 1 = (1 : ℝ) := by
    apply max_eq_right
    rw [Real.sqrt_le_left zero_le_one]
    norm_num
  have hhalf : (2 / 4 : ℝ) = 1 / 2 := by norm_num
  rw [initial, hsums]
  simp only [hhalf, hspread, Scalar.larger_eq_max, Scalar.real_sqrt, Scalar.real_half,
    Scalar.real_one, Scalar.real_zero, one_mul, zero_mul, hroot]
  rw [if_neg (by simp), middleWeight]

/-- All round weights in the middle see the same moments. -/
theorem sumsUnder_fourPixels {variance : ℝ} (hvariance : 1 / 72 ≤ variance) :
    ∃ flux, 0 < flux ∧ sumsUnder fourPixels (middleWeight variance)
      (middleWeight variance).covariance.inverse = ⟨4 * flux, 0, 0, ⟨flux, 0, flux⟩⟩ := by
  have hpos : 0 < variance := by linarith
  have hdistance : ∀ p, distance fourPixels (middleWeight variance)
      (middleWeight variance).covariance.inverse p = 1 / (2 * variance) := by
    rintro ⟨i, j⟩
    rw [distance, Covariance.quadratic_eq, Covariance.inverse, Covariance.det_eq]
    simp only [middleWeight]
    fin_cases i <;> fin_cases j <;> (simp; field_simp; norm_num)
  have hreach : ¬reach < 1 / (2 * variance) := by
    rw [not_lt, real_reach, div_le_iff₀ (by positivity)]
    linarith
  set flux := Real.exp (-(1 / 2) * (1 / (2 * variance)))
  have hweighted : ∀ p, weighted fourPixels (middleWeight variance)
      (middleWeight variance).covariance.inverse p = flux := by
    intro p
    rw [weighted, hdistance, if_neg hreach, get_fourPixels, one_mul]
  have hsums : ∀ (q : WeightedSums ℝ → ℝ) (f : ℝ → ℝ → ℝ),
      q (sumsUnder fourPixels (middleWeight variance)
          (middleWeight variance).covariance.inverse) =
        ∑ p : Fin fourPixels.width × Fin fourPixels.height, f p.1 p.2 *
          weighted fourPixels (middleWeight variance)
            (middleWeight variance).covariance.inverse p →
      q (sumsUnder fourPixels (middleWeight variance)
          (middleWeight variance).covariance.inverse) =
        (f 0 0 + f 0 1 + (f 1 0 + f 1 1)) * flux := by
    intro q f hq
    simp only [hq, hweighted, ← Finset.sum_mul, sum_fourPixels f]
  refine ⟨flux, Real.exp_pos _, ?_⟩
  have htotal := hsums (·.flux) (fun _ _ => 1) (by
    simp only [one_mul]
    exact flux_sumsUnder _ _ _)
  have hx := hsums (·.x) (fun x _ => x - 1 / 2) (x_sumsUnder _ _ _)
  have hy := hsums (·.y) (fun _ y => y - 1 / 2) (y_sumsUnder _ _ _)
  have hxx := hsums (·.second.xx) (fun x _ => (x - 1 / 2) * (x - 1 / 2)) (xx_sumsUnder _ _ _)
  have hxy := hsums (·.second.xy) (fun x y => (x - 1 / 2) * (y - 1 / 2)) (xy_sumsUnder _ _ _)
  have hyy := hsums (·.second.yy) (fun _ y => (y - 1 / 2) * (y - 1 / 2)) (yy_sumsUnder _ _ _)
  generalize sumsUnder fourPixels (middleWeight variance)
    (middleWeight variance).covariance.inverse = s at htotal hx hy hxx hxy hyy
  obtain ⟨total, x, y, xx, xy, yy⟩ := s
  norm_num at htotal hx hy hxx hxy hyy
  rw [htotal, hx, hy, hxx, hxy, hyy]

/-- An iteration on any of these weights gives the same weight, and it has converged if
that is the weight it started from. -/
theorem step_fourPixels {variance : ℝ} (hvariance : 1 / 72 ≤ variance) :
    ({} : MomentsFit ℝ).step fourPixels (middleWeight variance) =
      .ok (middleWeight (1 / 2),
        decide (|2⁻¹ - variance| / (variance + variance) < (10 ^ 6)⁻¹)) := by
  obtain ⟨flux, hflux, hsums⟩ := sumsUnder_fourPixels hvariance
  have hinverse : (middleWeight variance).covariance.inverse? =
      some (middleWeight variance).covariance.inverse := by
    refine (Covariance.inverse?_eq_some_iff _).2 ⟨?_, rfl⟩
    simp [middleWeight, Covariance.det_eq]
    linarith
  have hshift : (⟨4 * flux, 0, 0, ⟨flux, 0, flux⟩⟩ : WeightedSums ℝ).shift = (0, 0) := by
    simp [WeightedSums.shift]
  have hcovariance : (⟨4 * flux, 0, 0, ⟨flux, 0, flux⟩⟩ : WeightedSums ℝ).covariance =
      ⟨1 / 2, 0, 1 / 2⟩ := by
    simp [WeightedSums.covariance, hshift]
    field_simp
    norm_num
  have hmoved : (middleWeight variance).moved ⟨4 * flux, 0, 0, ⟨flux, 0, flux⟩⟩ =
      middleWeight (1 / 2) := by
    simp [Weight.moved, hshift, hcovariance, middleWeight]
  rw [step_of_inverse hinverse, hsums, hmoved, if_pos (by simpa using hflux), hcovariance,
    if_pos (by simp [Covariance.isPositive_iff, Covariance.det_eq]), if_neg, hasSettled, hshift,
    hcovariance]
  · simp [Covariance.distance_eq, Covariance.trace_eq, middleWeight]
  · simp [isOutside, middleWeight, fourPixels, Covariance.trace_eq, Scalar.isFinite,
      Scalar.square]
    norm_num

/-- The fit comes to the weight of variance one half in its first iteration. -/
theorem reaches_fourPixels :
    ({} : MomentsFit ℝ).Reaches fourPixels 1 (middleWeight (1 / 2)) := by
  refine reaches_succ_iff.2 ⟨middleWeight 1, reaches_zero_iff.2 initial_fourPixels, ?_⟩
  rw [step_fourPixels (by norm_num)]
  norm_num

/-- It has converged in its second iteration. -/
theorem converged_fourPixels : ({} : MomentsFit ℝ).step fourPixels (middleWeight (1 / 2)) =
    .ok (middleWeight (1 / 2), true) := by
  rw [step_fourPixels (by norm_num)]
  norm_num

theorem find_fourPixels : ∃ s, ({} : MomentsFit ℝ).find fourPixels = .ok s := by
  have hshape : ∃ s, shapeOf fourPixels (middleWeight (1 / 2)) 2 = .ok s := by
    refine ⟨_, shapeOf_eq_ok_iff.2 ⟨_, (Covariance.inverse?_eq_some_iff _).2 ⟨?_, rfl⟩, rfl⟩⟩
    simp [middleWeight, Covariance.det_eq]
  obtain ⟨s, hs⟩ := hshape
  exact ⟨s, find_eq_ok_iff.2
    ⟨1, _, _, by norm_num, reaches_fourPixels, converged_fourPixels, hs⟩⟩

end FourPixels

/-- An image without negative pixels has no flux for a fit that takes the size of its
first weight from the image exactly if none of its pixels is positive. Whatever the first
weight, the flux is missed under it or under none, and the amplitude is positive. -/
theorem find_eq_noFlux_iff (fit : MomentsFit ℝ) {image : Image ℝ}
    (hpixels : ∀ i j, 0 ≤ image.pixels.get i j) :
    (fit.guess = none →
      (fit.find image = .error .noFlux ↔ ¬∃ i j, 0 < image.pixels.get i j)) ∧
    (fit.find image = .error .noFlux →
      fit.initial image = .error .noFlux ∨
        ∃ w, fit.initial image = .ok w ∧ fit.step image w = .error .noFlux) ∧
    (∀ n w, fit.Reaches image (n + 1) w → fit.step image w ≠ .error .noFlux) ∧
    ∀ s, fit.find image = .ok s → 0 < s.amplitude := by
  have hlater : ∀ n w, fit.Reaches image (n + 1) w → fit.step image w ≠ .error .noFlux := by
    intro n w hreaches hstep
    obtain ⟨v, -, hlast⟩ := reaches_succ_iff.1 hreaches
    obtain ⟨inverse, hinverse, hflux⟩ := step_eq_noFlux_iff.1 hstep
    exact hflux (by simpa using flux_pos_of_step hpixels hlast hinverse)
  have hfirst : fit.find image = .error .noFlux →
      fit.initial image = .error .noFlux ∨
        ∃ w, fit.initial image = .ok w ∧ fit.step image w = .error .noFlux := by
    intro hfind
    obtain hinitial | ⟨w, -, hbudget⟩ | ⟨n, w, -, hreaches, hstep⟩ :=
      find_eq_error_iff_step.1 hfind
    · exact .inl hinitial
    · cases hbudget
    · cases n with
      | zero => exact .inr ⟨w, reaches_zero_iff.1 hreaches, hstep⟩
      | succ n => exact absurd hstep (hlater n w hreaches)
  refine ⟨?_, hfirst, hlater, ?_⟩
  · intro hguess
    constructor
    · intro hfind
      obtain hinitial | ⟨w, hinitial, hstep⟩ := hfirst hfind
      · exact (initial_eq_error_iff.1 hinitial).2
      · obtain ⟨inverse, hinverse, hflux⟩ := step_eq_noFlux_iff.1 hstep
        exact absurd
          (by simpa using flux_pos_of_initial hpixels hguess hinitial hinverse) hflux
    · intro hblank
      exact find_eq_error_iff_step.2 (.inl (initial_eq_error_iff.2 ⟨rfl, hblank⟩))
  · intro s hfind
    obtain ⟨n, w, v, -, -, hstep, hshape⟩ := find_eq_ok_iff.1 hfind
    obtain ⟨inverse, hinverse, rfl⟩ := shapeOf_eq_ok_iff.1 hshape
    have hflux := flux_pos_of_step hpixels hstep hinverse
    simpa using hflux

/-- The default fit to four equal pixels finds flux under both of its weights and has a
positive amplitude. -/
theorem find_eq_noFlux_iff_fourPixels :
    (∀ i j, 0 ≤ fourPixels.pixels.get i j) ∧
      ({} : MomentsFit ℝ).find fourPixels ≠ .error .noFlux ∧
      ({} : MomentsFit ℝ).step fourPixels (middleWeight (1 / 2)) ≠ .error .noFlux ∧
      ∃ s, ({} : MomentsFit ℝ).find fourPixels = .ok s ∧ 0 < s.amplitude := by
  obtain ⟨hblank, -, hlater, hamplitude⟩ := find_eq_noFlux_iff {} fourPixels_nonneg
  obtain ⟨s, hs⟩ := find_fourPixels
  refine ⟨fourPixels_nonneg, ?_, hlater 0 _ reaches_fourPixels, s, hs, hamplitude s hs⟩
  intro hnoFlux
  refine (hblank rfl).1 hnoFlux ⟨⟨0, two_pos⟩, ⟨0, two_pos⟩, ?_⟩
  rw [get_fourPixels]
  exact one_pos

end MomentsFit

end Seeing
