import Seeing.Proofs.Moments.Masses

/-!
# The pixels under a weight

The sums of an image under a weight are sums over its pixels, each with its flux times
the weight, and without those beyond the reach. If no pixel is negative these are masses
at the pixels, and the weight moves to their mean and to their covariance:
`moved_sumsUnder`.
-/

namespace Seeing

namespace MomentsFit

/-- A fold over the pixels that adds to a quantity at each. -/
theorem apply_foldPixels {β : Type} (image : Image ℝ) (q : β → ℝ)
    (f : β → ℕ → ℕ → ℝ → β) (g : Fin image.width × Fin image.height → ℝ)
    (hf : ∀ b (i : Fin image.width) (j : Fin image.height),
      q (f b i j (image.pixels.get i j)) = q b + g (i, j)) (b : β) :
    q (foldPixels image f b) = q b + ∑ p, g p := by
  rw [foldPixels, Fintype.sum_prod_type_right]
  apply apply_fold_eq_sum q _ fun j => ∑ i, g (i, j)
  intro j hj b
  exact apply_fold_eq_sum q _ (fun i => g (i, ⟨j, hj⟩)) (fun i hi b => hf b ⟨i, hi⟩ ⟨j, hj⟩) b

theorem real_reach : (reach : ℝ) = 36 := rfl

section Sums

variable (image : Image ℝ) (w : Weight ℝ) (inverse : Covariance ℝ)

/-- The squared distance of a pixel from the centre, in units of the weight. -/
noncomputable def distance (p : Fin image.width × Fin image.height) : ℝ :=
  inverse.quadratic (p.1 - w.x) (p.2 - w.y)

/-- The weighted flux of a pixel, zero beyond the reach of the weight. -/
noncomputable def weighted (p : Fin image.width × Fin image.height) : ℝ :=
  if reach < distance image w inverse p then 0
  else image.pixels.get p.1 p.2 * Real.exp (-(1 / 2) * distance image w inverse p)

/-- Every quantity of the weighted sums, from what a pixel within the reach adds to it. -/
theorem apply_sumsUnder (q : WeightedSums ℝ → ℝ)
    (f : Fin image.width × Fin image.height → ℝ) (hzero : q ⟨0, 0, 0, ⟨0, 0, 0⟩⟩ = 0)
    (hq : ∀ (s : WeightedSums ℝ) p (v : ℝ),
      q ⟨s.flux + v, s.x + (p.1 - w.x) * v, s.y + (p.2 - w.y) * v,
        ⟨s.second.xx + (p.1 - w.x) * (p.1 - w.x) * v,
          s.second.xy + (p.1 - w.x) * (p.2 - w.y) * v,
          s.second.yy + (p.2 - w.y) * (p.2 - w.y) * v⟩⟩ = q s + f p * v) :
    q (sumsUnder image w inverse) = ∑ p, f p * weighted image w inverse p := by
  rw [sumsUnder, sums, apply_foldPixels image q _ fun p => f p * weighted image w inverse p]
  · simp only [Scalar.real_zero, hzero, zero_add]
  · intro s i j
    by_cases hreach : reach < distance image w inverse (i, j)
    · rw [weighted, if_pos hreach, mul_zero, add_zero]
      exact congrArg q (if_pos hreach)
    · rw [weighted, if_neg hreach, ← hq]
      refine congrArg q ((if_neg hreach).trans ?_)
      simp only [Scalar.real_add, Scalar.real_sub, Scalar.real_mul, Scalar.real_neg,
        Scalar.real_half, Scalar.real_ofNat, Scalar.real_exp]
      rfl

theorem flux_sumsUnder :
    (sumsUnder image w inverse).flux = ∑ p, weighted image w inverse p := by
  simpa using apply_sumsUnder image w inverse (·.flux) (fun _ => 1) rfl fun _ _ _ => by simp

theorem x_sumsUnder : (sumsUnder image w inverse).x =
    ∑ p : Fin image.width × Fin image.height, (p.1 - w.x) * weighted image w inverse p :=
  apply_sumsUnder image w inverse (·.x) _ rfl fun _ _ _ => rfl

theorem y_sumsUnder : (sumsUnder image w inverse).y =
    ∑ p : Fin image.width × Fin image.height, (p.2 - w.y) * weighted image w inverse p :=
  apply_sumsUnder image w inverse (·.y) _ rfl fun _ _ _ => rfl

theorem xx_sumsUnder : (sumsUnder image w inverse).second.xx =
    ∑ p : Fin image.width × Fin image.height,
      (p.1 - w.x) * (p.1 - w.x) * weighted image w inverse p :=
  apply_sumsUnder image w inverse (·.second.xx) _ rfl fun _ _ _ => rfl

theorem xy_sumsUnder : (sumsUnder image w inverse).second.xy =
    ∑ p : Fin image.width × Fin image.height,
      (p.1 - w.x) * (p.2 - w.y) * weighted image w inverse p :=
  apply_sumsUnder image w inverse (·.second.xy) _ rfl fun _ _ _ => rfl

theorem yy_sumsUnder : (sumsUnder image w inverse).second.yy =
    ∑ p : Fin image.width × Fin image.height,
      (p.2 - w.y) * (p.2 - w.y) * weighted image w inverse p :=
  apply_sumsUnder image w inverse (·.second.yy) _ rfl fun _ _ _ => rfl

/-- The weighted sums as sums over the pixels. -/
theorem sumsUnder_eq : sumsUnder image w inverse =
    ⟨∑ p, weighted image w inverse p,
      ∑ p : Fin image.width × Fin image.height, (p.1 - w.x) * weighted image w inverse p,
      ∑ p : Fin image.width × Fin image.height, (p.2 - w.y) * weighted image w inverse p,
      ⟨∑ p : Fin image.width × Fin image.height,
          (p.1 - w.x) * (p.1 - w.x) * weighted image w inverse p,
        ∑ p : Fin image.width × Fin image.height,
          (p.1 - w.x) * (p.2 - w.y) * weighted image w inverse p,
        ∑ p : Fin image.width × Fin image.height,
          (p.2 - w.y) * (p.2 - w.y) * weighted image w inverse p⟩⟩ := by
  rw [← flux_sumsUnder, ← x_sumsUnder, ← y_sumsUnder, ← xx_sumsUnder, ← xy_sumsUnder,
    ← yy_sumsUnder]

end Sums

section Window

variable {image : Image ℝ} (w : Weight ℝ) (inverse : Covariance ℝ)

theorem weighted_nonneg (hpixels : ∀ i j, 0 ≤ image.pixels.get i j)
    (p : Fin image.width × Fin image.height) :
    0 ≤ weighted image w inverse p := by
  have hpixel := hpixels p.1 p.2
  rw [weighted]
  split_ifs <;> positivity

/-- The pixels with mass are those with flux within the reach. -/
theorem weighted_pos_iff (p : Fin image.width × Fin image.height) :
    0 < weighted image w inverse p ↔
      0 < image.pixels.get p.1 p.2 ∧ distance image w inverse p ≤ 36 := by
  rw [weighted, real_reach]
  split_ifs with hreach
  · simp [hreach]
  · simp [Real.exp_pos, not_lt.1 hreach]

variable (hpixels : ∀ i j, 0 ≤ image.pixels.get i j)

/-- The pixels under a weight as masses. -/
noncomputable def window (hflux : 0 < ∑ p, weighted image w inverse p) :
    Masses (Fin image.width × Fin image.height) where
  mass := weighted image w inverse
  x p := p.1
  y p := p.2
  mass_nonneg := weighted_nonneg w inverse hpixels
  total_pos := hflux

/-- The weight moves to the mean of the pixels under it and to their covariance. -/
theorem moved_sumsUnder (hflux : 0 < ∑ p, weighted image w inverse p) :
    w.moved (sumsUnder image w inverse) =
      ⟨(window w inverse hpixels hflux).mean (window w inverse hpixels hflux).x,
        (window w inverse hpixels hflux).mean (window w inverse hpixels hflux).y,
        (window w inverse hpixels hflux).covariance⟩ := by
  set m := window w inverse hpixels hflux
  have htotal : (sumsUnder image w inverse).flux = m.total := flux_sumsUnder image w inverse
  have hx : (sumsUnder image w inverse).shift.1 = m.mean fun k => m.x k - w.x := by
    rw [WeightedSums.shift, htotal, x_sumsUnder]
    rfl
  have hy : (sumsUnder image w inverse).shift.2 = m.mean fun k => m.y k - w.y := by
    rw [WeightedSums.shift, htotal, y_sumsUnder]
    rfl
  have hxx : (sumsUnder image w inverse).second.xx / m.total =
      m.mean fun k => (m.x k - w.x) * (m.x k - w.x) := by
    rw [xx_sumsUnder]
    rfl
  have hxy : (sumsUnder image w inverse).second.xy / m.total =
      m.mean fun k => (m.x k - w.x) * (m.y k - w.y) := by
    rw [xy_sumsUnder]
    rfl
  have hyy : (sumsUnder image w inverse).second.yy / m.total =
      m.mean fun k => (m.y k - w.y) * (m.y k - w.y) := by
    rw [yy_sumsUnder]
    rfl
  have hcovariance : (sumsUnder image w inverse).covariance = m.covariance := by
    simp only [WeightedSums.covariance, Masses.covariance, htotal, hx, hy,
      Scalar.real_mul, Scalar.real_literal, hxx, hxy, hyy, ← m.moment_eq,
      m.moment_sub_const]
  rw [Weight.moved, hcovariance, hx, hy, m.mean_sub, m.mean_sub, m.mean_const, m.mean_const]
  simp only [add_sub_cancel]

end Window

end MomentsFit

end Seeing
