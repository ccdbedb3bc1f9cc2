import Seeing.Kick.Structure
import Seeing.Proofs.Real

/-!
# The structure function above a cutoff

No part of the integral above a cutoff is negative, since the Bessel function does not exceed one,
and what lies beyond the grid is positive: `tailIntegral_pos`. So the structure function is nowhere
negative, and neither is what a table of it gives between two of its separations.

A place in the table falls into one of its intervals, `node`, at the end of which it has the weight
`share`.
-/

open Real

namespace Seeing

namespace Scalar

theorem sumBelow_nonneg {n : ℕ} {f : ℕ → ℝ} (hf : ∀ k, 0 ≤ f k) : 0 ≤ sumBelow n f := by
  induction n with
  | zero =>
      rw [sumBelow_zero]
      simp
  | succ n ih =>
      rw [sumBelow_succ]
      exact add_nonneg ih (hf n)

theorem abs_besselJ0_le (x : ℝ) : |besselJ0 x| ≤ 1 := by
  have hbound : ‖∫ θ in (0)..π, Real.cos (x * Real.sin θ)‖ ≤ 1 * |π - 0| :=
    intervalIntegral.norm_integral_le_of_norm_le_const fun θ _ => abs_cos_le_one _
  rw [one_mul, sub_zero, abs_of_pos pi_pos, Real.norm_eq_abs] at hbound
  change |(∫ θ in (0)..π, Real.cos (x * Real.sin θ)) / π| ≤ 1
  rw [abs_div, abs_of_pos pi_pos]
  exact div_le_one_of_le₀ hbound pi_pos.le

end Scalar

namespace Structure

section Integral

theorem gridStart_pos : 0 < (gridStart : ℝ) := by
  norm_num [gridStart]

theorem gridStart_lt_gridEnd : (gridStart : ℝ) < gridEnd := by
  norm_num [gridStart, gridEnd]

theorem oneMinusJ0_nonneg {x : ℝ} (hx : 0 ≤ x) : 0 ≤ oneMinusJ0 x := by
  rw [oneMinusJ0]
  split_ifs with hseries
  · have hone : x ≤ 1 := by
      have hend : (seriesEnd : ℝ) ≤ 1 := by
        norm_num [seriesEnd]
      exact (le_of_lt hseries).trans hend
    have hsq : x * x ≤ 1 := mul_le_one₀ hone hx hone
    have hfactor : x * x / 4 - x * x * (x * x) / 64 = x * x / 4 * (1 - x * x / 16) := by
      ring
    have hrest : 0 ≤ 1 - x * x / 16 := by
      linarith
    simp only [Scalar.real_mul, Scalar.real_sub, Scalar.real_div, Scalar.real_literal]
    rw [hfactor]
    positivity
  · have hbound := (abs_le.1 (Scalar.abs_besselJ0_le x)).2
    simp only [Scalar.real_sub, Scalar.real_one]
    linarith

theorem farIntegral_pos {u : ℝ} (hu : 0 < u) : 0 < farIntegral u := by
  simp only [farIntegral, Scalar.real_mul, Scalar.real_pow, Scalar.real_decimal]
  norm_num
  positivity

/-- The near integral is taken from `u`, or from zero, up to the start of the grid. -/
theorem nearIntegral_nonneg (u : ℝ) : 0 ≤ nearIntegral u := by
  rw [nearIntegral]
  split_ifs with hnear
  · have hmax : max u 0 ≤ gridStart := max_le (le_of_lt hnear) gridStart_pos.le
    have hroot : max u 0 ^ (1 / 3 : ℝ) ≤ (gridStart : ℝ) ^ (1 / 3 : ℝ) :=
      rpow_le_rpow (le_max_right _ _) hmax (by norm_num)
    have hcoefficient : (0 : ℝ) ≤ 75 / 10 ^ 2 := by
      norm_num
    simp only [Scalar.larger_eq_max, Scalar.real_mul, Scalar.real_sub, Scalar.real_pow,
      Scalar.real_div, Scalar.real_one, Scalar.real_zero, Scalar.real_literal,
      Scalar.real_decimal]
    exact mul_nonneg hcoefficient (sub_nonneg.2 hroot)
  · simp

theorem gridIntegral_nonneg {u : ℝ} (hu : 0 < u) (hend : u ≤ gridEnd) : 0 ≤ gridIntegral u := by
  have hstep : 0 ≤ (Real.log gridEnd - Real.log u) / gridIntervals :=
    div_nonneg (sub_nonneg.2 (Real.log_le_log hu hend)) (Nat.cast_nonneg _)
  refine mul_nonneg (Scalar.sumBelow_nonneg fun k => ?_) hstep
  refine mul_nonneg (mul_nonneg ?_ (Real.rpow_nonneg (Real.exp_pos _).le _))
    (oneMinusJ0_nonneg (Real.exp_pos _).le)
  split_ifs <;> simp

/-- The integral is positive from wherever it is taken, be it from below zero. -/
theorem tailIntegral_pos (u : ℝ) : 0 < tailIntegral u := by
  have hstart : gridStart ≤ Scalar.larger u gridStart := by
    rw [Scalar.larger_eq_max]
    exact le_max_right _ _
  have hpos : 0 < Scalar.larger u gridStart := gridStart_pos.trans_le hstart
  rw [tailIntegral]
  split_ifs with hbeyond
  · exact farIntegral_pos hpos
  · have hgrid := gridIntegral_nonneg hpos (not_le.1 hbeyond).le
    have hnear := nearIntegral_nonneg u
    have hfar := farIntegral_pos (gridStart_pos.trans gridStart_lt_gridEnd)
    exact add_pos_of_nonneg_of_pos (add_nonneg hnear hgrid) hfar

theorem coefficient_pos : 0 < (coefficient : ℝ) := by
  norm_num [coefficient]

theorem wholeIntegral_pos : 0 < (wholeIntegral : ℝ) := by
  have hgamma : 0 < Real.Gamma (1 / 2 * (8 / 3 + 1)) := Real.Gamma_pos_of_pos (by norm_num)
  have hangle : 1 / 2 * π * (8 / 3 - 1) = 5 / 6 * π := by
    ring
  have hsine : 0 < Real.sin (1 / 2 * π * (8 / 3 - 1)) := by
    rw [hangle]
    exact Real.sin_pos_of_pos_of_lt_pi (by positivity) (by linarith [pi_pos])
  simp only [wholeIntegral, Scalar.square, Scalar.real_half, Scalar.real_mul, Scalar.real_div,
    Scalar.real_add, Scalar.real_sub, Scalar.real_pow, Scalar.real_sin, Scalar.real_pi,
    Scalar.real_one, Scalar.real_literal]
  exact div_pos pi_pos (mul_pos (mul_pos (by positivity) (mul_pos hgamma hgamma)) hsine)

end Integral

section Function

variable (r0 cutoff : ℝ)

theorem function_zero : function 0 r0 cutoff = 0 := by
  simp [function]

/-- The structure function is the mean of a square and so not negative. -/
theorem function_nonneg {separation : ℝ} (hseparation : 0 ≤ separation) (hr0 : 0 < r0) :
    0 ≤ function separation r0 cutoff := by
  rw [function]
  split_ifs with hzero
  · simp
  · have hpower : 0 ≤ (separation / r0) ^ (5 / 3 : ℝ) := by
      positivity
    have htail := tailIntegral_pos (cutoff * separation / r0)
    exact div_nonneg (mul_nonneg (mul_nonneg coefficient_pos.le hpower) htail.le)
      wholeIntegral_pos.le

end Function

section Table

variable {α : Type} [Scalar α]

/-- The interval of a table that a place falls into, the last one beyond the end of the table. -/
def node (u : α) : ℕ := min (Scalar.toNat (Scalar.floor u)) (tableIntervals - 1)

/-- The weight at a place of the far end of its interval. -/
def share (u : α) : α := Scalar.smaller (u - Scalar.ofNat (node u)) 1

theorem node_lt (u : α) : node u < tableIntervals := by
  have hle : node u ≤ tableIntervals - 1 := min_le_right _ _
  have hpos : 0 < tableIntervals := by decide
  omega

theorem lookUp_eq (table : Vector α (tableIntervals + 1)) (u : α) : lookUp table u =
    (1 - share u) * table.get ⟨node u, (node_lt u).trans (Nat.lt_succ_self _)⟩ +
      share u * table.get ⟨node u + 1, Nat.succ_lt_succ (node_lt u)⟩ := rfl

section Places

variable {u : ℝ}

theorem node_eq (u : ℝ) : node u = min ⌊u⌋₊ (tableIntervals - 1) := by
  rw [node, Scalar.toNat_floor]

theorem share_eq_min (u : ℝ) : share u = min (u - node u) 1 := by
  rw [share, Scalar.smaller_eq_min]
  simp

theorem node_le (hu : 0 ≤ u) : node u ≤ u := by
  calc
    (node u : ℝ) ≤ ⌊u⌋₊ := by
      rw [node_eq]
      exact_mod_cast min_le_left _ _
    _ ≤ u := Nat.floor_le hu

/-- The end of the table belongs to its last interval. -/
theorem le_node_add_one (hend : u ≤ tableIntervals) : u ≤ node u + 1 := by
  rw [node_eq]
  rcases le_total ⌊u⌋₊ (tableIntervals - 1) with hinside | hlast
  · rw [min_eq_left hinside]
    exact (Nat.lt_floor_add_one u).le
  · rw [min_eq_right hlast]
    exact_mod_cast hend

theorem share_mem_Icc (hu : 0 ≤ u) : share u ∈ Set.Icc 0 1 := by
  rw [share_eq_min]
  exact ⟨le_min (sub_nonneg.2 (node_le hu)) zero_le_one, min_le_right _ _⟩

theorem lookUp_nonneg {table : Vector ℝ (tableIntervals + 1)} (htable : ∀ k, 0 ≤ table.get k)
    (hu : 0 ≤ u) : 0 ≤ lookUp table u := by
  obtain ⟨hnonneg, hle⟩ := share_mem_Icc hu
  rw [lookUp_eq]
  simp only [Scalar.real_add, Scalar.real_mul, Scalar.real_sub, Scalar.real_one]
  exact add_nonneg (mul_nonneg (sub_nonneg.2 hle) (htable _)) (mul_nonneg hnonneg (htable _))

theorem lookUp_zero (table : Vector ℝ (tableIntervals + 1)) : lookUp table 0 = table.get 0 := by
  have hnode : node (0 : ℝ) = 0 := by
    simp [node_eq]
  have hshare : share (0 : ℝ) = 0 := by
    simp [share_eq_min, hnode]
  rw [lookUp_eq, hshare]
  simp only [hnode]
  simp

theorem get_table (r0 cutoff reach : ℝ) (k : Fin (tableIntervals + 1)) :
    (table r0 cutoff reach).get k = function (k * (reach / tableIntervals)) r0 cutoff := by
  rw [table, Vector.get_ofFn]
  simp only [Scalar.real_mul, Scalar.real_div, Scalar.real_ofNat]
  congr 1
  ring

end Places

end Table

end Structure

end Seeing
