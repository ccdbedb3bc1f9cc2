import Mathlib
import Seeing.Proofs.Moments.Run
import Seeing.Proofs.Real

/-!
# Moments of masses in the plane

Masses that are not negative and not all zero have a mean for every quantity of their
points. Where no mass lies a quantity does not matter, so a mean lies between the bounds
that hold on the points with mass, and one of these does not exceed it: `exists_le_mean`.

`covariance` is what a weight is given to match the masses, twice their second moments.
It is positive semidefinite, and positive unless all mass lies on one line:
`isPositive_covariance_iff`. Against a positive one, the squared distances of the masses
from their mean have the mean one, `mean_inverse_quadratic`.
-/

namespace Seeing

namespace Covariance

variable (m : Covariance ℝ)

/-- The two by two matrix. -/
def toMatrix : Matrix (Fin 2) (Fin 2) ℝ := !![m.xx, m.xy; m.xy, m.yy]

/-- The inverse of a matrix with a determinant that is not zero. -/
noncomputable def inverse : Covariance ℝ := ⟨m.yy / m.det, -m.xy / m.det, m.xx / m.det⟩

theorem det_eq : m.det = m.xx * m.yy - m.xy * m.xy := rfl

theorem trace_eq : m.trace = m.xx + m.yy := rfl

theorem quadratic_eq (dx dy : ℝ) :
    m.quadratic dx dy = (dx * m.xx + dy * m.xy) * dx + (dx * m.xy + dy * m.yy) * dy := rfl

theorem distance_eq (m' : Covariance ℝ) :
    m.distance m' = max (max |m.xx - m'.xx| |m.xy - m'.xy|) |m.yy - m'.yy| := by
  have hsize : ∀ x : ℝ, (if x < 0 then -x else x) = |x| := by
    intro x
    split_ifs with hx
    · exact (abs_of_neg hx).symm
    · exact (abs_of_nonneg (not_lt.1 hx)).symm
  simp only [distance, Scalar.larger_eq_max, Scalar.real_zero]
  rw [← hsize, ← hsize, ← hsize]

theorem inverse?_eq_some_iff {inverse : Covariance ℝ} :
    m.inverse? = some inverse ↔ m.det ≠ 0 ∧ inverse = m.inverse := by
  have hinverse : m.inverse? = if m.det = 0 then none else some m.inverse := by
    simp [inverse?, Covariance.inverse]
  rw [hinverse]
  split_ifs with hdet <;> simp [hdet, eq_comm]

theorem inverse?_eq_none_iff : m.inverse? = none ↔ m.det = 0 := by
  rw [inverse?]
  simp

theorem posSemidef_toMatrix (hm : ∀ a b, 0 ≤ m.quadratic a b) : m.toMatrix.PosSemidef := by
  apply Matrix.PosSemidef.of_dotProduct_mulVec_nonneg
  · ext i j
    fin_cases i <;> fin_cases j <;> simp [toMatrix]
  · intro v
    have hv := hm (v 0) (v 1)
    rw [quadratic_eq] at hv
    simp only [toMatrix, dotProduct, Matrix.mulVec, Fin.sum_univ_two, Matrix.of_apply,
      Matrix.cons_val', Matrix.cons_val_zero, Matrix.cons_val_one, Matrix.cons_val_fin_one,
      Pi.star_apply, star_trivial]
    linarith

variable {m}

theorem isPositive_iff : m.IsPositive ↔ 0 < m.xx ∧ 0 < m.det := by
  simp [IsPositive]

theorem IsPositive.inverse?_ne_none (hm : m.IsPositive) : m.inverse? ≠ none := by
  rw [Ne, inverse?_eq_none_iff]
  exact (isPositive_iff.1 hm).2.ne'

theorem IsPositive.yy_pos (hm : m.IsPositive) : 0 < m.yy := by
  obtain ⟨hxx, hdet⟩ := isPositive_iff.1 hm
  rw [det_eq] at hdet
  have hproduct : 0 < m.xx * m.yy := by
    have := mul_self_nonneg m.xy
    linarith
  exact pos_of_mul_pos_right hproduct hxx.le

theorem IsPositive.trace_pos (hm : m.IsPositive) : 0 < m.trace :=
  add_pos (isPositive_iff.1 hm).1 hm.yy_pos

theorem IsPositive.quadratic_pos (hm : m.IsPositive) {a b : ℝ} (hab : a ≠ 0 ∨ b ≠ 0) :
    0 < m.quadratic a b := by
  obtain ⟨hxx, hdet⟩ := isPositive_iff.1 hm
  have hsquares : m.xx * m.quadratic a b =
      (m.xx * a + m.xy * b) ^ 2 + m.det * b ^ 2 := by
    rw [quadratic_eq, det_eq]
    ring
  apply pos_of_mul_pos_right _ hxx.le
  rw [hsquares]
  by_cases hb : b = 0
  · have ha : a ≠ 0 := hab.resolve_right (not_not.2 hb)
    rw [hb, mul_zero, add_zero, zero_pow two_ne_zero, mul_zero, add_zero]
    positivity
  · positivity

end Covariance

/-- Masses at points of the plane, none negative and not all zero. -/
structure Masses (ι : Type) [Fintype ι] where
  mass : ι → ℝ
  x : ι → ℝ
  y : ι → ℝ
  mass_nonneg : ∀ k, 0 ≤ mass k
  total_pos : 0 < ∑ k, mass k

namespace Masses

variable {ι : Type} [Fintype ι] (m : Masses ι)

/-- The total mass. -/
def total : ℝ := ∑ k, m.mass k

/-- The mean of a quantity. -/
noncomputable def mean (f : ι → ℝ) : ℝ := (∑ k, f k * m.mass k) / m.total

/-- The mean of the products of the deviations of two quantities from their means. -/
noncomputable def moment (f g : ι → ℝ) : ℝ :=
  m.mean fun k => (f k - m.mean f) * (g k - m.mean g)

/-- Twice the second moments, the covariance of a weight that matches the masses. -/
noncomputable def covariance : Covariance ℝ :=
  ⟨m.moment m.x m.x * 2, m.moment m.x m.y * 2, m.moment m.y m.y * 2⟩

/-- The points with mass. -/
def support : Set (ℝ × ℝ) := {p | ∃ k, 0 < m.mass k ∧ p = (m.x k, m.y k)}

section Mean

variable (f g : ι → ℝ)

theorem total_ne_zero : m.total ≠ 0 := m.total_pos.ne'

theorem mean_add : m.mean (fun k => f k + g k) = m.mean f + m.mean g := by
  simp only [mean, add_mul, Finset.sum_add_distrib, add_div]

theorem mean_sub : m.mean (fun k => f k - g k) = m.mean f - m.mean g := by
  simp only [mean, sub_mul, Finset.sum_sub_distrib, sub_div]

theorem mean_const_mul (c : ℝ) : m.mean (fun k => c * f k) = c * m.mean f := by
  simp only [mean, mul_assoc, ← Finset.mul_sum, mul_div_assoc]

theorem mean_const (c : ℝ) : m.mean (fun _ => c) = c := by
  rw [mean, ← Finset.mul_sum]
  exact mul_div_cancel_right₀ c m.total_ne_zero

variable {f g}

/-- A mean is decided by the points with mass. -/
theorem mean_congr (hfg : ∀ k, 0 < m.mass k → f k = g k) : m.mean f = m.mean g := by
  rw [mean, mean]
  congr 1
  apply Finset.sum_congr rfl
  intro k _
  rcases (m.mass_nonneg k).eq_or_lt with hzero | hpos
  · rw [← hzero, mul_zero, mul_zero]
  · rw [hfg k hpos]

theorem mean_nonneg (hf : ∀ k, 0 ≤ f k) : 0 ≤ m.mean f := by
  apply div_nonneg _ m.total_pos.le
  exact Finset.sum_nonneg fun k _ => mul_nonneg (hf k) (m.mass_nonneg k)

/-- A mean of zero of what is not negative leaves nothing on the points with mass. -/
theorem eq_zero_of_mean_eq_zero (hf : ∀ k, 0 ≤ f k) (hmean : m.mean f = 0) {k : ι}
    (hk : 0 < m.mass k) : f k = 0 := by
  have hsum : ∑ k, f k * m.mass k = 0 := by
    rcases div_eq_zero_iff.1 hmean with hsum | htotal
    · exact hsum
    · exact absurd htotal m.total_ne_zero
  have hterm : f k * m.mass k = 0 :=
    (Finset.sum_eq_zero_iff_of_nonneg fun k _ =>
      mul_nonneg (hf k) (m.mass_nonneg k)).1 hsum k (Finset.mem_univ k)
  exact (mul_eq_zero.1 hterm).resolve_right hk.ne'

/-- Somewhere on the points with mass a quantity does not exceed its mean. -/
theorem exists_le_mean (f : ι → ℝ) : ∃ k, 0 < m.mass k ∧ f k ≤ m.mean f := by
  by_contra! hlt
  have hle : ∀ k, m.mean f * m.mass k ≤ f k * m.mass k := by
    intro k
    rcases (m.mass_nonneg k).eq_or_lt with hzero | hpos
    · rw [← hzero, mul_zero, mul_zero]
    · exact mul_le_mul_of_nonneg_right (hlt k hpos).le hpos.le
  obtain ⟨k, -, hk⟩ := Finset.exists_ne_zero_of_sum_ne_zero m.total_pos.ne'
  have hpos : 0 < m.mass k := lt_of_le_of_ne (m.mass_nonneg k) hk.symm
  have hsum : ∑ k, m.mean f * m.mass k < ∑ k, f k * m.mass k :=
    Finset.sum_lt_sum (fun k _ => hle k)
      ⟨k, Finset.mem_univ k, mul_lt_mul_of_pos_right (hlt k hpos) hpos⟩
  have hmean : ∑ k, m.mean f * m.mass k = ∑ k, f k * m.mass k := by
    rw [← Finset.mul_sum]
    exact div_mul_cancel₀ _ m.total_ne_zero
  exact absurd hmean hsum.ne

theorem le_mean {lo : ℝ} (hlo : ∀ k, lo ≤ f k) : lo ≤ m.mean f := by
  have hnonneg := m.mean_nonneg (f := fun k => f k - lo) fun k => sub_nonneg.2 (hlo k)
  rw [mean_sub, mean_const] at hnonneg
  exact sub_nonneg.1 hnonneg

theorem mean_le {hi : ℝ} (hhi : ∀ k, f k ≤ hi) : m.mean f ≤ hi := by
  have hnonneg := m.mean_nonneg (f := fun k => hi - f k) fun k => sub_nonneg.2 (hhi k)
  rw [mean_sub, mean_const] at hnonneg
  exact sub_nonneg.1 hnonneg

end Mean

section Moment

/-- A second moment about the mean, from that about any origin. -/
theorem moment_eq (f g : ι → ℝ) :
    m.moment f g = m.mean (fun k => f k * g k) - m.mean f * m.mean g := by
  have hexpand : (fun k => (f k - m.mean f) * (g k - m.mean g)) = fun k =>
      f k * g k - m.mean f * g k - (m.mean g * f k - m.mean f * m.mean g) := by
    funext k
    ring
  rw [moment, hexpand, mean_sub, mean_sub, mean_sub, mean_const_mul, mean_const_mul,
    mean_const]
  ring

theorem moment_sub_const (f g : ι → ℝ) (a b : ℝ) :
    m.moment (fun k => f k - a) (fun k => g k - b) = m.moment f g := by
  rw [moment, mean_sub, mean_sub, mean_const, mean_const]
  simp only [sub_sub_sub_cancel_right]
  rfl

/-- A quantity that stays between two bounds has a second moment of at most a quarter of
the square of their distance. -/
theorem moment_self_le {f : ι → ℝ} {lo hi : ℝ} (hlo : ∀ k, lo ≤ f k)
    (hhi : ∀ k, f k ≤ hi) : m.moment f f ≤ (hi - lo) ^ 2 / 4 := by
  have hexpand : (fun k => (hi - f k) * (f k - lo)) = fun k =>
      (hi + lo) * f k - f k * f k - hi * lo := by
    funext k
    ring
  have hnonneg : 0 ≤ m.mean fun k => (hi - f k) * (f k - lo) :=
    m.mean_nonneg fun k => mul_nonneg (sub_nonneg.2 (hhi k)) (sub_nonneg.2 (hlo k))
  rw [hexpand, mean_sub, mean_sub, mean_const_mul, mean_const] at hnonneg
  rw [moment_eq]
  nlinarith [sq_nonneg (hi + lo - 2 * m.mean f)]

/-- The mean of a quadratic form of the deviations, by the second moments. -/
theorem mean_quadratic (c : Covariance ℝ) :
    m.mean (fun k => c.quadratic (m.x k - m.mean m.x) (m.y k - m.mean m.y)) =
      c.xx * m.moment m.x m.x + 2 * c.xy * m.moment m.x m.y + c.yy * m.moment m.y m.y := by
  have hexpand : (fun k => c.quadratic (m.x k - m.mean m.x) (m.y k - m.mean m.y)) = fun k =>
      c.xx * ((m.x k - m.mean m.x) * (m.x k - m.mean m.x)) +
        2 * c.xy * ((m.x k - m.mean m.x) * (m.y k - m.mean m.y)) +
          c.yy * ((m.y k - m.mean m.y) * (m.y k - m.mean m.y)) := by
    funext k
    rw [Covariance.quadratic_eq]
    ring
  rw [hexpand, mean_add, mean_add, mean_const_mul, mean_const_mul, mean_const_mul]
  rfl

/-- The quadratic form of the covariance is the mean of a square. -/
theorem quadratic_covariance (a b : ℝ) :
    m.covariance.quadratic a b =
      2 * m.mean fun k => (a * (m.x k - m.mean m.x) + b * (m.y k - m.mean m.y)) ^ 2 := by
  have hsquare : ∀ u v : ℝ, (a * u + b * v) ^ 2 =
      (⟨a ^ 2, a * b, b ^ 2⟩ : Covariance ℝ).quadratic u v := by
    intro u v
    rw [Covariance.quadratic_eq]
    ring
  simp only [hsquare]
  rw [mean_quadratic, Covariance.quadratic_eq, covariance]
  ring

theorem quadratic_covariance_nonneg (a b : ℝ) : 0 ≤ m.covariance.quadratic a b := by
  rw [quadratic_covariance]
  exact mul_nonneg zero_le_two (m.mean_nonneg fun k => sq_nonneg _)

/-- A vector on which the quadratic form vanishes is orthogonal to all deviations of the
points with mass. -/
theorem orthogonal_of_quadratic_eq_zero {a b : ℝ} (hab : m.covariance.quadratic a b = 0)
    {k : ι} (hk : 0 < m.mass k) :
    a * (m.x k - m.mean m.x) + b * (m.y k - m.mean m.y) = 0 := by
  rw [quadratic_covariance] at hab
  have hmean := (mul_eq_zero.1 hab).resolve_left two_ne_zero
  exact pow_eq_zero_iff two_ne_zero |>.1
    (m.eq_zero_of_mean_eq_zero (fun k => sq_nonneg _) hmean hk)

theorem covariance_xx_nonneg : 0 ≤ m.covariance.xx := by
  simpa [Covariance.quadratic_eq] using m.quadratic_covariance_nonneg 1 0

/-- Bounds of the coordinates bound the trace. -/
theorem trace_covariance_le {lo hi lo' hi' : ℝ} (hx : ∀ k, lo ≤ m.x k ∧ m.x k ≤ hi)
    (hy : ∀ k, lo' ≤ m.y k ∧ m.y k ≤ hi') :
    m.covariance.trace ≤ ((hi - lo) ^ 2 + (hi' - lo') ^ 2) / 2 := by
  have hxx := m.moment_self_le (fun k => (hx k).1) fun k => (hx k).2
  have hyy := m.moment_self_le (fun k => (hy k).1) fun k => (hy k).2
  rw [Covariance.trace_eq, covariance]
  linarith

end Moment

section Line

/-- A line through all points with mass, by its equation. -/
theorem exists_normal_of_collinear (hline : Collinear ℝ m.support) :
    ∃ a b c : ℝ, (a ≠ 0 ∨ b ≠ 0) ∧ ∀ k, 0 < m.mass k → a * m.x k + b * m.y k = c := by
  rw [collinear_iff_exists_forall_eq_smul_vadd] at hline
  obtain ⟨p, v, hv⟩ := hline
  have hpoint : ∀ k, 0 < m.mass k → ∃ r : ℝ,
      m.x k = r * v.1 + p.1 ∧ m.y k = r * v.2 + p.2 := by
    intro k hk
    obtain ⟨r, hr⟩ := hv _ ⟨k, hk, rfl⟩
    exact ⟨r, Prod.ext_iff.1 hr⟩
  by_cases hzero : v = 0
  · refine ⟨1, 0, p.1, .inl one_ne_zero, ?_⟩
    intro k hk
    obtain ⟨r, hx, -⟩ := hpoint k hk
    rw [hx, hzero, Prod.fst_zero]
    ring
  · refine ⟨v.2, -v.1, v.2 * p.1 - v.1 * p.2, ?_, ?_⟩
    · by_contra! hboth
      exact hzero (Prod.ext (neg_eq_zero.1 hboth.2) hboth.1)
    · intro k hk
      obtain ⟨r, hx, hy⟩ := hpoint k hk
      rw [hx, hy]
      ring

/-- Across a line through all points with mass the quadratic form vanishes. -/
theorem quadratic_eq_zero_of_normal {a b c : ℝ}
    (hline : ∀ k, 0 < m.mass k → a * m.x k + b * m.y k = c) :
    m.covariance.quadratic a b = 0 := by
  have hmean : a * m.mean m.x + b * m.mean m.y = c := by
    rw [← mean_const_mul, ← mean_const_mul, ← mean_add, m.mean_congr hline, mean_const]
  rw [quadratic_covariance, m.mean_congr (g := fun _ => 0), mean_const, mul_zero]
  intro k hk
  have hdeviation : a * (m.x k - m.mean m.x) + b * (m.y k - m.mean m.y) =
      (a * m.x k + b * m.y k) - (a * m.mean m.x + b * m.mean m.y) := by ring
  rw [hdeviation, hline k hk, hmean, sub_self, zero_pow two_ne_zero]

/-- A form that is positive nowhere across some line puts all mass on one line. -/
theorem collinear_of_not_isPositive (hnot : ¬m.covariance.IsPositive) :
    Collinear ℝ m.support := by
  rw [collinear_iff_exists_forall_eq_smul_vadd]
  rcases m.covariance_xx_nonneg.eq_or_lt with hxx | hxx
  · -- without extent along the first axis the line is parallel to the second
    have hzero : m.covariance.quadratic 1 0 = 0 := by
      simp [Covariance.quadratic_eq, ← hxx]
    refine ⟨(m.mean m.x, 0), (0, 1), ?_⟩
    rintro _ ⟨k, hk, rfl⟩
    have hdeviation := m.orthogonal_of_quadratic_eq_zero hzero hk
    refine ⟨m.y k, Prod.ext ?_ ?_⟩
    · simp only [vadd_eq_add, Prod.fst_add, Prod.smul_fst, smul_zero]
      linarith
    · simp
  · have hdet : m.covariance.det ≤ 0 :=
      not_lt.1 fun hdet => hnot (Covariance.isPositive_iff.2 ⟨hxx, hdet⟩)
    have hzero : m.covariance.quadratic (-m.covariance.xy) m.covariance.xx = 0 := by
      have hform : m.covariance.quadratic (-m.covariance.xy) m.covariance.xx =
          m.covariance.xx * m.covariance.det := by
        rw [Covariance.quadratic_eq, Covariance.det_eq]
        ring
      apply le_antisymm _ (m.quadratic_covariance_nonneg _ _)
      rw [hform]
      exact mul_nonpos_of_nonneg_of_nonpos hxx.le hdet
    refine ⟨(m.mean m.x, m.mean m.y), (m.covariance.xx, m.covariance.xy), ?_⟩
    rintro _ ⟨k, hk, rfl⟩
    have hdeviation := m.orthogonal_of_quadratic_eq_zero hzero hk
    refine ⟨(m.x k - m.mean m.x) / m.covariance.xx, Prod.ext ?_ ?_⟩
    · simp only [vadd_eq_add, Prod.fst_add, Prod.smul_fst, smul_eq_mul]
      field_simp
      ring
    · simp only [vadd_eq_add, Prod.snd_add, Prod.smul_snd, smul_eq_mul]
      field_simp
      linarith

/-- The covariance is positive unless all mass lies on one line. -/
theorem isPositive_covariance_iff :
    m.covariance.IsPositive ↔ ¬Collinear ℝ m.support := by
  constructor
  · intro hpositive hline
    obtain ⟨a, b, c, hab, hc⟩ := m.exists_normal_of_collinear hline
    exact (hpositive.quadratic_pos hab).ne' (m.quadratic_eq_zero_of_normal hc)
  · intro hline
    by_contra hnot
    exact hline (m.collinear_of_not_isPositive hnot)

/-- Measured by the covariance, the squared distances from the mean have the mean one. -/
theorem mean_inverse_quadratic (hdet : m.covariance.det ≠ 0) :
    m.mean (fun k => m.covariance.inverse.quadratic (m.x k - m.mean m.x)
      (m.y k - m.mean m.y)) = 1 := by
  have hxx : m.moment m.x m.x = m.covariance.xx / 2 := by simp [covariance]
  have hxy : m.moment m.x m.y = m.covariance.xy / 2 := by simp [covariance]
  have hyy : m.moment m.y m.y = m.covariance.yy / 2 := by simp [covariance]
  rw [mean_quadratic, hxx, hxy, hyy, Covariance.inverse]
  field_simp
  rw [Covariance.det_eq]
  ring

end Line

end Masses

end Seeing
