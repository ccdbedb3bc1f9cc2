import Seeing.Proofs.Fourier.Sum

/-!
# Energy, correlation and peak

The double sum is symmetric as a pairing, `sum_mul_doubleSum`. With the inversion
this gives the energy of a transform and the correlation that the squared modulus of
a transform stands for. The values of a transform of non-negative numbers are largest
at the first cell, where they are added up without rotation.
-/

open Complex ComplexConjugate

namespace Seeing

/-- No number of a square of non-negative numbers exceeds their sum. -/
theorem le_sum_sum_of_nonneg {n : ℕ} {x : Fin n → Fin n → ℝ}
    (hx : ∀ i j, 0 ≤ x i j) (i j : Fin n) : x i j ≤ ∑ j, ∑ i, x i j := by
  calc
    x i j ≤ ∑ i, x i j :=
        Finset.single_le_sum (fun i _ => hx i j) (Finset.mem_univ i)
    _ ≤ ∑ j, ∑ i, x i j :=
        Finset.single_le_sum (f := fun j => ∑ i, x i j)
          (fun j _ => Finset.sum_nonneg fun i _ => hx i j) (Finset.mem_univ j)

namespace Direction

variable {n : ℕ} [NeZero n]

theorem sum_mul_rowSum (d : Direction) (x y : Fin n → ℂ) :
    ∑ k, x k * d.rowSum y k = ∑ k, d.rowSum x k * y k := by
  simp only [rowSum, Finset.mul_sum, Finset.sum_mul]
  rw [Finset.sum_comm]
  apply Finset.sum_congr rfl
  intro p _
  apply Finset.sum_congr rfl
  intro k _
  rw [mul_comm (p : ZMod n)]
  ring

/-- The double sum is symmetric as a pairing of squares. -/
theorem sum_mul_doubleSum (d : Direction) (x y : Fin n → Fin n → ℂ) :
    ∑ j, ∑ i, x i j * d.doubleSum y i j = ∑ j, ∑ i, d.doubleSum x i j * y i j := by
  simp only [doubleSum_eq_rowSum]
  calc
    ∑ j, ∑ i, x i j * d.rowSum (fun q => d.rowSum (fun p => y p q) i) j
      = ∑ i, ∑ j, d.rowSum (fun q => x i q) j * d.rowSum (fun p => y p j) i := by
        rw [Finset.sum_comm]
        apply Finset.sum_congr rfl
        intro i _
        exact sum_mul_rowSum d (fun j => x i j) fun q => d.rowSum (fun p => y p q) i
    _ = ∑ j, ∑ i, d.rowSum (fun p => d.rowSum (fun q => x p q) j) i * y i j := by
        rw [Finset.sum_comm]
        apply Finset.sum_congr rfl
        intro j _
        exact sum_mul_rowSum d (fun i => d.rowSum (fun q => x i q) j) fun p => y p j
    _ = ∑ j, ∑ i, d.rowSum (fun q => d.rowSum (fun p => x p q) i) j * y i j := by
        apply Finset.sum_congr rfl
        intro j _
        apply Finset.sum_congr rfl
        intro i _
        rw [rowSum_comm]

/-- The energy of a transform is that of the square, times the number of cells. -/
theorem sum_sq_norm_doubleSum (d : Direction) (x : Fin n → Fin n → ℂ) :
    ∑ j, ∑ i, ‖d.doubleSum x i j‖ ^ 2 = n ^ 2 * ∑ j, ∑ i, ‖x i j‖ ^ 2 := by
  have hsq : ∀ z : ℂ, ((‖z‖ ^ 2 : ℝ) : ℂ) = z * conj z := by
    intro z
    rw [mul_conj, normSq_eq_norm_sq]
  have henergy : ∑ j, ∑ i, d.doubleSum x i j * conj (d.doubleSum x i j) =
      n ^ 2 * ∑ j, ∑ i, x i j * conj (x i j) := by
    simp only [conj_doubleSum]
    rw [sum_mul_doubleSum]
    simp only [doubleSum_opposite_doubleSum, Finset.mul_sum, mul_assoc]
  apply ofReal_injective
  push_cast
  simpa only [← hsq, ofReal_pow] using henergy

theorem rowSum_mul_turn (d : Direction) (y : Fin n → ℂ) (k l : Fin n) :
    d.rowSum (fun p => y p * d.turn ((l : ZMod n) * (p : ZMod n))) k =
      d.rowSum y (k + l) := by
  simp only [rowSum]
  apply Finset.sum_congr rfl
  intro p _
  rw [mul_assoc, ← turn_add, natCast_add]
  congr 2
  ring

/-- Rotating the values moves the transform. -/
theorem doubleSum_mul_turn (d : Direction) (x : Fin n → Fin n → ℂ) (a b i j : Fin n) :
    d.doubleSum (fun p q => x p q * d.turn ((a : ZMod n) * (p : ZMod n)) *
      d.turn ((b : ZMod n) * (q : ZMod n))) i j = d.doubleSum x (i + a) (j + b) := by
  have hrow : ∀ q : Fin n,
      d.rowSum (fun p => x p q * d.turn ((a : ZMod n) * (p : ZMod n)) *
        d.turn ((b : ZMod n) * (q : ZMod n))) i =
      d.rowSum (fun p => x p q) (i + a) * d.turn ((b : ZMod n) * (q : ZMod n)) := by
    intro q
    rw [rowSum_mul_right, rowSum_mul_turn]
  simp only [doubleSum_eq_rowSum, hrow]
  rw [rowSum_mul_turn]

/-- The correlation: the squared modulus of a transform, transformed back, adds up the
products of the values that lie the given number of cells apart. -/
theorem doubleSum_opposite_normSq (d : Direction) (x : Fin n → Fin n → ℂ)
    (a b : Fin n) :
    d.opposite.doubleSum (fun i j => d.doubleSum x i j * conj (d.doubleSum x i j)) a b =
      n ^ 2 * ∑ q, ∑ p, x (p + a) (q + b) * conj (x p q) := by
  calc
    d.opposite.doubleSum (fun i j => d.doubleSum x i j * conj (d.doubleSum x i j)) a b
      = ∑ j, ∑ i, (d.doubleSum x i j * d.opposite.turn ((a : ZMod n) * (i : ZMod n)) *
          d.opposite.turn ((b : ZMod n) * (j : ZMod n))) *
          d.opposite.doubleSum (fun p q => conj (x p q)) i j := by
        rw [doubleSum_eq_turn]
        apply Finset.sum_congr rfl
        intro j _
        apply Finset.sum_congr rfl
        intro i _
        rw [conj_doubleSum]
        ring
    _ = ∑ q, ∑ p, d.opposite.doubleSum (d.doubleSum x) (p + a) (q + b) * conj (x p q) := by
        rw [sum_mul_doubleSum]
        simp only [doubleSum_mul_turn]
    _ = n ^ 2 * ∑ q, ∑ p, x (p + a) (q + b) * conj (x p q) := by
        simp only [doubleSum_opposite_doubleSum, Finset.mul_sum, mul_assoc]

theorem doubleSum_zero (d : Direction) (x : Fin n → Fin n → ℂ) :
    d.doubleSum x 0 0 = ∑ q, ∑ p, x p q := by
  simp [doubleSum]

/-- No value of the transform of non-negative numbers exceeds their sum. -/
theorem re_doubleSum_le_sum (d : Direction) {x : Fin n → Fin n → ℝ}
    (hx : ∀ p q, 0 ≤ x p q) (i j : Fin n) :
    (d.doubleSum (fun p q => (x p q : ℂ)) i j).re ≤ ∑ q, ∑ p, x p q := by
  calc
    (d.doubleSum (fun p q => (x p q : ℂ)) i j).re
      ≤ ‖d.doubleSum (fun p q => (x p q : ℂ)) i j‖ := Complex.re_le_norm _
    _ ≤ ∑ q : Fin n, ∑ p : Fin n, ‖(x p q : ℂ) * d.turn ((i : ZMod n) * (p : ZMod n)) *
          d.turn ((j : ZMod n) * (q : ZMod n))‖ := by
        rw [doubleSum_eq_turn]
        refine (norm_sum_le _ _).trans ?_
        apply Finset.sum_le_sum
        intro q _
        exact norm_sum_le _ _
    _ = ∑ q, ∑ p, x p q := by
        simp only [norm_mul, norm_turn, mul_one, Complex.norm_real, Real.norm_eq_abs,
          abs_of_nonneg (hx _ _)]

end Direction

end Seeing
