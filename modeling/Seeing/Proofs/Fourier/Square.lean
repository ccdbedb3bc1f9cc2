import Seeing.Proofs.Fourier.Row
import Seeing.Proofs.Grid

/-!
# The transform of a square

`Grid.transform` works along the rows, exchanges columns and rows in place, works
along the rows again and exchanges back. Its value at column `i` and row `j` is the
double sum at `(i, j)`: the result lies in the square as the input does. This is
`Grid.toComplex_transform`, on which everything about images and screens rests; the
main theorem spells it out for the cells counted row after row.
-/

open Complex

namespace Seeing

namespace Direction

theorem exp_sign_quarter (d : Direction) :
    exp (d.sign * (Real.pi / 2 * I)) = d.sign * I := by
  cases d with
  | forward =>
      have hneg : ((sign forward : ℤ) : ℂ) * (Real.pi / 2 * I) = -Real.pi / 2 * I := by
        simp only [sign]
        push_cast
        ring
      rw [hneg, exp_neg_pi_div_two_mul_I]
      simp [sign]
  | inverse =>
      simp [sign, exp_pi_div_two_mul_I]

/-- A turn by whole quarters. -/
theorem kernel_of_quarters (d : Direction) {n m q : ℕ} (hn : 0 < n)
    (hq : 4 * m = q * n) : d.kernel n m = (d.sign * I) ^ q := by
  have hn' : (n : ℂ) ≠ 0 := Nat.cast_ne_zero.2 hn.ne'
  have hq' : (4 : ℂ) * m = q * n := by
    exact_mod_cast hq
  rw [kernel, ← exp_sign_quarter, ← Complex.exp_nat_mul]
  congr 1
  field_simp
  linear_combination (d.sign : ℂ) * hq'

@[simp] theorem toComplex_quarterTurn (d : Direction) (a : Amplitude ℝ) :
    (d.quarterTurn a).toComplex = d.sign * I * a.toComplex := by
  cases d <;> simp [quarterTurn, sign]

theorem toComplex_root (d : Direction) (n k : ℕ) :
    (d.root n k : Amplitude ℝ).toComplex = d.kernel n k := by
  have hangle : d.kernel n k = exp ((d.sign * (2 * Real.pi * k / n) : ℝ) * I) := by
    rw [kernel]
    congr 1
    push_cast
    ring
  rw [hangle]
  apply Complex.ext
  · rw [exp_ofReal_mul_I_re]
    cases d <;> simp [root, sign]
  · rw [exp_ofReal_mul_I_im]
    cases d <;> simp [root, sign]

/-- The rotation with tabulated roots is one by parts of a turn. -/
theorem rotates_rotate (d : Direction) {n : ℕ} (hn : 0 < n) :
    d.Rotates n (d.rotate (d.roots n)) := by
  intro k a
  have hmod : d.kernel n k = d.kernel n (k % n) :=
    kernel_congr d hn (Nat.mod_modEq k n).symm
  rw [hmod, rotate, dif_pos hn]
  simp only
  split_ifs with h0 h1 h2 h3
  · simp [h0]
  · rw [kernel_of_quarters d hn (q := 1) (by omega), toComplex_quarterTurn, pow_one]
  · rw [kernel_of_quarters d hn (q := 2) (by omega), Amplitude.toComplex_neg]
    cases d <;> simp [sign]
  · rw [kernel_of_quarters d hn (q := 3) (by omega), Amplitude.toComplex_neg,
      toComplex_quarterTurn]
    cases d <;> simp [sign, pow_succ]
  · simp [roots, toComplex_root]

/-- The transform of a row with tabulated roots. -/
theorem toComplex_transform_roots (d : Direction) {n : ℕ} [NeZero n]
    (x : Vector (Amplitude ℝ) n) (k : Fin n) :
    ((transform (d.rotate (d.roots n)) x).get k).toComplex =
      d.rowSum (fun p => (x.get p).toComplex) k := by
  rw [toComplex_transform (d.rotates_rotate (Fin.pos k)), rowSum]
  apply Finset.sum_congr rfl
  intro p _
  rw [← turn_natCast_eq_kernel, Nat.cast_mul]

end Direction

namespace Grid

variable {n : ℕ}

/-- The complex numbers of a square of amplitudes. -/
noncomputable def toComplex (g : Grid n n (Amplitude ℝ)) (i j : Fin n) : ℂ :=
  (g.get i j).toComplex

/-- The transform of a square is its double sum. -/
theorem toComplex_transform (d : Direction) (g : Grid n n (Amplitude ℝ)) (i j : Fin n) :
    (g.transform d).toComplex i j = d.doubleSum g.toComplex i j := by
  have hn : NeZero n := ⟨(Fin.pos i).ne'⟩
  have hrow : ∀ (f : Grid n n (Amplitude ℝ)) (k l : Fin n),
      ((mapRows (Seeing.transform (d.rotate (d.roots n))) f).get k l).toComplex =
        d.rowSum (fun p => (f.get p l).toComplex) k := by
    intro f k l
    rw [get_mapRows]
    have hvalue := d.toComplex_transform_roots (f.row l) k
    simpa [row, Vector.get_eq_getElem] using hvalue
  rw [Direction.doubleSum_eq_rowSum]
  simp only [toComplex, transform, transposeInPlace_eq_transpose, get_transpose, hrow]

/-- Forward and inverse transform in place: the cell in column `i` and row `j`
holds the double sum over the cells of the input, counted row after row. -/
theorem transform_cells (x : Vector (Amplitude ℝ) (n * n)) (i j : Fin n) :
    (((⟨x⟩ : Grid n n (Amplitude ℝ)).transform .forward).cells.get
        ⟨j * n + i, index_lt i j⟩).toComplex =
      ∑ q : Fin n, ∑ p : Fin n, (x.get ⟨q * n + p, index_lt p q⟩).toComplex *
        exp (-2 * Real.pi * I * (j * q + i * p) / n) ∧
    (((⟨x⟩ : Grid n n (Amplitude ℝ)).transform .inverse).cells.get
        ⟨j * n + i, index_lt i j⟩).toComplex =
      ∑ q : Fin n, ∑ p : Fin n, (x.get ⟨q * n + p, index_lt p q⟩).toComplex *
        exp (2 * Real.pi * I * (j * q + i * p) / n) := by
  have hdouble : ∀ d : Direction,
      (((⟨x⟩ : Grid n n (Amplitude ℝ)).transform d).cells.get
          ⟨j * n + i, index_lt i j⟩).toComplex =
        ∑ q : Fin n, ∑ p : Fin n, (x.get ⟨q * n + p, index_lt p q⟩).toComplex *
          exp (d.sign * (2 * Real.pi * I) * (j * q + i * p) / n) :=
    fun d => toComplex_transform d ⟨x⟩ i j
  constructor
  · rw [hdouble]
    simp only [Direction.sign, Int.cast_neg, Int.cast_one, neg_mul, one_mul]
  · rw [hdouble]
    simp only [Direction.sign, Int.cast_one, one_mul]

end Grid

end Seeing
