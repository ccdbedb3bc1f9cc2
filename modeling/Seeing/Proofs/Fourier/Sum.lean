import Seeing.Proofs.Real
import Seeing.Transform

/-!
# Fourier sums

`d.rowSum y` is the sum that a transform of a row stands for, and `d.doubleSum x`
that of a square: `∑ x (p, q) exp (∓2πi (jq + ip)/n)` at column `i` and row `j`.
The double sum is a row sum of row sums, so what holds of it is proved for rows
and carried over.

A rotation by `k / n` of a turn depends on `k` modulo `n` only and is therefore a
character of `ZMod n`; the orthogonality of these characters is the only fact
about them from which the inversion, the energy and the correlation of a double
sum are derived. Cells are counted modulo the side by the addition of `Fin n`.
-/

open Complex ComplexConjugate

namespace Seeing

section Cells

variable {n : ℕ} [NeZero n]

/-- The cells of a row are the remainders modulo its length. -/
theorem bijective_natCast : Function.Bijective fun k : Fin n => (k : ZMod n) := by
  refine Function.bijective_iff_has_inverse.2
    ⟨fun z => ⟨z.val, ZMod.val_lt z⟩, ?_, ?_⟩
  · intro k
    apply Fin.ext
    exact ZMod.val_natCast_of_lt k.isLt
  · intro z
    exact ZMod.natCast_zmod_val z

theorem natCast_eq_iff {k l : Fin n} : (k : ZMod n) = l ↔ k = l :=
  bijective_natCast.injective.eq_iff

omit [NeZero n] in
theorem natCast_add (k l : Fin n) : ((k + l : Fin n) : ZMod n) = k + l := by
  rw [Fin.val_add, ZMod.natCast_mod, Nat.cast_add]

theorem natCast_neg (k : Fin n) : ((-k : Fin n) : ZMod n) = -k := by
  rw [eq_neg_iff_add_eq_zero, ← natCast_add, neg_add_cancel]
  simp

end Cells

namespace Direction

/-- The sign of the exponent of the kernel. -/
def sign : Direction → ℤ
  | .forward => -1
  | .inverse => 1

/-- The direction of the transform that undoes this one. -/
def opposite : Direction → Direction
  | .forward => .inverse
  | .inverse => .forward

@[simp] theorem opposite_opposite (d : Direction) : d.opposite.opposite = d := by
  cases d <;> rfl

/-- The double sum of a square of complex numbers, for columns `p` and rows
`q`. -/
noncomputable def doubleSum (d : Direction) {n : ℕ} (x : Fin n → Fin n → ℂ)
    (i j : Fin n) : ℂ :=
  ∑ q : Fin n, ∑ p : Fin n,
    x p q * exp (d.sign * (2 * Real.pi * I) * (j * q + i * p) / n)

theorem doubleSum_const_mul (d : Direction) {n : ℕ} (c : ℂ) (x : Fin n → Fin n → ℂ)
    (i j : Fin n) : d.doubleSum (fun p q => c * x p q) i j = c * d.doubleSum x i j := by
  simp only [doubleSum, mul_assoc, Finset.mul_sum]

variable {n : ℕ} [NeZero n]

/-- The rotation `exp (∓2πi k/n)`, by a multiple of `1 / n` of a turn. -/
noncomputable def turn (d : Direction) (k : ZMod n) : ℂ :=
  ZMod.stdAddChar (((d.sign : ℤ) : ZMod n) * k)

theorem turn_natCast (d : Direction) (k : ℕ) :
    d.turn (k : ZMod n) = exp (d.sign * (2 * Real.pi * I) * k / n) := by
  have hcast : ((d.sign : ℤ) : ZMod n) * (k : ZMod n) = ((d.sign * k : ℤ) : ZMod n) := by
    push_cast
    rfl
  rw [turn, hcast, ZMod.stdAddChar_coe]
  congr 1
  push_cast
  ring

theorem turn_add (d : Direction) (k l : ZMod n) :
    d.turn (k + l) = d.turn k * d.turn l := by
  rw [turn, mul_add, AddChar.map_add_eq_mul]
  rfl

theorem turn_opposite (d : Direction) (k : ZMod n) :
    d.opposite.turn k = d.turn (-k) := by
  cases d <;> simp [turn, opposite, sign]

theorem conj_turn (d : Direction) (k : ZMod n) :
    conj (d.turn k) = d.opposite.turn k := by
  rw [turn_opposite, turn, turn, mul_neg, AddChar.map_neg_eq_conj]

@[simp] theorem norm_turn (d : Direction) (k : ZMod n) : ‖d.turn k‖ = 1 := by
  rw [turn]
  exact AddChar.norm_apply _ _

/-- The rotations by the multiples of one that is not whole cancel. -/
theorem sum_turn (d : Direction) (t : ZMod n) :
    ∑ k : Fin n, d.turn ((k : ZMod n) * t) = if t = 0 then (n : ℂ) else 0 := by
  have hfin : ∑ k : Fin n, d.turn ((k : ZMod n) * t) = ∑ k : ZMod n, d.turn (k * t) := by
    apply Fintype.sum_bijective (fun k : Fin n => (k : ZMod n)) bijective_natCast
    intro k
    rfl
  have hsign : ((d.sign : ℤ) : ZMod n) * t = 0 ↔ t = 0 := by
    cases d <;> simp [sign]
  have hmul : ∀ k : ZMod n, d.turn (k * t) =
      ZMod.stdAddChar (k * (((d.sign : ℤ) : ZMod n) * t)) := by
    intro k
    rw [turn, mul_left_comm]
  rw [hfin, Finset.sum_congr rfl fun k _ => hmul k,
    AddChar.sum_mulShift _ (ZMod.isPrimitive_stdAddChar n), ZMod.card]
  simp only [hsign]
  split_ifs <;> simp

/-- The sum of the transform of a row. -/
noncomputable def rowSum (d : Direction) (y : Fin n → ℂ) (k : Fin n) : ℂ :=
  ∑ p : Fin n, y p * d.turn ((k : ZMod n) * (p : ZMod n))

theorem rowSum_mul_right (d : Direction) (c : ℂ) (y : Fin n → ℂ) (k : Fin n) :
    d.rowSum (fun p => y p * c) k = d.rowSum y k * c := by
  rw [rowSum, rowSum, Finset.sum_mul]
  apply Finset.sum_congr rfl
  intro p _
  ring

/-- Sums along different axes exchange. -/
theorem rowSum_comm (d d' : Direction) (x : Fin n → Fin n → ℂ) (i j : Fin n) :
    d.rowSum (fun q => d'.rowSum (fun p => x p q) i) j =
      d'.rowSum (fun p => d.rowSum (fun q => x p q) j) i := by
  simp only [rowSum, Finset.sum_mul]
  rw [Finset.sum_comm]
  apply Finset.sum_congr rfl
  intro p _
  apply Finset.sum_congr rfl
  intro q _
  ring

/-- Two opposite transforms of a row multiply it by its length. -/
theorem rowSum_opposite_rowSum (d : Direction) (y : Fin n → ℂ) (k : Fin n) :
    d.opposite.rowSum (d.rowSum y) k = n * y k := by
  calc
    d.opposite.rowSum (d.rowSum y) k
      = ∑ p : Fin n, y p *
          ∑ l : Fin n, d.turn ((l : ZMod n) * ((p : ZMod n) - (k : ZMod n))) := by
        simp only [rowSum, Finset.sum_mul]
        rw [Finset.sum_comm]
        apply Finset.sum_congr rfl
        intro p _
        rw [Finset.mul_sum]
        apply Finset.sum_congr rfl
        intro l _
        rw [turn_opposite, mul_assoc, ← turn_add]
        congr 2
        ring
    _ = ∑ p : Fin n, y p * if p = k then (n : ℂ) else 0 := by
        apply Finset.sum_congr rfl
        intro p _
        rw [sum_turn]
        simp only [sub_eq_zero, natCast_eq_iff]
    _ = n * y k := by
        simp [mul_comm]

/-- The double sum is taken along the rows and then along the columns. -/
theorem doubleSum_eq_rowSum (d : Direction) (x : Fin n → Fin n → ℂ) (i j : Fin n) :
    d.doubleSum x i j = d.rowSum (fun q => d.rowSum (fun p => x p q) i) j := by
  simp only [doubleSum, rowSum, Finset.sum_mul]
  apply Finset.sum_congr rfl
  intro q _
  apply Finset.sum_congr rfl
  intro p _
  rw [mul_assoc (x p q), ← turn_add]
  have hcast : (i : ZMod n) * (p : ZMod n) + (j : ZMod n) * (q : ZMod n) =
      ((j * q + i * p : ℕ) : ZMod n) := by
    push_cast
    ring
  rw [hcast, turn_natCast]
  push_cast
  rfl

theorem doubleSum_eq_turn (d : Direction) (x : Fin n → Fin n → ℂ) (i j : Fin n) :
    d.doubleSum x i j = ∑ q : Fin n, ∑ p : Fin n, x p q *
      d.turn ((i : ZMod n) * (p : ZMod n)) * d.turn ((j : ZMod n) * (q : ZMod n)) := by
  simp only [doubleSum_eq_rowSum, rowSum, Finset.sum_mul]

/-- Two opposite transforms of a square multiply it by the number of its
cells. -/
theorem doubleSum_opposite_doubleSum (d : Direction) (x : Fin n → Fin n → ℂ)
    (i j : Fin n) :
    d.opposite.doubleSum (d.doubleSum x) i j = n ^ 2 * x i j := by
  simp only [doubleSum_eq_rowSum]
  calc
    d.opposite.rowSum (fun q => d.opposite.rowSum (fun p =>
        d.rowSum (fun b => d.rowSum (fun a => x a b) p) q) i) j
      = d.opposite.rowSum (fun q => d.rowSum (fun b =>
          d.opposite.rowSum (d.rowSum fun a => x a b) i) q) j := by
        simp only [rowSum_comm d.opposite d]
    _ = d.opposite.rowSum (fun q => d.rowSum (fun b => n * x i b) q) j := by
        simp only [rowSum_opposite_rowSum]
    _ = n * (n * x i j) := rowSum_opposite_rowSum d (fun b => n * x i b) j
    _ = n ^ 2 * x i j := by ring

theorem conj_doubleSum (d : Direction) (x : Fin n → Fin n → ℂ) (i j : Fin n) :
    conj (d.doubleSum x i j) = d.opposite.doubleSum (fun p q => conj (x p q)) i j := by
  simp only [doubleSum_eq_rowSum, rowSum, map_sum, map_mul, conj_turn]

/-- The double sum at the mirror image of a cell. -/
theorem doubleSum_neg (d : Direction) (x : Fin n → Fin n → ℂ) (i j : Fin n) :
    d.doubleSum x (-i) (-j) = d.opposite.doubleSum x i j := by
  simp only [doubleSum_eq_rowSum, rowSum, natCast_neg, turn_opposite, neg_mul]

theorem doubleSum_re (d : Direction) (x : Fin n → Fin n → ℂ) (i j : Fin n) :
    d.doubleSum (fun p q => ((x p q).re : ℂ)) i j =
      (d.doubleSum x i j + d.doubleSum (fun p q => conj (x p q)) i j) / 2 := by
  simp only [doubleSum_eq_turn, re_eq_add_conj, ← Finset.sum_add_distrib, Finset.sum_div]
  apply Finset.sum_congr rfl
  intro q _
  apply Finset.sum_congr rfl
  intro p _
  ring

/-- The real part of a transform, transformed back: every value is averaged with the
conjugate of the one at its mirror image. -/
theorem doubleSum_opposite_re (d : Direction) (x : Fin n → Fin n → ℂ) (i j : Fin n) :
    d.opposite.doubleSum (fun p q => ((d.doubleSum x p q).re : ℂ)) i j =
      n ^ 2 / 2 * (x i j + conj (x (-i) (-j))) := by
  have hconj : d.opposite.doubleSum (fun p q => conj (d.doubleSum x p q)) i j =
      n ^ 2 * conj (x (-i) (-j)) := by
    calc
      d.opposite.doubleSum (fun p q => conj (d.doubleSum x p q)) i j
        = conj (d.doubleSum (d.doubleSum x) i j) := (conj_doubleSum d _ i j).symm
      _ = conj (d.opposite.doubleSum (d.doubleSum x) (-i) (-j)) := by
          rw [doubleSum_neg, opposite_opposite]
      _ = n ^ 2 * conj (x (-i) (-j)) := by
          rw [doubleSum_opposite_doubleSum, map_mul, map_pow, conj_natCast]
  calc
    d.opposite.doubleSum (fun p q => ((d.doubleSum x p q).re : ℂ)) i j
      = (d.opposite.doubleSum (d.doubleSum x) i j +
          d.opposite.doubleSum (fun p q => conj (d.doubleSum x p q)) i j) / 2 :=
        doubleSum_re d.opposite (d.doubleSum x) i j
    _ = n ^ 2 / 2 * (x i j + conj (x (-i) (-j))) := by
        rw [doubleSum_opposite_doubleSum, hconj]
        ring

end Direction

end Seeing
