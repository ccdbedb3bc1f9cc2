import Seeing.Proofs.Real
import Seeing.Transform

/-!
# The cell in the middle

`Grid.recentre` moves the first cell of a square to `(n/2, n/2)` and all others along,
around the edges. In the arithmetic of `Fin n` it subtracts `middle`, so it only
permutes the cells and keeps their sum, by which an image is normalised.

Places are counted from the middle in both directions without end: `fromMiddle`.
-/

namespace Seeing

namespace Grid

section FromMiddle

variable {β : Type} {n : ℕ} (hn : 0 < n)

/-- The cell of a row at a place that is counted around the edges. -/
def cellAt (a : ℤ) : Fin n :=
  ⟨(a % n).toNat, by
    have hnonneg := Int.emod_nonneg a (Int.natCast_pos.2 hn).ne'
    have hlt := Int.emod_lt_of_pos a (Int.natCast_pos.2 hn)
    omega⟩

/-- The value that lies `a` columns and `b` rows from the middle, counted around the edges. -/
def fromMiddle (g : Grid n n β) (a b : ℤ) : β :=
  g.get (cellAt hn ((n / 2 : ℕ) + a)) (cellAt hn ((n / 2 : ℕ) + b))

end FromMiddle

variable {β : Type} {n : ℕ} [NeZero n]

/-- The column, and the row, of the middle of a square. -/
def middle (n : ℕ) [NeZero n] : Fin n :=
  ⟨n / 2, Nat.div_lt_self (Nat.pos_of_neZero n) Nat.one_lt_two⟩

theorem val_sub_middle (k : Fin n) : (k - middle n).val = (k.val + n - n / 2) % n := by
  rw [Fin.sub_def]
  simp only [middle]
  congr 1
  omega

/-- In a square of an even side the middle is opposite to itself. -/
theorem neg_middle (hn : Even n) : -middle n = middle n := by
  obtain ⟨m, rfl⟩ := hn
  apply Fin.ext
  have hpos := Nat.pos_of_neZero (m + m)
  rw [Fin.val_neg, if_neg]
  · simp only [middle]
    omega
  · intro hzero
    have := congrArg Fin.val hzero
    simp only [middle, Fin.val_zero] at this
    omega

theorem get_recentre (g : Grid n n β) (i j : Fin n) :
    g.recentre.get i j = g.get (i - middle n) (j - middle n) := by
  simp only [recentre, get_ofFn, ← val_sub_middle, Fin.eta]

/-- The values are only moved, so their sum stays. -/
theorem sum_get_recentre (g : Grid n n ℝ) :
    ∑ j, ∑ i, g.recentre.get i j = ∑ j, ∑ i, g.get i j := by
  simp only [get_recentre]
  refine ((Equiv.subRight (middle n)).sum_comp fun j =>
    ∑ i, g.get (i - middle n) j).trans ?_
  apply Finset.sum_congr rfl
  intro j _
  exact (Equiv.subRight (middle n)).sum_comp fun i => g.get i j

theorem get_recentre_div (g : Grid n n ℝ) (total : ℝ) (i j : Fin n) :
    (g.recentre.map (· / total)).get i j =
      g.get (i - middle n) (j - middle n) / total := by
  rw [get_map, get_recentre]

/-- Divided by the sum of its values, a square has the sum one. -/
theorem sumArray_recentre_div (g : Grid n n ℝ) (hg : 0 < Scalar.sumArray g.toArray) :
    Scalar.sumArray
      (g.recentre.map (· / Scalar.sumArray g.toArray)).toArray = 1 := by
  have hsum := g.sum_get_recentre
  simp only [get_recentre] at hsum
  rw [sumArray_toArray]
  simp only [get_recentre_div, ← Finset.sum_div]
  rw [hsum, ← sumArray_toArray, div_self hg.ne']

end Grid

end Seeing
