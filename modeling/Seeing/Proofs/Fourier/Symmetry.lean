import Seeing.Proofs.Fourier.Centre
import Seeing.Proofs.Fourier.Sum
import Seeing.Proofs.Grid

/-!
# The transform of a symmetric square

A square that is symmetric about its middle is transformed into one whose moduli are
symmetric about the first cell: `NodeSymmetric.of_doubleSum`. The half cell between the
two only turns the values, by `rowSum_neg`. The cell in the middle takes the place of the
first one, for an even side without loss of the symmetry.

A square that is symmetric about the first cell is transformed into another one,
`NodeSymmetric.doubleSum`. If its numbers are real, so are those of the transform. Seen
from the middle, it is symmetric about the middle: `Grid.fromMiddle_recentre`.
-/

open ComplexConjugate

namespace Seeing

section Transform

variable {n : ℕ}

/-- Mirrored places of a row add up to the last one. -/
theorem natCast_rev (k : Fin n) : ((k.rev : Fin n) : ZMod n) = -1 - k := by
  rw [Fin.val_rev, Nat.cast_sub k.isLt]
  push_cast
  rw [ZMod.natCast_self]
  ring

variable [NeZero n]

section Middle

variable (hn : 0 < n)

omit [NeZero n] in
theorem natCast_cellAt (a : ℤ) : ((Grid.cellAt hn a : Fin n) : ZMod n) = a := by
  have hvalue : ((Grid.cellAt hn a).val : ℤ) = a % n :=
    Int.toNat_of_nonneg (Int.emod_nonneg a (Int.natCast_pos.2 hn).ne')
  rw [← Int.cast_natCast, hvalue, ZMod.intCast_mod]

theorem cellAt_neg (a : ℤ) : Grid.cellAt hn (-a) = -Grid.cellAt hn a := by
  rw [← natCast_eq_iff, natCast_neg, natCast_cellAt, natCast_cellAt, Int.cast_neg]

theorem cellAt_middle_add (a : ℤ) :
    Grid.cellAt hn ((n / 2 : ℕ) + a) = Grid.cellAt hn a + Grid.middle n := by
  rw [← natCast_eq_iff, natCast_add, natCast_cellAt, natCast_cellAt, Int.cast_add, add_comm,
    Int.cast_natCast]
  rfl

theorem Grid.fromMiddle_recentre {β : Type} (g : Grid n n β) (a b : ℤ) :
    g.recentre.fromMiddle hn a b = g.get (cellAt hn a) (cellAt hn b) := by
  rw [fromMiddle, get_recentre, cellAt_middle_add, cellAt_middle_add, add_sub_cancel_right,
    add_sub_cancel_right]

end Middle

namespace Direction

/-- The transform of a mirrored row at the opposite frequency. -/
theorem rowSum_neg (d : Direction) {y : Fin n → ℂ} (hy : ∀ p, y p.rev = y p) (k : Fin n) :
    d.rowSum y (-k) = d.turn (k : ZMod n) * d.rowSum y k := by
  rw [rowSum, rowSum, Finset.mul_sum, ← Equiv.sum_comp Fin.revPerm]
  apply Finset.sum_congr rfl
  intro p _
  have hturn : ((-k : Fin n) : ZMod n) * ((p.rev : Fin n) : ZMod n) =
      (k : ZMod n) + (k : ZMod n) * (p : ZMod n) := by
    rw [natCast_neg, natCast_rev]
    ring
  rw [Fin.revPerm_apply, hy, hturn, turn_add]
  ring

theorem doubleSum_neg_column (d : Direction) {x : Fin n → Fin n → ℂ}
    (hx : ∀ i j, x i.rev j = x i j) (i j : Fin n) :
    d.doubleSum x (-i) j = d.turn (i : ZMod n) * d.doubleSum x i j := by
  have hrow : ∀ q, d.rowSum (fun p => x p q) (-i) =
      d.rowSum (fun p => x p q) i * d.turn (i : ZMod n) := by
    intro q
    rw [d.rowSum_neg fun p => hx p q, mul_comm]
  simp only [doubleSum_eq_rowSum, hrow, rowSum_mul_right]
  rw [mul_comm]

theorem doubleSum_exchange (d : Direction) {x : Fin n → Fin n → ℂ}
    (hx : ∀ i j, x j i = x i j) (i j : Fin n) : d.doubleSum x j i = d.doubleSum x i j := by
  rw [doubleSum_eq_rowSum, doubleSum_eq_rowSum, rowSum_comm]
  simp only [hx]

end Direction

theorem NodeSymmetric.of_doubleSum (d : Direction) {x : Fin n → Fin n → ℂ}
    (hx : MirrorSymmetric x) : NodeSymmetric fun i j => ‖d.doubleSum x i j‖ where
  neg_column i j := by
    rw [d.doubleSum_neg_column hx.rev_column, norm_mul, Direction.norm_turn, one_mul]
  exchange i j := by
    rw [d.doubleSum_exchange hx.exchange]

namespace NodeSymmetric

theorem comp {β γ : Type} (φ : β → γ) {f : Fin n → Fin n → β} (hf : NodeSymmetric f) :
    NodeSymmetric fun i j => φ (f i j) where
  neg_column i j := congrArg φ (hf.neg_column i j)
  exchange i j := congrArg φ (hf.exchange i j)

theorem neg_row {β : Type} {f : Fin n → Fin n → β} (hf : NodeSymmetric f) (i j : Fin n) :
    f i (-j) = f i j := by
  rw [← hf.exchange, hf.neg_column, hf.exchange]

theorem doubleSum (d : Direction) {x : Fin n → Fin n → ℂ} (hx : NodeSymmetric x) :
    NodeSymmetric (d.doubleSum x) where
  neg_column i j := by
    have hrow : ∀ q, d.rowSum (fun p => x p q) (-i) = d.rowSum (fun p => x p q) i := by
      intro q
      rw [Direction.rowSum, ← Equiv.sum_comp (Equiv.neg (Fin n))]
      apply Finset.sum_congr rfl
      intro p _
      rw [Equiv.neg_apply, hx.neg_column, natCast_neg, natCast_neg, neg_mul_neg]
    simp only [Direction.doubleSum_eq_rowSum, hrow]
  exchange i j := d.doubleSum_exchange hx.exchange i j

/-- The conjugate of the transform is the transform in the other sense, and that is the one at the
mirror image. -/
theorem im_doubleSum (d : Direction) {x : Fin n → Fin n → ℝ} (hx : NodeSymmetric x)
    (i j : Fin n) : (d.doubleSum (fun p q => (x p q : ℂ)) i j).im = 0 := by
  have hcast := (hx.comp Complex.ofReal).doubleSum d
  rw [← Complex.conj_eq_iff_im, Direction.conj_doubleSum]
  simp only [Complex.conj_ofReal]
  rw [← Direction.doubleSum_neg, hcast.neg_column, hcast.neg_row]

end NodeSymmetric

theorem NodeSymmetric.recentre {β : Type} (hn : Even n) {g : Grid n n β}
    (hg : NodeSymmetric g.get) : NodeSymmetric g.recentre.get where
  neg_column i j := by
    have hneg : -i - Grid.middle n = -(i - Grid.middle n) := by
      rw [neg_sub, sub_eq_add_neg, Grid.neg_middle hn, neg_add_eq_sub]
    rw [Grid.get_recentre, Grid.get_recentre, hneg, hg.neg_column]
  exchange i j := by
    rw [Grid.get_recentre, Grid.get_recentre, hg.exchange]

end Transform

end Seeing
