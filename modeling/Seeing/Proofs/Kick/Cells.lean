import Seeing.Kick.Photons
import Seeing.Proofs.PartitionPoint
import Seeing.Proofs.Random
import Seeing.Proofs.Real

/-!
# The cell a photon is sent to

The cumulated flux of values without a negative one does not decrease, so the search
among its steps ends at the one that a share of the flux falls into,
`fluxBefore_firstBeyond`. A step that a share can fall into has a height, so a cell
without flux is never chosen, and the bound on the cells never applies: `cellAt_spec`.
-/

namespace Seeing

theorem toList_foldl_cumulative (l : List ℝ) (sums : Array ℝ) (total : ℝ) :
    (l.foldl (fun (sums, total) x => (sums.push (total + x), total + x))
      (sums, total)).1.toList = sums.toList ++ (l.scanl (· + ·) total).tail := by
  induction l generalizing sums total with
  | nil => simp
  | cons x l ih =>
      rw [List.foldl_cons, ih, List.scanl_cons, List.tail_cons, Array.toList_push,
        List.append_assoc]
      cases l <;> simp

/-- The cumulative sums are the sums of the first values, the empty sum left out. -/
theorem toList_cumulative (values : Array ℝ) :
    (cumulative values).toList = values.toList.partialSums.tail := by
  rw [cumulative, ← Array.foldl_toList, List.partialSums]
  refine (toList_foldl_cumulative _ _ _).trans ?_
  simp

theorem getElem?_cumulative (values : Array ℝ) {n : ℕ} (hn : n < values.size) :
    (cumulative values)[n]? = some (values.toList.take (n + 1)).sum := by
  rw [← Array.getElem?_toList, toList_cumulative, List.getElem?_tail,
    List.getElem?_partialSums, if_pos]
  simpa using hn

@[simp] theorem size_cumulative (values : Array ℝ) :
    (cumulative values).size = values.size := by
  rw [← Array.length_toList, toList_cumulative]
  simp

namespace FocalCells

/-- The flux of all cells before the cell number `n`. -/
noncomputable def fluxBefore (f : FocalCells ℝ) : ℕ → ℝ
  | 0 => 0
  | n + 1 => (f.cumulated[n]?).getD 0

/-- The first cell at whose end the cumulated flux exceeds a share. -/
noncomputable def firstBeyond (f : FocalCells ℝ) (share : ℝ) : ℕ :=
  partitionPoint f.cumulated.size fun i => f.cumulated[i]?.any (· ≤ share)

section Search

variable {f : FocalCells ℝ} {share : ℝ}

theorem total_eq_fluxBefore (f : FocalCells ℝ) :
    f.total = f.fluxBefore f.cumulated.size := by
  rw [total, Array.back?]
  cases hsize : f.cumulated.size with
  | zero => simp [fluxBefore, hsize]
  | succ n => simp [fluxBefore]

theorem any_cumulated_iff {n : ℕ} (hn : n < f.cumulated.size) :
    f.cumulated[n]?.any (· ≤ share) ↔ f.fluxBefore (n + 1) ≤ share := by
  simp [fluxBefore, hn]

variable (hmono : ∀ m n, m ≤ n → n ≤ f.cumulated.size → f.fluxBefore m ≤ f.fluxBefore n)

include hmono in
theorem lt_firstBeyond_iff {n : ℕ} (hn : n < f.cumulated.size) :
    n < f.firstBeyond share ↔ f.fluxBefore (n + 1) ≤ share := by
  rw [← any_cumulated_iff hn]
  refine lt_partitionPoint_iff ?_ hn
  intro i j hij hj
  rw [any_cumulated_iff hj, any_cumulated_iff (hij.trans_lt hj)]
  exact (hmono (i + 1) (j + 1) (by omega) (by omega)).trans

variable (hnonneg : 0 ≤ share) (hbelow : share < f.total)

include hmono hnonneg hbelow

theorem firstBeyond_lt_size : f.firstBeyond share < f.cumulated.size := by
  rw [total_eq_fluxBefore] at hbelow
  by_contra hbeyond
  -- beyond the last step there would be a share of all the flux, or there are no cells
  cases hsize : f.cumulated.size with
  | zero =>
      rw [hsize, fluxBefore] at hbelow
      exact absurd hbelow (not_lt.2 hnonneg)
  | succ n =>
      have hlast : f.fluxBefore (n + 1) ≤ share :=
        (lt_firstBeyond_iff hmono (by omega)).1 (by omega)
      rw [hsize] at hbelow
      exact absurd hbelow (not_lt.2 hlast)

/-- A share of the flux falls into the step of the cell that the search ends at. -/
theorem fluxBefore_firstBeyond : f.fluxBefore (f.firstBeyond share) ≤ share ∧
    share < f.fluxBefore (f.firstBeyond share + 1) := by
  have hsize := firstBeyond_lt_size hmono hnonneg hbelow
  constructor
  · cases hplace : f.firstBeyond share with
    | zero => exact hnonneg
    | succ n => exact (lt_firstBeyond_iff hmono (by omega)).1 (by omega)
  · rw [← not_le, ← lt_firstBeyond_iff hmono hsize]
    exact lt_irrefl _

end Search

section Values

variable {values : Array ℝ} {f : FocalCells ℝ} (hf : f.cumulated = cumulative values)

include hf

theorem fluxBefore_eq_sum {n : ℕ} (hn : n ≤ values.size) :
    f.fluxBefore n = (values.toList.take n).sum := by
  cases n with
  | zero => simp [fluxBefore]
  | succ n => rw [fluxBefore, hf, getElem?_cumulative values hn, Option.getD_some]

theorem fluxBefore_succ {n : ℕ} (hn : n < values.size) :
    f.fluxBefore (n + 1) = f.fluxBefore n + values[n] := by
  rw [fluxBefore_eq_sum hf hn, fluxBefore_eq_sum hf hn.le,
    List.sum_take_succ _ _ (by simpa using hn), Array.getElem_toList]

theorem total_eq_sumArray : f.total = Scalar.sumArray values := by
  rw [total_eq_fluxBefore, hf, size_cumulative, fluxBefore_eq_sum hf le_rfl,
    Scalar.sumArray_eq_sumList, Scalar.sumList_eq_sum, List.take_of_length_le (by simp)]

variable (hvalues : ∀ x ∈ values, 0 ≤ x)

include hvalues

theorem fluxBefore_mono {m n : ℕ} (hmn : m ≤ n) (hn : n ≤ values.size) :
    f.fluxBefore m ≤ f.fluxBefore n := by
  rw [fluxBefore_eq_sum hf hn, fluxBefore_eq_sum hf (hmn.trans hn)]
  apply (List.take_sublist_take_left hmn).sum_le_sum
  intro x hx
  exact hvalues x (by simpa using List.mem_of_mem_take hx)

variable (hsize : values.size = f.side * f.side) {share : ℝ} (hnonneg : 0 ≤ share)
  (hbelow : share < f.total)

include hsize hnonneg hbelow

/-- A share of the flux chooses the cell into whose step it falls. It does so without the
bound on the cells, and the cell is not empty. -/
theorem cellAt_spec : f.cellAt share = f.firstBeyond share ∧
    (f.fluxBefore (f.cellAt share) ≤ share ∧ share < f.fluxBefore (f.cellAt share + 1)) ∧
    ∃ hcell : f.cellAt share < values.size, 0 < values[f.cellAt share] := by
  have hmono : ∀ m n, m ≤ n → n ≤ f.cumulated.size → f.fluxBefore m ≤ f.fluxBefore n := by
    intro m n hmn hn
    exact fluxBefore_mono hf hvalues hmn (by simpa [hf] using hn)
  have hlt : f.firstBeyond share < values.size := by
    have hlt := firstBeyond_lt_size hmono hnonneg hbelow
    rwa [hf, size_cumulative] at hlt
  have hstep := fluxBefore_firstBeyond hmono hnonneg hbelow
  have hcell : f.cellAt share = f.firstBeyond share :=
    Nat.min_eq_left (Nat.le_sub_one_of_lt (hsize ▸ hlt))
  rw [hcell]
  refine ⟨rfl, hstep, hlt, ?_⟩
  rw [fluxBefore_succ hf hlt] at hstep
  linarith [hstep.1, hstep.2]

end Values

theorem coordinate_eq (f : FocalCells ℝ) (i : ℕ) (place : ℝ) :
    f.coordinate i place = (i - (f.side / 2 : ℕ) + (place - 1 / 2)) * f.scale := by
  simp only [coordinate, Scalar.real_add, Scalar.real_sub, Scalar.real_mul,
    Scalar.real_ofNat, Scalar.real_half]
  ring

/-- A photon lands within half a cell of the middle of its cell. -/
theorem abs_coordinate_sub_le (f : FocalCells ℝ) (i : ℕ) {place : ℝ} (hnonneg : 0 ≤ place)
    (hlt : place < 1) :
    |f.coordinate i place - (i - (f.side / 2 : ℕ)) * f.scale| ≤ |f.scale| / 2 := by
  have hhalf : |place - 1 / 2| ≤ 1 / 2 := by
    rw [abs_le]
    constructor <;> linarith
  calc
    |f.coordinate i place - (i - (f.side / 2 : ℕ)) * f.scale| =
        |place - 1 / 2| * |f.scale| := by
          rw [coordinate_eq, ← sub_mul, add_sub_cancel_left, abs_mul]
    _ ≤ 1 / 2 * |f.scale| := by gcongr
    _ = |f.scale| / 2 := one_div_mul_eq_div _ _

end FocalCells

end Seeing
