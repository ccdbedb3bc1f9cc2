import Seeing.Proofs.Pupil.Separation

/-!
# The lattice of the samples

The list of the samples follows the mask row after row, so that their places in the square increase:
`pairwise_index_samples`. The square has an even side and its middle on the axis. Its quadrants are
mirror images of each other, which makes the number of the samples a multiple of four and balances
their coordinates about the axis.

The samples lie on the lattice of the points that are half a sample off the axis in both directions.
With half the resolution of the telescope the square already has the width of a diameter, and none
of the points of the lattice in the annulus is left out: `exists_sample_of_annulus`.
-/

open Real

namespace Seeing

section Mirror

variable {n : ℕ}

theorem MirrorSymmetric.rev_row {β : Type} {f : Fin n → Fin n → β} (hf : MirrorSymmetric f)
    (i j : Fin n) : f i j.rev = f i j := by
  rw [← hf.exchange, hf.rev_column, hf.exchange]

/-- The two halves of a row with mirrored values add up to the same. -/
theorem sum_eq_two_mul_of_rev {m : ℕ} {f : Fin (m + m) → ℕ} (hf : ∀ i, f i.rev = f i) :
    ∑ i, f i = 2 * ∑ i : Fin m, f (Fin.castAdd m i) := by
  have hhalf : ∀ i : Fin m, Fin.natAdd m i.rev = (Fin.castAdd m i).rev := by
    intro i
    apply Fin.ext
    rw [Fin.val_natAdd, Fin.val_rev, Fin.val_rev, Fin.val_castAdd]
    omega
  rw [Fin.sum_univ_add, two_mul, ← Equiv.sum_comp Fin.revPerm fun i => f (Fin.natAdd m i)]
  congr 1
  apply Finset.sum_congr rfl
  intro i _
  rw [Fin.revPerm_apply, hhalf, hf]

/-- The four quadrants of a symmetric square add up to the same. -/
theorem MirrorSymmetric.four_dvd_sum (hn : Even n) {f : Fin n → Fin n → ℕ}
    (hf : MirrorSymmetric f) : 4 ∣ ∑ j, ∑ i, f i j := by
  obtain ⟨m, rfl⟩ := hn
  have hrow : ∀ j, ∑ i, f i j = 2 * ∑ i : Fin m, f (Fin.castAdd m i) j :=
    fun j => sum_eq_two_mul_of_rev fun i => hf.rev_column i j
  have hcolumn : ∑ j, ∑ i : Fin m, f (Fin.castAdd m i) j =
      2 * ∑ j : Fin m, ∑ i : Fin m, f (Fin.castAdd m i) (Fin.castAdd m j) :=
    sum_eq_two_mul_of_rev fun j => by simp only [hf.rev_row]
  simp only [hrow]
  rw [← Finset.mul_sum, hcolumn, ← mul_assoc]
  exact dvd_mul_right _ _

/-- Mirrored values of opposite sign cancel. -/
theorem sum_eq_zero_of_rev {f : Fin n → ℝ} (hf : ∀ i, f i.rev = -f i) : ∑ i, f i = 0 := by
  have hneg : ∑ i, f i = -∑ i, f i := by
    calc
      ∑ i, f i = ∑ i : Fin n, f i.rev := (Equiv.sum_comp Fin.revPerm f).symm
      _ = -∑ i, f i := by simp only [hf, Finset.sum_neg_distrib]
  linarith

end Mirror

namespace Pupil

section Places

variable {α : Type} [Scalar α] (p : Pupil α)

theorem pairwise_index_samples : (p.samples.toList.map (·.index)).Pairwise (· < ·) := by
  rw [toList_samples, List.map_flatMap, List.pairwise_flatMap]
  constructor
  · -- along a row
    intro j _
    rw [List.map_map, List.pairwise_map]
    refine ((List.pairwise_lt_finRange p.side).filter _).imp ?_
    intro i i' hi
    exact Nat.add_lt_add_left hi _
  · -- from a row to a later one
    refine (List.pairwise_lt_finRange p.side).imp ?_
    intro j j' hj k hk k' hk'
    rw [List.map_map, List.mem_map] at hk hk'
    obtain ⟨i, -, rfl⟩ := hk
    obtain ⟨i', -, rfl⟩ := hk'
    calc
      j.val * p.side + i.val < (j.val + 1) * p.side := by
        rw [Nat.add_mul, Nat.one_mul]
        exact Nat.add_lt_add_left i.isLt _
      _ ≤ j'.val * p.side := Nat.mul_le_mul_right _ hj
      _ ≤ j'.val * p.side + i'.val := Nat.le_add_right _ _

/-- The places of the samples are those that are marked in the mask. -/
theorem mem_index_samples {k : ℕ} : k ∈ p.samples.toList.map (·.index) ↔
    ∃ hk : k < p.side * p.side, p.mask.cells[k] = true := by
  simp only [List.mem_map, Array.mem_toList_iff, mem_samples]
  constructor
  · rintro ⟨_, ⟨i, j, hinside, rfl⟩, rfl⟩
    exact ⟨Grid.index_lt i j, hinside⟩
  · rintro ⟨hk, hinside⟩
    refine ⟨_, ⟨⟨k % p.side, Grid.column_lt hk⟩, ⟨k / p.side, Grid.row_lt hk⟩, ?_, rfl⟩, ?_⟩
    · rwa [Grid.get_column_row]
    · exact Nat.div_add_mod' k p.side

end Places

theorem coordinate_eq (p : Pupil ℝ) (i : ℕ) :
    p.coordinate i = (i - p.side / 2 + 1 / 2) * p.scale := coordinateOn_eq p.side p.scale i

theorem coordinate_rev (p : Pupil ℝ) (i : Fin p.side) :
    p.coordinate i.rev = -p.coordinate i := coordinateOn_rev p.scale i

variable {p : Pupil ℝ} (hp : MirrorSymmetric p.mask.get)
include hp

theorem four_dvd_size_samples (hside : Even p.side) : 4 ∣ p.samples.size := by
  rw [size_samples_eq_sum]
  apply MirrorSymmetric.four_dvd_sum hside (f := fun i j => if p.mask.get i j then 1 else 0)
  constructor <;> intro i j
  · rw [hp.rev_column]
  · rw [hp.exchange]

/-- The samples of every row balance. -/
theorem sum_x_samples : (p.samples.toList.map (·.x)).sum = 0 := by
  rw [sum_map_samples]
  apply Finset.sum_eq_zero
  intro j _
  apply sum_eq_zero_of_rev
  intro i
  have hx : (p.sample i.rev j).x = -(p.sample i j).x := p.coordinate_rev i
  rw [hp.rev_column, hx]
  split_ifs <;> simp

/-- The rows balance. -/
theorem sum_y_samples : (p.samples.toList.map (·.y)).sum = 0 := by
  rw [sum_map_samples]
  apply sum_eq_zero_of_rev
  intro j
  rw [← Finset.sum_neg_distrib]
  apply Finset.sum_congr rfl
  intro i _
  have hy : (p.sample i j.rev).y = -(p.sample i j).y := p.coordinate_rev j
  rw [hp.rev_row, hy]
  split_ifs <;> simp

end Pupil

namespace PupilSettings

variable {s : PupilSettings ℝ} {p : Pupil ℝ} (hbuild : s.build = .ok p)

include hbuild

/-- Half the resolution of the telescope makes the square as wide as the diameter, and its columns
reach every point of the lattice inside the rim. -/
theorem exists_coordinate_eq (hoversampling : 1 / 2 ≤ s.oversampling) (a : ℤ)
    (hrim : |((a : ℝ) + 1 / 2) * p.scale| ≤ s.diameter / 2) :
    ∃ i : Fin p.side, p.coordinate i = (a + 1 / 2) * p.scale := by
  have hscale := scale_pos_of_build hbuild
  obtain ⟨m, hm⟩ := even_side hbuild
  have hside : (p.side : ℝ) = m + m := by rw [hm, Nat.cast_add]
  have hdiameter := (pos_of_build hbuild).1
  have hwidth : s.diameter ≤ (m + m) * p.scale := by
    have hplane := le_side_mul_scale hbuild
    rw [hside] at hplane
    nlinarith
  rw [abs_mul, abs_of_pos hscale] at hrim
  have hhalf : |(a : ℝ) + 1 / 2| * p.scale ≤ m * p.scale := by linarith
  obtain ⟨hlow, hhigh⟩ := abs_le.1 (le_of_mul_le_mul_right hhalf hscale)
  -- whole numbers, so the half closes the gap at both ends
  have hlow' : -(m : ℤ) ≤ a := by
    have : -(m : ℝ) < a + 1 := by linarith
    have : -(m : ℤ) < a + 1 := by exact_mod_cast this
    omega
  have hhigh' : a < m := by
    have : (a : ℝ) < m := by linarith
    exact_mod_cast this
  obtain ⟨k, hk⟩ := Int.eq_ofNat_of_zero_le (show 0 ≤ a + m by omega)
  refine ⟨⟨k, by omega⟩, ?_⟩
  have hk' : (k : ℝ) = a + m := by exact_mod_cast hk.symm
  rw [Pupil.coordinate_eq, hside, hk']
  ring

theorem exists_sample_of_annulus (hoversampling : 1 / 2 ≤ s.oversampling) (a b : ℤ)
    (hinside : Pupil.annulus s.diameter s.obscuration (((a : ℝ) + 1 / 2) * p.scale)
      (((b : ℝ) + 1 / 2) * p.scale) = true) :
    ∃ e ∈ p.samples, e.x = (a + 1 / 2) * p.scale ∧ e.y = (b + 1 / 2) * p.scale := by
  have hradius := (Pupil.annulus_iff.1 hinside).1
  have hannulus : p.diameter = s.diameter ∧ p.obscuration = s.obscuration := by
    obtain ⟨-, -, -, rfl⟩ := build_eq_ok_iff.1 hbuild
    exact ⟨rfl, rfl⟩
  obtain ⟨i, hi⟩ := exists_coordinate_eq hbuild hoversampling a
    ((abs_le_sqrt (le_add_of_nonneg_right (sq_nonneg _))).trans hradius)
  obtain ⟨j, hj⟩ := exists_coordinate_eq hbuild hoversampling b
    ((abs_le_sqrt (le_add_of_nonneg_left (sq_nonneg _))).trans hradius)
  refine ⟨p.sample i j, p.mem_samples.2 ⟨i, j, ?_, rfl⟩, hi, hj⟩
  rw [get_mask_of_build hbuild, hi, hj, hannulus.1, hannulus.2, hinside]

/-- The samples of a pupil that was built, listed along with the mask. Their places in the square
are those marked in the mask, one after the other, and every sample has the coordinates of its
column and row. The mask is symmetric about the axis, the number of the samples is a positive
multiple of four, and their coordinates balance. With half the resolution of the telescope no point
of the lattice in the annulus is left out. -/
theorem samples_of_build :
    s.illumination.samples = p.samples ∧
      (p.samples.toList.map (·.index)).Pairwise (· < ·) ∧
      (∀ k, k ∈ p.samples.toList.map (·.index) ↔
        ∃ hk : k < p.side * p.side, p.mask.cells[k] = true) ∧
      (∀ e ∈ p.samples, ∃ i j : Fin p.side, e = ⟨j * p.side + i,
        (i - p.side / 2 + 1 / 2) * p.scale, (j - p.side / 2 + 1 / 2) * p.scale⟩) ∧
      (∀ i j, p.mask.get i.rev j = p.mask.get i j ∧ p.mask.get i j.rev = p.mask.get i j ∧
        p.mask.get j i = p.mask.get i j) ∧
      0 < p.samples.size ∧ 4 ∣ p.samples.size ∧
      (p.samples.toList.map (·.x)).sum = 0 ∧ (p.samples.toList.map (·.y)).sum = 0 ∧
      (1 / 2 ≤ s.oversampling → ∀ a b : ℤ,
        Pupil.annulus s.diameter s.obscuration (((a : ℝ) + 1 / 2) * p.scale)
            (((b : ℝ) + 1 / 2) * p.scale) = true →
          ∃ e ∈ p.samples, e.x = (a + 1 / 2) * p.scale ∧ e.y = (b + 1 / 2) * p.scale) := by
  have hmask := mirrorSymmetric_mask hbuild
  refine ⟨?_, p.pairwise_index_samples, fun k => p.mem_index_samples, ?_, ?_, samples_pos hbuild,
    Pupil.four_dvd_size_samples hmask (even_side hbuild), Pupil.sum_x_samples hmask,
    Pupil.sum_y_samples hmask, exists_sample_of_annulus hbuild⟩
  · obtain ⟨-, -, -, rfl⟩ := build_eq_ok_iff.1 hbuild
    exact s.samples_illumination
  · intro e he
    obtain ⟨i, j, -, rfl⟩ := p.mem_samples.1 he
    refine ⟨i, j, ?_⟩
    rw [Pupil.sample, Pupil.coordinate_eq, Pupil.coordinate_eq]
  · intro i j
    exact ⟨hmask.rev_column i j, hmask.rev_row i j, hmask.exchange i j⟩

omit hbuild in
/-- The coarse pupil: four of its sixteen samples, and one of them a quarter of a metre off the axis
in both directions. -/
theorem samples_of_build_coarse : coarse.build = .ok coarse.sampled ∧
    coarse.illumination.samples = coarse.sampled.samples ∧ 4 ∣ coarse.sampled.samples.size ∧
      (coarse.sampled.samples.toList.map (·.x)).sum = 0 ∧ 1 / 2 ≤ coarse.oversampling ∧
      ∃ e ∈ coarse.sampled.samples, e.x = 1 / 4 ∧ e.y = 1 / 4 := by
  obtain ⟨hlist, -, -, -, -, -, hfour, hbalance, -, hlattice⟩ := samples_of_build build_coarse
  have hoversampling : 1 / 2 ≤ coarse.oversampling := by norm_num [coarse]
  have hscale : coarse.sampled.scale = 1 / 2 := scale_coarse
  refine ⟨build_coarse, hlist, hfour, hbalance, hoversampling, ?_⟩
  have hinside : Pupil.annulus coarse.diameter coarse.obscuration
      ((((0 : ℤ) : ℝ) + 1 / 2) * coarse.sampled.scale)
      ((((0 : ℤ) : ℝ) + 1 / 2) * coarse.sampled.scale) = true := by
    rw [hscale, Pupil.annulus_iff, Real.sqrt_le_left (by norm_num [coarse])]
    norm_num [coarse]
  obtain ⟨e, he, hx, hy⟩ := hlattice hoversampling 0 0 hinside
  refine ⟨e, he, ?_, ?_⟩
  · rw [hx, hscale]
    norm_num
  · rw [hy, hscale]
    norm_num

end PupilSettings

end Seeing
