import Seeing.Proofs.Checks
import Seeing.Proofs.Image.Spacing

/-!
# The flux of a resampled image

The points of an image form a square of equally spaced columns and rows, and each stands for its
share of a cell. So a node enters the flux of the image with its value, times the number of times it
is counted along each axis, `axisCount`. This bounds the flux for any grid without negative values,
and is the flux itself if the grid vanishes at its edges: `flux_le_sum_axisCount` and
`flux_eq_sum_axisCount`.

The points are as dense as the pixels make them, four to a side, whatever the cells of the grid.
With a whole number of steps to a cell the image conserves the flux of the nodes that it contains,
`flux_resample_eq_sum`, and never adds to the flux of a grid. Otherwise there are nodes that are
counted more than once, at most `overcount` times along each axis: `flux_resample_le`.
-/

namespace Seeing

namespace Image

section Interpolate

variable {n : ℕ}

/-- The sum of the hats over all nodes, also beyond the edges of the grid. -/
def tents (grid : Grid n n ℝ) (u v : ℝ) : ℝ :=
  ∑ j : Fin n, hat (v - j) * ∑ i : Fin n, hat (u - i) * grid.get i j

theorem lt_of_floor_add_one_lt {u : ℝ} (h : ⌊u⌋₊ + 1 < n) : u < n - 1 := by
  have hcast : (⌊u⌋₊ : ℝ) + 2 ≤ n := by exact_mod_cast h
  linarith [Nat.lt_floor_add_one u]

/-- The interpolation is the sum of the hats between the nodes, and zero beyond. -/
theorem interpolate_eq_tents_or (grid : Grid n n ℝ) (u v : ℝ) :
    interpolate grid u v = tents grid u v ∨
      interpolate grid u v = 0 ∧ (u ∉ Set.Ico 0 ((n : ℝ) - 1) ∨ v ∉ Set.Ico 0 ((n : ℝ) - 1)) := by
  by_cases hinside : u ∈ Set.Ico 0 ((n : ℝ) - 1) ∧ v ∈ Set.Ico 0 ((n : ℝ) - 1)
  · exact .inl (interpolate_eq_sum grid hinside.1.1 hinside.1.2 hinside.2.1 hinside.2.2)
  · refine .inr ⟨?_, not_and_or.1 hinside⟩
    rw [interpolate_eq]
    split_ifs with hbelow hcell
    · rfl
    · rw [not_or, not_lt, not_lt] at hbelow
      exact absurd ⟨⟨hbelow.1, lt_of_floor_add_one_lt hcell.1⟩,
        ⟨hbelow.2, lt_of_floor_add_one_lt hcell.2⟩⟩ hinside
    · rfl

theorem interpolate_le_tents {grid : Grid n n ℝ} (hgrid : ∀ i j, 0 ≤ grid.get i j) (u v : ℝ) :
    interpolate grid u v ≤ tents grid u v := by
  rcases interpolate_eq_tents_or grid u v with h | ⟨h, -⟩
  · exact h.le
  · rw [h]
    exact Finset.sum_nonneg fun j _ => mul_nonneg (hat_nonneg _) <|
      Finset.sum_nonneg fun i _ => mul_nonneg (hat_nonneg _) (hgrid i j)

/-- The node has a neighbour on either side. -/
def Inner (n k : ℕ) : Prop := 0 < k ∧ k + 1 < n

theorem hat_sub_eq_zero {u : ℝ} (hu : u ∉ Set.Ico 0 ((n : ℝ) - 1)) {k : ℕ} (hk : Inner n k) :
    hat (u - k) = 0 := by
  have hlower : (1 : ℝ) ≤ k := by exact_mod_cast hk.1
  have hupper : (k : ℝ) + 2 ≤ n := by exact_mod_cast hk.2
  apply hat_of_one_le
  rw [le_abs]
  rcases lt_or_ge u 0 with hneg | hpos
  · right
    linarith
  · left
    linarith [not_lt.1 fun h => hu ⟨hpos, h⟩]

/-- Nothing of a grid that vanishes at its edges reaches beyond them. -/
theorem interpolate_eq_tents {grid : Grid n n ℝ}
    (hgrid : ∀ i j, grid.get i j ≠ 0 → Inner n i ∧ Inner n j) (u v : ℝ) :
    interpolate grid u v = tents grid u v := by
  rcases interpolate_eq_tents_or grid u v with h | ⟨h, houtside⟩
  · exact h
  · rw [h, tents]
    symm
    apply Finset.sum_eq_zero
    intro j _
    rw [Finset.mul_sum]
    apply Finset.sum_eq_zero
    intro i _
    by_cases hzero : grid.get i j = 0
    · rw [hzero, mul_zero, mul_zero]
    · obtain ⟨hi, hj⟩ := hgrid i j hzero
      rcases houtside with hu | hv
      · rw [hat_sub_eq_zero hu hi, zero_mul, mul_zero]
      · rw [hat_sub_eq_zero hv hj, zero_mul]

end Interpolate

section Axis

/-- The distance in cells from one point to the next. -/
noncomputable def stepLength (gridScale scale : ℝ) : ℝ := scale / subdivisions / gridScale

theorem stepLength_eq (gridScale scale : ℝ) :
    stepLength gridScale scale = scale / 4 / gridScale := by
  simp [stepLength, subdivisions]

variable (n : ℕ) (gridScale : ℝ) (count : ℕ) (scale : ℝ)

/-- The place on the grid of a point along one axis of an image, given by its pixel and its number
in the pixel. -/
noncomputable def pointPlace (point : Fin count × Fin subdivisions) : ℝ :=
  gridPlace n gridScale (samplePoint count scale point.1 point.2)

/-- How often the points along one axis of an image count the node `k`. -/
noncomputable def axisCount (k : ℕ) : ℝ :=
  ∑ point, stepLength gridScale scale * hat (pointPlace n gridScale count scale point - k)

theorem pointPlace_eq (point : Fin count × Fin subdivisions) :
    pointPlace n gridScale count scale point =
      stepLength gridScale scale * (finProdFinEquiv point : ℕ) +
        (stepLength gridScale scale * (1 / 2 - 2 * count) + (n / 2 : ℕ)) := by
  rw [pointPlace, gridPlace, samplePoint_eq, finProdFinEquiv_apply_val, stepLength_eq]
  simp only [subdivisions, Scalar.real_ofNat, Scalar.real_add, Scalar.real_div]
  push_cast
  ring

/-- The numbers of the points along one axis. -/
def pointNumbers : Finset ℤ := (Finset.range (count * subdivisions)).map Nat.castEmbedding

variable {count} in
theorem mem_pointNumbers {s : ℤ} : s ∈ pointNumbers count ↔ 0 ≤ s ∧ s < 4 * count := by
  simp only [pointNumbers, Finset.mem_map, Finset.mem_range, Nat.castEmbedding_apply, subdivisions]
  constructor
  · rintro ⟨s, hs, rfl⟩
    omega
  · rintro ⟨hs, hs'⟩
    exact ⟨s.toNat, by omega, Int.toNat_of_nonneg hs⟩

theorem sum_points (f : ℤ → ℝ) :
    ∑ point : Fin count × Fin subdivisions, f (finProdFinEquiv point : ℕ) =
      ∑ s ∈ pointNumbers count, f s := by
  rw [pointNumbers, Finset.sum_map, ← Fin.sum_univ_eq_sum_range fun s => f (Nat.castEmbedding s),
    ← Equiv.sum_comp finProdFinEquiv]
  rfl

theorem axisCount_eq_sum (k : ℕ) : axisCount n gridScale count scale k =
    ∑ s ∈ pointNumbers count, stepLength gridScale scale * hat (stepLength gridScale scale * s +
      (stepLength gridScale scale * (-(2 * count) : ℤ) +
        (stepLength gridScale scale / 2 + ((n / 2 : ℕ) - k)))) := by
  rw [← sum_points count fun s : ℤ => stepLength gridScale scale *
    hat (stepLength gridScale scale * s + _), axisCount]
  apply Finset.sum_congr rfl
  intro point _
  rw [pointPlace_eq]
  congr 2
  push_cast
  ring

variable {gridScale scale}

theorem stepLength_pos (hgridScale : 0 < gridScale) (hscale : 0 < scale) :
    0 < stepLength gridScale scale := by
  rw [stepLength_eq]
  positivity

variable (hstep : 0 < stepLength gridScale scale)

include hstep

theorem axisCount_nonneg (k : ℕ) : 0 ≤ axisCount n gridScale count scale k :=
  Finset.sum_nonneg fun _ _ => mul_nonneg hstep.le (hat_nonneg _)

theorem axisCount_le_overcount (k : ℕ) :
    axisCount n gridScale count scale k ≤ overcount (stepLength gridScale scale) := by
  rw [axisCount_eq_sum]
  exact (sum_hat_le_coverage hstep _ _).trans (coverage_le_overcount _ _)

/-- All the points that count a node belong to the image if it extends a cell beyond the node. -/
theorem axisCount_eq_coverage {k : ℕ}
    (hk : |((n / 2 : ℕ) : ℝ) - k| + 1 ≤ 2 * count * stepLength gridScale scale) :
    axisCount n gridScale count scale k = coverage (stepLength gridScale scale)
      (stepLength gridScale scale / 2 + ((n / 2 : ℕ) - k)) := by
  rw [axisCount_eq_sum, sum_hat_eq_coverage hstep, coverage_add_mul hstep]
  intro s hs
  rw [mem_pointNumbers]
  have hright := le_abs_self (((n / 2 : ℕ) : ℝ) - k)
  have hleft := neg_abs_le (((n / 2 : ℕ) : ℝ) - k)
  rw [abs_lt] at hs
  push_cast at hs
  have hlower : ((-1 : ℤ) : ℝ) < s := by
    apply lt_of_mul_lt_mul_left _ hstep.le
    push_cast
    linarith
  have hupper : (s : ℝ) < (4 * count : ℤ) := by
    apply lt_of_mul_lt_mul_left _ hstep.le
    push_cast
    linarith
  rw [Int.cast_lt] at hlower hupper
  exact ⟨hlower, hupper⟩

end Axis

section Flux

variable {n : ℕ} {grid : Grid n n ℝ} {gridScale : ℝ} {count : ℕ} {scale : ℝ} {image : Image ℝ}

theorem pos_of_resample (hresample : resample grid gridScale count scale = .ok image) :
    0 < gridScale ∧ 0 < count ∧ 0 < scale := by
  rw [resample] at hresample
  by_cases hgridScale : 0 < gridScale
  · rw [if_neg (by simpa using hgridScale), bind_eq_ok_iff] at hresample
    obtain ⟨empty, hempty, -⟩ := hresample
    obtain ⟨hcount, -, hscale, -⟩ := blank_eq_ok_iff.1 hempty
    exact ⟨hgridScale, hcount, hscale⟩
  · simp [hgridScale] at hresample

/-- The flux is the sum of the shares that the points have in the grid. -/
theorem flux_eq_sum_interpolate (hresample : resample grid gridScale count scale = .ok image) :
    image.flux = ∑ y : Fin count × Fin subdivisions, ∑ x : Fin count × Fin subdivisions,
      stepLength gridScale scale * (stepLength gridScale scale *
        interpolate grid (pointPlace n gridScale count scale x)
          (pointPlace n gridScale count scale y)) := by
  obtain ⟨hgridScale, hcount, hscale⟩ := pos_of_resample hresample
  rw [resample_eq_ok grid gridScale count scale hgridScale hcount hscale, Except.ok.injEq]
    at hresample
  subst hresample
  have hpixel : ∀ i j : ℕ, sampledSum grid gridScale count scale i j *
      Scalar.square (scale / Scalar.ofNat subdivisions / gridScale) =
        ∑ q : Fin subdivisions, ∑ p : Fin subdivisions, stepLength gridScale scale *
          (stepLength gridScale scale * interpolate grid
            (gridPlace n gridScale (samplePoint count scale i p))
            (gridPlace n gridScale (samplePoint count scale j q))) := by
    intro i j
    have hshare : scale / Scalar.ofNat subdivisions / gridScale = stepLength gridScale scale := by
      rw [stepLength, Scalar.real_ofNat]
    rw [sampledSum_eq_sum, hshare, mul_comm]
    simp only [Scalar.square, Finset.mul_sum, Scalar.real_mul, mul_assoc]
  simp only [flux_eq_sum, Grid.get_ofFn, hpixel, Fintype.sum_prod_type, pointPlace]
  exact Finset.sum_congr rfl fun j _ => Finset.sum_comm

theorem sum_hat_points (gridScale : ℝ) (count : ℕ) (scale : ℝ) (f : Fin n → ℝ) :
    ∑ point, stepLength gridScale scale *
      ∑ k : Fin n, hat (pointPlace n gridScale count scale point - k) * f k =
        ∑ k : Fin n, axisCount n gridScale count scale k * f k := by
  simp only [axisCount, Finset.mul_sum, Finset.sum_mul]
  rw [Finset.sum_comm]
  simp only [mul_assoc]

/-- The hats are summed up over the points of one axis after the other. -/
theorem sum_tents (grid : Grid n n ℝ) (gridScale : ℝ) (count : ℕ) (scale : ℝ) :
    ∑ y : Fin count × Fin subdivisions, ∑ x : Fin count × Fin subdivisions,
      stepLength gridScale scale * (stepLength gridScale scale *
        tents grid (pointPlace n gridScale count scale x)
          (pointPlace n gridScale count scale y)) =
    ∑ j : Fin n, ∑ i : Fin n, axisCount n gridScale count scale j *
      (axisCount n gridScale count scale i * grid.get i j) := by
  calc
    _ = ∑ y, stepLength gridScale scale * ∑ j : Fin n,
          hat (pointPlace n gridScale count scale y - j) *
            ∑ x, stepLength gridScale scale * ∑ i : Fin n,
              hat (pointPlace n gridScale count scale x - i) * grid.get i j := by
        apply Finset.sum_congr rfl
        intro y _
        simp only [tents, Finset.mul_sum]
        rw [Finset.sum_comm]
        simp only [mul_left_comm (hat _) (stepLength gridScale scale)]
    _ = _ := by
        simp only [sum_hat_points]
        simp only [Finset.mul_sum]

/-- Every node enters with the number of times that it is counted. -/
theorem flux_le_sum_axisCount (hgrid : ∀ i j, 0 ≤ grid.get i j)
    (hresample : resample grid gridScale count scale = .ok image) :
    image.flux ≤ ∑ j : Fin n, ∑ i : Fin n, axisCount n gridScale count scale j *
      (axisCount n gridScale count scale i * grid.get i j) := by
  obtain ⟨hgridScale, -, hscale⟩ := pos_of_resample hresample
  have hstep := (stepLength_pos hgridScale hscale).le
  rw [flux_eq_sum_interpolate hresample, ← sum_tents]
  apply Finset.sum_le_sum
  intro y _
  apply Finset.sum_le_sum
  intro x _
  exact mul_le_mul_of_nonneg_left
    (mul_le_mul_of_nonneg_left (interpolate_le_tents hgrid _ _) hstep) hstep

theorem flux_eq_sum_axisCount (hgrid : ∀ i j, grid.get i j ≠ 0 → Inner n i ∧ Inner n j)
    (hresample : resample grid gridScale count scale = .ok image) :
    image.flux = ∑ j : Fin n, ∑ i : Fin n, axisCount n gridScale count scale j *
      (axisCount n gridScale count scale i * grid.get i j) := by
  rw [flux_eq_sum_interpolate hresample, ← sum_tents]
  simp only [interpolate_eq_tents hgrid]

theorem flux_le_overcount (hgrid : ∀ i j, 0 ≤ grid.get i j)
    (hresample : resample grid gridScale count scale = .ok image) :
    image.flux ≤ overcount (stepLength gridScale scale) ^ 2 * ∑ j, ∑ i, grid.get i j := by
  obtain ⟨hgridScale, -, hscale⟩ := pos_of_resample hresample
  have hstep := stepLength_pos hgridScale hscale
  apply (flux_le_sum_axisCount hgrid hresample).trans
  simp only [Finset.mul_sum, sq, mul_assoc]
  have hnonneg := fun k => axisCount_nonneg n count hstep k
  have hle := fun k => axisCount_le_overcount n count hstep k
  gcongr with j _ i _
  · exact mul_nonneg (hnonneg i) (hgrid i j)
  · exact (hnonneg j).trans (hle j)
  · exact hle j
  · exact hgrid i j
  · exact hle i

end Flux

section Whole

/-- The node lies inside the grid, and a cell or more inside an image with `m` steps to a cell. -/
structure Inside (n count m k : ℕ) : Prop where
  pos : 1 ≤ k
  add_two_le : k + 2 ≤ n
  lower : ((n / 2 : ℕ) : ℝ) - 2 * count / m + 1 ≤ k
  upper : (k : ℝ) ≤ ((n / 2 : ℕ) : ℝ) + 2 * count / m - 1

variable {n m count : ℕ} {scale : ℝ}

theorem Inside.inner {k : ℕ} (hk : Inside n count m k) : Inner n k :=
  ⟨hk.pos, hk.add_two_le⟩

theorem stepLength_whole (hm : 0 < m) (hscale : 0 < scale) :
    stepLength (m * scale / 4) scale * m = 1 := by
  have hm' : (m : ℝ) ≠ 0 := Nat.cast_ne_zero.2 hm.ne'
  rw [stepLength_eq]
  field_simp

theorem axisCount_eq_one (hm : 0 < m) (hscale : 0 < scale) {k : ℕ} (hk : Inside n count m k) :
    axisCount n (m * scale / 4) count scale k = 1 := by
  have hm' : (0 : ℝ) < m := Nat.cast_pos.2 hm
  have hwhole := stepLength_whole hm hscale
  have hstep : stepLength (m * scale / 4) scale = 1 / m := eq_one_div_of_mul_eq_one_left hwhole
  rw [axisCount_eq_coverage n count, coverage_of_whole hwhole]
  · rw [hstep]
    positivity
  · have hclose : |((n / 2 : ℕ) : ℝ) - k| ≤ 2 * count / m - 1 :=
      abs_le.2 ⟨by linarith [hk.upper], by linarith [hk.lower]⟩
    rw [hstep, mul_one_div]
    linarith

/-- With a whole number of steps to a cell, an image conserves the flux of a grid that vanishes at
its own edges and at those of the image. -/
theorem flux_resample_eq_sum {m : ℕ} (hm : 0 < m) {scale : ℝ} (hscale : 0 < scale) {n count : ℕ}
    {grid : Grid n n ℝ}
    (hgrid : ∀ i j, grid.get i j ≠ 0 → Inside n count m i ∧ Inside n count m j) :
    (0 < count ↔ ∃ image, resample grid (m * scale / 4) count scale = .ok image) ∧
      ∀ image, resample grid (m * scale / 4) count scale = .ok image →
        image.flux = ∑ j, ∑ i, grid.get i j := by
  have hgridScale : 0 < m * scale / 4 := by positivity
  refine ⟨⟨fun hcount => ?_, ?_⟩, ?_⟩
  · exact ⟨_, resample_eq_ok grid _ count scale hgridScale hcount hscale⟩
  · rintro ⟨image, hresample⟩
    exact (pos_of_resample hresample).2.1
  · intro image hresample
    have hedges : ∀ i j, grid.get i j ≠ 0 → Inner n i ∧ Inner n j := fun i j hvalue =>
      ⟨(hgrid i j hvalue).1.inner, (hgrid i j hvalue).2.inner⟩
    rw [flux_eq_sum_axisCount hedges hresample]
    apply Finset.sum_congr rfl
    intro j _
    apply Finset.sum_congr rfl
    intro i _
    by_cases hvalue : grid.get i j = 0
    · rw [hvalue, mul_zero, mul_zero]
    · obtain ⟨hi, hj⟩ := hgrid i j hvalue
      rw [axisCount_eq_one hm hscale hi, axisCount_eq_one hm hscale hj, one_mul, one_mul]

/-- Values at the four nodes in the middle of sixteen. -/
def middle : Grid 4 4 ℝ :=
  .ofFn fun i j => if (1 ≤ i.val ∧ i.val ≤ 2) ∧ 1 ≤ j.val ∧ j.val ≤ 2 then i - 2 * j else 0

theorem flux_resample_eq_sum_middle :
    (0 < 2 ∧ (0 : ℝ) < 2 ∧
      ∀ i j, middle.get i j ≠ 0 → Inside 4 2 2 i ∧ Inside 4 2 2 j) ∧
      ∃ image, resample middle ((2 : ℕ) * 2 / 4) 2 2 = .ok image ∧ image.flux = -6 := by
  have hinside : ∀ k : Fin 4, 1 ≤ k.val ∧ k.val ≤ 2 → Inside 4 2 2 k := by
    rintro k ⟨hk, hk'⟩
    have hcast : (1 : ℝ) ≤ k.val := by exact_mod_cast hk
    have hcast' : (k.val : ℝ) ≤ 2 := by exact_mod_cast hk'
    exact ⟨hk, by omega, by norm_num; linarith, by norm_num; linarith⟩
  have hgrid : ∀ i j, middle.get i j ≠ 0 → Inside 4 2 2 i ∧ Inside 4 2 2 j := by
    intro i j hvalue
    rw [middle, Grid.get_ofFn, ne_eq, ite_eq_right_iff, not_forall] at hvalue
    obtain ⟨⟨hi, hj⟩, -⟩ := hvalue
    exact ⟨hinside i hi, hinside j hj⟩
  have hsum : ∑ j, ∑ i, middle.get i j = -6 := by
    simp only [middle, Grid.get_ofFn, Fin.sum_univ_four]
    norm_num
  obtain ⟨hok, hflux⟩ := flux_resample_eq_sum two_pos two_pos hgrid
  obtain ⟨image, hresample⟩ := hok.1 two_pos
  exact ⟨⟨two_pos, two_pos, hgrid⟩, image, hresample, (hflux image hresample).trans hsum⟩

end Whole

section Alone

variable {n : ℕ} (k : Fin n)

/-- A grid with a flux of one at the node `k` of the diagonal, and none elsewhere. -/
def alone : Grid n n ℝ := .ofFn fun i j => if i = k ∧ j = k then 1 else 0

theorem get_alone (i j : Fin n) : (alone k).get i j = if i = k ∧ j = k then 1 else 0 :=
  Grid.get_ofFn _ i j

theorem alone_nonneg (i j : Fin n) : 0 ≤ (alone k).get i j := by
  rw [get_alone]
  split_ifs
  · exact zero_le_one
  · exact le_rfl

theorem sum_alone : ∑ j, ∑ i, (alone k).get i j = 1 := by
  simp [get_alone, ite_and]

variable {k} in
theorem flux_alone {gridScale scale : ℝ} {count : ℕ} {image : Image ℝ} (hk : Inner n k)
    (hresample : resample (alone k) gridScale count scale = .ok image) :
    image.flux = axisCount n gridScale count scale k ^ 2 := by
  rw [flux_eq_sum_axisCount _ hresample]
  · simp [get_alone, ite_and, sq]
  · intro i j hvalue
    rw [get_alone, ne_eq, ite_eq_right_iff, not_forall] at hvalue
    obtain ⟨⟨rfl, rfl⟩, -⟩ := hvalue
    exact ⟨hk, hk⟩

end Alone

section Overcount

variable {gridScale scale : ℝ} (hgridScale : 0 < gridScale) (hscale : 0 < scale)

include hgridScale hscale

theorem fract_one_div_stepLength_eq_zero_iff :
    Int.fract (1 / stepLength gridScale scale) = 0 ↔ ∃ m : ℕ, gridScale = m * scale / 4 := by
  have hratio : 1 / stepLength gridScale scale = 4 * gridScale / scale := by
    rw [stepLength_eq]
    field_simp
  rw [hratio, Int.fract_eq_zero_iff]
  constructor
  · rintro ⟨z, hz⟩
    have hz' : (0 : ℝ) ≤ z := hz.symm ▸ by positivity
    lift z to ℕ using Int.cast_nonneg_iff.1 hz'
    refine ⟨z, ?_⟩
    rw [Int.cast_natCast, eq_div_iff hscale.ne'] at hz
    linarith
  · rintro ⟨m, hm⟩
    refine ⟨m, ?_⟩
    rw [Int.cast_natCast, eq_div_iff hscale.ne', hm]
    ring

/-- Without a whole number of steps to a cell, some node of a grid that is large enough is counted
more than once by an image that is large enough. -/
theorem exists_one_lt_axisCount (hcell : Int.fract (1 / stepLength gridScale scale) ≠ 0) :
    ∃ (n : ℕ) (k : Fin n) (count : ℕ), Inner n k ∧ 0 < count ∧
      1 < axisCount n gridScale count scale k := by
  have hstep := stepLength_pos hgridScale hscale
  obtain ⟨j, hj, hcoverage⟩ := exists_one_lt_coverage hstep hcell
  obtain ⟨count, hcount⟩ := exists_nat_gt ((j + 1) / (2 * stepLength gridScale scale))
  have hcount' : (0 : ℝ) < count := lt_of_le_of_lt (by positivity) hcount
  rw [div_lt_iff₀ (by positivity)] at hcount
  -- the node `j` columns to the right of the node `n/2`
  refine ⟨2 * (j + 2), ⟨2 * j + 2, by omega⟩, count, ⟨by simp, by simp only; omega⟩,
    Nat.cast_pos.1 hcount', ?_⟩
  have hcentre : ((2 * (j + 2) / 2 : ℕ) : ℝ) - (2 * j + 2 : ℕ) = -j := by
    rw [Nat.mul_div_cancel_left _ two_pos]
    push_cast
    ring
  rw [axisCount_eq_coverage _ _ hstep, hcentre, ← sub_eq_add_neg]
  · exact hcoverage
  · rw [hcentre, abs_neg, Nat.abs_cast]
    linarith

theorem exists_sum_lt_flux (hcell : Int.fract (1 / stepLength gridScale scale) ≠ 0) :
    ∃ (n : ℕ) (grid : Grid n n ℝ) (count : ℕ) (image : Image ℝ), (∀ i j, 0 ≤ grid.get i j) ∧
      resample grid gridScale count scale = .ok image ∧
        ∑ j, ∑ i, grid.get i j < image.flux := by
  obtain ⟨n, k, count, hk, hcount, hcounted⟩ := exists_one_lt_axisCount hgridScale hscale hcell
  have hresample := resample_eq_ok (alone k) gridScale count scale hgridScale hcount hscale
  refine ⟨n, alone k, count, _, alone_nonneg k, hresample, ?_⟩
  rw [sum_alone, flux_alone hk hresample]
  exact one_lt_pow₀ hcounted two_ne_zero

/-- Resampling adds at most the factor `overcount` along each axis to the flux of a grid without
negative values, and never adds to it just if a whole number of steps makes a cell. -/
theorem flux_resample_le :
    (∀ (n : ℕ) (grid : Grid n n ℝ) (count : ℕ), (∀ i j, 0 ≤ grid.get i j) → 0 < count →
      ∃ image, resample grid gridScale count scale = .ok image ∧
        image.flux ≤ overcount (scale / 4 / gridScale) ^ 2 * ∑ j, ∑ i, grid.get i j) ∧
      ((∀ (n : ℕ) (grid : Grid n n ℝ) (count : ℕ) (image : Image ℝ), (∀ i j, 0 ≤ grid.get i j) →
        resample grid gridScale count scale = .ok image →
          image.flux ≤ ∑ j, ∑ i, grid.get i j) ↔ ∃ m : ℕ, gridScale = m * scale / 4) := by
  rw [← stepLength_eq]
  refine ⟨fun n grid count hgrid hcount => ?_, fun hflux => ?_, ?_⟩
  · have hresample := resample_eq_ok grid gridScale count scale hgridScale hcount hscale
    exact ⟨_, hresample, flux_le_overcount hgrid hresample⟩
  · rw [← fract_one_div_stepLength_eq_zero_iff hgridScale hscale]
    by_contra hcell
    obtain ⟨n, grid, count, image, hgrid, hresample, hlt⟩ :=
      exists_sum_lt_flux hgridScale hscale hcell
    exact absurd (hflux n grid count image hgrid hresample) (not_le.2 hlt)
  · rintro ⟨m, rfl⟩ n grid count image hgrid hresample
    have hm : 0 < m := Nat.pos_of_ne_zero fun hm => by simp [hm] at hgridScale
    have hle := flux_le_overcount hgrid hresample
    rwa [overcount_of_whole (stepLength_whole hm hscale), one_pow, one_mul] at hle

end Overcount

theorem flux_resample_le_alone :
    ((0 : ℝ) < 1 ∧ (0 : ℝ) < 8) ∧
      ∃ image, resample (alone (1 : Fin 4)) 1 1 8 = .ok image ∧ image.flux ≤ 4 := by
  have hscale : (0 : ℝ) < 8 := by norm_num
  obtain ⟨hbound, -⟩ := flux_resample_le one_pos hscale
  obtain ⟨image, hresample, hle⟩ := hbound 4 (alone 1) 1 (alone_nonneg 1) one_pos
  refine ⟨⟨one_pos, hscale⟩, image, hresample, hle.trans_eq ?_⟩
  have hstep : (8 : ℝ) / 4 / 1 = 2 := by norm_num
  rw [sum_alone, hstep, overcount_two]
  norm_num

/-- With two cells from one point to the next, a point on the node stands for four cells, all of
which take the value of the node. -/
theorem flux_resample_gt_sum :
    (∀ i j, 0 ≤ (alone (1 : Fin 4)).get i j) ∧ ∃ image,
      resample (alone (1 : Fin 4)) 1 1 8 = .ok image ∧ image.flux = 4 ∧
        ¬image.flux ≤ ∑ j, ∑ i, (alone (1 : Fin 4)).get i j := by
  have hstep : stepLength 1 8 = 2 := by norm_num [stepLength_eq]
  have hcount : axisCount 4 1 1 8 (1 : Fin 4).val = 2 := by
    rw [axisCount_eq_coverage] <;> rw [hstep]
    · have hnode : (2 / 2 + ((4 / 2 : ℕ) - (1 : Fin 4).val) : ℝ) = 2 * (1 : ℤ) + 0 := by norm_num
      rw [hnode, coverage_add_mul two_pos, coverage_zero, overcount_two]
    · exact two_pos
    · norm_num
  have hresample := resample_eq_ok (alone (1 : Fin 4)) 1 1 8 one_pos one_pos (by norm_num)
  have hflux := flux_alone ⟨by decide, by decide⟩ hresample
  rw [hcount] at hflux
  refine ⟨alone_nonneg 1, _, hresample, by rw [hflux]; norm_num, ?_⟩
  rw [hflux, sum_alone]
  norm_num

end Image

end Seeing
