import Seeing.Image.Resample
import Seeing.Proofs.Image

/-!
# The symmetry of a resampled image

Bilinear interpolation is a sum over all nodes, each with the product of the weights of
its column and its row: `interpolate_eq_sum`. The weight of a node is a `hat`, an even
function of the distance. So away from the edges the interpolation inherits the symmetry
of a grid about its node `n/2`, and the mean over a pixel passes it on to the image: the
points of a pixel are the mirror images of the points of its mirror image.

That no point comes near the edges follows from the side of the grid being at least
twice that of the image, for a grid of at least four nodes: `gridPlace_mem_Ioo`.
-/

namespace Seeing

namespace Image

/-- The weight in a linear interpolation of the node at a distance. -/
def hat (x : ℝ) : ℝ := max 0 (1 - |x|)

theorem hat_nonneg (x : ℝ) : 0 ≤ hat x := le_max_left _ _

theorem hat_neg (x : ℝ) : hat (-x) = hat x := by
  rw [hat, abs_neg, hat]

theorem hat_of_one_le {x : ℝ} (hx : 1 ≤ |x|) : hat x = 0 :=
  max_eq_left (sub_nonpos.2 hx)

theorem hat_of_le_one {x : ℝ} (hx : |x| ≤ 1) : hat x = 1 - |x| :=
  max_eq_right (sub_nonneg.2 hx)

section Interpolate

variable {n : ℕ}

/-- The mean of the four nodes around a place, by its distances `du` and `dv` from the first. -/
noncomputable def cellMean (grid : Grid n n ℝ) {i j : ℕ} (hi : i + 1 < n) (hj : j + 1 < n)
    (du dv : ℝ) : ℝ :=
  (1 - du) * (1 - dv) * grid.get ⟨i, Nat.lt_of_succ_lt hi⟩ ⟨j, Nat.lt_of_succ_lt hj⟩ +
    du * (1 - dv) * grid.get ⟨i + 1, hi⟩ ⟨j, Nat.lt_of_succ_lt hj⟩ +
    (1 - du) * dv * grid.get ⟨i, Nat.lt_of_succ_lt hi⟩ ⟨j + 1, hj⟩ +
    du * dv * grid.get ⟨i + 1, hi⟩ ⟨j + 1, hj⟩

theorem interpolate_eq (grid : Grid n n ℝ) (u v : ℝ) :
    interpolate grid u v =
      if u < 0 ∨ v < 0 then 0
      else if h : ⌊u⌋₊ + 1 < n ∧ ⌊v⌋₊ + 1 < n then
        cellMean grid h.1 h.2 (u - ⌊u⌋₊) (v - ⌊v⌋₊)
      else 0 := by
  rw [interpolate]
  simp only [Scalar.toNat_floor, cellMean, Scalar.real_ofNat, Scalar.real_zero, Scalar.real_one,
    Scalar.real_sub, Scalar.real_mul, Scalar.real_add, Scalar.real_lt]

theorem le_cellMean {grid : Grid n n ℝ} {low : ℝ} (hlow : ∀ i j, low ≤ grid.get i j) {u v : ℝ}
    (hu : 0 ≤ u) (hv : 0 ≤ v) (hi : ⌊u⌋₊ + 1 < n) (hj : ⌊v⌋₊ + 1 < n) :
    low ≤ cellMean grid hi hj (u - ⌊u⌋₊) (v - ⌊v⌋₊) := by
  have hdu : 0 ≤ u - ⌊u⌋₊ := sub_nonneg.2 (Nat.floor_le hu)
  have hdv : 0 ≤ v - ⌊v⌋₊ := sub_nonneg.2 (Nat.floor_le hv)
  have hdu' : 0 ≤ 1 - (u - ⌊u⌋₊) := by linarith [Nat.lt_floor_add_one u]
  have hdv' : 0 ≤ 1 - (v - ⌊v⌋₊) := by linarith [Nat.lt_floor_add_one v]
  generalize u - ⌊u⌋₊ = du at hdu hdu'
  generalize v - ⌊v⌋₊ = dv at hdv hdv'
  calc
    low = (1 - du) * (1 - dv) * low + du * (1 - dv) * low + (1 - du) * dv * low +
        du * dv * low := by ring
    _ ≤ cellMean grid hi hj du dv := by
        rw [cellMean]
        gcongr <;> exact hlow _ _

/-- The interpolation takes a mean of four nodes, which is not negative if they are not. -/
theorem interpolate_nonneg {grid : Grid n n ℝ} (hgrid : ∀ i j, 0 ≤ grid.get i j) (u v : ℝ) :
    0 ≤ interpolate grid u v := by
  rw [interpolate_eq]
  split_ifs with houtside hcell
  · exact le_rfl
  · rw [not_or, not_lt, not_lt] at houtside
    exact le_cellMean hgrid houtside.1 houtside.2 hcell.1 hcell.2
  · exact le_rfl

theorem floor_add_one_lt {u : ℝ} (hu : 0 ≤ u) (hun : u < n - 1) : ⌊u⌋₊ + 1 < n := by
  have : (⌊u⌋₊ : ℝ) + 1 < n := by
    have := Nat.floor_le hu
    linarith
  exact_mod_cast this

/-- Between the nodes of a grid the interpolation takes the mean of four of them. -/
theorem interpolate_eq_cellMean (grid : Grid n n ℝ) {u v : ℝ} (hu : 0 ≤ u) (hun : u < n - 1)
    (hv : 0 ≤ v) (hvn : v < n - 1) :
    interpolate grid u v = cellMean grid (floor_add_one_lt hu hun) (floor_add_one_lt hv hvn)
      (u - ⌊u⌋₊) (v - ⌊v⌋₊) := by
  have hinside : ¬(u < 0 ∨ v < 0) := by
    rw [not_or, not_lt, not_lt]
    exact ⟨hu, hv⟩
  rw [interpolate_eq, if_neg hinside,
    dif_pos ⟨floor_add_one_lt hu hun, floor_add_one_lt hv hvn⟩]

/-- Only the two nodes next to a place have a weight. -/
theorem sum_hat_mul {u : ℝ} (hu : 0 ≤ u) (hlt : ⌊u⌋₊ + 1 < n) (f : Fin n → ℝ) :
    ∑ k : Fin n, hat (u - k) * f k =
      (1 - (u - ⌊u⌋₊)) * f ⟨⌊u⌋₊, Nat.lt_of_succ_lt hlt⟩ +
        (u - ⌊u⌋₊) * f ⟨⌊u⌋₊ + 1, hlt⟩ := by
  have hfloor := Nat.floor_le hu
  have hceil := Nat.lt_floor_add_one u
  have hleft : hat (u - ⌊u⌋₊) = 1 - (u - ⌊u⌋₊) := by
    rw [hat_of_le_one, abs_of_nonneg] <;> [linarith; rw [abs_of_nonneg] <;> linarith]
  have hright : hat (u - ((⌊u⌋₊ + 1 : ℕ) : ℝ)) = u - ⌊u⌋₊ := by
    push_cast
    rw [hat_of_le_one, abs_of_nonpos] <;> [ring; linarith; rw [abs_of_nonpos] <;> linarith]
  rw [Fintype.sum_eq_add ⟨⌊u⌋₊, Nat.lt_of_succ_lt hlt⟩ ⟨⌊u⌋₊ + 1, hlt⟩ (by simp),
    hleft, hright]
  rintro k ⟨hk, hk'⟩
  rw [Ne, Fin.ext_iff] at hk hk'
  rw [hat_of_one_le, zero_mul]
  rcases lt_or_gt_of_ne hk with hbelow | habove
  · have hcast : ((k : ℕ) : ℝ) + 1 ≤ ⌊u⌋₊ := by exact_mod_cast hbelow
    rw [abs_of_nonneg] <;> linarith
  · have hcast : (⌊u⌋₊ : ℝ) + 2 ≤ (k : ℕ) := by
      have : ⌊u⌋₊ + 2 ≤ k.val := by
        simp only at hk' habove
        omega
      exact_mod_cast this
    rw [abs_of_nonpos] <;> linarith

/-- Between the nodes of a grid the interpolation is the weighted sum over all of them. -/
theorem interpolate_eq_sum (grid : Grid n n ℝ) {u v : ℝ} (hu : 0 ≤ u) (hun : u < n - 1)
    (hv : 0 ≤ v) (hvn : v < n - 1) :
    interpolate grid u v =
      ∑ j : Fin n, hat (v - j) * ∑ i : Fin n, hat (u - i) * grid.get i j := by
  rw [interpolate_eq_cellMean grid hu hun hv hvn, sum_hat_mul hv (floor_add_one_lt hv hvn),
    sum_hat_mul hu (floor_add_one_lt hu hun), sum_hat_mul hu (floor_add_one_lt hu hun), cellMean]
  ring

variable [NeZero n]

theorem sum_hat_neg {u : ℝ} (hu : 1 ≤ u) (hun : u ≤ n - 1) {f : Fin n → ℝ}
    (hf : ∀ k, f (-k) = f k) :
    ∑ k : Fin n, hat (n - u - k) * f k = ∑ k : Fin n, hat (u - k) * f k := by
  rw [← Equiv.sum_comp (Equiv.neg (Fin n))]
  apply Finset.sum_congr rfl
  intro k _
  rw [Equiv.neg_apply, hf]
  congr 1
  by_cases hzero : k = 0
  · -- the node at the edge is its own mirror image, and beyond reach from both places
    subst hzero
    rw [neg_zero, hat_of_one_le, hat_of_one_le] <;>
      simp only [Fin.val_zero, Nat.cast_zero, sub_zero] <;>
      rw [abs_of_nonneg] <;> linarith
  · rw [Fin.val_neg, if_neg hzero, Nat.cast_sub k.isLt.le, ← hat_neg]
    congr 1
    ring

/-- Inside a grid that is symmetric about the node `n/2` the interpolation is the same at
the mirror image of a place. -/
theorem interpolate_mirror {grid : Grid n n ℝ} (hgrid : NodeSymmetric grid.get) {u v : ℝ}
    (hu : u ∈ Set.Ioo 1 ((n : ℝ) - 1)) (hv : v ∈ Set.Ioo 1 ((n : ℝ) - 1)) :
    interpolate grid (n - u) v = interpolate grid u v := by
  obtain ⟨hu, hun⟩ := hu
  obtain ⟨hv, hvn⟩ := hv
  rw [interpolate_eq_sum grid (by linarith) (by linarith) (by linarith) hvn,
    interpolate_eq_sum grid (by linarith) hun (by linarith) hvn]
  apply Finset.sum_congr rfl
  intro j _
  rw [sum_hat_neg hu.le hun.le fun k => hgrid.neg_column k j]

theorem interpolate_exchange {grid : Grid n n ℝ} (hgrid : NodeSymmetric grid.get) {u v : ℝ}
    (hu : u ∈ Set.Ioo 1 ((n : ℝ) - 1)) (hv : v ∈ Set.Ioo 1 ((n : ℝ) - 1)) :
    interpolate grid v u = interpolate grid u v := by
  obtain ⟨hu, hun⟩ := hu
  obtain ⟨hv, hvn⟩ := hv
  rw [interpolate_eq_sum grid (by linarith) hvn (by linarith) hun,
    interpolate_eq_sum grid (by linarith) hun (by linarith) hvn]
  simp only [Finset.mul_sum]
  rw [Finset.sum_comm]
  apply Finset.sum_congr rfl
  intro j _
  apply Finset.sum_congr rfl
  intro i _
  rw [hgrid.exchange]
  ring

end Interpolate

section Points

theorem samplePoint_eq (count : ℕ) (scale : ℝ) (i q : ℕ) :
    samplePoint count scale i q = (i + (q + 1 / 2) / 4 - count / 2) * scale := by
  simp only [samplePoint, subdivisions, Scalar.real_half, Scalar.real_ofNat,
    Scalar.real_add, Scalar.real_mul, Scalar.real_div, Scalar.real_neg]
  push_cast
  ring

theorem samplePoint_rev (count : ℕ) (scale : ℝ) (i : Fin count) (q : Fin subdivisions) :
    samplePoint count scale i.rev q.rev = -samplePoint count scale i q := by
  have hi : ((i.rev : ℕ) : ℝ) = count - (i + 1) := by
    rw [Fin.val_rev, Nat.cast_sub i.isLt]
    push_cast
    ring
  have hq : ((q.rev : ℕ) : ℝ) = 4 - (q + 1) := by
    rw [Fin.val_rev, Nat.cast_sub q.isLt]
    simp [subdivisions]
  rw [samplePoint_eq, samplePoint_eq, hi, hq]
  ring

theorem gridPlace_of_even {n : ℕ} (hn : Even n) (gridScale x : ℝ) :
    gridPlace n gridScale x = x / gridScale + n / 2 := by
  simp only [gridPlace, Scalar.real_ofNat, Scalar.real_add, Scalar.real_div]
  rw [Nat.cast_div hn.two_dvd two_ne_zero, Nat.cast_two]

theorem gridPlace_neg {n : ℕ} (hn : Even n) (gridScale x : ℝ) :
    gridPlace n gridScale (-x) = n - gridPlace n gridScale x := by
  rw [gridPlace_of_even hn, gridPlace_of_even hn]
  ring

/-- On a grid of at least four nodes, twice as wide as the image, every point lies more
than a cell away from the edges. -/
theorem gridPlace_mem_Ioo {n : ℕ} (hn : Even n) (hfour : 4 ≤ n) {gridScale scale : ℝ}
    (hgrid : 0 < gridScale) (hscale : 0 < scale) {count : ℕ}
    (hwidth : 2 * (count * scale) ≤ n * gridScale) (i : Fin count) (q : Fin subdivisions) :
    gridPlace n gridScale (samplePoint count scale i q) ∈ Set.Ioo 1 ((n : ℝ) - 1) := by
  have hfour' : (4 : ℝ) ≤ n := by exact_mod_cast hfour
  have hi : (i : ℝ) + 1 ≤ count := by exact_mod_cast i.isLt
  have hq : (q : ℝ) + 1 ≤ 4 := by exact_mod_cast q.isLt
  have hi₀ : (0 : ℝ) ≤ (i : ℕ) := Nat.cast_nonneg _
  have hq₀ : (0 : ℝ) ≤ (q : ℕ) := Nat.cast_nonneg _
  -- half the image is a quarter of the grid, which leaves a cell or more to the edge
  have hquarter : count / 2 * scale ≤ n / 4 * gridScale := by linarith
  have hinner : n / 4 * gridScale ≤ (n / 2 - 1) * gridScale :=
    mul_le_mul_of_nonneg_right (by linarith) hgrid.le
  have hlower : -(count / 2) * scale < samplePoint count scale i q := by
    rw [samplePoint_eq]
    exact mul_lt_mul_of_pos_right (by linarith) hscale
  have hupper : samplePoint count scale i q < count / 2 * scale := by
    rw [samplePoint_eq]
    exact mul_lt_mul_of_pos_right (by linarith) hscale
  have hleft : -(n / 2 - 1 : ℝ) < samplePoint count scale i q / gridScale := by
    rw [lt_div_iff₀ hgrid]
    linarith
  have hright : samplePoint count scale i q / gridScale < n / 2 - 1 := by
    rw [div_lt_iff₀ hgrid]
    linarith
  rw [gridPlace_of_even hn]
  constructor <;> linarith

end Points

section Pixels

variable {n : ℕ} (grid : Grid n n ℝ) (gridScale : ℝ) (count : ℕ) (scale : ℝ)

theorem sampledSum_eq_sum (i j : ℕ) :
    sampledSum grid gridScale count scale i j =
      ∑ q : Fin subdivisions, ∑ p : Fin subdivisions, interpolate grid
        (gridPlace n gridScale (samplePoint count scale i p))
        (gridPlace n gridScale (samplePoint count scale j q)) := by
  let row (q : Fin subdivisions) : ℝ := ∑ p : Fin subdivisions, interpolate grid
    (gridPlace n gridScale (samplePoint count scale i p))
    (gridPlace n gridScale (samplePoint count scale j q))
  have hrows : sampledSum grid gridScale count scale i j = 0 + ∑ q, row q := by
    rw [← Scalar.real_zero]
    apply apply_fold_eq_sum id _ row
    intro q hq total
    refine apply_fold_eq_sum id _ (fun p : Fin subdivisions => interpolate grid
      (gridPlace n gridScale (samplePoint count scale i p))
      (gridPlace n gridScale (samplePoint count scale j q))) ?_ total
    intro p hp total
    rfl
  rw [hrows, zero_add]

/-- The places of a grid that are looked up for the pixel in column `i` and row `j`. -/
noncomputable def lookUps (n : ℕ) (gridScale : ℝ) (count : ℕ) (scale : ℝ) (i j : ℕ) :
    List (ℝ × ℝ) :=
  (List.finRange subdivisions).flatMap fun q : Fin subdivisions =>
    (List.finRange subdivisions).map fun p : Fin subdivisions =>
      (gridPlace n gridScale (samplePoint count scale i p),
        gridPlace n gridScale (samplePoint count scale j q))

theorem mem_lookUps_iff {i j : ℕ} {place : ℝ × ℝ} :
    place ∈ lookUps n gridScale count scale i j ↔ ∃ p q : Fin subdivisions,
      place = (gridPlace n gridScale (samplePoint count scale i p),
        gridPlace n gridScale (samplePoint count scale j q)) := by
  simp only [lookUps, List.mem_flatMap, List.mem_map, List.mem_finRange, true_and]
  constructor
  · rintro ⟨q, p, rfl⟩
    exact ⟨p, q, rfl⟩
  · rintro ⟨p, q, rfl⟩
    exact ⟨q, p, rfl⟩

theorem length_lookUps (i j : ℕ) :
    (lookUps n gridScale count scale i j).length = subdivisions * subdivisions := by
  simp [lookUps, List.length_flatMap]

/-- A pixel adds up the values at its places. -/
theorem sampledSum_eq_sum_lookUps (i j : ℕ) :
    sampledSum grid gridScale count scale i j =
      ((lookUps n gridScale count scale i j).map fun place =>
        interpolate grid place.1 place.2).sum := by
  rw [sampledSum_eq_sum, lookUps, List.map_flatMap, List.flatMap_def, List.sum_flatten,
    List.map_map, Fin.sum_univ_def]
  simp only [Fin.sum_univ_def, List.map_map, Function.comp_def]

theorem resample_eq_ok (hgrid : 0 < gridScale) (hcount : 0 < count) (hscale : 0 < scale) :
    resample grid gridScale count scale = .ok
      { width := count
        height := count
        scale := scale
        pixels := .ofFn fun i j => sampledSum grid gridScale count scale i j *
          Scalar.square (scale / Scalar.ofNat subdivisions / gridScale)
        width_pos := hcount
        height_pos := hcount } := by
  have hblank : blank count count scale =
      .ok ⟨count, count, scale, .constant count count 0, hcount, hcount⟩ :=
    blank_eq_ok_iff.2 ⟨hcount, hcount, hscale, rfl⟩
  rw [resample, if_neg (by simpa using hgrid), hblank]
  rfl

theorem sampledSum_nonneg (hgrid : ∀ i j, 0 ≤ grid.get i j) (i j : ℕ) :
    0 ≤ sampledSum grid gridScale count scale i j := by
  rw [sampledSum_eq_sum]
  apply Finset.sum_nonneg
  intro q _
  apply Finset.sum_nonneg
  intro p _
  exact interpolate_nonneg hgrid _ _

theorem exists_resample (hgrid : 0 < gridScale) (hcount : 0 < count) (hscale : 0 < scale) :
    ∃ image, resample grid gridScale count scale = .ok image ∧
      image.width = count ∧ image.height = count ∧ image.scale = scale :=
  ⟨_, resample_eq_ok grid gridScale count scale hgrid hcount hscale, rfl, rfl, rfl⟩

theorem exists_renders_of_resample {grid : Grid n n ℝ} (hvalues : ∀ i j, 0 ≤ grid.get i j)
    (hgrid : 0 < gridScale) (hcount : 0 < count) (hscale : 0 < scale) :
    ∃ image, resample grid gridScale count scale = .ok image ∧ image.Renders count scale := by
  refine ⟨_, resample_eq_ok grid gridScale count scale hgrid hcount hscale, rfl, rfl, rfl, ?_⟩
  intro i j
  rw [Grid.get_ofFn]
  exact mul_nonneg (sampledSum_nonneg grid gridScale count scale hvalues i j) (mul_self_nonneg _)

end Pixels

/-- A square image that stays the same when its columns or its rows are mirrored, and
when columns and rows are exchanged. -/
structure Symmetric (image : Image ℝ) : Prop where
  square : image.width = image.height
  mirror_column : ∀ i j, image.pixels.get i.rev j = image.pixels.get i j
  mirror_row : ∀ i j, image.pixels.get i j.rev = image.pixels.get i j
  exchange : ∀ i j,
    image.pixels.get (j.cast square.symm) (i.cast square) = image.pixels.get i j

section Symmetric

variable {n : ℕ} [NeZero n] {grid : Grid n n ℝ} {gridScale scale : ℝ} {count : ℕ}

theorem sampledSum_exchange (hgrid : NodeSymmetric grid.get)
    (hinside : ∀ (i : Fin count) (q : Fin subdivisions),
      gridPlace n gridScale (samplePoint count scale i q) ∈ Set.Ioo 1 ((n : ℝ) - 1))
    (i j : Fin count) :
    sampledSum grid gridScale count scale j i = sampledSum grid gridScale count scale i j := by
  rw [sampledSum_eq_sum, sampledSum_eq_sum, Finset.sum_comm]
  apply Finset.sum_congr rfl
  intro q _
  apply Finset.sum_congr rfl
  intro p _
  exact interpolate_exchange hgrid (hinside i p) (hinside j q)

theorem sampledSum_mirror (hn : Even n) (hgrid : NodeSymmetric grid.get)
    (hinside : ∀ (i : Fin count) (q : Fin subdivisions),
      gridPlace n gridScale (samplePoint count scale i q) ∈ Set.Ioo 1 ((n : ℝ) - 1))
    (i j : Fin count) :
    sampledSum grid gridScale count scale i.rev j =
      sampledSum grid gridScale count scale i j := by
  rw [sampledSum_eq_sum, sampledSum_eq_sum]
  apply Finset.sum_congr rfl
  intro q _
  rw [← Equiv.sum_comp Fin.revPerm]
  apply Finset.sum_congr rfl
  intro p _
  rw [Fin.revPerm_apply, samplePoint_rev, gridPlace_neg hn]
  exact interpolate_mirror hgrid (hinside i p) (hinside j q)

/-- The image of a grid that is symmetric about its node `n/2` is symmetric about its
middle. -/
theorem symmetric_of_resample (hn : Even n) (hfour : 4 ≤ n) (hgrid : NodeSymmetric grid.get)
    (hgridScale : 0 < gridScale) (hcount : 0 < count) (hscale : 0 < scale)
    (hwidth : 2 * (count * scale) ≤ n * gridScale) {image : Image ℝ}
    (hresample : resample grid gridScale count scale = .ok image) : image.Symmetric := by
  have hinside := gridPlace_mem_Ioo hn hfour hgridScale hscale hwidth
  rw [resample_eq_ok grid gridScale count scale hgridScale hcount hscale,
    Except.ok.injEq] at hresample
  subst hresample
  refine ⟨rfl, ?_, ?_, ?_⟩ <;> intro i j
  · simp only [Grid.get_ofFn]
    rw [sampledSum_mirror hn hgrid hinside]
  · -- rows are mirrored as the columns of the exchanged square
    simp only [Grid.get_ofFn]
    rw [sampledSum_exchange hgrid hinside, sampledSum_mirror hn hgrid hinside,
      sampledSum_exchange hgrid hinside]
  · simp only [Grid.get_ofFn, Fin.cast_eq_self]
    rw [sampledSum_exchange hgrid hinside]

end Symmetric

end Image

end Seeing
