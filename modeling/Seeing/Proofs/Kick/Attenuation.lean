import Seeing.Proofs.Kick.Pairs
import Seeing.Proofs.Kick.Structure
import Seeing.Proofs.Pupil.Sampling
import Seeing.Proofs.Turbulence.Fried

/-!
# The attenuation by turbulence

The table of the structure function ends at the corner of the square, which is the largest lag:
`separation_le_reach`. So the separation of a lag lies in the interval of the table that is looked
up for it. The structure function is not negative, and zero at no lag, so that turbulence attenuates
the transfer function of the pupil by a factor between zero and one, and by none at no lag.
-/

open Real

namespace Seeing

namespace Kick

/-- No lag is longer than half a side. -/
theorem abs_lag_le {n : ℕ} (hn : Even n) (i : Fin n) : |(lag n i : ℝ)| ≤ (n / 2 : ℕ) := by
  obtain ⟨m, rfl⟩ := hn
  have hi := i.isLt
  have hle : |if i.val < (m + m) / 2 then (i : ℤ) else i - (m + m : ℕ)| ≤ ((m + m) / 2 : ℕ) := by
    rw [abs_le]
    split_ifs <;> omega
  rw [lag_eq, ← Int.cast_abs, ← Int.cast_natCast]
  exact Int.cast_le.2 hle

theorem lag_zero {n : ℕ} (hn : 2 ≤ n) : (lag n 0 : ℝ) = 0 := by
  rw [lag, if_pos (by omega)]
  simp

variable (k : Kick ℝ)

/-- The distance in metres between two samples that are as many columns and rows apart. -/
noncomputable def separation (i j : Fin k.pupil.side) : ℝ :=
  √((lag k.pupil.side i * k.pupil.scale) ^ 2 + (lag k.pupil.side j * k.pupil.scale) ^ 2)

/-- The interval of the table of the structure function in metres. -/
noncomputable def interval : ℝ := k.reach / Structure.tableIntervals

/-- Where the table is looked up for a lag, in intervals. -/
noncomputable def place (i j : Fin k.pupil.side) : ℝ := k.separation i j / k.interval

/-- The factor by which turbulence attenuates the transfer function at a lag. -/
noncomputable def attenuation (cutoff : ℝ) (i j : Fin k.pupil.side) : ℝ :=
  Real.exp (-(1 / 2) * (k.structureGrid cutoff).get i j)

theorem get_structureGrid (cutoff : ℝ) (i j : Fin k.pupil.side) :
    (k.structureGrid cutoff).get i j =
      Structure.lookUp (Structure.table k.r0 cutoff k.reach) (k.place i j) := by
  simp [structureGrid, place, interval, separation]

theorem get_transfer (cutoff : ℝ) (i j : Fin k.pupil.side) : (k.transfer cutoff).get i j =
    (k.pupilTransfer.get i j).scale (k.attenuation cutoff i j) := by
  simp [transfer, attenuation]

section Lags

variable {k}

theorem separation_le_reach (heven : Even k.pupil.side) (hscale : 0 ≤ k.pupil.scale)
    (i j : Fin k.pupil.side) : k.separation i j ≤ k.reach := by
  have hlag : ∀ l : Fin k.pupil.side, (lag k.pupil.side l * k.pupil.scale) ^ 2 ≤
      ((k.pupil.side / 2 : ℕ) * k.pupil.scale) ^ 2 := by
    intro l
    rw [sq_le_sq, abs_mul, abs_mul, Nat.abs_cast]
    exact mul_le_mul_of_nonneg_right (abs_lag_le heven l) (abs_nonneg _)
  calc
    k.separation i j ≤ √(2 * ((k.pupil.side / 2 : ℕ) * k.pupil.scale) ^ 2) := by
      apply Real.sqrt_le_sqrt
      linarith [hlag i, hlag j]
    _ = √2 * ((k.pupil.side / 2 : ℕ) * k.pupil.scale) := by
      rw [Real.sqrt_mul zero_le_two, Real.sqrt_sq (by positivity)]
    _ = k.reach := by
      simp only [reach, Scalar.real_sqrt, Scalar.real_mul, Scalar.real_ofNat, Scalar.real_literal]
      ring

theorem interval_pos (hside : 2 ≤ k.pupil.side) (hscale : 0 < k.pupil.scale) :
    0 < k.interval := by
  have hhalf : (0 : ℝ) < (k.pupil.side / 2 : ℕ) := by
    have : 0 < k.pupil.side / 2 := by omega
    exact_mod_cast this
  have hreach : 0 < k.reach := by
    simp only [reach, Scalar.real_sqrt, Scalar.real_mul, Scalar.real_ofNat, Scalar.real_literal]
    positivity
  exact div_pos hreach (by norm_num [Structure.tableIntervals])

theorem place_nonneg (hinterval : 0 < k.interval) (i j : Fin k.pupil.side) : 0 ≤ k.place i j :=
  div_nonneg (Real.sqrt_nonneg _) hinterval.le

/-- The table ends at the corner, so that no lag lies beyond. -/
theorem place_le (heven : Even k.pupil.side) (hscale : 0 ≤ k.pupil.scale)
    (hinterval : 0 < k.interval) (i j : Fin k.pupil.side) :
    k.place i j ≤ Structure.tableIntervals := by
  have hend : Structure.tableIntervals * k.interval = k.reach :=
    mul_div_cancel₀ _ (by norm_num [Structure.tableIntervals])
  rw [place, div_le_iff₀ hinterval, hend]
  exact separation_le_reach heven hscale i j

theorem place_zero (hside : 2 ≤ k.pupil.side) :
    k.place ⟨0, by omega⟩ ⟨0, by omega⟩ = 0 := by
  simp [place, separation, lag_zero hside]

end Lags

section Structure

variable {k}

theorem get_table_nonneg (hr0 : 0 < k.r0) (hinterval : 0 < k.interval) (cutoff : ℝ)
    (n : Fin (Structure.tableIntervals + 1)) :
    0 ≤ (Structure.table k.r0 cutoff k.reach).get n := by
  rw [Structure.get_table]
  exact Structure.function_nonneg _ _ (mul_nonneg (Nat.cast_nonneg _) hinterval.le) hr0

theorem structureGrid_nonneg (hr0 : 0 < k.r0) (hinterval : 0 < k.interval) (cutoff : ℝ)
    (i j : Fin k.pupil.side) : 0 ≤ (k.structureGrid cutoff).get i j := by
  rw [get_structureGrid]
  exact Structure.lookUp_nonneg (get_table_nonneg hr0 hinterval cutoff)
    (place_nonneg hinterval i j)

theorem structureGrid_zero (hside : 2 ≤ k.pupil.side) (cutoff : ℝ) :
    (k.structureGrid cutoff).get ⟨0, by omega⟩ ⟨0, by omega⟩ = 0 := by
  rw [get_structureGrid, place_zero hside, Structure.lookUp_zero, Structure.get_table]
  simp [Structure.function_zero]

/-- Between the ends of its interval the structure function is interpolated. -/
theorem structureGrid_eq (cutoff : ℝ) (i j : Fin k.pupil.side) :
    (k.structureGrid cutoff).get i j =
      (1 - Structure.share (k.place i j)) *
          Structure.function (Structure.node (k.place i j) * k.interval) k.r0 cutoff +
        Structure.share (k.place i j) *
          Structure.function ((Structure.node (k.place i j) + 1) * k.interval) k.r0 cutoff := by
  rw [get_structureGrid, Structure.lookUp_eq, Structure.get_table, Structure.get_table]
  push_cast
  simp [interval]

end Structure

section Built

variable {k} {settings : KickSettings ℝ} (hbuild : settings.build = .ok k)

include hbuild

theorem r0_pos_of_build : 0 < k.r0 := by
  obtain ⟨hr0, -, -, hpupil, hk⟩ := KickSettings.build_eq_ok_iff.1 hbuild
  obtain ⟨-, hwavelength, -⟩ := PupilSettings.pos_of_build hpupil
  rw [Scalar.real_zero, Scalar.real_lt] at hr0
  rw [hk]
  exact friedAt_pos hr0 hwavelength

/-- The integral above a cutoff is positive, and the structure function is zero at no separation and
nowhere negative. For every lag of a second kick that was built, the table of the structure function
is read at both ends of the interval that the separation lies in, none of them outside of the table,
and with weights that are not negative. So turbulence attenuates the transfer function of the pupil
by a positive factor that does not exceed one, and that is one at no lag. -/
theorem attenuation_of_build (cutoff : ℝ) :
    (∀ u : ℝ, 0 < Structure.tailIntegral u) ∧
    (∀ separation : ℝ, 0 ≤ separation → 0 ≤ Structure.function separation k.r0 cutoff) ∧
    Structure.function 0 k.r0 cutoff = 0 ∧
    (∀ i j : Fin k.pupil.side,
      Structure.node (k.place i j) + 1 ≤ Structure.tableIntervals ∧
      (0 ≤ Structure.share (k.place i j) ∧ Structure.share (k.place i j) ≤ 1) ∧
      (Structure.node (k.place i j) * k.interval ≤ k.separation i j ∧
        k.separation i j ≤ (Structure.node (k.place i j) + 1) * k.interval) ∧
      (k.structureGrid cutoff).get i j =
        (1 - Structure.share (k.place i j)) *
            Structure.function (Structure.node (k.place i j) * k.interval) k.r0 cutoff +
          Structure.share (k.place i j) *
            Structure.function ((Structure.node (k.place i j) + 1) * k.interval) k.r0 cutoff) ∧
    (∀ i j : Fin k.pupil.side, (k.transfer cutoff).get i j =
        (k.pupilTransfer.get i j).scale (k.attenuation cutoff i j) ∧
      0 < k.attenuation cutoff i j ∧ k.attenuation cutoff i j ≤ 1) ∧
    ∃ hside : 0 < k.pupil.side, k.attenuation cutoff ⟨0, hside⟩ ⟨0, hside⟩ = 1 := by
  obtain ⟨-, -, -, hpupil, -⟩ := KickSettings.build_eq_ok_iff.1 hbuild
  have heven := PupilSettings.even_side hpupil
  have hside := k.pupil.side_pos (PupilSettings.samples_pos hpupil)
  have htwo : 2 ≤ k.pupil.side := by
    obtain ⟨m, hm⟩ := heven
    omega
  have hscale := PupilSettings.scale_pos_of_build hpupil
  have hinterval := interval_pos htwo hscale
  have hr0 := r0_pos_of_build hbuild
  refine ⟨Structure.tailIntegral_pos, fun _ hseparation =>
    Structure.function_nonneg _ _ hseparation hr0, Structure.function_zero _ _, ?_, ?_, hside, ?_⟩
  · intro i j
    have hnonneg := place_nonneg hinterval i j
    refine ⟨Structure.node_lt _, Structure.share_mem_Icc hnonneg, ⟨?_, ?_⟩,
      k.structureGrid_eq cutoff i j⟩
    · rw [← le_div_iff₀ hinterval]
      exact Structure.node_le hnonneg
    · rw [← div_le_iff₀ hinterval]
      exact Structure.le_node_add_one (place_le heven hscale.le hinterval i j)
  · intro i j
    have hnonneg := structureGrid_nonneg hr0 hinterval cutoff i j
    refine ⟨k.get_transfer cutoff i j, Real.exp_pos _, Real.exp_le_one_iff.2 ?_⟩
    linarith
  · rw [attenuation, structureGrid_zero htwo, mul_zero, Real.exp_zero]

end Built

/-- Through the coarse pupil, whose corner is two samples from its middle along either axis. -/
theorem attenuation_of_build_coarse : ∃ k : Kick ℝ, KickSettings.coarse.build = .ok k ∧
    k.pupil.side = 4 ∧
    (∀ i j : Fin k.pupil.side, Structure.node (k.place i j) + 1 ≤ Structure.tableIntervals ∧
      0 < k.attenuation 1 i j ∧ k.attenuation 1 i j ≤ 1) ∧
    ∃ hside : 0 < k.pupil.side, k.attenuation 1 ⟨0, hside⟩ ⟨0, hside⟩ = 1 := by
  obtain ⟨k, hk⟩ := KickSettings.build_coarse
  obtain ⟨-, -, -, htable, hfactor, hzero⟩ := attenuation_of_build hk 1
  exact ⟨k, hk, KickSettings.side_coarse hk, fun i j => ⟨(htable i j).1, (hfactor i j).2⟩, hzero⟩

end Kick

end Seeing
