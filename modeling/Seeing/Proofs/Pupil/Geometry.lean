import Seeing.Proofs.Pupil

/-!
# The geometry of a pupil

The square of a pupil has an even side and its axis in the middle, so that the annulus is
symmetric: `mirrorSymmetric_mask`. With at least the resolution of the telescope there is
room for four samples, `four_le_side`, since the samples next to the axis lie on both of
its sides. With at least the field of the image, the focal grid is twice as wide as that
field: `two_mul_field_le`.
-/

open Real

namespace Seeing

section Arcsec

theorem Scalar.real_ofArcsec (x : ℝ) : ofArcsec x = x * (π / 648000) := by
  simp only [ofArcsec, real_pi, real_literal, real_div, real_mul]
  ring

theorem Scalar.real_toArcsec (x : ℝ) : toArcsec x = x * (648000 / π) := by
  simp only [toArcsec, real_pi, real_literal, real_div, real_mul]
  ring

end Arcsec

namespace Pupil

theorem evenSide_of_lt {size : ℝ} (hsize : size < 2 ^ 64) :
    evenSide size = ⌈size⌉₊ + ⌈size⌉₊ % 2 := by
  have hceil : Scalar.toNat (Scalar.ceil size) = ⌈size⌉₊ := by
    change ⌊((⌈size⌉ : ℤ) : ℝ)⌋₊ = ⌈size⌉₊
    rw [← Int.floor_toNat, Int.floor_intCast, Int.ceil_toNat]
  rw [evenSide, if_pos (by simpa [Scalar.isCountable] using hsize), hceil]

theorem evenSide_of_le {size : ℝ} (hsize : 2 ^ 64 ≤ size) : evenSide size = 0 := by
  rw [evenSide, if_neg (by simpa [Scalar.isCountable] using hsize)]

theorem even_evenSide (size : ℝ) : Even (evenSide size) := by
  rcases lt_or_ge size (2 ^ 64) with hsize | hsize
  · rw [evenSide_of_lt hsize, Nat.even_iff]
    omega
  · rw [evenSide_of_le hsize]
    exact Even.zero

theorem four_le_evenSide {size : ℝ} (htwo : 2 < size) (hsize : size < 2 ^ 64) :
    4 ≤ evenSide size := by
  have hceil : 2 < ⌈size⌉₊ := by
    rw [Nat.lt_ceil]
    exact_mod_cast htwo
  rw [evenSide_of_lt hsize]
  omega

theorem coordinateOn_eq (side : ℕ) (scale : ℝ) (i : ℕ) :
    coordinateOn side scale i = (i - side / 2 + 1 / 2) * scale := by
  simp only [coordinateOn, Scalar.real_half, Scalar.real_ofNat, Scalar.real_add,
    Scalar.real_sub, Scalar.real_mul]
  ring

/-- The axis lies in the middle. -/
theorem coordinateOn_rev {side : ℕ} (scale : ℝ) (i : Fin side) :
    coordinateOn side scale i.rev = -coordinateOn side scale i := by
  rw [coordinateOn_eq, coordinateOn_eq, Fin.val_rev, Nat.cast_sub i.isLt]
  push_cast
  ring

/-- No sample of an even side lies on the axis. -/
theorem half_scale_le_abs_coordinateOn {side : ℕ} (hside : Even side) {scale : ℝ}
    (hscale : 0 ≤ scale) (i : ℕ) : scale / 2 ≤ |coordinateOn side scale i| := by
  obtain ⟨m, rfl⟩ := hside
  have hplace : (1 : ℝ) / 2 ≤ |(i : ℝ) - m + 1 / 2| := by
    rcases Nat.lt_or_ge i m with hlt | hge
    · have : (i : ℝ) + 1 ≤ m := by exact_mod_cast hlt
      rw [abs_of_nonpos] <;> linarith
    · have : (m : ℝ) ≤ i := by exact_mod_cast hge
      rw [abs_of_nonneg] <;> linarith
  have hcoordinate : coordinateOn (m + m) scale i = ((i : ℝ) - m + 1 / 2) * scale := by
    rw [coordinateOn_eq]
    push_cast
    ring
  rw [hcoordinate, abs_mul, abs_of_nonneg hscale]
  nlinarith

theorem annulus_iff {diameter obscuration x y : ℝ} :
    annulus diameter obscuration x y = true ↔
      √(x ^ 2 + y ^ 2) ≤ diameter / 2 ∧ diameter / 2 * obscuration ≤ √(x ^ 2 + y ^ 2) := by
  simp only [annulus, Scalar.real_hypot, Scalar.real_half, Scalar.real_mul, Scalar.real_le,
    Bool.and_eq_true, decide_eq_true_eq, one_div_mul_eq_div]

theorem annulus_neg_left (diameter obscuration x y : ℝ) :
    annulus diameter obscuration (-x) y = annulus diameter obscuration x y := by
  rw [Bool.eq_iff_iff, annulus_iff, annulus_iff, neg_sq]

theorem annulus_comm (diameter obscuration x y : ℝ) :
    annulus diameter obscuration y x = annulus diameter obscuration x y := by
  rw [Bool.eq_iff_iff, annulus_iff, annulus_iff, add_comm]

end Pupil

namespace PupilSettings

variable {s : PupilSettings ℝ}

theorem scale_eq_min : s.scale =
    min s.maxScale (s.wavelength * 1e-9 / (2 * s.padding * (s.field * (π / 648000)))) := by
  rw [scale, Scalar.smaller_eq_min, Scalar.real_ofArcsec]
  simp only [Scalar.real_mul, Scalar.real_div, Scalar.real_literal, Scalar.real_decimal]
  norm_num

theorem side_eq : s.side = Pupil.evenSide (2 * s.diameter * s.oversampling / s.scale) := by
  rw [side]

section Built

variable {p : Pupil ℝ} (hbuild : s.build = .ok p)

include hbuild

theorem pos_of_build : 0 < s.diameter ∧ 0 < s.wavelength ∧ 0 < s.padding ∧
    0 < s.oversampling ∧ 0 < s.maxScale ∧ 0 < s.field := by
  obtain ⟨-, hpositive, -⟩ := build_eq_ok_iff.1 hbuild
  simpa [positives] using hpositive

theorem scale_pos : 0 < s.scale := by
  obtain ⟨-, hwavelength, hpadding, -, hmaxScale, hfield⟩ := pos_of_build hbuild
  rw [scale_eq_min, lt_min_iff]
  exact ⟨hmaxScale, by positivity⟩

theorem even_side : Even p.side := by
  obtain ⟨-, -, -, rfl⟩ := build_eq_ok_iff.1 hbuild
  rw [side_sampled, side_eq]
  exact Pupil.even_evenSide _

/-- The annulus is symmetric about the axis, on which the square has its middle. -/
theorem mirrorSymmetric_mask : MirrorSymmetric p.mask.get := by
  obtain ⟨-, -, -, rfl⟩ := build_eq_ok_iff.1 hbuild
  constructor <;> intro i j
  · have hrev : Pupil.coordinateOn s.side s.scale i.rev =
        -Pupil.coordinateOn s.side s.scale i := Pupil.coordinateOn_rev s.scale i
    rw [get_mask_sampled, get_mask_sampled, hrev, Pupil.annulus_neg_left]
  · rw [get_mask_sampled, get_mask_sampled, Pupil.annulus_comm]

/-- The diagonal of a sample is not longer than the diameter. -/
theorem two_mul_sq_scale_le : 2 * s.scale ^ 2 ≤ s.diameter ^ 2 := by
  have hscale := scale_pos hbuild
  obtain ⟨hdiameter, -⟩ := pos_of_build hbuild
  obtain ⟨-, -, -, rfl⟩ := build_eq_ok_iff.1 hbuild
  have hsamples := samples_pos hbuild
  -- some sample is inside the outer rim, and it lies off the axis in both directions
  obtain ⟨i, j, hinside, -⟩ := (s.sampled.mem_samples).1 (Array.getElem_mem hsamples)
  rw [get_mask_sampled, Pupil.annulus_iff] at hinside
  have heven : Even s.side := even_side hbuild
  have hx := Pupil.half_scale_le_abs_coordinateOn heven hscale.le i
  have hy := Pupil.half_scale_le_abs_coordinateOn heven hscale.le j
  have hradius := (Real.sqrt_le_left (by positivity)).1 hinside.1
  rw [← sq_abs (Pupil.coordinateOn _ _ i), ← sq_abs (Pupil.coordinateOn _ _ j)] at hradius
  nlinarith

/-- A square without samples is refused, so the side can be counted. -/
theorem size_lt_of_build : 2 * s.diameter * s.oversampling / s.scale < 2 ^ 64 := by
  obtain ⟨-, -, -, rfl⟩ := build_eq_ok_iff.1 hbuild
  have hside : 0 < s.side := Pupil.side_pos s.sampled (samples_pos hbuild)
  by_contra hlarge
  rw [side_eq, Pupil.evenSide_of_le (not_lt.1 hlarge)] at hside
  exact lt_irrefl 0 hside

theorem four_le_side (hoversampling : 1 ≤ s.oversampling) : 4 ≤ p.side := by
  have hsq := two_mul_sq_scale_le hbuild
  have hscale := scale_pos hbuild
  have hcountable := size_lt_of_build hbuild
  obtain ⟨hdiameter, -⟩ := pos_of_build hbuild
  obtain ⟨-, -, -, rfl⟩ := build_eq_ok_iff.1 hbuild
  have hlt : s.scale < s.diameter := by nlinarith
  rw [side_sampled, side_eq]
  apply Pupil.four_le_evenSide _ hcountable
  rw [lt_div_iff₀ hscale]
  nlinarith

theorem focalScale_pos {wavelength : ℝ} (hwavelength : 0 < wavelength) :
    0 < p.focalScale wavelength := by
  have hside := p.side_pos (samples_pos hbuild)
  have hscale := scale_pos hbuild
  obtain ⟨-, -, -, rfl⟩ := build_eq_ok_iff.1 hbuild
  change 0 < s.sampled.scale at hscale
  have hside' : (0 : ℝ) < s.sampled.side := Nat.cast_pos.2 hside
  rw [Pupil.focalScale, Scalar.real_toArcsec]
  simp only [Scalar.real_mul, Scalar.real_div, Scalar.real_ofNat, Scalar.real_decimal]
  positivity

theorem side_mul_focalScale (wavelength : ℝ) :
    p.side * p.focalScale wavelength = wavelength * 1e-9 / s.scale * (648000 / π) := by
  have hside := p.side_pos (samples_pos hbuild)
  obtain ⟨-, -, -, rfl⟩ := build_eq_ok_iff.1 hbuild
  have hside' : (s.sampled.side : ℝ) ≠ 0 := Nat.cast_ne_zero.2 hside.ne'
  have hscale : s.sampled.scale = s.scale := rfl
  rw [Pupil.focalScale, Scalar.real_toArcsec, hscale]
  simp only [Scalar.real_mul, Scalar.real_div, Scalar.real_ofNat, Scalar.real_decimal]
  field_simp
  norm_num

theorem two_mul_padding_mul_field_le :
    2 * (s.padding * s.field) ≤ p.side * p.focalScale s.wavelength := by
  rw [side_mul_focalScale hbuild]
  have hscale := scale_pos hbuild
  obtain ⟨-, hwavelength, hpadding, -, -, hfield⟩ := pos_of_build hbuild
  have hle : s.scale ≤
      s.wavelength * 1e-9 / (2 * s.padding * (s.field * (π / 648000))) := by
    rw [scale_eq_min]
    exact min_le_right _ _
  have hangle : 2 * s.padding * (s.field * (π / 648000)) ≤ s.wavelength * 1e-9 / s.scale := by
    rw [le_div_iff₀ hscale, mul_comm, ← le_div_iff₀ (by positivity)]
    exact hle
  calc
    2 * (s.padding * s.field)
      = 2 * s.padding * (s.field * (π / 648000)) * (648000 / π) := by
        field_simp
    _ ≤ s.wavelength * 1e-9 / s.scale * (648000 / π) :=
        mul_le_mul_of_nonneg_right hangle (by positivity)

theorem two_mul_field_le (hpadding : 1 ≤ s.padding) :
    2 * s.field ≤ p.side * p.focalScale s.wavelength := by
  refine le_trans ?_ (two_mul_padding_mul_field_le hbuild)
  obtain ⟨-, -, -, -, -, hfield⟩ := pos_of_build hbuild
  nlinarith

end Built

end PupilSettings

end Seeing
