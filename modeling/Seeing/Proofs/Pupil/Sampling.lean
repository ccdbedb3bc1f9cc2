import Seeing.Proofs.Pupil.Geometry

/-!
# The sampling of a pupil

The side of the square is the smallest even one that covers twice the diameter, so the square is
wider than needed by less than two samples: `le_side_mul_scale` and `side_mul_scale_lt`. A wide
square makes the cells of the focal grid small enough for the resolution of the telescope, and small
samples make the focal grid wide enough for the field. The two do not meet: the samples are chosen
first, by the smaller of two bounds, and the side is counted in them.
-/

open Real

namespace Seeing

namespace Pupil

theorem le_evenSide {size : ℝ} (hsize : size < 2 ^ 64) : size ≤ evenSide size := by
  have hceil : ⌈size⌉₊ ≤ evenSide size := by
    rw [evenSide_of_lt hsize]
    exact Nat.le_add_right _ _
  calc
    size ≤ ⌈size⌉₊ := Nat.le_ceil size
    _ ≤ evenSide size := Nat.cast_le.2 hceil

theorem evenSide_lt {size : ℝ} (hnonneg : 0 ≤ size) (hsize : size < 2 ^ 64) :
    evenSide size < size + 2 := by
  have hparity : evenSide size ≤ ⌈size⌉₊ + 1 := by
    rw [evenSide_of_lt hsize]
    have := Nat.mod_lt ⌈size⌉₊ two_pos
    omega
  calc
    (evenSide size : ℝ) ≤ ⌈size⌉₊ + 1 := by exact_mod_cast hparity
    _ < size + 1 + 1 := by gcongr; exact Nat.ceil_lt_add_one hnonneg
    _ = size + 2 := by ring

end Pupil

namespace PupilSettings

variable {s : PupilSettings ℝ} {p : Pupil ℝ} (hbuild : s.build = .ok p)

include hbuild

theorem scale_of_build : p.scale = s.scale := by
  obtain ⟨-, -, -, rfl⟩ := build_eq_ok_iff.1 hbuild
  rfl

theorem scale_pos_of_build : 0 < p.scale := by
  rw [scale_of_build hbuild]
  exact scale_pos hbuild

theorem side_of_build :
    p.side = Pupil.evenSide (2 * s.diameter * s.oversampling / p.scale) := by
  obtain ⟨-, -, -, rfl⟩ := build_eq_ok_iff.1 hbuild
  exact side_eq

theorem le_side_mul_scale : 2 * s.diameter * s.oversampling ≤ p.side * p.scale := by
  have hcountable := size_lt_of_build hbuild
  rw [← scale_of_build hbuild] at hcountable
  rw [← div_le_iff₀ (scale_pos_of_build hbuild), side_of_build hbuild]
  exact Pupil.le_evenSide hcountable

theorem side_mul_scale_lt :
    p.side * p.scale < 2 * s.diameter * s.oversampling + 2 * p.scale := by
  have hscale := scale_pos_of_build hbuild
  have hcountable := size_lt_of_build hbuild
  obtain ⟨hdiameter, -, -, hoversampling, -⟩ := pos_of_build hbuild
  rw [← scale_of_build hbuild] at hcountable
  calc
    p.side * p.scale
      < (2 * s.diameter * s.oversampling / p.scale + 2) * p.scale := by
        gcongr
        rw [side_of_build hbuild]
        exact Pupil.evenSide_lt (by positivity) hcountable
    _ = 2 * s.diameter * s.oversampling + 2 * p.scale := by
        field_simp

omit hbuild in
theorem ofArcsec_focalScale (p : Pupil ℝ) (wavelength : ℝ) :
    Scalar.ofArcsec (p.focalScale wavelength) = wavelength * 1e-9 / (p.side * p.scale) := by
  rw [Pupil.focalScale, Scalar.real_ofArcsec, Scalar.real_toArcsec, mul_assoc,
    div_mul_div_cancel₀ pi_ne_zero, div_self (by norm_num), mul_one]
  simp only [Scalar.real_mul, Scalar.real_div, Scalar.real_ofNat, Scalar.real_decimal]
  norm_num

/-- A pupil that was built has an even side of two samples or more, none larger than allowed. Its
square is twice the diameter wide, and more by less than two samples. The focal grid is at least as
fine as the resolution of the telescope asks for, and at least twice as wide as the field. -/
theorem sampling_of_build :
    Even p.side ∧ 2 ≤ p.side ∧ 0 < p.scale ∧ p.scale ≤ s.maxScale ∧
      2 * s.diameter * s.oversampling ≤ p.side * p.scale ∧
      p.side * p.scale < 2 * s.diameter * s.oversampling + 2 * p.scale ∧
      Scalar.ofArcsec (p.focalScale s.wavelength) ≤
        s.wavelength * 1e-9 / (2 * s.diameter * s.oversampling) ∧
      2 * s.padding * s.field ≤ p.side * p.focalScale s.wavelength := by
  have heven := even_side hbuild
  have hside := p.side_pos (samples_pos hbuild)
  have htwo : 2 ≤ p.side := by
    obtain ⟨m, hm⟩ := heven
    omega
  have hscale := scale_pos_of_build hbuild
  have hmax : p.scale ≤ s.maxScale := by
    rw [scale_of_build hbuild, scale_eq_min]
    exact min_le_left _ _
  have hplane := le_side_mul_scale hbuild
  have hfine : Scalar.ofArcsec (p.focalScale s.wavelength) ≤
      s.wavelength * 1e-9 / (2 * s.diameter * s.oversampling) := by
    obtain ⟨hdiameter, hwavelength, -, hoversampling, -⟩ := pos_of_build hbuild
    rw [ofArcsec_focalScale]
    exact div_le_div_of_nonneg_left (by positivity) (by positivity) hplane
  have hwide : 2 * s.padding * s.field ≤ p.side * p.focalScale s.wavelength := by
    rw [mul_assoc]
    exact two_mul_padding_mul_field_le hbuild
  exact ⟨heven, htwo, hscale, hmax, hplane, side_mul_scale_lt hbuild, hfine, hwide⟩

omit hbuild in
/-- The four samples of half a metre along a side of the coarse pupil. -/
theorem sampling_of_build_coarse : coarse.build = .ok coarse.sampled ∧
    coarse.sampled.side = 4 ∧ Even coarse.sampled.side ∧
      coarse.sampled.scale ≤ coarse.maxScale ∧
      2 * coarse.diameter * coarse.oversampling ≤
        coarse.sampled.side * coarse.sampled.scale ∧
      coarse.sampled.side * coarse.sampled.scale <
        2 * coarse.diameter * coarse.oversampling + 2 * coarse.sampled.scale ∧
      Scalar.ofArcsec (coarse.sampled.focalScale coarse.wavelength) ≤
        coarse.wavelength * 1e-9 / (2 * coarse.diameter * coarse.oversampling) ∧
      2 * coarse.padding * coarse.field ≤
        coarse.sampled.side * coarse.sampled.focalScale coarse.wavelength := by
  obtain ⟨heven, -, -, hmax, hplane, hclose, hfine, hwide⟩ := sampling_of_build build_coarse
  exact ⟨build_coarse, side_coarse, heven, hmax, hplane, hclose, hfine, hwide⟩

end PupilSettings

end Seeing
