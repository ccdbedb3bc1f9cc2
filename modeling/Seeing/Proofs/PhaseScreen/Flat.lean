import Seeing.Atmosphere.Settings
import Seeing.Proofs.PhaseScreen.Modes
import Seeing.Proofs.Settings

/-!
# Flat screens

No mode of a screen has a frequency beyond the corner of the square of its frequencies,
`frequencyAt_le`. A cutoff beyond leaves out all modes, and the screen is flat whatever is
drawn: `flat_draw`. Through flat screens the phase is zero everywhere and at all times.

An atmosphere gets its screens unless they have more pixels than can be counted:
`Atmosphere.exists_screens_iff`.
-/

open Real

namespace Seeing

/-- The frequencies of samples with spacing `d` go up to half a cycle per sample. -/
theorem abs_get_sampleFrequencies_le {n : ℕ} {d : ℝ} (hd : 0 < d) (i : Fin n) :
    |(sampleFrequencies n d).get i| ≤ 1 / (2 * d) := by
  have hn : (0 : ℝ) < n := Nat.cast_pos.2 (Fin.pos i)
  have hhalf : |if i.val ≤ (n - 1) / 2 then (i : ℝ) else i - n| ≤ n / 2 := by
    have hlt : (i : ℝ) < n := Nat.cast_lt.2 i.isLt
    split_ifs with hlower
    · have : (i : ℝ) * 2 ≤ n := by
        have : i.val * 2 ≤ n := by omega
        exact_mod_cast this
      rw [Nat.abs_cast]
      linarith
    · have : (n : ℝ) ≤ i * 2 := by
        have : n ≤ i.val * 2 := by omega
        exact_mod_cast this
      rw [abs_of_neg (by linarith)]
      linarith
  rw [get_sampleFrequencies, abs_mul, abs_of_nonneg (by positivity : 0 ≤ 1 / (n * d))]
  calc
    |if i.val ≤ (n - 1) / 2 then (i : ℝ) else i - n| * (1 / (n * d))
      ≤ n / 2 * (1 / (n * d)) := mul_le_mul_of_nonneg_right hhalf (by positivity)
    _ = 1 / (2 * d) := by
        field_simp

namespace PhaseScreen

/-- The corner of the square of frequencies is the farthest from its middle. -/
theorem frequencyAt_le {side : ℕ} {scale : ℝ} (hscale : 0 < scale) (i j : Fin side) :
    frequencyAt scale i j ≤ √2 / (2 * scale) := by
  have hi := abs_get_sampleFrequencies_le hscale i
  have hj := abs_get_sampleFrequencies_le hscale j
  rw [frequencyAt]
  calc
    √((sampleFrequencies side scale).get i ^ 2 + (sampleFrequencies side scale).get j ^ 2)
      ≤ √(2 * (1 / (2 * scale)) ^ 2) := by
        apply Real.sqrt_le_sqrt
        have hi' := sq_le_sq' (neg_le_of_abs_le hi) (le_of_abs_le hi)
        have hj' := sq_le_sq' (neg_le_of_abs_le hj) (le_of_abs_le hj)
        linarith
    _ = √2 / (2 * scale) := by
        rw [Real.sqrt_mul zero_le_two, Real.sqrt_sq (by positivity), mul_one_div]

/-- The phase is zero at every pixel. -/
def Flat (p : PhaseScreen ℝ) : Prop := ∀ i j, p.phases.get i j = 0

/-- Between the pixels of a flat screen the phase is zero, too. -/
theorem phase_eq_zero {p : PhaseScreen ℝ} (hp : p.Flat) (x y t : ℝ) : p.phase x y t = 0 := by
  have hpixel : ∀ i j, p.pixel i j = 0 := fun i j => hp _ _
  simp only [phase, hpixel]
  simp

/-- Beyond the highest frequency all modes are left out. -/
theorem flat_ofDeviates {s : Statistics ℝ} (hscale : 0 < s.scale)
    (hcutoff : √2 * π / s.scale < s.cutoff) (velocity : ℝ × ℝ) {side : ℕ}
    (side_pos : 0 < side) (deviates : Grid side side (Amplitude ℝ)) :
    (ofDeviates s velocity side_pos deviates).Flat := by
  have hsize : ∀ i j : Fin side, s.modeSize side (frequencyAt s.scale i j) = 0 := by
    intro i j
    apply modeSize_of_lt
    right
    calc
      2 * π * frequencyAt s.scale i j
        ≤ 2 * π * (√2 / (2 * s.scale)) :=
          mul_le_mul_of_nonneg_left (frequencyAt_le hscale i j) (by positivity)
      _ = √2 * π / s.scale := by
          field_simp
      _ < s.cutoff := hcutoff
  -- the deviates do not matter, since each is multiplied with the size of its mode
  have hmodes : (modes s deviates).toComplex = fun _ _ => 0 := by
    funext i j
    rw [toComplex_modes, hsize, Complex.ofReal_zero, zero_mul]
  intro i j
  refine (get_phases_ofDeviates s velocity side_pos deviates i j).trans ?_
  rw [hmodes]
  simp [Direction.doubleSum]

theorem flat_draw [RandomSource ℝ] {s : Statistics ℝ} (hscale : 0 < s.scale)
    (hcutoff : √2 * π / s.scale < s.cutoff) (velocity : ℝ × ℝ) (side : ℕ)
    (side_pos : 0 < side) (state : RandomSource.State ℝ) :
    (draw s velocity side side_pos state).1.Flat :=
  flat_ofDeviates hscale hcutoff velocity side_pos (drawDeviates (α := ℝ) side state).1

end PhaseScreen

namespace Atmosphere

theorem phase_eq_zero {a : Atmosphere ℝ} (hflat : ∀ p ∈ a.screens, p.Flat)
    (x y t wavelength : ℝ) : a.phase x y t wavelength = 0 := by
  have hphases : ∀ z ∈ a.screens.map fun p => p.phase x y t, z = 0 := by
    intro z hz
    obtain ⟨p, hp, rfl⟩ := List.mem_map.1 hz
    exact PhaseScreen.phase_eq_zero (hflat p hp) x y t
  rw [phase, Scalar.sumList_eq_sum, List.sum_eq_zero hphases]
  simp

/-- There are no screens to draw, or arrays for their modes. -/
def Drawable (a : Atmosphere ℝ) : Prop :=
  a.layers = [] ∨ Storage.HoldsSquare a.screenSide Storage.amplitudeBytes

section Draw

variable {s : AtmosphereSettings ℝ} {a : Atmosphere ℝ}

theorem screenSide_eq (hratio : 0 ≤ a.screenSize / a.screenScale) :
    a.screenSide = ⌊a.screenSize / a.screenScale + 1 / 2⌋₊ := by
  have hround : Scalar.round (a.screenSize / a.screenScale) =
      Scalar.floor (a.screenSize / a.screenScale + 1 / 2) := if_neg hratio.not_gt
  exact (congrArg Scalar.toNat hround).trans (Scalar.toNat_floor _)

/-- Settings are built only for screens of two pixels along a side, or more. -/
theorem two_le_ratio_of_build (hbuild : s.build = .ok a) :
    2 ≤ a.screenSize / a.screenScale := by
  obtain ⟨-, -, ⟨hscale, hsize⟩, rfl⟩ := AtmosphereSettings.build_eq_ok_iff.1 hbuild
  simp only [Scalar.real_zero, Scalar.real_lt, Scalar.real_le, Scalar.real_literal,
    Scalar.real_mul] at hscale hsize
  rwa [le_div_iff₀ hscale]

theorem screenSide_pos (hbuild : s.build = .ok a) : 0 < a.screenSide := by
  have htwo := two_le_ratio_of_build hbuild
  rw [screenSide_eq (by linarith), Nat.floor_pos]
  linarith

theorem drawable_iff_of_build (hbuild : s.build = .ok a) :
    a.Drawable ↔ a.layers = [] ∨ a.screenSize / a.screenScale + 1 / 2 < 759250125 := by
  have htwo := two_le_ratio_of_build hbuild
  rw [Drawable, Storage.holdsSquare_amplitudeBytes_iff, screenSide_eq (by linarith),
    Nat.floor_lt (by linarith), Nat.cast_ofNat]

variable [RandomSource ℝ]

/-- An atmosphere gets its screens whenever there can be arrays for them, and only then. -/
theorem exists_screens_iff (hbuild : s.build = .ok a) (cutoff : ℝ) :
    (∃ a', a.instantiate? cutoff = some a') ↔ a.Drawable := by
  have hside := screenSide_pos hbuild
  rw [instantiate?, Drawable]
  cases hlayers : a.layers with
  | nil => simp
  | cons l ls => simp [hside]

theorem flat_instantiate? {cutoff : ℝ} (hscale : 0 < a.screenScale)
    (hcutoff : √2 * π / a.screenScale < cutoff) {a' : Atmosphere ℝ}
    (ha' : a.instantiate? cutoff = some a') : ∀ p ∈ a'.screens, p.Flat := by
  rw [instantiate?] at ha'
  split_ifs at ha' with hlayers hside hstorable
  · cases ha'
    simp
  · cases ha'
    intro p hp
    rw [drawScreens_eq_map, List.mem_map] at hp
    obtain ⟨⟨l, seed⟩, -, rfl⟩ := hp
    exact PhaseScreen.flat_draw hscale hcutoff _ _ _ _

end Draw

end Atmosphere

end Seeing
