import Seeing.Proofs.Exposure.Diffraction
import Seeing.Proofs.Turbulence.Fried

/-!
# The strength of the turbulence

The Fried parameter enters a screen through the power spectrum only, as a power of
exponent `-5/3`. With the Fried parameters of all layers multiplied by `m`, the same
deviates give modes that are `m ^ (-5/6)` times as large, and the transform, the
interpolation and the sum over the layers are linear in them. So the operations of an
atmosphere commute with `Atmosphere.scaleFried m`, which multiplies the Fried parameters
by `m` and the phases by `m ^ (-5/6)`.

The settings multiply the Fried parameter of every layer by `r0 * strength ^ (-3/5)`,
whence the square root of the strength in `Atmosphere.amplified_of_build`. A layer with a
negative fraction has no Fried parameter; sampled profiles have none,
`TurbulenceProfile.SampledFrom.weight_nonneg`.
-/

open Real

namespace Seeing

theorem phaseSpectrum_mul (frequency outerScale : ℝ) {r0 m : ℝ} (hr0 : 0 ≤ r0) (hm : 0 ≤ m) :
    phaseSpectrum frequency (r0 * m) outerScale =
      phaseSpectrum frequency r0 outerScale * m ^ (-(5 / 3) : ℝ) := by
  simp only [phaseSpectrum, Scalar.real_mul, Scalar.real_pow, Scalar.real_neg, Scalar.real_div,
    Scalar.real_literal, Real.mul_rpow hr0 hm]
  ring

theorem sqrt_rpow_five_thirds {m : ℝ} (hm : 0 ≤ m) :
    √(m ^ (-(5 / 3) : ℝ)) = m ^ (-(5 / 6) : ℝ) := by
  rw [Real.sqrt_eq_rpow, ← Real.rpow_mul hm]
  norm_num

namespace PhaseScreen

/-- The screen with the phase multiplied at every pixel. -/
noncomputable def amplify (factor : ℝ) (p : PhaseScreen ℝ) : PhaseScreen ℝ :=
  { p with phases := p.phases.map (factor * ·) }

theorem pixel_amplify (factor : ℝ) (p : PhaseScreen ℝ) (i j : ℕ) :
    (p.amplify factor).pixel i j = factor * p.pixel i j :=
  Grid.get_map _ _ _ _

theorem phase_amplify (factor : ℝ) (p : PhaseScreen ℝ) (x y t : ℝ) :
    (p.amplify factor).phase x y t = factor * p.phase x y t := by
  have hscale : (p.amplify factor).scale = p.scale := rfl
  have hside : (p.amplify factor).side = p.side := rfl
  have hvelocity : (p.amplify factor).velocity = p.velocity := rfl
  simp only [phase, pixel_amplify, hscale, hside, hvelocity, Scalar.real_add, Scalar.real_mul]
  ring

variable {s : Statistics ℝ} {m : ℝ}

theorem modeSize_mul (hr0 : 0 ≤ s.r0) (hm : 0 ≤ m) (side : ℕ) (frequency : ℝ) :
    { s with r0 := s.r0 * m }.modeSize side frequency =
      m ^ (-(5 / 6) : ℝ) * s.modeSize side frequency := by
  -- which modes are left out does not depend on the Fried parameter
  by_cases hcutoff : frequency = 0 ∨ 2 * π * frequency < s.cutoff
  · rw [modeSize_of_lt s side hcutoff, mul_zero]
    exact modeSize_of_lt { s with r0 := s.r0 * m } side hcutoff
  · obtain ⟨hfrequency, hle⟩ := not_or.1 hcutoff
    rw [modeSize_of_le s side hfrequency (not_lt.1 hle),
      modeSize_of_le { s with r0 := s.r0 * m } side hfrequency (not_lt.1 hle),
      phaseSpectrum_mul _ _ hr0 hm, Real.sqrt_mul' _ (by positivity), sqrt_rpow_five_thirds hm]
    ring

theorem ofDeviates_mul (hr0 : 0 ≤ s.r0) (hm : 0 ≤ m) (velocity : ℝ × ℝ) {side : ℕ}
    (side_pos : 0 < side) (deviates : Grid side side (Amplitude ℝ)) :
    ofDeviates { s with r0 := s.r0 * m } velocity side_pos deviates =
      (ofDeviates s velocity side_pos deviates).amplify (m ^ (-(5 / 6) : ℝ)) := by
  have hmodes : (modes { s with r0 := s.r0 * m } deviates).toComplex = fun i j =>
      ((m ^ (-(5 / 6) : ℝ) : ℝ) : ℂ) * (modes s deviates).toComplex i j := by
    funext i j
    rw [toComplex_modes, toComplex_modes, modeSize_mul hr0 hm, Complex.ofReal_mul, mul_assoc]
  have hphases : (ofDeviates { s with r0 := s.r0 * m } velocity side_pos deviates).phases =
      ((ofDeviates s velocity side_pos deviates).amplify (m ^ (-(5 / 6) : ℝ))).phases := by
    apply Grid.ext_get
    intro (i : Fin side) (j : Fin side)
    calc
      (ofDeviates { s with r0 := s.r0 * m } velocity side_pos deviates).phases.get i j
        = (Direction.inverse.doubleSum
            (modes { s with r0 := s.r0 * m } deviates).toComplex i j).re :=
          get_phases_ofDeviates _ velocity side_pos deviates i j
      _ = m ^ (-(5 / 6) : ℝ) *
            (Direction.inverse.doubleSum (modes s deviates).toComplex i j).re := by
          rw [hmodes, Direction.doubleSum_const_mul, Complex.re_ofReal_mul]
      _ = m ^ (-(5 / 6) : ℝ) * (ofDeviates s velocity side_pos deviates).phases.get i j :=
          congrArg _ (get_phases_ofDeviates s velocity side_pos deviates i j).symm
      _ = ((ofDeviates s velocity side_pos deviates).amplify
            (m ^ (-(5 / 6) : ℝ))).phases.get i j :=
          (Grid.get_map _ _ i j).symm
  exact congrArg (fun phases => { ofDeviates s velocity side_pos deviates with phases }) hphases

theorem draw_mul [RandomSource ℝ] (hr0 : 0 ≤ s.r0) (hm : 0 ≤ m) (velocity : ℝ × ℝ) (side : ℕ)
    (side_pos : 0 < side) (state : RandomSource.State ℝ) :
    (draw { s with r0 := s.r0 * m } velocity side side_pos state).1 =
      (draw s velocity side side_pos state).1.amplify (m ^ (-(5 / 6) : ℝ)) :=
  ofDeviates_mul hr0 hm velocity side_pos (drawDeviates (α := ℝ) side state).1

end PhaseScreen

/-- The layer with the Fried parameter multiplied. -/
noncomputable def Layer.scaleFried (m : ℝ) (l : Layer ℝ) : Layer ℝ := { l with r0 := l.r0 * m }

/-- The layers depend on the settings by the product of `r0` and the power of the strength. -/
theorem TurbulenceProfile.layers_eq_map {r0 r0' strength strength' m : ℝ}
    (hm : r0' * strength' ^ (-(3 / 5) : ℝ) = r0 * strength ^ (-(3 / 5) : ℝ) * m)
    (p : TurbulenceProfile ℝ) :
    p.layers r0' strength' = (p.layers r0 strength).map (Layer.scaleFried m) := by
  have hr0 : ∀ weight : ℝ, layerFried r0' weight * strength' ^ (-(3 / 5) : ℝ) =
      layerFried r0 weight * strength ^ (-(3 / 5) : ℝ) * m := by
    intro weight
    rw [layerFried_eq, layerFried_eq]
    linear_combination weight ^ (-(3 / 5) : ℝ) * hm
  simp only [layers, List.map_zipWith, Layer.scaleFried, Scalar.real_mul, Scalar.real_pow,
    Scalar.real_neg, Scalar.real_decimal, if_true, Nat.cast_ofNat, six_tenths, hr0]

namespace Atmosphere

/-- The atmosphere with the Fried parameters multiplied by `m`, and the phase of its screens
accordingly. -/
noncomputable def scaleFried (m : ℝ) (a : Atmosphere ℝ) : Atmosphere ℝ :=
  { a with
    layers := a.layers.map (Layer.scaleFried m)
    screens := a.screens.map (PhaseScreen.amplify (m ^ (-(5 / 6) : ℝ))) }

theorem phase_scaleFried (m : ℝ) (a : Atmosphere ℝ) (x y t wavelength : ℝ) :
    (a.scaleFried m).phase x y t wavelength =
      m ^ (-(5 / 6) : ℝ) * a.phase x y t wavelength := by
  simp only [phase, scaleFried, Scalar.sumList_eq_sum, List.map_map, Function.comp_def,
    PhaseScreen.phase_amplify, List.sum_map_mul_left, Scalar.real_mul, Scalar.real_div,
    Scalar.real_literal]
  ring

/-- The phase is that of a path through the layers, which the wavelength measures. -/
theorem wavelength_mul_phase (a : Atmosphere ℝ) (x y t : ℝ) {wavelength : ℝ}
    (hwavelength : 0 < wavelength) : wavelength * a.phase x y t wavelength = a.phase x y t 1 := by
  simp only [phase, Scalar.real_mul, Scalar.real_div]
  field_simp

variable {s : AtmosphereSettings ℝ} {a : Atmosphere ℝ} {m : ℝ}

theorem r0_nonneg_of_mem (hbuild : s.build = .ok a) (hweight : ∀ w ∈ s.turbulence.weight, 0 ≤ w)
    {l : Layer ℝ} (hl : l ∈ a.layers) : 0 ≤ l.r0 := by
  obtain ⟨hr0, hstrength⟩ := pos_of_build hbuild
  obtain ⟨hnonneg, -⟩ := rpow_r0_of_mem hbuild hweight hl
  obtain ⟨-, -, -, rfl⟩ := AtmosphereSettings.build_eq_ok_iff.1 hbuild
  rw [TurbulenceProfile.r0_of_mem_layers hl]
  positivity

section Draw

variable [RandomSource ℝ]

theorem drawScreens_scaleFried (hr0 : ∀ l ∈ a.layers, 0 ≤ l.r0) (hm : 0 ≤ m) (cutoff : ℝ)
    (side_pos : 0 < a.screenSide) (side_pos' : 0 < (a.scaleFried m).screenSide) :
    (a.scaleFried m).drawScreens cutoff side_pos' =
      (a.drawScreens cutoff side_pos).map (PhaseScreen.amplify (m ^ (-(5 / 6) : ℝ))) := by
  have hseeds : (a.scaleFried m).screenSeeds = a.screenSeeds := by
    simp only [screenSeeds, scaleFried, List.length_map]
  have hlayers : (a.scaleFried m).layers = a.layers.map (Layer.scaleFried m) := rfl
  rw [drawScreens_eq_map, drawScreens_eq_map, hseeds, hlayers, List.zip_map_left, List.map_map,
    List.map_map]
  apply List.map_congr_left
  rintro ⟨l, seed⟩ hl
  exact PhaseScreen.draw_mul (s := a.statistics cutoff l) (hr0 l (List.of_mem_zip hl).1) hm
    l.velocity a.screenSide side_pos (RandomSource.ofSeed seed)

/-- Drawing the screens commutes with a change of the Fried parameters. -/
theorem instantiate?_scaleFried (hr0 : ∀ l ∈ a.layers, 0 ≤ l.r0) (hm : 0 ≤ m) (cutoff : ℝ) :
    (a.scaleFried m).instantiate? cutoff = (a.instantiate? cutoff).map (scaleFried m) := by
  have hempty : (a.scaleFried m).layers.isEmpty = a.layers.isEmpty := List.isEmpty_map
  rw [instantiate?, instantiate?, hempty]
  by_cases hlayers : a.layers.isEmpty
  · rw [if_pos hlayers, if_pos hlayers]
    rfl
  · rw [if_neg hlayers, if_neg hlayers]
    by_cases hside : 0 < a.screenSide
    · have hside' : 0 < (a.scaleFried m).screenSide := hside
      rw [dif_pos hside, dif_pos hside', drawScreens_scaleFried hr0 hm cutoff hside hside',
        apply_ite (Option.map (scaleFried m))]
      rfl
    · have hside' : ¬ 0 < (a.scaleFried m).screenSide := hside
      rw [dif_neg hside, dif_neg hside']
      rfl

/-- At every cutoff both atmospheres get screens or none does, and the phase through the second
is `factor` times the phase through the first. -/
def Amplified (factor : ℝ) (a a' : Atmosphere ℝ) : Prop :=
  ∀ cutoff, Option.Rel
    (fun b b' => ∀ x y t wavelength, b'.phase x y t wavelength = factor * b.phase x y t wavelength)
    (a.instantiate? cutoff) (a'.instantiate? cutoff)

theorem amplified_scaleFried (hr0 : ∀ l ∈ a.layers, 0 ≤ l.r0) (hm : 0 ≤ m) :
    Amplified (m ^ (-(5 / 6) : ℝ)) a (a.scaleFried m) := by
  intro cutoff
  rw [instantiate?_scaleFried hr0 hm]
  cases a.instantiate? cutoff with
  | none => exact .none
  | some b => exact .some (phase_scaleFried m b)

theorem Amplified.exists_screens {factor cutoff : ℝ} {a' b : Atmosphere ℝ}
    (hamplified : Amplified factor a a') (hb : a.instantiate? cutoff = some b) :
    ∃ b', a'.instantiate? cutoff = some b' ∧
      ∀ x y t wavelength, b'.phase x y t wavelength = factor * b.phase x y t wavelength := by
  have hrel := hamplified cutoff
  rw [hb] at hrel
  cases hb' : a'.instantiate? cutoff with
  | none =>
      rw [hb'] at hrel
      cases hrel
  | some b' =>
      rw [hb'] at hrel
      cases hrel with
      | some hphase => exact ⟨b', rfl, hphase⟩

/-- What counts of the Fried parameter and the strength of the settings is one product. -/
theorem exists_amplified (hbuild : s.build = .ok a) (hweight : ∀ w ∈ s.turbulence.weight, 0 ≤ w)
    {r0 strength m : ℝ} (hr0 : 0 < r0) (hstrength : 0 < strength) (hm : 0 ≤ m)
    (hproduct : r0 * strength ^ (-(3 / 5) : ℝ) = s.r0 * s.strength ^ (-(3 / 5) : ℝ) * m) :
    ∃ a', { s with r0 := r0, strength := strength }.build = .ok a' ∧
      Amplified (m ^ (-(5 / 6) : ℝ)) a a' := by
  have hamplified := amplified_scaleFried (fun l hl => r0_nonneg_of_mem hbuild hweight hl) hm
  obtain ⟨hcheck, hpositive, hscreen, rfl⟩ := AtmosphereSettings.build_eq_ok_iff.1 hbuild
  refine ⟨_, AtmosphereSettings.build_eq_ok_iff.2 ⟨hcheck, ?_, hscreen, ?_⟩, hamplified⟩
  · simp only [AtmosphereSettings.positives, List.forall_mem_cons, Scalar.real_zero] at hpositive ⊢
    exact ⟨hr0, hstrength, hpositive.2.2⟩
  · simp only [scaleFried, AtmosphereSettings.layers,
      TurbulenceProfile.layers_eq_map hproduct, List.map_nil]

/-- With the turbulence multiplied by `c` the phase is multiplied by the square root of `c`, and
with the Fried parameter multiplied by `c` by `c ^ (-5/6)`, for the same seed, layers and winds
and at every cutoff. The wavelength scales the phase only. -/
theorem amplified_of_build (hbuild : s.build = .ok a)
    (hweight : ∀ w ∈ s.turbulence.weight, 0 ≤ w) {c : ℝ} (hc : 0 < c) :
    (∃ a', { s with strength := c * s.strength }.build = .ok a' ∧ Amplified (√c) a a') ∧
    (∃ a', { s with r0 := c * s.r0 }.build = .ok a' ∧ Amplified (c ^ (-(5 / 6) : ℝ)) a a') ∧
    ∀ cutoff a', a.instantiate? cutoff = some a' →
      ∀ x y t wavelength wavelength', 0 < wavelength → 0 < wavelength' →
        wavelength * a'.phase x y t wavelength = wavelength' * a'.phase x y t wavelength' := by
  obtain ⟨hr0, hstrength⟩ := pos_of_build hbuild
  refine ⟨?_, ?_, ?_⟩
  · have hsqrt : (c ^ (-(3 / 5) : ℝ)) ^ (-(5 / 6) : ℝ) = √c := by
      rw [← Real.rpow_mul hc.le, Real.sqrt_eq_rpow]
      norm_num
    rw [← hsqrt]
    apply exists_amplified hbuild hweight hr0 (mul_pos hc hstrength) (by positivity)
    rw [Real.mul_rpow hc.le hstrength.le]
    ring
  · apply exists_amplified hbuild hweight (mul_pos hc hr0) hstrength hc.le
    ring
  · intro cutoff a' _ x y t wavelength wavelength' hwavelength hwavelength'
    rw [wavelength_mul_phase a' x y t hwavelength, wavelength_mul_phase a' x y t hwavelength']

end Draw

/-- Four times the turbulence of the layer of the coarse exposure doubles the phase. -/
theorem amplified_of_build_coarse : letI := countingSource
    ∃ a a' b b' : Atmosphere ℝ, ExposureSettings.coarse.atmosphere.build = .ok a ∧
      { ExposureSettings.coarse.atmosphere with
        strength := 4 * ExposureSettings.coarse.atmosphere.strength }.build = .ok a' ∧
      a.instantiate? 0 = some b ∧ a'.instantiate? 0 = some b' ∧
      ∀ x y t wavelength, b'.phase x y t wavelength = 2 * b.phase x y t wavelength := by
  let _ := countingSource
  obtain ⟨a, hbuild⟩ := ExposureSettings.build_atmosphere_coarse
  have hweight : ∀ w ∈ ExposureSettings.coarse.atmosphere.turbulence.weight, 0 ≤ w := by
    simp [ExposureSettings.coarse]
  obtain ⟨⟨a', hbuild', hamplified⟩, -, -⟩ :=
    amplified_of_build hbuild hweight (by norm_num : (0 : ℝ) < 4)
  obtain ⟨b, hb⟩ := (exists_screens_iff hbuild 0).2 (ExposureSettings.drawable_coarse hbuild)
  obtain ⟨b', hb', hphase⟩ := hamplified.exists_screens hb
  have hsqrt : √(4 : ℝ) = 2 := by
    rw [Real.sqrt_eq_iff_mul_self_eq (by norm_num) zero_le_two]
    norm_num
  rw [hsqrt] at hphase
  exact ⟨a, a', b, b', hbuild, hbuild', hb, hb', hphase⟩

end Atmosphere

end Seeing
