import Seeing.Proofs.Settings
import Seeing.Proofs.Turbulence.Sampling

/-!
# The Fried parameter of an atmosphere

A layer with the fraction `w` of turbulence multiplied by `f` has the Fried parameter
`r0 * w ^ (-3/5) * f ^ (-3/5)`, and the inverse five thirds powers of the Fried parameters
of the layers add up. The powers cancel, so every layer adds `w * f` times the inverse
five thirds power of `r0`, and it is the sum of the fractions that counts.

A layer without turbulence has no finite Fried parameter. Powers of zero are zero here, so
that it adds nothing, as it would with a Fried parameter without bound.
-/

namespace Seeing

/-- The exponent of the Fried parameters, as it is written in tenths. -/
theorem six_tenths : (6 : ℝ) / 10 ^ 1 = 3 / 5 := by norm_num

theorem friedAt_mul (r0 factor wavelength : ℝ) :
    friedAt (r0 * factor) wavelength = friedAt r0 wavelength * factor := by
  simp only [friedAt, Scalar.real_mul]
  ring

theorem friedAt_pos {r0 wavelength : ℝ} (hr0 : 0 < r0) (hwavelength : 0 < wavelength) :
    0 < friedAt r0 wavelength := by
  simp only [friedAt, Scalar.real_mul, Scalar.real_div, Scalar.real_pow, Scalar.real_literal]
  positivity

theorem layerFried_eq (r0 weight : ℝ) :
    layerFried r0 weight = r0 * weight ^ (-(3 / 5) : ℝ) := by
  simp only [layerFried, Scalar.real_mul, Scalar.real_pow, Scalar.real_decimal, if_true,
    Nat.cast_ofNat, six_tenths]

namespace TurbulenceProfile

variable {p : TurbulenceProfile ℝ} {r0 strength : ℝ}

theorem map_weight_layers (hp : p.Matched) (r0 strength : ℝ) :
    (p.layers r0 strength).map Layer.weight = p.weight := by
  obtain ⟨haltitude, hweight, hspeed, hdirection⟩ := hp
  apply List.ext_getElem
  · simp [layers, haltitude, hweight, hspeed, hdirection]
  · intro i _ _
    simp [layers]

theorem length_layers (hp : p.Matched) (r0 strength : ℝ) :
    (p.layers r0 strength).length = p.layerCount := by
  have hweight := congrArg List.length (map_weight_layers hp r0 strength)
  rwa [List.length_map, hp.weight] at hweight

theorem r0_of_mem_layers {l : Layer ℝ} (hl : l ∈ p.layers r0 strength) :
    l.r0 = r0 * l.weight ^ (-(3 / 5) : ℝ) * strength ^ (-(3 / 5) : ℝ) := by
  obtain ⟨i, hi, rfl⟩ := List.getElem_of_mem hl
  simp only [layers, List.getElem_zipWith, layerFried_eq, Scalar.real_mul, Scalar.real_pow,
    Scalar.real_decimal, if_true, Nat.cast_ofNat, six_tenths]

/-- What a layer adds to the sum over the layers. -/
theorem rpow_r0_of_mem_layers (hr0 : 0 < r0) (hstrength : 0 < strength) {l : Layer ℝ}
    (hl : l ∈ p.layers r0 strength) (hweight : 0 ≤ l.weight) :
    l.r0 ^ (-(5 / 3) : ℝ) = r0 ^ (-(5 / 3) : ℝ) * strength * l.weight := by
  have hcancel : ∀ x : ℝ, 0 ≤ x → (x ^ (-(3 / 5) : ℝ)) ^ (-(5 / 3) : ℝ) = x := by
    intro x hx
    rw [← Real.rpow_mul hx]
    norm_num
  rw [r0_of_mem_layers hl, Real.mul_rpow (by positivity) (by positivity),
    Real.mul_rpow hr0.le (by positivity), hcancel _ hweight, hcancel _ hstrength.le]
  ring

end TurbulenceProfile

namespace Atmosphere

theorem r0_eq (a : Atmosphere ℝ) :
    a.r0 = (a.layers.map fun l => l.r0 ^ (-(5 / 3) : ℝ)).sum ^ (-(3 / 5) : ℝ) := by
  simp only [r0, Scalar.sumList_eq_sum, Scalar.real_pow, Scalar.real_div, Scalar.real_literal,
    Scalar.real_decimal, if_true, Nat.cast_ofNat, six_tenths]

/-- Layers that add nothing can be left out. -/
theorem sum_map_filter {σ : Type} (f : σ → ℝ) (keep : σ → Bool) (xs : List σ)
    (hzero : ∀ x ∈ xs, keep x = false → f x = 0) :
    ((xs.filter keep).map f).sum = (xs.map f).sum := by
  induction xs with
  | nil => rfl
  | cons x xs ih =>
      have hrest := ih fun y hy => hzero y (List.mem_cons_of_mem x hy)
      cases hx : keep x with
      | false => simp [hx, hrest, hzero x List.mem_cons_self hx]
      | true => simp [hx, hrest]

section Build

variable {s : AtmosphereSettings ℝ} {a : Atmosphere ℝ}

theorem pos_of_build (hbuild : s.build = .ok a) : 0 < s.r0 ∧ 0 < s.strength := by
  obtain ⟨-, hpositive, -, -⟩ := AtmosphereSettings.build_eq_ok_iff.1 hbuild
  simp only [AtmosphereSettings.positives, List.forall_mem_cons, Scalar.real_zero] at hpositive
  exact ⟨hpositive.1, hpositive.2.1⟩

theorem rpow_r0_of_mem (hbuild : s.build = .ok a) (hweight : ∀ w ∈ s.turbulence.weight, 0 ≤ w)
    {l : Layer ℝ} (hl : l ∈ a.layers) : 0 ≤ l.weight ∧
      l.r0 ^ (-(5 / 3) : ℝ) = s.r0 ^ (-(5 / 3) : ℝ) * s.strength * l.weight := by
  obtain ⟨hr0, hstrength⟩ := pos_of_build hbuild
  obtain ⟨hcheck, -, -, rfl⟩ := AtmosphereSettings.build_eq_ok_iff.1 hbuild
  have hmatched := TurbulenceProfile.check_eq_ok_iff.1 hcheck
  have hnonneg : 0 ≤ l.weight := by
    apply hweight
    rw [← TurbulenceProfile.map_weight_layers hmatched s.r0 s.strength]
    exact List.mem_map_of_mem hl
  exact ⟨hnonneg, TurbulenceProfile.rpow_r0_of_mem_layers hr0 hstrength hl hnonneg⟩

theorem sum_rpow_r0 (hbuild : s.build = .ok a) (hweight : ∀ w ∈ s.turbulence.weight, 0 ≤ w) :
    (a.layers.map fun l => l.r0 ^ (-(5 / 3) : ℝ)).sum =
      s.r0 ^ (-(5 / 3) : ℝ) * s.strength * s.turbulence.weight.sum := by
  have hmap : a.layers.map (fun l => l.r0 ^ (-(5 / 3) : ℝ)) =
      (a.layers.map Layer.weight).map (s.r0 ^ (-(5 / 3) : ℝ) * s.strength * ·) := by
    rw [List.map_map]
    exact List.map_congr_left fun l hl => (rpow_r0_of_mem hbuild hweight hl).2
  have hlayers : a.layers.map Layer.weight = s.turbulence.weight := by
    obtain ⟨hcheck, -, -, rfl⟩ := AtmosphereSettings.build_eq_ok_iff.1 hbuild
    exact TurbulenceProfile.map_weight_layers
      (TurbulenceProfile.check_eq_ok_iff.1 hcheck) s.r0 s.strength
  rw [hmap, hlayers, List.sum_map_mul_left, List.map_id']

theorem r0_eq_of_build (hbuild : s.build = .ok a) (hweight : ∀ w ∈ s.turbulence.weight, 0 ≤ w)
    (hsum : 0 < s.turbulence.weight.sum) :
    a.r0 = s.r0 * (s.strength * s.turbulence.weight.sum) ^ (-(3 / 5) : ℝ) := by
  obtain ⟨hr0, hstrength⟩ := pos_of_build hbuild
  have hcancel : (s.r0 ^ (-(5 / 3) : ℝ)) ^ (-(3 / 5) : ℝ) = s.r0 := by
    rw [← Real.rpow_mul hr0.le]
    norm_num
  rw [r0_eq, sum_rpow_r0 hbuild hweight, mul_assoc, Real.mul_rpow (by positivity) (by positivity),
    hcancel]

variable [RandomSource ℝ]

/-- The Fried parameter of an atmosphere depends on its layers by the sum of their fractions
only, and layers without turbulence do not count. The fractions of a sampled profile add up
to one, whatever the table, the number of layers and the winds. -/
theorem r0_of_build (hbuild : s.build = .ok a) :
    ((∀ w ∈ s.turbulence.weight, 0 ≤ w) → 0 < s.turbulence.weight.sum →
      a.r0 = s.r0 * (s.strength * s.turbulence.weight.sum) ^ (-(3 / 5) : ℝ) ∧
        { a with layers := a.layers.filter fun l => 0 < l.weight }.r0 = a.r0) ∧
    ∀ (reference : ReferenceProfile ℝ) (count : ℕ) (p : TurbulenceProfile ℝ)
      (maxSpeeds : List ℝ) (state : RandomSource.State ℝ),
      TurbulenceProfile.ofReference reference count = .ok p →
      s.turbulence = (p.randomWinds maxSpeeds state).1 →
      a.r0 = s.r0 * s.strength ^ (-(3 / 5) : ℝ) := by
  constructor
  · intro hweight hsum
    refine ⟨r0_eq_of_build hbuild hweight hsum, ?_⟩
    rw [r0_eq, r0_eq, sum_map_filter]
    intro l hl hnone
    obtain ⟨hnonneg, hadds⟩ := rpow_r0_of_mem hbuild hweight hl
    have hzero : l.weight = 0 := le_antisymm (by simpa using hnone) hnonneg
    rw [hadds, hzero, mul_zero]
  · intro reference count p maxSpeeds state hofReference hturbulence
    obtain ⟨-, hsampled⟩ := TurbulenceProfile.of_ofReference_eq_ok hofReference
    obtain ⟨speeds, directions, hwinds, -⟩ :=
      TurbulenceProfile.fst_randomWinds maxSpeeds hsampled.matched state
    have hweight : s.turbulence.weight = p.weight := by
      rw [hturbulence, hwinds]
    have hsum : s.turbulence.weight.sum = 1 := by
      rw [hweight, hsampled.sum_weight]
    rw [r0_eq_of_build hbuild (hweight ▸ hsampled.weight_nonneg) (by rw [hsum]; exact one_pos),
      hsum, mul_one]

end Build

/-- The settings of an atmosphere with the given layers, all of their turbulence doubled. -/
noncomputable def doubled (p : TurbulenceProfile ℝ) : AtmosphereSettings ℝ where
  r0 := 1
  strength := 2
  turbulence := p
  screenSize := 1
  screenScale := 1 / 2

/-- The layers of a table with turbulence at its upper end: the one at the ground has none,
and the fractions add up to one. -/
theorem r0_of_build_wedge : letI := countingSource
    ∃ (p : TurbulenceProfile ℝ) (a : Atmosphere ℝ),
      TurbulenceProfile.ofReference TurbulenceProfile.wedge 3 = .ok p ∧
      (doubled p).build = .ok a ∧
      a.r0 = (doubled p).r0 * ((doubled p).strength * p.weight.sum) ^ (-(3 / 5) : ℝ) ∧
      a.r0 = (doubled p).r0 * (doubled p).strength ^ (-(3 / 5) : ℝ) := by
  obtain ⟨p, hp⟩ := TurbulenceProfile.exists_ofReference_wedge
  obtain ⟨-, hsampled⟩ := TurbulenceProfile.of_ofReference_eq_ok hp
  obtain ⟨a, hbuild⟩ : ∃ a, (doubled p).build = .ok a := by
    refine ⟨_, AtmosphereSettings.build_eq_ok_iff.2 ⟨?_, ?_, ?_, rfl⟩⟩
    · exact TurbulenceProfile.check_eq_ok_iff.2 hsampled.matched
    · simp [AtmosphereSettings.positives, doubled]
    · simp [doubled]
  obtain ⟨hlayers, hsample⟩ := @r0_of_build (doubled p) a countingSource hbuild
  have hsum : 0 < (doubled p).turbulence.weight.sum := by
    change 0 < p.weight.sum
    rw [hsampled.sum_weight]
    exact one_pos
  exact ⟨p, a, hp, hbuild, (hlayers hsampled.weight_nonneg hsum).1,
    hsample TurbulenceProfile.wedge 3 p [] (0 : ℕ) hp rfl⟩

end Atmosphere

end Seeing
