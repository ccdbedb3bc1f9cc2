import Seeing.Comparison
import Seeing.Proofs.Pupil.Geometry
import Seeing.Proofs.Turbulence.Fried

/-!
# The conditions of a comparison

The long exposure and the second kick of a comparison are made from one choice. Whatever the second
kick is refused for, the long exposure has been refused for before, but for its photons:
`build_kick_eq_error_iff`. The two have the same pupil, wavelength, pixels and nominal Fried
parameter, `Exposure.Matches`.

The turbulence is another matter. The factor that multiplies the turbulence of the layers has no
part in the second kick: `r0_kick_eq_mul`.
-/

namespace Seeing

/-- A long exposure and a second kick through the same pupil, at the same wavelength and nominal
turbulence, and onto the same pixels. -/
structure Exposure.Matches {α : Type} (e : Exposure α) (k : Kick α) : Prop where
  pupil_eq : e.pupil = k.pupil
  wavelength_eq : e.wavelength = k.wavelength
  r0At500_eq : e.r0At500 = k.r0At500
  imageSide_eq : e.imageSide = k.imageSide
  imageScale_eq : e.imageScale = k.imageScale

section Matches

variable {α : Type} [Scalar α] {e : Exposure α} {k : Kick α} (hmatches : e.Matches k)

include hmatches

theorem Exposure.Matches.r0_eq : e.r0 = k.r0 := by
  rw [Exposure.r0, Kick.r0, hmatches.r0At500_eq, hmatches.wavelength_eq]

theorem Exposure.Matches.focalScale_eq :
    e.pupil.focalScale e.wavelength = k.pupil.focalScale k.wavelength := by
  rw [hmatches.pupil_eq, hmatches.wavelength_eq]

theorem Exposure.Matches.size_focalImage (a : Atmosphere α) (cutoff : α) :
    (e.focalImage a).toArray.size = (k.focalImage cutoff).toArray.size := by
  rw [Grid.size_toArray, Grid.size_toArray, hmatches.pupil_eq]

end Matches

namespace ComparisonSettings

section Parts

variable {α : Type} [Scalar α] {s : ComparisonSettings α}

section Kick

variable {turbulence : TurbulenceProfile α} {e : Exposure α}
  (hexposure : (s.exposure (s.atmosphere turbulence)).build = .ok e)

include hexposure

theorem r0_pos_of_build_exposure : 0 < s.r0 := by
  obtain ⟨-, -, -, hatmosphere, -⟩ := ExposureSettings.build_eq_ok_iff.1 hexposure
  obtain ⟨-, hpositive, -⟩ := AtmosphereSettings.build_eq_ok_iff.1 hatmosphere
  exact hpositive (.r0, s.r0) (.head _)

/-- With photons the second kick is built once the long exposure is, and has its pupil. -/
theorem build_kick_eq_ok (hphotons : s.photonCount ≠ 0) :
    s.kick.build = .ok
      { r0At500 := s.r0
        wavelength := s.wavelength
        photonCount := s.photonCount
        imageSide := s.imageSide
        imageScale := s.imageScale
        seed := s.seed + 2
        pupil := e.pupil } := by
  obtain ⟨-, himage, hpupil, -, -⟩ := ExposureSettings.build_eq_ok_iff.1 hexposure
  -- the pupils are chosen alike: the largest sample is that of the screens for both
  exact KickSettings.build_eq_ok_iff.2
    ⟨r0_pos_of_build_exposure hexposure, hphotons, himage, hpupil, rfl⟩

/-- Nothing else than the lack of photons keeps the second kick from being built. -/
theorem build_kick_eq_error_iff {fault : Error α} :
    s.kick.build = .error fault ↔ s.photonCount = 0 ∧ fault = .notPositive .photonCount 0 := by
  by_cases hphotons : s.photonCount = 0
  · have hr0 : 0 < s.kick.r0 := r0_pos_of_build_exposure hexposure
    have hrefused : s.kick.build = .error (.notPositive .photonCount 0) := by
      have hphotons' : s.kick.photonCount = 0 := hphotons
      rw [KickSettings.build]
      simp only [hr0, hphotons', decide_true, Bool.not_true, Bool.false_eq_true, if_false, if_true]
      rfl
    rw [hrefused, Except.error.injEq, and_iff_right hphotons, eq_comm]
  · rw [build_kick_eq_ok hexposure hphotons]
    simp [hphotons]

end Kick

variable [RandomSource α]

/-- The layers are those sampled from the reference profile, with a random wind. -/
theorem turbulence_eq_ok_iff {turbulence : TurbulenceProfile α} :
    s.turbulence = .ok turbulence ↔
      ∃ profile, TurbulenceProfile.ofReference s.reference s.layerCount = .ok profile ∧
        (profile.randomWind s.maxSpeed (RandomSource.ofSeed s.seed)).1 = turbulence := by
  rw [ComparisonSettings.turbulence]
  cases TurbulenceProfile.ofReference s.reference s.layerCount <;> simp

/-- A comparison is built when its cutoffs, its layers and its two methods are. -/
theorem build_eq_ok_iff {c : Comparison α} :
    s.build = .ok c ↔ ∃ turbulence,
      cutoffs s.firstCutoff s.lastCutoff = .ok c.cutoffs ∧ s.turbulence = .ok turbulence ∧
        (s.exposure (s.atmosphere turbulence)).build = .ok c.exposure ∧
        s.kick.build = .ok c.kick ∧
        c =
          { atmosphere := s.atmosphere turbulence
            exposure := c.exposure
            kick := c.kick
            cutoffs := c.cutoffs
            moments := {}
            figure := {}
            figurePath := s.figurePath } := by
  rw [build]
  simp only [bind_eq_ok_iff, Failure.ofExcept_eq_ok_iff, mapError_eq_ok_iff, pure_eq_ok_iff]
  constructor
  · rintro ⟨_, hcutoffs, turbulence, hturbulence, _, hexposure, _, hkick, rfl⟩
    exact ⟨turbulence, hcutoffs, hturbulence, hexposure, hkick, rfl⟩
  · rintro ⟨turbulence, hcutoffs, hturbulence, hexposure, hkick, hc⟩
    exact ⟨_, hcutoffs, turbulence, hturbulence, _, hexposure, _, hkick, hc.symm⟩

/-- The comparison made of its parts. -/
theorem build_of_parts {grid : List α} {turbulence : TurbulenceProfile α} {e : Exposure α}
    {k : Kick α} (hcutoffs : cutoffs s.firstCutoff s.lastCutoff = .ok grid)
    (hturbulence : s.turbulence = .ok turbulence)
    (hexposure : (s.exposure (s.atmosphere turbulence)).build = .ok e)
    (hkick : s.kick.build = .ok k) :
    s.build = .ok
      { atmosphere := s.atmosphere turbulence
        exposure := e
        kick := k
        cutoffs := grid
        moments := {}
        figure := {}
        figurePath := s.figurePath } :=
  build_eq_ok_iff.2 ⟨turbulence, hcutoffs, hturbulence, hexposure, hkick, rfl⟩

/-- The second kick takes its pupil as the long exposure does, and all else from the settings. -/
theorem kick_eq_of_build {c : Comparison α} (hbuild : s.build = .ok c) :
    c.kick =
      { r0At500 := s.r0
        wavelength := s.wavelength
        photonCount := s.photonCount
        imageSide := s.imageSide
        imageScale := s.imageScale
        seed := s.seed + 2
        pupil := c.exposure.pupil } := by
  obtain ⟨turbulence, -, -, hexposure, hkick, -⟩ := build_eq_ok_iff.1 hbuild
  obtain ⟨-, hphotons, -⟩ := KickSettings.build_eq_ok_iff.1 hkick
  rw [build_kick_eq_ok hexposure hphotons] at hkick
  exact (Except.ok.inj hkick).symm

theorem matches_of_build {c : Comparison α} (hbuild : s.build = .ok c) :
    c.exposure.Matches c.kick := by
  obtain ⟨turbulence, -, -, hexposure, -, -⟩ := build_eq_ok_iff.1 hbuild
  obtain ⟨-, -, -, -, he⟩ := ExposureSettings.build_eq_ok_iff.1 hexposure
  rw [kick_eq_of_build hbuild]
  exact ⟨rfl, by rw [he]; rfl, by rw [he]; rfl, by rw [he]; rfl, by rw [he]; rfl⟩

end Parts

section Strength

variable [RandomSource ℝ] {s : ComparisonSettings ℝ} {c : Comparison ℝ}

/-- The fractions of the layers add up to one, whatever the winds. -/
theorem layers_turbulence {turbulence : TurbulenceProfile ℝ}
    (hturbulence : s.turbulence = .ok turbulence) :
    turbulence.Matched ∧ (∀ w ∈ turbulence.weight, 0 ≤ w) ∧ turbulence.weight.sum = 1 := by
  obtain ⟨profile, hprofile, rfl⟩ := turbulence_eq_ok_iff.1 hturbulence
  obtain ⟨-, hsampled⟩ := TurbulenceProfile.of_ofReference_eq_ok hprofile
  obtain ⟨speeds, directions, hspeeds, hdirections, hwind⟩ :=
    TurbulenceProfile.fst_randomWind s.maxSpeed profile (RandomSource.ofSeed s.seed)
  rw [hwind]
  exact ⟨⟨hsampled.matched.altitude, hsampled.matched.weight, hspeeds, hdirections⟩,
    hsampled.weight_nonneg, hsampled.sum_weight⟩

theorem layerCount_turbulence {turbulence : TurbulenceProfile ℝ}
    (hturbulence : s.turbulence = .ok turbulence) :
    turbulence.layerCount = s.layerCount ∧ 2 ≤ s.layerCount := by
  obtain ⟨profile, hprofile, rfl⟩ := turbulence_eq_ok_iff.1 hturbulence
  obtain ⟨⟨-, -, hcount, -⟩, hsampled⟩ := TurbulenceProfile.of_ofReference_eq_ok hprofile
  obtain ⟨speeds, directions, -, -, hwind⟩ :=
    TurbulenceProfile.fst_randomWind s.maxSpeed profile (RandomSource.ofSeed s.seed)
  rw [hwind]
  exact ⟨hsampled.layerCount_eq, hcount⟩

/-- The factor that multiplies the turbulence changes the Fried parameter of the layers. -/
theorem r0_atmosphere_of_build (hbuild : s.build = .ok c) :
    c.exposure.atmosphere.r0 = s.r0 * s.strength ^ (-(3 / 5) : ℝ) := by
  obtain ⟨turbulence, -, hturbulence, hexposure, -, -⟩ := build_eq_ok_iff.1 hbuild
  obtain ⟨-, -, -, hatmosphere, -⟩ := ExposureSettings.build_eq_ok_iff.1 hexposure
  obtain ⟨-, hnonneg, hsum⟩ := layers_turbulence hturbulence
  have hr0 : c.exposure.atmosphere.r0 =
      s.r0 * (s.strength * turbulence.weight.sum) ^ (-(3 / 5) : ℝ) :=
    Atmosphere.r0_eq_of_build hatmosphere hnonneg (hsum ▸ one_pos)
  rwa [hsum, mul_one] at hr0

theorem pos_of_build (hbuild : s.build = .ok c) :
    0 < s.r0 ∧ 0 < s.strength ∧ 0 < s.wavelength := by
  obtain ⟨turbulence, -, -, hexposure, -, -⟩ := build_eq_ok_iff.1 hbuild
  obtain ⟨-, -, hpupil, hatmosphere, -⟩ := ExposureSettings.build_eq_ok_iff.1 hexposure
  obtain ⟨hr0, hstrength⟩ := Atmosphere.pos_of_build hatmosphere
  obtain ⟨-, hwavelength, -⟩ := PupilSettings.pos_of_build hpupil
  exact ⟨hr0, hstrength, hwavelength⟩

/-- The second kick has the Fried parameter of turbulence that is not multiplied. -/
theorem r0_kick_eq_mul (hbuild : s.build = .ok c) :
    c.kick.r0 =
      friedAt c.exposure.atmosphere.r0 c.kick.wavelength * s.strength ^ (3 / 5 : ℝ) := by
  obtain ⟨-, hstrength, -⟩ := pos_of_build hbuild
  have hr0 : c.kick.r0At500 = s.r0 := congrArg Kick.r0At500 (kick_eq_of_build hbuild)
  have hcancel : s.strength ^ (-(3 / 5) : ℝ) * s.strength ^ (3 / 5 : ℝ) = 1 := by
    rw [← Real.rpow_add hstrength, neg_add_cancel, Real.rpow_zero]
  rw [r0_atmosphere_of_build hbuild, friedAt_mul, mul_assoc, hcancel, mul_one, Kick.r0, hr0]

theorem friedAt_r0_pos (hbuild : s.build = .ok c) :
    0 < friedAt c.exposure.atmosphere.r0 c.kick.wavelength := by
  obtain ⟨hr0, hstrength, hwavelength⟩ := pos_of_build hbuild
  have hwavelength' : c.kick.wavelength = s.wavelength :=
    congrArg Kick.wavelength (kick_eq_of_build hbuild)
  rw [r0_atmosphere_of_build hbuild, hwavelength']
  exact friedAt_pos (by positivity) hwavelength

theorem r0_kick_eq_iff (hbuild : s.build = .ok c) :
    c.kick.r0 = friedAt c.exposure.atmosphere.r0 c.kick.wavelength ↔ s.strength = 1 := by
  obtain ⟨-, hstrength, -⟩ := pos_of_build hbuild
  have hone : s.strength ^ (3 / 5 : ℝ) = 1 ↔ s.strength = 1 := by
    simpa using Real.rpow_left_inj hstrength.le zero_le_one (by norm_num : (3 / 5 : ℝ) ≠ 0)
  rw [← hone, r0_kick_eq_mul hbuild, mul_eq_left₀ (friedAt_r0_pos hbuild).ne']

end Strength

section Coarse

/-- The settings of a comparison through a coarse pupil and three layers, whose turbulence is
multiplied. -/
noncomputable def coarse (strength screenSize : ℝ) : ComparisonSettings ℝ where
  r0 := 1
  strength := strength
  layerCount := 3
  reference := TurbulenceProfile.wedge
  timeStep := 1
  exposureTime := 2
  screenSize := screenSize
  screenScale := 1 / 2
  firstCutoff := 1
  lastCutoff := 1
  photonCount := 1
  wavelength := 10 ^ 9
  diameter := 1
  obscuration := 0
  imageSide := 1
  imageScale := 1

variable {strength screenSize : ℝ}

theorem forImage_kick_coarse :
    (coarse strength screenSize).kick.pupil.forImage (coarse strength screenSize).kick.imageSide
      (coarse strength screenSize).kick.imageScale = .coarse := by
  simp [PupilSettings.forImage, kick, pupil, coarse, PupilSettings.coarse]

theorem build_exposure_coarse (hstrength : 0 < strength) (hsize : 1 ≤ screenSize)
    {turbulence : TurbulenceProfile ℝ} (hmatched : turbulence.Matched) :
    ∃ e, ((coarse strength screenSize).exposure
      ((coarse strength screenSize).atmosphere turbulence)).build = .ok e := by
  have hpupil : ((coarse strength screenSize).exposure
      ((coarse strength screenSize).atmosphere turbulence)).pupilSettings = .coarse := by
    simp [ExposureSettings.pupilSettings, PupilSettings.forImage, exposure, atmosphere, pupil,
      coarse, PupilSettings.coarse]
  obtain ⟨a, ha⟩ : ∃ a, ((coarse strength screenSize).atmosphere turbulence).build = .ok a := by
    refine ⟨_, AtmosphereSettings.build_eq_ok_iff.2 ⟨?_, ?_, ?_, rfl⟩⟩
    · exact TurbulenceProfile.check_eq_ok_iff.2 hmatched
    · simp [AtmosphereSettings.positives, atmosphere, coarse, hstrength]
    · simp [atmosphere, coarse, hsize]
  refine ⟨_, ExposureSettings.build_of_parts ?_ ?_ (hpupil ▸ PupilSettings.build_coarse) ha⟩
  · simp [ExposureSettings.positives, exposure, coarse]
  · simp [Image.blank, exposure, coarse]

theorem exists_build_coarse [RandomSource ℝ] (hstrength : 0 < strength)
    (hsize : 1 ≤ screenSize) : ∃ c, (coarse strength screenSize).build = .ok c := by
  obtain ⟨turbulence, hturbulence⟩ :
      ∃ turbulence, (coarse strength screenSize).turbulence = .ok turbulence := by
    obtain ⟨profile, hprofile⟩ := TurbulenceProfile.exists_ofReference_wedge
    exact ⟨_, turbulence_eq_ok_iff.2 ⟨profile, hprofile, rfl⟩⟩
  obtain ⟨hmatched, -⟩ := layers_turbulence hturbulence
  obtain ⟨e, he⟩ := build_exposure_coarse hstrength hsize hmatched
  obtain ⟨grid, hgrid⟩ : ∃ grid, cutoffs (1 : ℝ) 1 = .ok grid := ⟨_, if_pos (by simp)⟩
  exact ⟨_, build_of_parts hgrid hturbulence he (build_kick_eq_ok he one_ne_zero)⟩

end Coarse

section Main

/-- Once the long exposure of a comparison is built, it is only the lack of photons that keeps the
second kick from being built. The two methods see the same pupil and the same samples of it, and
draw onto the same pixels at the same wavelength. At every cutoff they leave out the same
wavenumbers, and their focal grids have the same size and the same scale. -/
theorem kick_matches_exposure {α : Type} [Scalar α] [RandomSource α]
    (s : ComparisonSettings α) :
    (∀ turbulence e, (s.exposure (s.atmosphere turbulence)).build = .ok e →
      ((∃ fault, s.kick.build = .error fault) ↔ s.photonCount = 0) ∧
        ∀ fault, s.kick.build = .error fault → fault = .notPositive .photonCount 0) ∧
    ∀ c, s.build = .ok c →
      c.exposure.Matches c.kick ∧ c.exposure.pupil.samples = c.kick.pupil.samples ∧
        c.exposure.r0 = c.kick.r0 ∧
        (∀ cutoff, c.exposure.instantiate? cutoff =
          c.exposure.atmosphere.instantiate? (cutoff / c.kick.r0)) ∧
        c.exposure.pupil.focalScale c.exposure.wavelength =
          c.kick.pupil.focalScale c.kick.wavelength ∧
        ∀ a cutoff, (c.exposure.focalImage a).toArray.size =
          (c.kick.focalImage cutoff).toArray.size := by
  constructor
  · intro turbulence e hexposure
    simp only [build_kick_eq_error_iff hexposure]
    exact ⟨⟨fun ⟨_, hphotons, _⟩ => hphotons, fun hphotons => ⟨_, hphotons, rfl⟩⟩,
      fun _ hfault => hfault.2⟩
  · intro c hbuild
    have hmatches := matches_of_build hbuild
    refine ⟨hmatches, by rw [hmatches.pupil_eq], hmatches.r0_eq, ?_, hmatches.focalScale_eq,
      hmatches.size_focalImage⟩
    intro cutoff
    rw [Exposure.instantiate?, hmatches.r0_eq]

/-- The two methods of a comparison with doubled turbulence, and the lack of a second kick without
photons. -/
theorem kick_matches_exposure_coarse : letI := countingSource
    ∃ c : Comparison ℝ, (coarse 2 1).build = .ok c ∧ c.exposure.Matches c.kick ∧
      c.exposure.r0 = c.kick.r0 ∧
      ∃ fault, { coarse 2 1 with photonCount := 0 }.kick.build = .error fault := by
  let _ := countingSource
  obtain ⟨c, hc⟩ := exists_build_coarse two_pos le_rfl
  obtain ⟨turbulence, -, -, hexposure, -⟩ := build_eq_ok_iff.1 hc
  obtain ⟨-, hbuilt⟩ := kick_matches_exposure (coarse 2 1)
  obtain ⟨hrefused, -⟩ := kick_matches_exposure { coarse 2 1 with photonCount := 0 }
  obtain ⟨hmatches, -, hr0, -⟩ := hbuilt c hc
  exact ⟨c, hc, hmatches, hr0, (hrefused turbulence c.exposure hexposure).1.2 rfl⟩

/-- The two methods of a comparison look through the same turbulence if and only if no factor
multiplies it: the layers get `s.strength` times the turbulence that the second kick has. -/
theorem r0_kick_of_build [RandomSource ℝ] {s : ComparisonSettings ℝ} {c : Comparison ℝ}
    (hbuild : s.build = .ok c) :
    c.kick.r0 = friedAt c.exposure.atmosphere.r0 c.kick.wavelength * s.strength ^ (3 / 5 : ℝ) ∧
      (c.kick.r0 = friedAt c.exposure.atmosphere.r0 c.kick.wavelength ↔ s.strength = 1) :=
  ⟨r0_kick_eq_mul hbuild, r0_kick_eq_iff hbuild⟩

/-- Without a factor the two methods have one Fried parameter. -/
theorem r0_kick_of_build_coarse : letI := countingSource
    ∃ c : Comparison ℝ, (coarse 1 1).build = .ok c ∧
      c.kick.r0 = friedAt c.exposure.atmosphere.r0 c.kick.wavelength := by
  let _ := countingSource
  obtain ⟨c, hc⟩ := exists_build_coarse one_pos le_rfl
  exact ⟨c, hc, (r0_kick_of_build hc).2.2 rfl⟩

/-- The turbulence of the layers is doubled, and that of the second kick is not. -/
theorem exists_r0_kick_ne : letI := countingSource
    ∃ c : Comparison ℝ, (coarse 2 1).build = .ok c ∧
      c.kick.r0 ≠ friedAt c.exposure.atmosphere.r0 c.kick.wavelength := by
  let _ := countingSource
  obtain ⟨c, hc⟩ := exists_build_coarse two_pos le_rfl
  refine ⟨c, hc, ?_⟩
  rw [Ne, r0_kick_eq_iff hc]
  norm_num [coarse]

end Main

end ComparisonSettings

end Seeing
