import Seeing.Exposure
import Seeing.Proofs.Checks

/-!
# What a built simulation has passed

The settings of a long exposure and of a second kick are checked in several places
before there is something to run. The lemmas here say what all of these checks come to.
-/

namespace Seeing

variable {α : Type} [Scalar α]

/-- An atmosphere is built from a matching profile, positive strengths, and screens of at
least two pixels. -/
theorem AtmosphereSettings.build_eq_ok_iff {s : AtmosphereSettings α} {a : Atmosphere α} :
    s.build = .ok a ↔
      s.turbulence.check = .ok () ∧ (∀ x ∈ s.positives, 0 < x.2) ∧
        (0 < s.screenScale ∧ 2 * s.screenScale ≤ s.screenSize) ∧
        a =
          { outerScale := s.outerScale
            screenSize := s.screenSize
            screenScale := s.screenScale
            seed := s.seed
            layers := s.layers
            screens := [] } := by
  rw [← find?_not_positive_eq_none_iff, build]
  cases hcheck : s.turbulence.check with
  | error f => simp
  | ok u =>
      obtain ⟨x, hfind⟩ | hfind := find?_not_positive_eq_some_or_none s.positives
      · rw [hfind]
        simp
      · rw [hfind]
        by_cases hscreen : 0 < s.screenScale ∧ 2 * s.screenScale ≤ s.screenSize
        · simp [hscreen, eq_comm]
        · simp [hscreen]

/-- A long exposure is built when every part of it can be. -/
theorem ExposureSettings.build_eq_ok_iff {s : ExposureSettings α} {e : Exposure α} :
    s.build = .ok e ↔
      (∀ x ∈ s.positives, 0 < x.2) ∧
        (∃ image, Image.blank s.imageSide s.imageSide s.imageScale = .ok image) ∧
        s.pupilSettings.build = .ok e.pupil ∧ s.atmosphere.build = .ok e.atmosphere ∧
        e =
          { atmosphere := e.atmosphere
            r0At500 := s.atmosphere.r0
            wavelength := s.pupil.wavelength
            stepCount := s.stepCount
            timeStep := s.timeStep
            imageSide := s.imageSide
            imageScale := s.imageScale
            pupil := e.pupil } := by
  rw [← find?_not_positive_eq_none_iff, build]
  obtain ⟨x, hfind⟩ | hfind := find?_not_positive_eq_some_or_none s.positives
  · simp only [hfind, bind_eq_ok_iff, throw_eq_ok_iff, false_and, exists_false, reduceCtorEq]
  · simp only [hfind, bind_eq_ok_iff, mapError_eq_ok_iff, pure_eq_ok_iff, true_and]
    constructor
    · rintro ⟨image, himage, pupil, hpupil, a, ha, rfl⟩
      exact ⟨⟨image, himage⟩, hpupil, ha, rfl⟩
    · rintro ⟨⟨image, himage⟩, hpupil, ha, he⟩
      exact ⟨image, himage, e.pupil, hpupil, e.atmosphere, ha, he.symm⟩

/-- The long exposure made of its parts. -/
theorem ExposureSettings.build_of_parts {s : ExposureSettings α} {p : Pupil α}
    {a : Atmosphere α} (hpositive : ∀ x ∈ s.positives, 0 < x.2)
    (himage : ∃ image, Image.blank s.imageSide s.imageSide s.imageScale = .ok image)
    (hpupil : s.pupilSettings.build = .ok p) (hatmosphere : s.atmosphere.build = .ok a) :
    s.build = .ok
      { atmosphere := a
        r0At500 := s.atmosphere.r0
        wavelength := s.pupil.wavelength
        stepCount := s.stepCount
        timeStep := s.timeStep
        imageSide := s.imageSide
        imageScale := s.imageScale
        pupil := p } :=
  build_eq_ok_iff.2 ⟨hpositive, himage, hpupil, hatmosphere, rfl⟩

/-- A second kick is built when every part of it can be. -/
theorem KickSettings.build_eq_ok_iff {s : KickSettings α} {k : Kick α} :
    s.build = .ok k ↔
      0 < s.r0 ∧ s.photonCount ≠ 0 ∧
        (∃ image, Image.blank s.imageSide s.imageSide s.imageScale = .ok image) ∧
        (s.pupil.forImage s.imageSide s.imageScale).build = .ok k.pupil ∧
        k =
          { r0At500 := s.r0
            wavelength := s.pupil.wavelength
            photonCount := s.photonCount
            imageSide := s.imageSide
            imageScale := s.imageScale
            seed := s.seed
            pupil := k.pupil } := by
  rw [build]
  by_cases hr0 : 0 < s.r0
  · by_cases hphotons : s.photonCount = 0
    · simp only [hr0, hphotons, decide_true, Bool.not_true, Bool.false_eq_true, if_false,
        if_true, bind_eq_ok_iff, throw_eq_ok_iff, false_and, exists_false, ne_eq,
        not_true_eq_false, and_false]
    · simp only [hr0, hphotons, decide_true, Bool.not_true, Bool.false_eq_true, if_false,
        bind_eq_ok_iff, mapError_eq_ok_iff, pure_eq_ok_iff, true_and, ne_eq,
        not_false_eq_true]
      constructor
      · rintro ⟨image, himage, pupil, hpupil, rfl⟩
        exact ⟨⟨image, himage⟩, hpupil, rfl⟩
      · rintro ⟨⟨image, himage⟩, hpupil, hk⟩
        exact ⟨image, himage, k.pupil, hpupil, hk.symm⟩
  · simp only [hr0, decide_false, Bool.not_false, if_true, bind_eq_ok_iff, throw_eq_ok_iff,
      false_and, exists_false]

end Seeing
