import Seeing.Kick
import Seeing.Proofs.Fourier.Centre
import Seeing.Proofs.Fourier.Energy
import Seeing.Proofs.Fourier.Square
import Seeing.Proofs.Pupil
import Seeing.Proofs.Settings

/-!
# The peak of a second kick

The transfer function of a pupil counts the pairs of its samples that lie so many cells
apart, `toComplex_pupilTransfer`, and turbulence attenuates it by a positive factor at
every lag. The product has no negative value, so its transform is largest at the first
cell, where it is the sum of all values. What the transform makes negative elsewhere is
zero in the image, which leaves that cell the largest one and keeps the flux positive.
-/

open Complex ComplexConjugate

namespace Seeing

namespace Kick

variable (k : Kick ℝ)

/-- One on the samples of the pupil and zero elsewhere. -/
noncomputable def aperture (i j : Fin k.pupil.side) : ℝ :=
  if k.pupil.mask.get i j then 1 else 0

theorem aperture_nonneg (i j : Fin k.pupil.side) : 0 ≤ k.aperture i j := by
  rw [aperture]
  split_ifs <;> norm_num

theorem toComplex_pupilField :
    k.pupilField.toComplex = fun i j => (k.aperture i j : ℂ) := by
  funext i j
  rw [Grid.toComplex, pupilField, Grid.get_map, Amplitude.toComplex_ofReal, aperture]
  split_ifs <;> simp

/-- The number of pairs of samples of the pupil that lie so many columns and rows apart,
counted around the edges. -/
noncomputable def overlap (a b : Fin k.pupil.side) : ℝ :=
  ∑ q, ∑ p, k.aperture (p + a) (q + b) * k.aperture p q

theorem overlap_nonneg (a b : Fin k.pupil.side) : 0 ≤ k.overlap a b := by
  apply Finset.sum_nonneg
  intro q _
  apply Finset.sum_nonneg
  intro p _
  exact mul_nonneg (k.aperture_nonneg _ _) (k.aperture_nonneg _ _)

/-- The values of the transfer function with the turbulence above the cutoff. -/
noncomputable def attenuated (cutoff : ℝ) (a b : Fin k.pupil.side) : ℝ :=
  Real.exp (-(1 / 2) * (k.structureGrid cutoff).get a b) *
    (k.pupil.side ^ 2 * k.overlap a b)

theorem attenuated_nonneg (cutoff : ℝ) (a b : Fin k.pupil.side) :
    0 ≤ k.attenuated cutoff a b := by
  have hoverlap := k.overlap_nonneg a b
  rw [attenuated]
  positivity

section Transfer

variable [NeZero k.pupil.side]

theorem overlap_zero : k.overlap 0 0 = k.pupil.samples.size := by
  rw [overlap, Pupil.size_samples_eq_sum]
  push_cast
  apply Finset.sum_congr rfl
  intro q _
  apply Finset.sum_congr rfl
  intro p _
  rw [add_zero, add_zero, aperture]
  split_ifs <;> norm_num

/-- The transfer function of the pupil is real and counts the pairs of samples. -/
theorem toComplex_pupilTransfer (a b : Fin k.pupil.side) :
    k.pupilTransfer.toComplex a b = (k.pupil.side ^ 2 * k.overlap a b : ℝ) := by
  have hsquare : ((k.pupilField.transform .forward).map fun z => .ofReal z.normSq).toComplex =
      fun i j => Direction.forward.doubleSum (fun p q => (k.aperture p q : ℂ)) i j *
        conj (Direction.forward.doubleSum (fun p q => (k.aperture p q : ℂ)) i j) := by
    funext i j
    rw [Grid.toComplex, Grid.get_map, Amplitude.toComplex_ofReal,
      Amplitude.normSq_eq_sq_norm, mul_conj, normSq_eq_norm_sq, ← toComplex_pupilField,
      ← Grid.toComplex_transform]
    rfl
  rw [pupilTransfer, Grid.toComplex_transform, hsquare]
  refine (Direction.doubleSum_opposite_normSq .forward _ a b).trans ?_
  simp only [conj_ofReal, overlap]
  push_cast
  rfl

theorem toComplex_transfer (cutoff : ℝ) :
    (k.transfer cutoff).toComplex = fun a b => (k.attenuated cutoff a b : ℂ) := by
  funext a b
  simp only [Grid.toComplex, transfer, Grid.get_ofFn, Amplitude.toComplex_scale]
  have htelescope := k.toComplex_pupilTransfer a b
  rw [Grid.toComplex] at htelescope
  rw [htelescope, attenuated]
  simp

theorem sum_attenuated_pos (hsamples : 0 < k.pupil.samples.size) (cutoff : ℝ) :
    0 < ∑ b, ∑ a, k.attenuated cutoff a b := by
  have hside : 0 < k.pupil.side := Nat.pos_of_neZero _
  have hzero : 0 < k.attenuated cutoff 0 0 := by
    rw [attenuated, overlap_zero]
    positivity
  calc
    0 < k.attenuated cutoff 0 0 := hzero
    _ ≤ ∑ b, ∑ a, k.attenuated cutoff a b :=
        le_sum_sum_of_nonneg (k.attenuated_nonneg cutoff) 0 0

theorem get_rawImage (cutoff : ℝ) (i j : Fin k.pupil.side) :
    (k.rawImage cutoff).get i j = max
      (Direction.forward.doubleSum (fun a b => (k.attenuated cutoff a b : ℂ)) i j).re 0 := by
  rw [rawImage, Grid.get_map, Scalar.larger_eq_max, ← toComplex_transfer,
    ← Grid.toComplex_transform]
  simp [Grid.toComplex]

theorem get_rawImage_zero (cutoff : ℝ) :
    (k.rawImage cutoff).get 0 0 = ∑ b, ∑ a, k.attenuated cutoff a b := by
  have hsum : 0 ≤ ∑ b, ∑ a, k.attenuated cutoff a b :=
    (k.attenuated_nonneg cutoff 0 0).trans
      (le_sum_sum_of_nonneg (k.attenuated_nonneg cutoff) 0 0)
  rw [get_rawImage, Direction.doubleSum_zero]
  simpa only [re_sum, ofReal_re] using max_eq_left hsum

theorem rawImage_nonneg (cutoff : ℝ) (i j : Fin k.pupil.side) :
    0 ≤ (k.rawImage cutoff).get i j := by
  rw [get_rawImage]
  exact le_max_right _ _

/-- The first cell is the largest one. -/
theorem get_rawImage_le (cutoff : ℝ) (i j : Fin k.pupil.side) :
    (k.rawImage cutoff).get i j ≤ (k.rawImage cutoff).get 0 0 := by
  rw [get_rawImage_zero, get_rawImage]
  apply max_le
  · exact Direction.re_doubleSum_le_sum .forward (k.attenuated_nonneg cutoff) i j
  · rw [← get_rawImage_zero]
    exact k.rawImage_nonneg cutoff 0 0

theorem sumArray_rawImage_pos (hsamples : 0 < k.pupil.samples.size) (cutoff : ℝ) :
    0 < Scalar.sumArray (k.rawImage cutoff).toArray := by
  have hfirst : 0 < (k.rawImage cutoff).get 0 0 := by
    rw [get_rawImage_zero]
    exact k.sum_attenuated_pos hsamples cutoff
  rw [Grid.sumArray_toArray]
  calc
    0 < (k.rawImage cutoff).get 0 0 := hfirst
    _ ≤ ∑ j, ∑ i, (k.rawImage cutoff).get i j :=
        le_sum_sum_of_nonneg (k.rawImage_nonneg cutoff) 0 0

end Transfer

/-- The image by a second kick has a positive flux before it is normalised, whatever the
cutoff; it is nowhere negative, has a flux of one, and is largest in the middle. The
pupil is one that was built; the Fried parameter and the wavelength may have changed
since. -/
theorem focalImage_peak {settings : KickSettings ℝ} {built : Kick ℝ}
    (hbuilt : settings.build = .ok built) (hpupil : k.pupil = built.pupil) (cutoff : ℝ) :
    0 < Scalar.sumArray (k.rawImage cutoff).toArray ∧
      (∀ i j, 0 ≤ (k.focalImage cutoff).get i j) ∧
      Scalar.sumArray (k.focalImage cutoff).toArray = 1 ∧
      ∃ hmiddle : k.pupil.side / 2 < k.pupil.side, ∀ i j, (k.focalImage cutoff).get i j ≤
        (k.focalImage cutoff).get ⟨k.pupil.side / 2, hmiddle⟩ ⟨k.pupil.side / 2, hmiddle⟩ := by
  have hsamples : 0 < k.pupil.samples.size := by
    obtain ⟨-, -, -, hbuild, -⟩ := KickSettings.build_eq_ok_iff.1 hbuilt
    rw [hpupil]
    exact PupilSettings.samples_pos hbuild
  have hside : 0 < k.pupil.side := k.pupil.side_pos hsamples
  have : NeZero k.pupil.side := ⟨hside.ne'⟩
  have hflux : 0 < Scalar.sumArray (k.rawImage cutoff).toArray :=
    k.sumArray_rawImage_pos hsamples cutoff
  have hfocal : ∀ i j, (k.focalImage cutoff).get i j =
      (k.rawImage cutoff).get (i - Grid.middle _) (j - Grid.middle _) /
        Scalar.sumArray (k.rawImage cutoff).toArray :=
    Grid.get_recentre_div (k.rawImage cutoff) _
  refine ⟨hflux, ?_, Grid.sumArray_recentre_div _ hflux, (Grid.middle _).isLt, ?_⟩
  · intro i j
    rw [hfocal]
    exact div_nonneg (k.rawImage_nonneg cutoff _ _) hflux.le
  · intro i j
    have hpeak : (k.focalImage cutoff).get i j ≤
        (k.focalImage cutoff).get (Grid.middle _) (Grid.middle _) := by
      rw [hfocal, hfocal, sub_self]
      exact div_le_div_of_nonneg_right (k.get_rawImage_le cutoff _ _) hflux.le
    exact hpeak

end Kick

namespace KickSettings

/-- The settings of a second kick through a coarse pupil. -/
noncomputable def coarse : KickSettings ℝ where
  r0 := 1
  pupil := .coarse
  photonCount := 1
  imageSide := 1
  imageScale := 1

theorem forImage_coarse :
    coarse.pupil.forImage coarse.imageSide coarse.imageScale = .coarse := by
  simp [PupilSettings.forImage, coarse, PupilSettings.coarse]

theorem build_coarse : ∃ k, coarse.build = .ok k := by
  let k : Kick ℝ :=
    { r0At500 := coarse.r0
      wavelength := coarse.pupil.wavelength
      photonCount := coarse.photonCount
      imageSide := coarse.imageSide
      imageScale := coarse.imageScale
      seed := coarse.seed
      pupil := PupilSettings.coarse.sampled }
  refine ⟨k, build_eq_ok_iff.2 ⟨?_, ?_, ?_, ?_, rfl⟩⟩
  · simp [coarse]
  · simp [coarse]
  · simp [Image.blank, coarse]
  · rw [forImage_coarse]
    exact PupilSettings.build_coarse

theorem side_coarse {k : Kick ℝ} (hk : coarse.build = .ok k) : k.pupil.side = 4 := by
  obtain ⟨-, -, -, hbuild, -⟩ := build_eq_ok_iff.1 hk
  rw [forImage_coarse] at hbuild
  exact PupilSettings.side_of_build_coarse hbuild

end KickSettings

namespace Kick

/-- The peak of the second kick through the coarse pupil, for a cutoff of one. -/
theorem focalImage_peak_coarse : ∃ k : Kick ℝ, KickSettings.coarse.build = .ok k ∧
    0 < Scalar.sumArray (k.rawImage 1).toArray ∧
      (∀ i j, 0 ≤ (k.focalImage 1).get i j) ∧
      Scalar.sumArray (k.focalImage 1).toArray = 1 ∧
      ∃ hmiddle : k.pupil.side / 2 < k.pupil.side, ∀ i j, (k.focalImage 1).get i j ≤
        (k.focalImage 1).get ⟨k.pupil.side / 2, hmiddle⟩ ⟨k.pupil.side / 2, hmiddle⟩ := by
  obtain ⟨k, hk⟩ := KickSettings.build_coarse
  exact ⟨k, hk, focalImage_peak k hk rfl 1⟩

end Kick

end Seeing
