import Seeing.Proofs.Fourier.Centre
import Seeing.Proofs.Fourier.Energy
import Seeing.Proofs.Fourier.Square
import Seeing.Proofs.Pupil
import Seeing.Proofs.Settings

/-!
# The flux of a long exposure

At every time step the light in the pupil is written into the storage of the step
before. What it leaves there does not depend on what was there, `illuminate_samples`,
so the sum after any number of steps is that of the squared moduli of the transforms
of the fields at these steps, `get_total_expose`.

A field has modulus one on every sample of the pupil. By the energy of its transform
every step adds the same flux, and a long exposure is the mean of the images of its
steps, each with a flux of one.
-/

open Complex

namespace Seeing

namespace Exposure

section Storage

variable {α : Type} [Scalar α] (e : Exposure α) (a : Atmosphere α)

/-- The light in the square of the pupil at a time. -/
def pupilField (t : α) : Grid e.pupil.side e.pupil.side (Amplitude α) :=
  .ofFn fun i j => if e.pupil.mask.get i j then e.light a t (e.pupil.sample i j) else .zero

/-- Whatever the storage held, it holds the light in the pupil afterwards. -/
theorem illuminate_samples (t : α)
    (field : Grid e.pupil.side e.pupil.side (Amplitude α)) :
    e.illuminate a e.pupil.samples t field = e.pupilField a t := by
  apply Grid.ext_get
  intro i j
  rw [illuminate, ← Array.foldl_toList, pupilField, Grid.get_ofFn]
  split_ifs with hij
  · apply Grid.get_foldl_setAt_of_mem PupilSample.index (e.light a t)
    · intro s hs hplace
      obtain ⟨i', j', -, rfl⟩ := (e.pupil.mem_samples).1 (Array.mem_toList_iff.1 hs)
      obtain ⟨rfl, rfl⟩ := Grid.index_inj hplace
      rfl
    · exact ⟨e.pupil.sample i j,
        Array.mem_toList_iff.2 (e.pupil.mem_samples.2 ⟨i, j, hij, rfl⟩), rfl⟩
  · rw [Grid.get_foldl_setAt_of_ne PupilSample.index (e.light a t), Grid.get_map]
    intro s hs hplace
    obtain ⟨i', j', hij', rfl⟩ := (e.pupil.mem_samples).1 (Array.mem_toList_iff.1 hs)
    obtain ⟨rfl, rfl⟩ := Grid.index_inj hplace
    exact hij hij'

theorem expose_succ (count : ℕ) :
    e.expose a (count + 1) = e.accumulate a e.pupil.samples
      (Scalar.ofNat count * e.timeStep) (e.expose a count) := by
  simp only [expose, Nat.fold_succ]

/-- One more time step adds the squared modulus of the transform of its field. -/
theorem get_total_expose_succ (count : ℕ) (i j : Fin e.pupil.side) :
    (e.expose a (count + 1)).total.get i j =
      (e.expose a count).total.get i j +
        (((e.pupilField a (Scalar.ofNat count * e.timeStep)).transform .forward).get
          i j).normSq := by
  rw [expose_succ, accumulate, illuminate_samples, Grid.get_zipWith]

end Storage

variable (e : Exposure ℝ) (a : Atmosphere ℝ)

/-- The light in the square of the pupil at a time: of modulus one, with the phase of the
atmosphere, on the samples of the pupil, and none elsewhere. -/
noncomputable def pupilLight (t : ℝ) (i j : Fin e.pupil.side) : ℂ :=
  if e.pupil.mask.get i j then
    exp (a.phase (e.pupil.coordinate i) (e.pupil.coordinate j) t e.wavelength * I)
  else 0

/-- The image at a time, on the focal grid of the pupil and with a flux of one, with its
centre at the first cell. -/
noncomputable def unitImage (t : ℝ) : Grid e.pupil.side e.pupil.side ℝ :=
  .ofFn fun i j => ‖Direction.forward.doubleSum (e.pupilLight a t) i j‖ ^ 2 /
    (e.pupil.side ^ 2 * e.pupil.samples.size)

theorem unitImage_nonneg (t : ℝ) (i j : Fin e.pupil.side) : 0 ≤ (e.unitImage a t).get i j := by
  rw [unitImage, Grid.get_ofFn]
  positivity

theorem toComplex_pupilField (t : ℝ) :
    (e.pupilField a t).toComplex = e.pupilLight a t := by
  funext i j
  rw [Grid.toComplex, pupilField, Grid.get_ofFn, pupilLight]
  split_ifs
  · simp [light, Pupil.sample]
  · simp

/-- The sum of the images of the time steps so far. -/
theorem get_total_expose (count : ℕ) (i j : Fin e.pupil.side) :
    (e.expose a count).total.get i j = ∑ k ∈ Finset.range count,
      ‖Direction.forward.doubleSum (e.pupilLight a (k * e.timeStep)) i j‖ ^ 2 := by
  induction count with
  | zero => simp [expose, Buffers.blank]
  | succ count ih =>
      rw [get_total_expose_succ, ih, Finset.sum_range_succ, Amplitude.normSq_eq_sq_norm,
        ← toComplex_pupilField, ← Grid.toComplex_transform]
      rfl

theorem sq_norm_pupilLight (t : ℝ) (i j : Fin e.pupil.side) :
    ‖e.pupilLight a t i j‖ ^ 2 = if e.pupil.mask.get i j then 1 else 0 := by
  rw [pupilLight]
  split_ifs
  · rw [norm_exp_ofReal_mul_I, one_pow]
  · simp

section Flux

variable [NeZero e.pupil.side]

/-- Every time step adds the same flux. -/
theorem sum_sq_norm_doubleSum_pupilLight (t : ℝ) :
    ∑ j, ∑ i, ‖Direction.forward.doubleSum (e.pupilLight a t) i j‖ ^ 2 =
      e.pupil.side ^ 2 * e.pupil.samples.size := by
  rw [Direction.sum_sq_norm_doubleSum, e.pupil.size_samples_eq_sum]
  simp only [sq_norm_pupilLight]
  push_cast
  rfl

/-- The flux by which a long exposure is normalised. -/
theorem sumArray_rawImage :
    Scalar.sumArray (e.rawImage a).toArray =
      e.stepCount * e.pupil.side ^ 2 * e.pupil.samples.size := by
  rw [Grid.sumArray_toArray]
  simp only [rawImage, get_total_expose]
  calc
    ∑ j, ∑ i, ∑ k ∈ Finset.range e.stepCount,
        ‖Direction.forward.doubleSum (e.pupilLight a (k * e.timeStep)) i j‖ ^ 2
      = ∑ k ∈ Finset.range e.stepCount, ∑ j, ∑ i,
          ‖Direction.forward.doubleSum (e.pupilLight a (k * e.timeStep)) i j‖ ^ 2 := by
        refine Eq.trans ?_ Finset.sum_comm
        apply Finset.sum_congr rfl
        intro j _
        exact Finset.sum_comm
    _ = e.stepCount * e.pupil.side ^ 2 * e.pupil.samples.size := by
        simp only [sum_sq_norm_doubleSum_pupilLight, Finset.sum_const, Finset.card_range,
          nsmul_eq_mul, mul_assoc]

theorem sumArray_unitImage (hsamples : 0 < e.pupil.samples.size) (t : ℝ) :
    Scalar.sumArray (e.unitImage a t).toArray = 1 := by
  have hside : (e.pupil.side : ℝ) ≠ 0 := Nat.cast_ne_zero.2 (NeZero.ne _)
  have hsize : (e.pupil.samples.size : ℝ) ≠ 0 := Nat.cast_ne_zero.2 hsamples.ne'
  rw [Grid.sumArray_toArray]
  simp only [unitImage, Grid.get_ofFn, ← Finset.sum_div]
  rw [sum_sq_norm_doubleSum_pupilLight, div_self (by positivity)]

theorem get_focalImage (i j : Fin e.pupil.side) :
    (e.focalImage a).get i j = (∑ k ∈ Finset.range e.stepCount,
      (e.unitImage a (k * e.timeStep)).recentre.get i j) / e.stepCount := by
  refine (Grid.get_recentre_div (e.rawImage a) _ i j).trans ?_
  simp only [Grid.get_recentre, unitImage, Grid.get_ofFn]
  rw [sumArray_rawImage, ← Finset.sum_div, rawImage, get_total_expose, div_div]
  congr 1
  ring

theorem focalImage_nonneg (i j : Fin e.pupil.side) : 0 ≤ (e.focalImage a).get i j := by
  rw [get_focalImage]
  apply div_nonneg _ (Nat.cast_nonneg _)
  apply Finset.sum_nonneg
  intro k _
  rw [Grid.get_recentre]
  exact e.unitImage_nonneg a _ _ _

theorem sumArray_rawImage_pos (hsamples : 0 < e.pupil.samples.size) (hcount : 1 ≤ e.stepCount) :
    0 < Scalar.sumArray (e.rawImage a).toArray := by
  have hside : (0 : ℝ) < e.pupil.side := Nat.cast_pos.2 (Nat.pos_of_neZero _)
  have hsamples' : (0 : ℝ) < e.pupil.samples.size := Nat.cast_pos.2 hsamples
  have hcount' : (0 : ℝ) < e.stepCount := Nat.cast_pos.2 hcount
  rw [sumArray_rawImage]
  positivity

end Flux

/-- A long exposure is the mean of the images of its time steps, each with a flux of one.
The pupil is one that was built; all other settings may have changed since. -/
theorem focalImage_eq_mean {settings : ExposureSettings ℝ} {built : Exposure ℝ}
    (hbuilt : settings.build = .ok built) (hpupil : e.pupil = built.pupil)
    (hcount : 1 ≤ e.stepCount) :
    Scalar.sumArray (e.rawImage a).toArray =
        e.stepCount * e.pupil.side ^ 2 * e.pupil.samples.size ∧
      0 < Scalar.sumArray (e.rawImage a).toArray ∧
      (∀ i j, 0 ≤ (e.focalImage a).get i j) ∧
      Scalar.sumArray (e.focalImage a).toArray = 1 ∧
      (∀ t, Scalar.sumArray (e.unitImage a t).toArray = 1) ∧
      ∀ i j, (e.focalImage a).get i j = (∑ k ∈ Finset.range e.stepCount,
        (e.unitImage a (k * e.timeStep)).recentre.get i j) / e.stepCount := by
  have hsamples : 0 < e.pupil.samples.size := by
    obtain ⟨-, -, hbuild, -⟩ := ExposureSettings.build_eq_ok_iff.1 hbuilt
    rw [hpupil]
    exact PupilSettings.samples_pos hbuild
  have hside : 0 < e.pupil.side := e.pupil.side_pos hsamples
  have : NeZero e.pupil.side := ⟨hside.ne'⟩
  have hflux : 0 < Scalar.sumArray (e.rawImage a).toArray := by
    rw [sumArray_rawImage]
    have hcount' : (0 : ℝ) < e.stepCount := Nat.cast_pos.2 hcount
    positivity
  refine ⟨sumArray_rawImage e a, hflux, ?_, Grid.sumArray_recentre_div _ hflux,
    sumArray_unitImage e a hsamples, get_focalImage e a⟩
  intro i j
  rw [get_focalImage]
  simp only [Grid.get_recentre, unitImage, Grid.get_ofFn]
  positivity

end Exposure

namespace ExposureSettings

/-- The settings of a long exposure of two steps, through a coarse pupil and one layer. -/
noncomputable def coarse : ExposureSettings ℝ where
  atmosphere :=
    { turbulence := ⟨1, [0], [1], [0], [0]⟩
      screenSize := 1
      screenScale := 1 / 2 }
  pupil := .coarse
  exposureTime := 2
  timeStep := 1
  imageSide := 1
  imageScale := 1

theorem build_atmosphere_coarse : ∃ a, coarse.atmosphere.build = .ok a := by
  refine ⟨_, AtmosphereSettings.build_eq_ok_iff.2 ⟨rfl, ?_, ?_, rfl⟩⟩
  · simp [AtmosphereSettings.positives, coarse]
  · simp [coarse]

theorem pupilSettings_coarse : coarse.pupilSettings = .coarse := by
  simp [pupilSettings, PupilSettings.forImage, coarse, PupilSettings.coarse]

theorem build_coarse : ∃ e, coarse.build = .ok e := by
  obtain ⟨a, ha⟩ := build_atmosphere_coarse
  refine ⟨_, build_of_parts ?_ ?_ (pupilSettings_coarse ▸ PupilSettings.build_coarse) ha⟩
  · simp [positives, coarse]
  · simp [Image.blank, coarse]

end ExposureSettings

namespace Exposure

/-- The mean over the two steps of the coarse exposure, through no screens. -/
theorem focalImage_eq_mean_coarse : ∃ e : Exposure ℝ,
    ExposureSettings.coarse.build = .ok e ∧ 1 ≤ e.stepCount ∧
      Scalar.sumArray (e.focalImage e.atmosphere).toArray = 1 ∧
      ∀ i j, (e.focalImage e.atmosphere).get i j = (∑ k ∈ Finset.range e.stepCount,
        (e.unitImage e.atmosphere (k * e.timeStep)).recentre.get i j) / e.stepCount := by
  obtain ⟨e, he⟩ := ExposureSettings.build_coarse
  have hcount : 1 ≤ e.stepCount := by
    obtain ⟨-, -, -, -, heq⟩ := ExposureSettings.build_eq_ok_iff.1 he
    rw [heq]
    exact Nat.le_max_right _ _
  obtain ⟨-, -, -, hflux, -, hmean⟩ := focalImage_eq_mean e e.atmosphere he rfl hcount
  exact ⟨e, he, hcount, hflux, hmean⟩

end Exposure

end Seeing
