import Seeing.Proofs.Exposure.Flux
import Seeing.Proofs.Fourier.Symmetry
import Seeing.Proofs.Image.Resample
import Seeing.Proofs.PhaseScreen.Flat
import Seeing.Proofs.Pupil.Geometry

/-!
# Long exposures without turbulence

Beyond the highest frequency of the screens a cutoff leaves no turbulence. Every time step
then shows the diffraction image of the pupil, and so does the whole exposure, however
long it is and whatever atmosphere it looks through: `image_of_drawable`. What an exposure
draws is `pointImage`, in which only the pupil, the wavelength and the pixels occur.

The annulus is symmetric about the axis, its transform about the first cell, the focal
grid about the node in its middle and the image about its middle, if the focal grid is
wide enough for the image: `symmetric_pointImage`.
-/

open Complex

namespace Seeing

section Run

variable {α : Type} [Scalar α] [RandomSource α]

/-- What is drawn does not depend on the log. -/
theorem Exposure.fst_draw (e : Exposure α) (cutoff : α) (log : Array (Record α)) :
    ((e.draw (m := Logged α) cutoff).run log).1 = e.image cutoff := by
  rw [image, draw]
  cases e.instantiate? cutoff <;> rfl

end Run

namespace Pupil

/-- The image of a point through the pupil alone, on the focal grid with its centre in the
middle and with a flux of one. -/
noncomputable def diffraction (p : Pupil ℝ) : Grid p.side p.side ℝ :=
  Grid.recentre (.ofFn fun i j =>
    ‖Direction.forward.doubleSum (fun i j => if p.mask.get i j then 1 else 0) i j‖ ^ 2 /
      (p.side ^ 2 * p.samples.size))

theorem nodeSymmetric_diffraction {p : Pupil ℝ} [NeZero p.side] (hside : Even p.side)
    (hmask : MirrorSymmetric p.mask.get) : NodeSymmetric p.diffraction.get := by
  have hlight : MirrorSymmetric fun i j => if p.mask.get i j then (1 : ℂ) else 0 := by
    constructor <;> intro i j
    · rw [hmask.rev_column]
    · rw [hmask.exchange]
  have hnorm := NodeSymmetric.of_doubleSum .forward hlight
  apply NodeSymmetric.recentre hside
  constructor <;> intro i j
  · rw [Grid.get_ofFn, Grid.get_ofFn, hnorm.neg_column i j]
  · rw [Grid.get_ofFn, Grid.get_ofFn, hnorm.exchange i j]

end Pupil

theorem Storage.holdsSquare_realBytes_iff {side : ℕ} :
    HoldsSquare side realBytes ↔ side < 2 ^ 30 :=
  holdsSquare_iff_lt (by decide) (by decide)

namespace Exposure

/-- There can be all arrays that the exposure takes. -/
def Drawable (e : Exposure ℝ) : Prop := e.Storable ∧ e.atmosphere.Drawable

theorem develop_of_storable {e : Exposure ℝ} (hstorable : e.Storable) (a : Atmosphere ℝ) :
    e.develop a = Failure.ofExcept (e.resample (e.focalImage a)) :=
  if_pos hstorable

/-- The image of a point through the pupil alone, on the pixels of the exposure. -/
noncomputable def pointImage (e : Exposure ℝ) : Except (Failure (Error ℝ)) (Image ℝ) :=
  Failure.ofExcept (e.resample e.pupil.diffraction)

theorem pointImage_eq_ok_iff {e : Exposure ℝ} {image : Image ℝ} :
    e.pointImage = .ok image ↔ Image.resample e.pupil.diffraction
      (e.pupil.focalScale e.wavelength) e.imageSide e.imageScale = .ok image := by
  rw [pointImage, resample, Failure.ofExcept_eq_ok_iff, mapError_eq_ok_iff]

/-- The image through the pupil is that of the pupil, the wavelength and the pixels. -/
theorem pointImage_congr {e₁ e₂ : Exposure ℝ} (hpupil : e₁.pupil = e₂.pupil)
    (hside : e₁.imageSide = e₂.imageSide) (hscale : e₁.imageScale = e₂.imageScale)
    (hwavelength : e₁.wavelength = e₂.wavelength) : e₁.pointImage = e₂.pointImage := by
  rw [pointImage, pointImage, resample, resample, hpupil, hside, hscale, hwavelength]

/-- Without phase every time step, and so their mean, shows the image through the
pupil. -/
theorem focalImage_of_phase_eq_zero {e : Exposure ℝ} [NeZero e.pupil.side]
    (hcount : 1 ≤ e.stepCount) {a : Atmosphere ℝ}
    (hphase : ∀ x y t, a.phase x y t e.wavelength = 0) :
    e.focalImage a = e.pupil.diffraction := by
  have hlight : ∀ t, e.pupilLight a t = fun i j => if e.pupil.mask.get i j then 1 else 0 := by
    intro t
    funext i j
    rw [pupilLight, hphase, ofReal_zero, zero_mul, exp_zero]
  have hstep : ∀ t, (e.unitImage a t).recentre = e.pupil.diffraction := by
    intro t
    rw [unitImage, hlight, Pupil.diffraction]
  have hcount' : (e.stepCount : ℝ) ≠ 0 := Nat.cast_ne_zero.2 (by omega)
  apply Grid.ext_get
  intro i j
  rw [get_focalImage]
  simp only [hstep, Finset.sum_const, Finset.card_range, nsmul_eq_mul]
  rw [mul_div_cancel_left₀ _ hcount']

section Built

variable {s : ExposureSettings ℝ} {e : Exposure ℝ} (hbuild : s.build = .ok e)

include hbuild

theorem r0_pos : 0 < e.r0 := by
  obtain ⟨-, -, hpupil, hatmosphere, he⟩ := ExposureSettings.build_eq_ok_iff.1 hbuild
  obtain ⟨-, hwavelength, -⟩ := PupilSettings.pos_of_build hpupil
  have hwavelength' : 0 < s.pupil.wavelength := hwavelength
  have hr0 : 0 < s.atmosphere.r0 := by
    obtain ⟨-, hpositive, -⟩ := AtmosphereSettings.build_eq_ok_iff.1 hatmosphere
    simpa using hpositive (.r0, s.atmosphere.r0) (by simp [AtmosphereSettings.positives])
  rw [he]
  simp only [r0, friedAt, Scalar.real_mul, Scalar.real_div, Scalar.real_pow,
    Scalar.real_literal, Scalar.real_decimal]
  positivity

theorem pos_of_build :
    0 < e.pupil.focalScale e.wavelength ∧ 0 < e.imageSide ∧ 0 < e.imageScale := by
  obtain ⟨-, ⟨blank, hblank⟩, hpupil, -, he⟩ := ExposureSettings.build_eq_ok_iff.1 hbuild
  obtain ⟨hside, -, hscale, -⟩ := Image.blank_eq_ok_iff.1 hblank
  obtain ⟨-, hwavelength, -⟩ := PupilSettings.pos_of_build hpupil
  rw [he]
  exact ⟨PupilSettings.focalScale_pos hpupil hwavelength, hside, hscale⟩

/-- The focal grid is at least twice as wide as the image. -/
theorem two_mul_width_le (hpadding : 1 ≤ s.pupil.padding) :
    2 * (e.imageSide * e.imageScale) ≤ e.pupil.side * e.pupil.focalScale e.wavelength := by
  obtain ⟨-, -, hpupil, -, he⟩ := ExposureSettings.build_eq_ok_iff.1 hbuild
  rw [he]
  exact PupilSettings.two_mul_field_le hpupil hpadding

/-- There is always an image through the pupil, of the size and scale asked for. -/
theorem exists_pointImage : ∃ image, e.pointImage = .ok image ∧
    image.width = e.imageSide ∧ image.height = e.imageSide ∧ image.scale = e.imageScale := by
  obtain ⟨hfocal, hside, hscale⟩ := pos_of_build hbuild
  simp only [pointImage_eq_ok_iff]
  exact Image.exists_resample _ _ _ _ hfocal hside hscale

theorem symmetric_pointImage (hpadding : 1 ≤ s.pupil.padding)
    (hoversampling : 1 ≤ s.pupil.oversampling) {image : Image ℝ}
    (himage : e.pointImage = .ok image) : image.Symmetric := by
  obtain ⟨hfocal, hcount, hscale⟩ := pos_of_build hbuild
  obtain ⟨-, -, hpupil, -, -⟩ := ExposureSettings.build_eq_ok_iff.1 hbuild
  have hside := e.pupil.side_pos (PupilSettings.samples_pos hpupil)
  have : NeZero e.pupil.side := ⟨hside.ne'⟩
  have hsymmetric := Pupil.nodeSymmetric_diffraction (PupilSettings.even_side hpupil)
    (PupilSettings.mirrorSymmetric_mask hpupil)
  rw [pointImage_eq_ok_iff] at himage
  exact Image.symmetric_of_resample (PupilSettings.even_side hpupil)
    (PupilSettings.four_le_side hpupil hoversampling) hsymmetric hfocal hcount hscale
    (two_mul_width_le hbuild hpadding) himage

variable [RandomSource ℝ]

theorem image_of_drawable {cutoff : ℝ}
    (hcutoff : √2 * Real.pi / e.atmosphere.screenScale < cutoff / e.r0)
    (hdrawable : e.Drawable) : e.image cutoff = e.pointImage := by
  obtain ⟨-, -, hpupil, hatmosphere, he⟩ := ExposureSettings.build_eq_ok_iff.1 hbuild
  have hside := e.pupil.side_pos (PupilSettings.samples_pos hpupil)
  have : NeZero e.pupil.side := ⟨hside.ne'⟩
  have hcount : 1 ≤ e.stepCount := by
    rw [he]
    exact Nat.le_max_right _ _
  have hscale : 0 < e.atmosphere.screenScale := by
    obtain ⟨-, -, ⟨hscale, -⟩, ha⟩ := AtmosphereSettings.build_eq_ok_iff.1 hatmosphere
    rw [ha]
    simpa using hscale
  obtain ⟨a, ha⟩ := (Atmosphere.exists_screens_iff hatmosphere (cutoff / e.r0)).2 hdrawable.2
  have hflat := Atmosphere.flat_instantiate? hscale hcutoff ha
  have hfocal := focalImage_of_phase_eq_zero hcount fun x y t =>
    Atmosphere.phase_eq_zero hflat x y t e.wavelength
  rw [pointImage, ← hfocal, image, instantiate?, ha]
  exact develop_of_storable hdrawable.1 a

/-- What no array can hold is not drawn. -/
theorem image_of_not_drawable {cutoff : ℝ} (hdrawable : ¬e.Drawable) :
    e.image cutoff = .error .crash := by
  obtain ⟨-, -, -, hatmosphere, -⟩ := ExposureSettings.build_eq_ok_iff.1 hbuild
  rw [image]
  cases ha : e.instantiate? cutoff with
  | none => rfl
  | some a =>
      have hscreens := (Atmosphere.exists_screens_iff hatmosphere _).1 ⟨a, ha⟩
      exact if_neg fun hstorable => hdrawable ⟨hstorable, hscreens⟩

omit [RandomSource ℝ] in
theorem drawable_iff_of_build : e.Drawable ↔
    (e.pupil.side < 759250125 ∧ e.atmosphere.layers.length * 56 < 2 ^ 63 ∧
      e.imageSide < 2 ^ 30) ∧
    (e.atmosphere.layers = [] ∨
      e.atmosphere.screenSize / e.atmosphere.screenScale + 1 / 2 < 759250125) := by
  obtain ⟨-, -, -, hatmosphere, -⟩ := ExposureSettings.build_eq_ok_iff.1 hbuild
  have hlist : Storage.Holds e.atmosphere.layers.length Storage.screenBytes ↔
      e.atmosphere.layers.length * 56 < 2 ^ 63 := by
    rw [Storage.Holds, Storage.limit, Storage.screenBytes, Storage.realBytes]
    omega
  rw [Drawable, Storable, Atmosphere.drawable_iff_of_build hatmosphere, hlist,
    Storage.holdsSquare_amplitudeBytes_iff, Storage.holdsSquare_realBytes_iff]

end Built

variable [RandomSource ℝ]

/-- Two exposures with the same pupil, pixels, wavelength and nominal turbulence, and with
screens of the same pixels, draw the same image beyond the highest frequency of the
screens: their atmospheres and their times do not occur in it. It is symmetric if the
pupil is padded and sampled for the field. An exposure that takes an array that there
cannot be, for its screens or for its light, draws nothing. -/
theorem draw_beyond_modes {s₁ s₂ : ExposureSettings ℝ} {e₁ e₂ : Exposure ℝ}
    (hbuild₁ : s₁.build = .ok e₁) (hbuild₂ : s₂.build = .ok e₂)
    (hpupil : e₁.pupil = e₂.pupil) (hside : e₁.imageSide = e₂.imageSide)
    (hscale : e₁.imageScale = e₂.imageScale) (hwavelength : e₁.wavelength = e₂.wavelength)
    (hr0 : e₁.r0At500 = e₂.r0At500)
    (hscreens : e₁.atmosphere.screenScale = e₂.atmosphere.screenScale) {cutoff : ℝ}
    (hcutoff : √2 * Real.pi / e₁.atmosphere.screenScale < cutoff / e₁.r0) :
    ∃ image : Image ℝ,
      (∀ e ∈ [e₁, e₂], ∀ log,
        (e.Drawable → ((e.draw (m := Logged ℝ) cutoff).run log).1 = .ok image) ∧
        (¬e.Drawable →
          ((e.draw (m := Logged ℝ) cutoff).run log).1 = .error .crash)) ∧
      image.width = e₁.imageSide ∧ image.height = e₁.imageSide ∧
      image.scale = e₁.imageScale ∧
      (1 ≤ s₁.pupil.padding → 1 ≤ s₁.pupil.oversampling → image.Symmetric) := by
  have hr0' : e₁.r0 = e₂.r0 := by rw [r0, r0, hr0, hwavelength]
  have hcutoff₂ : √2 * Real.pi / e₂.atmosphere.screenScale < cutoff / e₂.r0 := by
    rwa [← hscreens, ← hr0']
  obtain ⟨image, himage, hshape⟩ := exists_pointImage hbuild₁
  have himage₂ : e₂.pointImage = .ok image := by
    rw [← pointImage_congr hpupil hside hscale hwavelength, himage]
  refine ⟨image, ?_, hshape.1, hshape.2.1, hshape.2.2, fun hpadding hoversampling =>
    symmetric_pointImage hbuild₁ hpadding hoversampling himage⟩
  intro e he log
  rw [fst_draw]
  rcases List.mem_pair.1 he with rfl | rfl
  · exact ⟨fun h => (image_of_drawable hbuild₁ hcutoff h).trans himage,
      image_of_not_drawable hbuild₁⟩
  · exact ⟨fun h => (image_of_drawable hbuild₂ hcutoff₂ h).trans himage₂,
      image_of_not_drawable hbuild₂⟩

end Exposure

namespace ExposureSettings

theorem drawable_coarse {a : Atmosphere ℝ} (hbuild : coarse.atmosphere.build = .ok a) :
    a.Drawable := by
  rw [Atmosphere.drawable_iff_of_build hbuild]
  obtain ⟨-, -, -, rfl⟩ := AtmosphereSettings.build_eq_ok_iff.1 hbuild
  right
  norm_num [coarse]

/-- The settings of the coarse exposure, but for six steps through two stronger layers on
screens of another size, drawn from another seed. -/
noncomputable def coarseStorm (screenSize : ℝ) : ExposureSettings ℝ :=
  { coarse with
    atmosphere :=
      { strength := 2
        outerScale := 30
        turbulence := ⟨2, [0, 5], [1, 1], [10, 20], [0, 1]⟩
        screenSize := screenSize
        screenScale := 1 / 2
        seed := 7 }
    exposureTime := 3
    timeStep := 1 / 2 }

variable {screenSize : ℝ}

theorem pupilSettings_coarseStorm : (coarseStorm screenSize).pupilSettings = .coarse := by
  simp [pupilSettings, PupilSettings.forImage, coarseStorm, coarse, PupilSettings.coarse]

theorem build_coarseStorm (hsize : 1 ≤ screenSize) :
    ∃ e, (coarseStorm screenSize).build = .ok e := by
  obtain ⟨a, ha⟩ : ∃ a, (coarseStorm screenSize).atmosphere.build = .ok a := by
    refine ⟨_, AtmosphereSettings.build_eq_ok_iff.2 ⟨rfl, ?_, ?_, rfl⟩⟩
    · simp [AtmosphereSettings.positives, coarseStorm]
    · simp [coarseStorm, hsize]
  refine ⟨_, build_of_parts ?_ ?_ (pupilSettings_coarseStorm ▸ PupilSettings.build_coarse) ha⟩
  · simp [positives, coarseStorm]
  · simp [Image.blank, coarseStorm, coarse]

/-- A hundred radians per metre are beyond the modes of screens with two pixels per
metre. -/
theorem sqrt_two_mul_pi_div_lt : √2 * Real.pi / (1 / 2) < 100 := by
  have hsqrt : √2 < 2 := by
    rw [Real.sqrt_lt' two_pos]
    norm_num
  have hpi := Real.pi_le_four
  rw [div_lt_iff₀ (by norm_num)]
  nlinarith [Real.pi_pos]

section Built

variable {e₁ e₂ : Exposure ℝ} (hbuild₁ : coarse.build = .ok e₁)
  (hbuild₂ : (coarseStorm screenSize).build = .ok e₂)

include hbuild₁

theorem drawable_of_build_coarse : e₁.Drawable := by
  rw [Exposure.drawable_iff_of_build hbuild₁]
  obtain ⟨-, -, hpupil, hatmosphere, he⟩ := ExposureSettings.build_eq_ok_iff.1 hbuild₁
  obtain ⟨-, -, -, ha⟩ := AtmosphereSettings.build_eq_ok_iff.1 hatmosphere
  rw [pupilSettings_coarse] at hpupil
  have hside : e₁.imageSide = 1 := by rw [he]; rfl
  have hlength : e₁.atmosphere.layers.length = 1 := by rw [ha]; rfl
  refine ⟨?_, .inr ?_⟩
  · rw [PupilSettings.side_of_build_coarse hpupil, hlength, hside]
    decide
  · rw [ha]
    norm_num [coarse]

theorem cutoff_lt_of_build_coarse :
    √2 * Real.pi / e₁.atmosphere.screenScale < 100 * e₁.r0 / e₁.r0 := by
  obtain ⟨-, -, -, hatmosphere, -⟩ := ExposureSettings.build_eq_ok_iff.1 hbuild₁
  obtain ⟨-, -, -, ha⟩ := AtmosphereSettings.build_eq_ok_iff.1 hatmosphere
  rw [mul_div_cancel_right₀ _ (Exposure.r0_pos hbuild₁).ne', ha]
  exact sqrt_two_mul_pi_div_lt

include hbuild₂

/-- In the storm there are the same pupil, the same pixels and the same wavelength. -/
theorem alike_of_build_coarse : e₁.pupil = e₂.pupil ∧ e₁.imageSide = e₂.imageSide ∧
    e₁.imageScale = e₂.imageScale ∧ e₁.wavelength = e₂.wavelength ∧
    e₁.r0At500 = e₂.r0At500 ∧ e₁.atmosphere.screenScale = e₂.atmosphere.screenScale := by
  obtain ⟨-, -, hpupil₁, hatmosphere₁, he₁⟩ := ExposureSettings.build_eq_ok_iff.1 hbuild₁
  obtain ⟨-, -, hpupil₂, hatmosphere₂, he₂⟩ := ExposureSettings.build_eq_ok_iff.1 hbuild₂
  obtain ⟨-, -, -, ha₁⟩ := AtmosphereSettings.build_eq_ok_iff.1 hatmosphere₁
  obtain ⟨-, -, -, ha₂⟩ := AtmosphereSettings.build_eq_ok_iff.1 hatmosphere₂
  rw [pupilSettings_coarse] at hpupil₁
  rw [pupilSettings_coarseStorm, hpupil₁] at hpupil₂
  exact ⟨Except.ok.inj hpupil₂, by rw [he₁, he₂]; rfl, by rw [he₁, he₂]; rfl,
    by rw [he₁, he₂]; rfl, by rw [he₁, he₂]; rfl, by rw [ha₁, ha₂]; rfl⟩

/-- Two pixels for each metre are too many for the screens at some size. -/
theorem drawable_coarseStorm_iff : e₂.Drawable ↔ screenSize * 2 + 1 / 2 < 759250125 := by
  obtain ⟨hpupil, hside, -⟩ := alike_of_build_coarse hbuild₁ hbuild₂
  obtain ⟨⟨hlight, -, hpixels⟩, -⟩ :=
    (Exposure.drawable_iff_of_build hbuild₁).1 (drawable_of_build_coarse hbuild₁)
  rw [hpupil] at hlight
  rw [hside] at hpixels
  rw [Exposure.drawable_iff_of_build hbuild₂]
  obtain ⟨-, -, -, hatmosphere, -⟩ := ExposureSettings.build_eq_ok_iff.1 hbuild₂
  obtain ⟨-, -, -, ha⟩ := AtmosphereSettings.build_eq_ok_iff.1 hatmosphere
  have hlength : e₂.atmosphere.layers.length = 2 := by rw [ha]; rfl
  have hlayers : e₂.atmosphere.layers ≠ [] := by
    rw [← List.length_pos_iff_ne_nil, hlength]
    exact two_pos
  have hratio : e₂.atmosphere.screenSize / e₂.atmosphere.screenScale = screenSize * 2 := by
    rw [ha]
    exact (div_div_eq_mul_div screenSize 1 2).trans (div_one _)
  rw [hlength, or_iff_right hlayers, hratio]
  exact and_iff_right ⟨hlight, by decide, hpixels⟩

end Built

end ExposureSettings

namespace Exposure

open ExposureSettings

/-- The coarse exposure and the one through the storm draw the same symmetric image at a
cutoff of a hundred radians per metre. -/
theorem draw_beyond_modes_coarse :
    letI := countingSource
    ∃ e₁ e₂ : Exposure ℝ, coarse.build = .ok e₁ ∧ (coarseStorm 4).build = .ok e₂ ∧
      e₁.timeStep ≠ e₂.timeStep ∧ e₁.atmosphere.seed ≠ e₂.atmosphere.seed ∧
      ∃ image : Image ℝ, image.Symmetric ∧
        ((e₁.draw (m := Logged ℝ) (100 * e₁.r0)).run #[]).1 = .ok image ∧
        ((e₂.draw (m := Logged ℝ) (100 * e₁.r0)).run #[]).1 = .ok image := by
  let _ := countingSource
  obtain ⟨e₁, hbuild₁⟩ := build_coarse
  obtain ⟨e₂, hbuild₂⟩ : ∃ e, (coarseStorm 4).build = .ok e := build_coarseStorm (by norm_num)
  obtain ⟨hpupil, hside, hscale, hwavelength, hr0, hscreens⟩ :=
    alike_of_build_coarse hbuild₁ hbuild₂
  have hdrawable₂ : e₂.Drawable := (drawable_coarseStorm_iff hbuild₁ hbuild₂).2 (by norm_num)
  obtain ⟨image, hdraw, -, -, -, hsymmetric⟩ := draw_beyond_modes hbuild₁ hbuild₂ hpupil hside
    hscale hwavelength hr0 hscreens (cutoff_lt_of_build_coarse hbuild₁)
  obtain ⟨-, -, -, hatmosphere₁, he₁⟩ := ExposureSettings.build_eq_ok_iff.1 hbuild₁
  obtain ⟨-, -, -, hatmosphere₂, he₂⟩ := ExposureSettings.build_eq_ok_iff.1 hbuild₂
  obtain ⟨-, -, -, ha₁⟩ := AtmosphereSettings.build_eq_ok_iff.1 hatmosphere₁
  obtain ⟨-, -, -, ha₂⟩ := AtmosphereSettings.build_eq_ok_iff.1 hatmosphere₂
  refine ⟨e₁, e₂, hbuild₁, hbuild₂, ?_, ?_, image, hsymmetric le_rfl le_rfl,
    (hdraw e₁ (by simp) #[]).1 (drawable_of_build_coarse hbuild₁),
    (hdraw e₂ (by simp) #[]).1 hdrawable₂⟩
  · rw [he₁, he₂]
    norm_num [coarse, coarseStorm]
  · rw [ha₁, ha₂]
    decide

/-- At the same cutoff the coarse exposure is drawn, and the one through a storm on screens of
759250125 pixels along a side is not. -/
theorem exists_draw_beyond_modes_ne :
    letI := countingSource
    ∃ e₁ e₂ : Exposure ℝ, coarse.build = .ok e₁ ∧ (coarseStorm (759250125 / 2)).build = .ok e₂ ∧
      e₁.pupil = e₂.pupil ∧ e₁.imageSide = e₂.imageSide ∧ e₁.imageScale = e₂.imageScale ∧
      e₁.wavelength = e₂.wavelength ∧ e₁.r0At500 = e₂.r0At500 ∧
      e₁.atmosphere.screenScale = e₂.atmosphere.screenScale ∧
      √2 * Real.pi / e₁.atmosphere.screenScale < 100 * e₁.r0 / e₁.r0 ∧
      (∃ image, ((e₁.draw (m := Logged ℝ) (100 * e₁.r0)).run #[]).1 = .ok image) ∧
      ((e₂.draw (m := Logged ℝ) (100 * e₁.r0)).run #[]).1 = .error .crash := by
  let _ := countingSource
  obtain ⟨e₁, hbuild₁⟩ := build_coarse
  obtain ⟨e₂, hbuild₂⟩ : ∃ e, (coarseStorm (759250125 / 2)).build = .ok e :=
    build_coarseStorm (by norm_num)
  obtain ⟨hpupil, hside, hscale, hwavelength, hr0, hscreens⟩ :=
    alike_of_build_coarse hbuild₁ hbuild₂
  have hcutoff := cutoff_lt_of_build_coarse hbuild₁
  have hvast : ¬e₂.Drawable := by
    rw [drawable_coarseStorm_iff hbuild₁ hbuild₂]
    norm_num
  obtain ⟨image, himage, -⟩ := exists_pointImage hbuild₁
  refine ⟨e₁, e₂, hbuild₁, hbuild₂, hpupil, hside, hscale, hwavelength, hr0, hscreens, hcutoff,
    ⟨image, ?_⟩, ?_⟩
  · rw [fst_draw, image_of_drawable hbuild₁ hcutoff (drawable_of_build_coarse hbuild₁), himage]
  · rw [fst_draw, image_of_not_drawable hbuild₂ hvast]

end Exposure

end Seeing
