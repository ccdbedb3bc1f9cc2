import Seeing.Comparison.Session
import Seeing.Proofs.Comparison.Conditions
import Seeing.Proofs.Comparison.Sweep
import Seeing.Proofs.Exposure.Diffraction
import Seeing.Proofs.Kick.Photons

/-!
# Running a comparison

Both methods of a comparison that was built draw an image at every cutoff, however often they have
drawn before: `Kick.exists_image` and `Exposure.exists_image`. What may keep an image from being
drawn are arrays that are longer than arrays can be, and nothing else. Such arrays are those of the
pupil, the image and, for a long exposure, the screens: `storable_iff_of_build` and
`drawable_iff_of_build`.

An action that cannot fail keeps records and gives its value, `Yields`. One such action after the
other is one again, so a sweep gives all of its points, `yields_sweep`. What is left to fail in a
run is the saving of the figure, `Comparison.Completes`.
-/

namespace Seeing

section Yields

variable {α ε β γ : Type} {m : Type → Type} [Monad m] [MonadLog α m]

/-- The action keeps some records and gives a value. Since the monad may be any, what was done
before has no part in the value. -/
def Yields (x : ExceptT ε m β) (value : β) : Prop :=
  ∃ records : List (Record α), x.run = do
    forM records MonadLog.record
    pure (.ok value)

variable [LawfulMonad m]

theorem yields_pure (value : β) : Yields (pure value : ExceptT ε m β) value :=
  ⟨[], by simp⟩

theorem yields_record (r : Record α) :
    Yields (liftM (MonadLog.record r : m Unit) : ExceptT ε m Unit) () :=
  ⟨[r], by simp⟩

theorem Yields.bind {x : ExceptT ε m β} {f : β → ExceptT ε m γ} {b : β} {value : γ}
    (hx : Yields x b) (hf : Yields (f b) value) : Yields (x >>= f) value := by
  obtain ⟨before, hx⟩ := hx
  obtain ⟨after, hf⟩ := hf
  refine ⟨before ++ after, ?_⟩
  rw [ExceptT.run_bind, hx, List.forM_append]
  simp [hf]

theorem yields_mapM {f : β → ExceptT ε m γ} {bs : List β} {values : List γ}
    (hf : List.Forall₂ (fun b value => Yields (f b) value) bs values) :
    Yields (bs.mapM f) values := by
  induction hf with
  | nil => exact yields_pure []
  | cons hb _ ih =>
      rw [List.mapM_cons]
      exact hb.bind (ih.bind (yields_pure _))

end Yields

section Sweep

variable {α ε : Type} [Scalar α] {m : Type → Type} [Monad m] [LawfulMonad m] [MonadLog α m]

/-- The size of an image, if it has one. -/
def MomentsFit.size? (fit : MomentsFit α) (image : Image α) : Option α :=
  (fit.find image).toOption.map (·.size)

/-- The point at a cutoff of the images that are given for requests. -/
def MomentsFit.point (fit : MomentsFit α) (image : Request α → Image α) (cutoff : α) :
    SweepPoint α where
  cutoff := cutoff
  exposure := image (.exposure cutoff)
  kick := image (.kick cutoff)
  exposureSize := fit.size? (image (.exposure cutoff))
  kickSize := fit.size? (image (.kick cutoff))

/-- The measurement of an image without a size keeps a record and goes on. -/
theorem yields_size (fit : MomentsFit α) (image : Image α) :
    Yields (ExceptT.lift (fit.size image) : ExceptT ε m (Option α)) (fit.size? image) := by
  rw [MomentsFit.size, MomentsFit.size?]
  cases fit.find image with
  | ok shape => exact ⟨[], by simp [Except.toOption]⟩
  | error e => exact ⟨[.unmeasured e], by simp [Except.toOption]⟩

variable (fit : MomentsFit α) {exposure kick : α → ExceptT ε m (Image α)}
  {image : Request α → Image α}
  (hexposure : ∀ cutoff, Yields (exposure cutoff) (image (.exposure cutoff)))
  (hkick : ∀ cutoff, Yields (kick cutoff) (image (.kick cutoff)))

include hexposure hkick

theorem yields_sweepPoint (cutoff : α) :
    Yields (sweepPoint exposure kick (fun image => ExceptT.lift (fit.size image)) cutoff)
      (fit.point image cutoff) :=
  (hexposure cutoff).bind ((hkick cutoff).bind
    ((yields_size fit _).bind ((yields_size fit _).bind (yields_pure _))))

/-- Methods that do not fail give a point at every cutoff. -/
theorem yields_sweep (cutoffs : List α) :
    Yields (sweep exposure kick (fun image => ExceptT.lift (fit.size image)) cutoffs)
      (cutoffs.map (fit.point image)) := by
  induction cutoffs with
  | nil => exact yields_pure []
  | cons cutoff cutoffs ih =>
      exact (yields_sweepPoint fit hexposure hkick cutoff).bind (ih.bind (yields_pure _))

end Sweep

section Draw

variable {α : Type} [Scalar α] [RandomSource α] {m : Type → Type} [Monad m] [LawfulMonad m]
  [MonadLog α m]

theorem Exposure.yields_draw {e : Exposure α} {cutoff : α} {image : Image α}
    (himage : e.image cutoff = .ok image) : Yields (e.draw (m := m) cutoff) image := by
  rw [Exposure.image] at himage
  rw [Exposure.draw]
  cases ha : e.instantiate? cutoff with
  | none =>
      rw [ha] at himage
      cases himage
  | some a =>
      rw [ha] at himage
      have hdeveloped : e.develop a = .ok image := himage
      simp only [hdeveloped]
      exact (yields_record _).bind ((yields_record _).bind (yields_pure image))

theorem Kick.yields_draw {k : Kick α} {cutoff : α} {exposed : Exposed α}
    (hexposed : k.image cutoff = .ok exposed) :
    Yields (k.draw (m := m) cutoff) exposed.image := by
  rw [Kick.draw, hexposed]
  exact (yields_record _).bind
    ((yields_pure exposed).bind ((yields_record _).bind (yields_pure _)))

end Draw

section Images

variable [RandomSource ℝ]

namespace Exposed

/-- Photons add flux to the pixels and leave their number and size. -/
theorem renders_after (f : FocalCells ℝ) (s : RandomSource.State ℝ) {side : ℕ} {scale : ℝ}
    {image : Image ℝ} (hblank : Image.blank side side scale = .ok image) {flux : ℝ}
    (hflux : 0 ≤ flux) (count : ℕ) :
    (after f s flux ⟨image, 0⟩ count).image.Renders side scale := by
  obtain ⟨hpositive, hwidth, hheight, hscale⟩ := Image.shape_of_blank hblank
  obtain ⟨pixels, hafter, hpixels⟩ := after_spec hpositive f s flux count
  rw [hafter]
  refine ⟨hwidth, hheight, hscale, ?_⟩
  intro i j
  have hpixel : pixels.get i j = 0 + flux * _ :=
    (hpixels i j).trans (by rw [Image.get_of_blank hblank])
  exact hpixel ▸ add_nonneg le_rfl (mul_nonneg hflux (Nat.cast_nonneg _))

end Exposed

/-- A second kick that was built gives an image at every cutoff, if there can be its arrays. -/
theorem Kick.exists_image {s : KickSettings ℝ} {k : Kick ℝ} (hbuild : s.build = .ok k)
    (hstorable : k.Storable) (cutoff : ℝ) :
    ∃ exposed, k.image cutoff = .ok exposed ∧ exposed.image.Renders s.imageSide s.imageScale := by
  obtain ⟨-, -, ⟨image, himage⟩, -, hk⟩ := KickSettings.build_eq_ok_iff.1 hbuild
  have hblank : Image.blank k.imageSide k.imageSide k.imageScale = .ok image := by
    rw [hk]
    exact himage
  have hshoot := congrArg Prod.fst
    (k.shoot_eq hblank (k.focalImage cutoff).toArray (RandomSource.ofSeed k.seed))
  refine ⟨_, (if_pos hstorable).trans (congrArg Failure.ofExcept hshoot), ?_⟩
  exact Exposed.renders_after _ _ himage (by positivity) _

/-- A long exposure that was built gives an image at every cutoff, if there can be its arrays. -/
theorem Exposure.exists_image {s : ExposureSettings ℝ} {e : Exposure ℝ}
    (hbuild : s.build = .ok e) (hdrawable : e.Drawable) (cutoff : ℝ) :
    ∃ image, e.image cutoff = .ok image ∧ image.Renders s.imageSide s.imageScale := by
  obtain ⟨hstorable, hscreens⟩ := hdrawable
  obtain ⟨hfocal, hside, hscale⟩ := Exposure.pos_of_build hbuild
  obtain ⟨-, -, hpupil, hatmosphere, he⟩ := ExposureSettings.build_eq_ok_iff.1 hbuild
  have hside' : e.imageSide = s.imageSide := by rw [he]
  have hscale' : e.imageScale = s.imageScale := by rw [he]
  have : NeZero e.pupil.side := ⟨(e.pupil.side_pos (PupilSettings.samples_pos hpupil)).ne'⟩
  obtain ⟨a, ha⟩ := (Atmosphere.exists_screens_iff hatmosphere (cutoff / e.r0)).2 hscreens
  obtain ⟨image, himage, hrenders⟩ := Image.exists_renders_of_resample _ _ _
    (e.focalImage_nonneg a) hfocal hside hscale
  rw [hside', hscale'] at hrenders
  refine ⟨image, ?_, hrenders⟩
  have hresample : e.resample (e.focalImage a) = .ok image := mapError_eq_ok_iff.2 himage
  rw [Exposure.image, instantiate?, ha]
  exact (develop_of_storable hstorable a).trans (congrArg Failure.ofExcept hresample)

end Images

namespace Comparison

variable {α : Type} [Scalar α] [RandomSource α] {m : Type → Type} [Monad m] [MonadLog α m]

/-- Draws an image that is asked for. -/
def answer (c : Comparison α) : Request α → ExceptT (Failure (Error α)) m (Image α)
  | .exposure cutoff => c.exposure.draw cutoff
  | .kick cutoff => c.kick.draw cutoff

/-- An image is drawn whenever it is asked for, whatever was done before. -/
def Draws (c : Comparison α) (request : Request α) (image : Image α) : Prop :=
  ∀ {m : Type → Type} [Monad m] [LawfulMonad m] [MonadLog α m],
    Yields (c.answer (m := m) request) image

/-- A run draws and measures the points and saves them. It fails only where the saving fails, and
by the error of the figure. -/
def Completes (c : Comparison α) (m : Type → Type) [Monad m] [MonadLog α m]
    (points : List (SweepPoint α)) : Prop :=
  ∃ records : List (Record α), ∀ save : List (SweepPoint α) → ExceptT FigureError m Unit,
    (c.runWith save).run = do
      forM records MonadLog.record
      let saved ← (save points).run
      pure ((saved.mapError fun e => .error (.figure e)).map fun _ => points)

variable [LawfulMonad m] {c : Comparison α}

/-- The points of the images that are drawn when they are asked for. -/
theorem yields_points {image : Request α → Image α}
    (hanswer : ∀ request, Yields (c.answer (m := m) request) (image request)) :
    Yields (c.points (m := m)) (c.cutoffs.map (c.moments.point image)) :=
  yields_sweep c.moments (fun cutoff => hanswer (.exposure cutoff))
    (fun cutoff => hanswer (.kick cutoff)) c.cutoffs

theorem completes_of_yields {points : List (SweepPoint α)}
    (hpoints : Yields (c.points (m := m)) points) : c.Completes m points := by
  obtain ⟨records, hpoints⟩ := hpoints
  refine ⟨records, fun save => ?_⟩
  rw [runWith, ExceptT.run_bind, hpoints, bind_assoc]
  -- both sides keep the records first, and then save the points
  congr 1
  funext _
  rw [pure_bind]
  simp only [ExceptT.run_bind, ExceptT.run_lift, bind_map_left]
  congr 1
  funext saved
  cases saved <;> rfl

/-- There can be the arrays that a request takes. -/
def Serves (c : Comparison ℝ) : Request ℝ → Prop
  | .exposure _ => c.exposure.Drawable
  | .kick _ => c.kick.Storable

end Comparison

namespace ComparisonSettings

section Built

variable [RandomSource ℝ] {s : ComparisonSettings ℝ} {c : Comparison ℝ}
  (hbuild : s.build = .ok c)

include hbuild

/-- The two methods have one pupil and one image, and to draw the second kick is to store them. -/
theorem storable_iff_of_build :
    c.kick.Storable ↔ c.kick.pupil.side < 759250125 ∧ s.imageSide < 2 ^ 30 := by
  have hside : c.kick.imageSide = s.imageSide := congrArg Kick.imageSide (kick_eq_of_build hbuild)
  rw [Kick.Storable, hside, Storage.holdsSquare_amplitudeBytes_iff,
    Storage.holdsSquare_realBytes_iff]

/-- There is a layer in every comparison, so a long exposure always takes screens. -/
theorem drawable_iff_of_build :
    c.exposure.Drawable ↔ c.kick.Storable ∧ s.layerCount * 56 < 2 ^ 63 ∧
      s.screenSize / s.screenScale + 1 / 2 < 759250125 := by
  obtain ⟨turbulence, -, hturbulence, hexposure, -, -⟩ := build_eq_ok_iff.1 hbuild
  obtain ⟨-, -, -, hatmosphere, he⟩ := ExposureSettings.build_eq_ok_iff.1 hexposure
  obtain ⟨-, -, -, ha⟩ := AtmosphereSettings.build_eq_ok_iff.1 hatmosphere
  obtain ⟨hcount, htwo⟩ := layerCount_turbulence hturbulence
  have hlength : c.exposure.atmosphere.layers.length = s.layerCount := by
    obtain ⟨hmatched, -⟩ := layers_turbulence hturbulence
    rw [ha]
    exact (TurbulenceProfile.length_layers hmatched s.r0 s.strength).trans hcount
  have hratio : c.exposure.atmosphere.screenSize / c.exposure.atmosphere.screenScale =
      s.screenSize / s.screenScale := by
    rw [ha]
    rfl
  have hlayers : c.exposure.atmosphere.layers ≠ [] := by
    rw [← List.length_pos_iff_ne_nil, hlength]
    exact two_pos.trans_le htwo
  have hside : c.exposure.imageSide = s.imageSide := by
    rw [he]
    rfl
  rw [Exposure.drawable_iff_of_build hexposure, hlength, hratio, hside, or_iff_right hlayers,
    (matches_of_build hbuild).pupil_eq, storable_iff_of_build hbuild]
  tauto

/-- Neither method divides by a flux of zero. -/
theorem flux_pos_of_build : (∀ a, 0 < Scalar.sumArray (c.exposure.rawImage a).toArray) ∧
    ∀ cutoff, 0 < Scalar.sumArray (c.kick.rawImage cutoff).toArray := by
  obtain ⟨turbulence, -, -, hexposure, hkick, -⟩ := build_eq_ok_iff.1 hbuild
  obtain ⟨-, -, hpupil, -, he⟩ := ExposureSettings.build_eq_ok_iff.1 hexposure
  obtain ⟨-, -, -, hpupil', -⟩ := KickSettings.build_eq_ok_iff.1 hkick
  have hsamples := PupilSettings.samples_pos hpupil
  have hsamples' := PupilSettings.samples_pos hpupil'
  have : NeZero c.exposure.pupil.side := ⟨(c.exposure.pupil.side_pos hsamples).ne'⟩
  have : NeZero c.kick.pupil.side := ⟨(c.kick.pupil.side_pos hsamples').ne'⟩
  have hcount : 1 ≤ c.exposure.stepCount := by
    rw [he]
    exact Nat.le_max_right _ _
  exact ⟨fun a => c.exposure.sumArray_rawImage_pos a hsamples hcount,
    c.kick.sumArray_rawImage_pos hsamples'⟩

/-- There is one image for each request whose arrays there can be. -/
theorem exists_image_of_build {request : Request ℝ} (hserves : c.Serves request) :
    ∃ image : Image ℝ, image.Renders s.imageSide s.imageScale ∧ c.Draws request image := by
  obtain ⟨turbulence, -, -, hexposure, hkick, -⟩ := build_eq_ok_iff.1 hbuild
  cases request with
  | exposure cutoff =>
      obtain ⟨image, himage, hrenders⟩ := Exposure.exists_image hexposure hserves cutoff
      exact ⟨image, hrenders, Exposure.yields_draw himage⟩
  | kick cutoff =>
      obtain ⟨exposed, hexposed, hrenders⟩ := Kick.exists_image hkick hserves cutoff
      exact ⟨exposed.image, hrenders, Kick.yields_draw hexposed⟩

theorem exists_images_of_build {requests : List (Request ℝ)}
    (hserves : ∀ request ∈ requests, c.Serves request) :
    ∃ images : List (Image ℝ), List.Forall₂ (fun request image =>
      image.Renders s.imageSide s.imageScale ∧ c.Draws request image) requests images := by
  induction requests with
  | nil => exact ⟨[], .nil⟩
  | cons request requests ih =>
      rw [List.forall_mem_cons] at hserves
      obtain ⟨image, himage⟩ := exists_image_of_build hbuild hserves.1
      obtain ⟨images, himages⟩ := ih hserves.2
      exact ⟨image :: images, .cons himage himages⟩

/-- What a long exposure takes is more than what a second kick takes. -/
theorem serves_of_drawable (hdrawable : c.exposure.Drawable) (request : Request ℝ) :
    c.Serves request := by
  cases request with
  | exposure cutoff => exact hdrawable
  | kick cutoff => exact ((drawable_iff_of_build hbuild).1 hdrawable).1

theorem answer_of_not_serves {request : Request ℝ} (hserves : ¬c.Serves request)
    (log : Array (Record ℝ)) :
    ((c.answer (m := Logged ℝ) request).run log).1 = .error .crash := by
  obtain ⟨turbulence, -, -, hexposure, -, -⟩ := build_eq_ok_iff.1 hbuild
  cases request with
  | exposure cutoff =>
      exact (Exposure.fst_draw _ _ _).trans (Exposure.image_of_not_drawable hexposure hserves)
  | kick cutoff =>
      have himage : c.kick.image cutoff = .error .crash := if_neg hserves
      rw [Comparison.answer, Kick.draw, himage]
      rfl

/-- The images of a comparison that was built are drawn whenever they are asked for, in any order
and however often, each with the pixels of the settings and with no negative one. A run makes a
point at each of its four cutoffs, and only the saving of the figure can fail. All of this needs
arrays that there can be, for the pupil and the image and, but for second kicks, for the screens.
Where there can be the image but not the others, the draw crashes. -/
theorem completes_of_build :
    ((∀ a, 0 < Scalar.sumArray (c.exposure.rawImage a).toArray) ∧
      ∀ cutoff, 0 < Scalar.sumArray (c.kick.rawImage cutoff).toArray) ∧
    c.cutoffs.length = 4 ∧
    (c.kick.Storable ↔ c.kick.pupil.side < 759250125 ∧ s.imageSide < 2 ^ 30) ∧
    (c.exposure.Drawable ↔ c.kick.Storable ∧ s.layerCount * 56 < 2 ^ 63 ∧
      s.screenSize / s.screenScale + 1 / 2 < 759250125) ∧
    (∀ requests : List (Request ℝ), (∀ request ∈ requests, c.Serves request) →
      ∃ images : List (Image ℝ),
        List.Forall₂ (fun request image =>
          image.Renders s.imageSide s.imageScale ∧ c.Draws request image) requests images ∧
        ∀ {m : Type → Type} [Monad m] [LawfulMonad m] [MonadLog ℝ m],
          Yields (requests.mapM (c.answer (m := m))) images) ∧
    (s.imageSide < 2 ^ 30 → ∀ request, ¬c.Serves request → ∀ log,
      ((c.answer (m := Logged ℝ) request).run log).1 = .error .crash) ∧
    (c.exposure.Drawable → ∃ image : Request ℝ → Image ℝ,
      (∀ request, (image request).Renders s.imageSide s.imageScale ∧
        c.Draws request (image request)) ∧
      ∀ {m : Type → Type} [Monad m] [LawfulMonad m] [MonadLog ℝ m],
        c.Completes m (c.cutoffs.map (c.moments.point image))) := by
  obtain ⟨-, hcutoffs, -⟩ := build_eq_ok_iff.1 hbuild
  refine ⟨flux_pos_of_build hbuild, length_of_cutoffs hcutoffs, storable_iff_of_build hbuild,
    drawable_iff_of_build hbuild, ?_, fun _ _ hserves => answer_of_not_serves hbuild hserves, ?_⟩
  · intro requests hserves
    obtain ⟨images, himages⟩ := exists_images_of_build hbuild hserves
    refine ⟨images, himages, ?_⟩
    intro m _ _ _
    exact yields_mapM (himages.imp fun _ _ himage => himage.2)
  · intro hdrawable
    choose image himage using fun request =>
      exists_image_of_build hbuild (serves_of_drawable hbuild hdrawable request)
    refine ⟨image, himage, ?_⟩
    intro m _ _ _
    exact Comparison.completes_of_yields
      (Comparison.yields_points fun request => (himage request).2)

end Built

section Coarse

variable [RandomSource ℝ] {strength screenSize : ℝ} {c : Comparison ℝ}
  (hbuild : (coarse strength screenSize).build = .ok c)

include hbuild

/-- In the coarse comparison only the screens can be too large. -/
theorem drawable_coarse_iff :
    c.exposure.Drawable ↔ screenSize * 2 + 1 / 2 < 759250125 := by
  obtain ⟨-, -, -, -, hkick, -⟩ := build_eq_ok_iff.1 hbuild
  obtain ⟨-, -, -, hpupil, -⟩ := KickSettings.build_eq_ok_iff.1 hkick
  rw [forImage_kick_coarse] at hpupil
  have hside := PupilSettings.side_of_build_coarse hpupil
  have hstorable : c.kick.Storable := by
    rw [storable_iff_of_build hbuild, hside]
    exact ⟨by norm_num, Nat.one_lt_two_pow (by norm_num)⟩
  have hratio : screenSize / (1 / 2) = screenSize * 2 := by rw [div_div_eq_mul_div, div_one]
  rw [drawable_iff_of_build hbuild, and_iff_right hstorable, and_iff_right]
  · exact iff_of_eq (congrArg (· + 1 / 2 < (759250125 : ℝ)) hratio)
  · norm_num [coarse]

end Coarse

/-- A run of the coarse comparison, after a second kick and two long exposures. -/
theorem completes_of_build_coarse : letI := countingSource
    ∃ c : Comparison ℝ, (coarse 2 1).build = .ok c ∧ c.cutoffs.length = 4 ∧
      (∃ first second third : Image ℝ, first.Renders 1 1 ∧ second.Renders 1 1 ∧
        third.Renders 1 1 ∧ c.Draws (.exposure 2) third ∧
        Yields ([.kick 1, .exposure 1, .exposure 2].mapM (c.answer (m := Logged ℝ)))
          [first, second, third]) ∧
      ∃ image : Request ℝ → Image ℝ, (∀ request, (image request).Renders 1 1) ∧
        c.Completes (Logged ℝ) (c.cutoffs.map (c.moments.point image)) := by
  let _ := countingSource
  obtain ⟨c, hc⟩ := exists_build_coarse two_pos le_rfl
  have hdrawable : c.exposure.Drawable := (drawable_coarse_iff hc).2 (by norm_num)
  obtain ⟨-, hlength, -, -, hsession, -, hrun⟩ := completes_of_build hc
  obtain ⟨images, himages, hyields⟩ := hsession [.kick 1, .exposure 1, .exposure 2]
    fun request _ => serves_of_drawable hc hdrawable request
  obtain ⟨image, hrenders, hcompletes⟩ := hrun hdrawable
  obtain _ | ⟨hfirst, _ | ⟨hsecond, _ | ⟨hthird, _ | _⟩⟩⟩ := himages
  exact ⟨c, hc, hlength, ⟨_, _, _, hfirst.1, hsecond.1, hthird.1, hthird.2, hyields⟩, image,
    fun request => (hrenders request).1, hcompletes⟩

/-- Through screens of 759250125 pixels along a side nothing is drawn. -/
theorem exists_draw_eq_crash : letI := countingSource
    ∃ c : Comparison ℝ, (coarse 1 (759250125 / 2)).build = .ok c ∧
      ((c.exposure.draw (m := Logged ℝ) 1).run #[]).1 = .error .crash := by
  let _ := countingSource
  obtain ⟨c, hc⟩ : ∃ c, (coarse 1 (759250125 / 2)).build = .ok c :=
    exists_build_coarse one_pos (by norm_num)
  have hvast : ¬c.exposure.Drawable := by
    rw [drawable_coarse_iff hc]
    norm_num
  have hserves : ¬c.Serves (.exposure 1) := hvast
  exact ⟨c, hc, answer_of_not_serves hc hserves #[]⟩

end ComparisonSettings

end Seeing
