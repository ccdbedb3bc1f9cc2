import Seeing.Proofs.Comparison.Run

/-!
# What a run comes to

A run of a comparison keeps records, and all else that it comes to is settled before it starts. The
image of a request is `Comparison.imageOf`, or the failure in its place, the point at a cutoff is
`Comparison.pointOf`, and those at all cutoffs are `Comparison.pointsOf`. Failures are outcomes here
as images are: `Notes` and `Settles` say of any action what `Yields` says of one that does not fail,
and that its records are the same in every monad.
-/

namespace Seeing

section Settles

variable {α ε β γ : Type}

/-- The action keeps the records and comes to the outcome, in every monad. -/
def Notes
    (x : ∀ {m : Type → Type} [Monad m] [LawfulMonad m] [MonadLog α m], ExceptT ε m β)
    (records : List (Record α)) (outcome : Except ε β) : Prop :=
  ∀ {m : Type → Type} [Monad m] [LawfulMonad m] [MonadLog α m],
    (x (m := m)).run = do
      forM records MonadLog.record
      pure outcome

theorem notes_mk (outcome : Except ε β) :
    Notes (α := α) (ExceptT.mk (pure outcome)) [] outcome := by
  intro m _ _ _
  simp [ExceptT.run, ExceptT.mk]

theorem notes_record (r : Record α) :
    Notes (ε := ε) (fun {m} => liftM (MonadLog.record r : m Unit)) [r] (.ok ()) := by
  intro m _ _ _
  simp

theorem notes_forM (records : List (Record α)) :
    Notes (ε := ε) (fun {m} => ExceptT.lift (forM records (MonadLog.record (m := m)))) records
      (.ok ()) := by
  intro m _ _ _
  simp

section Bind

variable {x : ∀ {m : Type → Type} [Monad m] [LawfulMonad m] [MonadLog α m], ExceptT ε m β}
  {f : ∀ {m : Type → Type} [Monad m] [LawfulMonad m] [MonadLog α m], β → ExceptT ε m γ}
  {before after : List (Record α)}

theorem Notes.bind_ok {b : β} {outcome : Except ε γ} (hx : Notes x before (.ok b))
    (hf : Notes (f b) after outcome) : Notes (x >>= f) (before ++ after) outcome := by
  intro m _ _ _
  rw [ExceptT.run_bind, hx, List.forM_append]
  simp [hf (m := m)]

/-- What would come after a failure is not done. -/
theorem Notes.bind_error {fault : ε} (hx : Notes x before (.error fault)) :
    Notes (x >>= f) before (.error fault) := by
  intro m _ _ _
  rw [ExceptT.run_bind, hx]
  simp

theorem Notes.adapt {δ : Type} {outcome : Except ε β} (hx : Notes x before outcome)
    (report : ε → δ) : Notes (ExceptT.adapt report x) before (outcome.mapError report) := by
  intro m _ _ _
  change Except.mapError report <$> (x (m := m)).run = _
  rw [hx]
  simp

end Bind

/-- The action keeps some records and comes to an outcome. Both are the same in every monad. -/
def Settles
    (x : ∀ {m : Type → Type} [Monad m] [LawfulMonad m] [MonadLog α m], ExceptT ε m β)
    (outcome : Except ε β) : Prop :=
  ∃ records : List (Record α), Notes x records outcome

theorem settles_mk (outcome : Except ε β) : Settles (α := α) (ExceptT.mk (pure outcome)) outcome :=
  ⟨[], notes_mk outcome⟩

theorem settles_record (r : Record α) :
    Settles (ε := ε) (fun {m} => liftM (MonadLog.record r : m Unit)) (.ok ()) :=
  ⟨[r], notes_record r⟩

theorem settles_size [Scalar α] (fit : MomentsFit α) (image : Image α) :
    Settles (ε := ε) (ExceptT.lift (fit.size image)) (.ok (fit.size? image)) := by
  simp only [MomentsFit.size, MomentsFit.size?]
  cases fit.find image with
  | ok shape =>
      refine ⟨[], ?_⟩
      intro m _ _ _
      simp [Except.toOption]
  | error e =>
      refine ⟨[.unmeasured e], ?_⟩
      intro m _ _ _
      simp [Except.toOption]

theorem Settles.bind
    {x : ∀ {m : Type → Type} [Monad m] [LawfulMonad m] [MonadLog α m], ExceptT ε m β}
    {f : ∀ {m : Type → Type} [Monad m] [LawfulMonad m] [MonadLog α m], β → ExceptT ε m γ}
    {outcome : Except ε β} {g : β → Except ε γ} (hx : Settles x outcome)
    (hf : ∀ b, Settles (f b) (g b)) : Settles (x >>= f) (outcome >>= g) := by
  obtain ⟨before, hx⟩ := hx
  cases outcome with
  | error e => exact ⟨before, hx.bind_error⟩
  | ok b =>
      obtain ⟨after, hf⟩ := hf b
      exact ⟨before ++ after, hx.bind_ok hf⟩

theorem settles_mapM
    {f : ∀ {m : Type → Type} [Monad m] [LawfulMonad m] [MonadLog α m], β → ExceptT ε m γ}
    {g : β → Except ε γ} (hf : ∀ b, Settles (f b) (g b)) (bs : List β) :
    Settles (bs.mapM f) (bs.mapM g) := by
  induction bs with
  | nil => exact settles_mk (.ok [])
  | cons b bs ih =>
      simp only [List.mapM_cons]
      exact (hf b).bind fun c => ih.bind fun cs => settles_mk (.ok (c :: cs))

end Settles

theorem sweep_eq_mapM {α : Type} {m : Type → Type} [Monad m] [LawfulMonad m]
    (exposure kick : α → m (Image α)) (size : Image α → m (Option α)) (cutoffs : List α) :
    sweep exposure kick size cutoffs = cutoffs.mapM (sweepPoint exposure kick size) := by
  induction cutoffs with
  | nil => rfl
  | cons cutoff cutoffs ih => rw [sweep, List.mapM_cons, ih]

/-- A list of checks gives a value for each of its members, or fails. -/
theorem mapM_eq_ok_iff {ε β γ : Type} {g : β → Except ε γ} {bs : List β} {cs : List γ} :
    bs.mapM g = .ok cs ↔ List.Forall₂ (fun b c => g b = .ok c) bs cs := by
  induction bs generalizing cs with
  | nil =>
      rw [List.mapM_nil, pure_eq_ok_iff, List.forall₂_nil_left_iff, eq_comm]
  | cons b bs ih =>
      simp only [List.mapM_cons, bind_eq_ok_iff, pure_eq_ok_iff, List.forall₂_cons_left_iff, ih]
      constructor
      · rintro ⟨c, hb, cs, hbs, rfl⟩
        exact ⟨c, cs, hb, hbs, rfl⟩
      · rintro ⟨c, cs, hb, hbs, rfl⟩
        exact ⟨c, hb, cs, hbs, rfl⟩

namespace Comparison

variable {α : Type} [Scalar α] [RandomSource α] (c : Comparison α)

/-- The image of a request, or the failure in its place. -/
def imageOf : Request α → Except (Failure (Error α)) (Image α)
  | .exposure cutoff => c.exposure.image cutoff
  | .kick cutoff => c.kick.image cutoff >>= fun exposed => .ok exposed.image

/-- The point at a cutoff, or the failure in its place. -/
def pointOf : α → Except (Failure (Error α)) (SweepPoint α) :=
  sweepPoint (fun cutoff => c.imageOf (.exposure cutoff)) (fun cutoff => c.imageOf (.kick cutoff))
    fun image => .ok (c.moments.size? image)

/-- The points at all cutoffs, or the first failure in their place. -/
def pointsOf : Except (Failure (Error α)) (List (SweepPoint α)) := c.cutoffs.mapM c.pointOf

variable {c}

theorem settles_answer (request : Request α) :
    Settles (c.answer request) (c.imageOf request) := by
  cases request with
  | exposure cutoff =>
      simp only [answer, imageOf, Exposure.draw, Exposure.image]
      refine (settles_record _).bind (g := fun _ => _) fun _ => ?_
      cases c.exposure.instantiate? cutoff with
      | none => exact settles_mk (.error Failure.crash)
      | some a => exact (settles_record _).bind (g := fun _ => _) fun _ => settles_mk _
  | kick cutoff =>
      simp only [answer, imageOf, Kick.draw]
      refine (settles_record _).bind (g := fun _ => _) fun _ => ?_
      refine (settles_mk _).bind fun exposed => ?_
      exact (settles_record _).bind (g := fun _ => _) fun _ => settles_mk (.ok exposed.image)

theorem settles_sweepPoint (cutoff : α) :
    Settles
      (fun {m} => sweepPoint (fun cutoff => c.exposure.draw (m := m) cutoff)
        (fun cutoff => c.kick.draw (m := m) cutoff)
        (fun image => ExceptT.lift (c.moments.size image)) cutoff)
      (c.pointOf cutoff) :=
  (settles_answer (.exposure cutoff)).bind fun exposure =>
    (settles_answer (.kick cutoff)).bind fun kick =>
      (settles_size _ exposure).bind fun _ =>
        (settles_size _ kick).bind fun _ => settles_mk (.ok _)

/-- The images are drawn and measured with nothing left to chance or to what was done before. -/
theorem settles_points : Settles c.points c.pointsOf := by
  simp only [points, pointsOf, sweep_eq_mapM]
  exact settles_mapM settles_sweepPoint c.cutoffs

theorem cutoff_of_pointOf {cutoff : α} {p : SweepPoint α} (hp : c.pointOf cutoff = .ok p) :
    p.cutoff = cutoff := by
  simp only [pointOf, sweepPoint, bind_eq_ok_iff, pure_eq_ok_iff] at hp
  obtain ⟨_, -, _, -, _, -, _, -, rfl⟩ := hp
  rfl

theorem forall₂_of_pointsOf {points : List (SweepPoint α)} (hpoints : c.pointsOf = .ok points) :
    List.Forall₂ (fun cutoff p => c.pointOf cutoff = .ok p) c.cutoffs points :=
  mapM_eq_ok_iff.1 hpoints

theorem map_cutoff_of_pointsOf {points : List (SweepPoint α)} (hpoints : c.pointsOf = .ok points) :
    points.map (·.cutoff) = c.cutoffs := by
  replace hpoints := forall₂_of_pointsOf hpoints
  generalize c.cutoffs = cutoffs at hpoints
  induction hpoints with
  | nil => rfl
  | cons hp _ ih => rw [List.map_cons, ih, cutoff_of_pointOf hp]

theorem pointOf_of_mem {points : List (SweepPoint α)} (hpoints : c.pointsOf = .ok points)
    {p : SweepPoint α} (hp : p ∈ points) : c.pointOf p.cutoff = .ok p := by
  replace hpoints := forall₂_of_pointsOf hpoints
  generalize c.cutoffs = cutoffs at hpoints
  induction hpoints with
  | nil => cases hp
  | cons hhead _ ih =>
      rcases List.mem_cons.1 hp with rfl | hp
      · rwa [cutoff_of_pointOf hhead]
      · exact ih hp

/-- There are points if every image that is asked for is drawn. -/
theorem exists_pointsOf (himages : ∀ request, ∃ image, c.imageOf request = .ok image) :
    ∃ points, c.pointsOf = .ok points := by
  choose image himage using himages
  refine ⟨c.cutoffs.map (c.moments.point image), mapM_eq_ok_iff.2 ?_⟩
  rw [List.forall₂_map_right_iff, List.forall₂_same]
  intro cutoff _
  rw [pointOf, sweepPoint, himage, himage]
  rfl

/-- There can be the arrays that both methods take, the screens have pixels, and the focal grid of
the long exposure has a scale. -/
def Ready (c : Comparison α) : Prop :=
  (0 < c.exposure.atmosphere.screenSide ∧
    Storage.HoldsSquare c.exposure.atmosphere.screenSide Storage.amplitudeBytes) ∧
  c.exposure.Storable ∧ 0 < c.exposure.pupil.focalScale c.exposure.wavelength ∧ c.kick.Storable

omit [RandomSource α] in
instance (c : Comparison α) : Decidable c.Ready :=
  inferInstanceAs (Decidable ((_ ∧ _) ∧ _ ∧ _ ∧ _))

end Comparison

section Ready

variable {α : Type} [Scalar α]

theorem Image.exists_resample_of_blank {n count : Nat} {gridScale scale : α} {blank : Image α}
    (grid : Grid n n α) (hgrid : 0 < gridScale)
    (hblank : Image.blank count count scale = .ok blank) :
    ∃ image, Image.resample grid gridScale count scale = .ok image := by
  rw [Image.resample, if_neg (by simpa using hgrid), hblank]
  exact ⟨_, rfl⟩

variable [RandomSource α]

theorem Atmosphere.exists_instantiate? {a : Atmosphere α} (side_pos : 0 < a.screenSide)
    (hholds : Storage.HoldsSquare a.screenSide Storage.amplitudeBytes) (cutoff : α) :
    ∃ drawn, a.instantiate? cutoff = some drawn := by
  rw [instantiate?]
  split_ifs
  · exact ⟨_, rfl⟩
  · exact ⟨_, rfl⟩

theorem Kick.exists_shoot {k : Kick α} {blank : Image α}
    (hblank : Image.blank k.imageSide k.imageSide k.imageScale = .ok blank) (values : Array α)
    (s : RandomSource.State α) : ∃ exposed, (k.shoot values s).1 = .ok exposed := by
  rw [shoot, hblank]
  exact ⟨_, rfl⟩

/-- The images of a comparison that was built and is ready are drawn. -/
theorem ComparisonSettings.exists_pointsOf_of_build {s : ComparisonSettings α} {c : Comparison α}
    (hbuild : s.build = .ok c) (hready : c.Ready) : ∃ points, c.pointsOf = .ok points := by
  obtain ⟨⟨side_pos, hholds⟩, hexposureStorable, hfocal, hkickStorable⟩ := hready
  obtain ⟨turbulence, -, -, hexposure, hkick, -⟩ := build_eq_ok_iff.1 hbuild
  obtain ⟨-, ⟨blank, hblank⟩, -, -, he⟩ := ExposureSettings.build_eq_ok_iff.1 hexposure
  obtain ⟨-, -, ⟨blank', hblank'⟩, -, hk⟩ := KickSettings.build_eq_ok_iff.1 hkick
  refine Comparison.exists_pointsOf fun request => ?_
  cases request with
  | exposure cutoff =>
      obtain ⟨a, ha⟩ := Atmosphere.exists_instantiate? side_pos hholds (cutoff / c.exposure.r0)
      have hpixels : Image.blank c.exposure.imageSide c.exposure.imageSide c.exposure.imageScale =
          .ok blank := by
        rw [he]
        exact hblank
      obtain ⟨image, himage⟩ := Image.exists_resample_of_blank (c.exposure.focalImage a) hfocal
        hpixels
      refine ⟨image, ?_⟩
      rw [Comparison.imageOf, Exposure.image, Exposure.instantiate?, ha]
      exact (if_pos hexposureStorable).trans
        (Failure.ofExcept_eq_ok_iff.2 (mapError_eq_ok_iff.2 himage))
  | kick cutoff =>
      have hpixels : Image.blank c.kick.imageSide c.kick.imageSide c.kick.imageScale =
          .ok blank' := by
        rw [hk]
        exact hblank'
      obtain ⟨exposed, hexposed⟩ := Kick.exists_shoot hpixels (c.kick.focalImage cutoff).toArray
        (RandomSource.ofSeed c.kick.seed)
      refine ⟨exposed.image, ?_⟩
      rw [Comparison.imageOf, Kick.image, if_pos hkickStorable, hexposed]
      rfl

end Ready

end Seeing
