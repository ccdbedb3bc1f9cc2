import Seeing.Proofs.Atmosphere.Session
import Seeing.Proofs.Comparison.Settled

/-!
# Draws that do not meddle

The winds, the screens and the photons of a comparison come from streams of their own, and each
draw starts its stream anew. A draw therefore leaves the comparison as it was, `Keeps`, and a
session of draws, whether they fail or not, comes to what each of them comes to by itself,
`run_serveAll`. Two comparisons whose settings agree in what a method is built from draw the same
images with it: `draws_independent`.
-/

namespace Seeing

section Keeps

variable {α σ β γ : Type} {m : Type → Type} [Monad m]

/-- The action leaves what is kept, `s`, as it is. To all else it does what `y` does. -/
def Keeps (s : σ) (x : Keeping α σ m β) (y : ExceptT (Failure (Error α)) m β) : Prop :=
  x.run.run s = (·, s) <$> y.run

variable [LawfulMonad m] {s : σ}

theorem keeps_mk (outcome : Except (Failure (Error α)) β) :
    Keeps s (ExceptT.mk (pure outcome) : Keeping α σ m β) (ExceptT.mk (pure outcome)) := by
  simp [Keeps, ExceptT.run, ExceptT.mk]

theorem keeps_get {f : σ → Keeping α σ m β} {y : ExceptT (Failure (Error α)) m β}
    (hf : Keeps s (f s) y) : Keeps s (get >>= f) y := by
  have hget : (ExceptT.run (get : Keeping α σ m σ)).run s = pure (.ok s, s) := by
    change (Except.ok <$> (get : StateT σ m σ)).run s = _
    simp
  rw [Keeps, ExceptT.run_bind, StateT.run_bind, hget, pure_bind]
  exact hf

theorem Keeps.bind {x : Keeping α σ m β} {y : ExceptT (Failure (Error α)) m β}
    {f : β → Keeping α σ m γ} {g : β → ExceptT (Failure (Error α)) m γ} (hx : Keeps s x y)
    (hf : ∀ b, Keeps s (f b) (g b)) : Keeps s (x >>= f) (y >>= g) := by
  rw [Keeps, ExceptT.run_bind, StateT.run_bind, hx, ExceptT.run_bind, bind_map_left, map_bind]
  congr 1
  funext outcome
  cases outcome with
  | error e => simp
  | ok b => exact hf b

theorem keeps_mapM {f : β → Keeping α σ m γ} {g : β → ExceptT (Failure (Error α)) m γ}
    (hf : ∀ b, Keeps s (f b) (g b)) (bs : List β) : Keeps s (bs.mapM f) (bs.mapM g) := by
  induction bs with
  | nil => exact keeps_mk (.ok [])
  | cons b bs ih =>
      rw [List.mapM_cons, List.mapM_cons]
      exact (hf b).bind fun c => ih.bind fun cs => keeps_mk (.ok (c :: cs))

variable [MonadLog α m]

theorem keeps_record (r : Record α) :
    Keeps s (liftM (MonadLog.record r : m Unit) : Keeping α σ m Unit)
      (liftM (MonadLog.record r : m Unit)) := by
  simp [Keeps]

theorem keeps_size [Scalar α] (fit : MomentsFit α) (image : Image α) :
    Keeps s (ExceptT.lift (fit.size image) : Keeping α σ m (Option α))
      (ExceptT.lift (fit.size image)) := by
  rw [MomentsFit.size, MomentsFit.size]
  cases fit.find image <;> simp [Keeps, MonadLog.record]

end Keeps

/-- In the end a log shows no more than what an action comes to. -/
theorem fst_run_of_settles {α ε β : Type}
    {x : ∀ {m : Type → Type} [Monad m] [LawfulMonad m] [MonadLog α m], ExceptT ε m β}
    {outcome : Except ε β} (hx : Settles x outcome) (log : Array (Record α)) :
    ((x (m := Logged α)).run.run log).1 = outcome := by
  obtain ⟨records, hx⟩ := hx
  rw [hx]
  rfl

variable {α : Type} [Scalar α] [RandomSource α]

section Methods

variable {m : Type → Type} [Monad m] [LawfulMonad m] [MonadLog α m]

theorem Exposure.keeps_drawKept (e : Exposure α) (cutoff : α) :
    Keeps e (drawKept (m := m) cutoff) (e.draw cutoff) := by
  rw [drawKept, draw, instantiate?]
  refine keeps_get ((keeps_record _).bind fun _ => ?_)
  rw [Atmosphere.run_instantiate]
  cases e.atmosphere.instantiate? (cutoff / e.r0) with
  | none => exact keeps_mk _
  | some a => exact (keeps_record _).bind fun _ => keeps_mk _

theorem Kick.keeps_drawKept (k : Kick α) (cutoff : α) :
    Keeps k (drawKept (m := m) cutoff) (k.draw cutoff) := by
  rw [drawKept, draw, image]
  exact keeps_get ((keeps_record _).bind fun _ => (keeps_mk _).bind fun exposed =>
    (keeps_record _).bind fun _ => keeps_mk (.ok exposed.image))

namespace Comparison

theorem keeps_serve (c : Comparison α) (request : Request α) :
    Keeps c (serve (m := m) request) (c.answer request) := by
  cases request with
  | exposure cutoff =>
      have hdraw := c.exposure.keeps_drawKept (m := m) cutoff
      rw [Keeps] at hdraw
      simp [Keeps, serve, answer, hdraw]
  | kick cutoff =>
      have hdraw := c.kick.keeps_drawKept (m := m) cutoff
      rw [Keeps] at hdraw
      simp [Keeps, serve, answer, hdraw]

theorem run_serveAll (c : Comparison α) (requests : List (Request α)) :
    (serveAll (m := m) requests).run c =
      (·, c) <$> requests.mapM fun request => (c.answer request).run := by
  induction requests with
  | nil => simp [serveAll]
  | cons request requests ih =>
      have hserve := c.keeps_serve (m := m) request
      rw [Keeps] at hserve
      rw [serveAll] at ih
      simp [serveAll, hserve, ih]

theorem keeps_sweepKept (c : Comparison α) : Keeps c (sweepKept (m := m)) c.points := by
  refine keeps_get ?_
  rw [points, sweep_eq_mapM, sweep_eq_mapM]
  refine keeps_mapM (fun cutoff => ?_) c.cutoffs
  exact (c.keeps_serve (.exposure cutoff)).bind fun exposure =>
    (c.keeps_serve (.kick cutoff)).bind fun kick =>
      (keeps_size _ exposure).bind fun _ => (keeps_size _ kick).bind fun _ => keeps_mk (.ok _)

end Comparison

end Methods

namespace Comparison

/-- An image that is drawn after others, or its failure, and the comparison that is left. -/
def drawAfter (c : Comparison α) (log : Array (Record α)) (earlier : List (Request α))
    (request : Request α) : Except (Failure (Error α)) (Image α) × Comparison α :=
  let session : StateT (Comparison α) (Logged α) (Except (Failure (Error α)) (Image α)) := do
    let _ ← serveAll earlier
    (serve request).run
  ((session.run c).run log).1

theorem drawAfter_eq (c : Comparison α) (log : Array (Record α)) (earlier : List (Request α))
    (request : Request α) : c.drawAfter log earlier request = (c.imageOf request, c) := by
  have hserve := c.keeps_serve (m := Logged α) request
  rw [Keeps] at hserve
  simp only [drawAfter, StateT.run_bind, run_serveAll, bind_map_left, hserve]
  exact congrArg (·, c) (fst_run_of_settles (settles_answer request) _)

end Comparison

namespace ComparisonSettings

variable {s s' : ComparisonSettings α} {c c' : Comparison α}

theorem exposure_eq_of_build (hbuild : s.build = .ok c) (hbuild' : s'.build = .ok c')
    (hturbulence : s.turbulence = s'.turbulence)
    (hexposure : ∀ turbulence,
      s.exposure (s.atmosphere turbulence) = s'.exposure (s'.atmosphere turbulence)) :
    c.exposure = c'.exposure := by
  obtain ⟨turbulence, -, hbuilt, hbuilds, -⟩ := build_eq_ok_iff.1 hbuild
  obtain ⟨turbulence', -, hbuilt', hbuilds', -⟩ := build_eq_ok_iff.1 hbuild'
  rw [hturbulence, hbuilt', Except.ok.injEq] at hbuilt
  rw [hexposure, ← hbuilt, hbuilds', Except.ok.injEq] at hbuilds
  exact hbuilds.symm

theorem kick_eq_of_build_of_eq (hbuild : s.build = .ok c) (hbuild' : s'.build = .ok c')
    (hkick : s.kick = s'.kick) : c.kick = c'.kick := by
  obtain ⟨_, -, -, -, hbuilds, -⟩ := build_eq_ok_iff.1 hbuild
  obtain ⟨_, -, -, -, hbuilds', -⟩ := build_eq_ok_iff.1 hbuild'
  rw [hkick, hbuilds', Except.ok.injEq] at hbuilds
  exact hbuilds.symm

/-- What a comparison draws does not depend on what else it was built for, nor on what was drawn
before. The long exposures of two comparisons are the same if their settings differ only in the
number of photons, the range of cutoffs and the path of the figure. Their second kicks are the same
if the settings differ only in the layers, the winds, the outer scale, the size of the screens, the
times, the range of cutoffs and the path of the figure. Draws leave a comparison as it was. A run is
one of methods that are kept, and where it has two points at one cutoff these are the same. -/
theorem draws_independent (hbuild : s.build = .ok c) (hbuild' : s'.build = .ok c') :
    (s' =
        { s with
          photonCount := s'.photonCount
          firstCutoff := s'.firstCutoff
          lastCutoff := s'.lastCutoff
          figurePath := s'.figurePath } →
      ∀ cutoff log log' earlier earlier',
        (c.drawAfter log earlier (.exposure cutoff)).1 =
          (c'.drawAfter log' earlier' (.exposure cutoff)).1) ∧
    (s' =
        { s with
          layerCount := s'.layerCount
          reference := s'.reference
          maxSpeed := s'.maxSpeed
          outerScale := s'.outerScale
          screenSize := s'.screenSize
          exposureTime := s'.exposureTime
          timeStep := s'.timeStep
          firstCutoff := s'.firstCutoff
          lastCutoff := s'.lastCutoff
          figurePath := s'.figurePath } →
      ∀ cutoff log log' earlier earlier',
        (c.drawAfter log earlier (.kick cutoff)).1 =
          (c'.drawAfter log' earlier' (.kick cutoff)).1) ∧
    (∀ log earlier request, (c.drawAfter log earlier request).2 = c) ∧
    ∀ log, ∃ outcome, ((c.points (m := Logged α)).run.run log).1 = outcome ∧
      ((Comparison.sweepKept.run.run c : Logged α _).run log).1 = (outcome, c) ∧
      ∀ points, outcome = .ok points →
        ∀ p ∈ points, ∀ p' ∈ points, p.cutoff = p'.cutoff → p = p' := by
  simp only [Comparison.drawAfter_eq, implies_true, true_and]
  refine ⟨?_, ?_, ?_⟩
  · intro hs cutoff _ _ _ _
    have hexposure : c.exposure = c'.exposure :=
      exposure_eq_of_build hbuild hbuild' (by rw [hs]; rfl) (by rw [hs]; exact fun _ => rfl)
    rw [Comparison.imageOf, Comparison.imageOf, hexposure]
  · intro hs cutoff _ _ _ _
    have hkick : c.kick = c'.kick := kick_eq_of_build_of_eq hbuild hbuild' (by rw [hs]; rfl)
    rw [Comparison.imageOf, Comparison.imageOf, hkick]
  · intro log
    have hsettled := fst_run_of_settles c.settles_points log
    refine ⟨_, hsettled, ?_, ?_⟩
    · have hkeeps := c.keeps_sweepKept (m := Logged α)
      rw [Keeps] at hkeeps
      rw [hkeeps]
      exact congrArg (·, c) hsettled
    · intro points hpoints p hp p' hp' hcutoff
      have hpoint := Comparison.pointOf_of_mem hpoints hp
      rw [hcutoff, Comparison.pointOf_of_mem hpoints hp', Except.ok.injEq] at hpoint
      exact hpoint.symm

/-- Between ends that are the same there is one cutoff. -/
theorem eq_of_mem_cutoffs_self {first : ℝ} {grid : List ℝ}
    (hcutoffs : cutoffs first first = .ok grid) {x y : ℝ} (hx : x ∈ grid) (hy : y ∈ grid) :
    x = y := by
  rw [cutoffs] at hcutoffs
  split_ifs at hcutoffs
  simp only [sub_self, zero_div, mul_zero, Except.ok.injEq] at hcutoffs
  simp only [← hcutoffs, List.mem_map] at hx hy
  obtain ⟨_, -, rfl⟩ := hx
  obtain ⟨_, -, rfl⟩ := hy
  rfl

/-- The coarse comparison, one with more photons, and one with larger screens. At the only cutoff of
the first one, all of its points are the same. -/
theorem draws_independent_coarse : letI := countingSource
    ∃ c c₇ c₂ : Comparison ℝ, (coarse 2 1).build = .ok c ∧
      { coarse 2 1 with photonCount := 7 }.build = .ok c₇ ∧ (coarse 2 2).build = .ok c₂ ∧
      (∀ cutoff, (c.drawAfter #[] [.kick 1] (.exposure cutoff)).1 =
        (c₇.drawAfter #[] [] (.exposure cutoff)).1) ∧
      (∀ cutoff, (c.drawAfter #[] [.exposure 1] (.kick cutoff)).1 =
        (c₂.drawAfter #[] [] (.kick cutoff)).1) ∧
      ∃ points, ((c.points (m := Logged ℝ)).run.run #[]).1 = .ok points ∧ points.length = 4 ∧
        ∀ p ∈ points, ∀ p' ∈ points, p = p' := by
  let _ := countingSource
  obtain ⟨c, hc⟩ := exists_build_coarse two_pos le_rfl
  obtain ⟨c₂, hc₂⟩ := exists_build_coarse two_pos one_le_two
  obtain ⟨turbulence, hcutoffs, hturbulence, hexposure, -⟩ := build_eq_ok_iff.1 hc
  have hc₇ := build_of_parts (s := { coarse 2 1 with photonCount := 7 }) hcutoffs hturbulence
    hexposure (build_kick_eq_ok hexposure (Nat.succ_ne_zero 6))
  obtain ⟨hphotons, -, -, -⟩ := draws_independent hc hc₇
  obtain ⟨-, hscreens, -, hrun⟩ := draws_independent hc hc₂
  obtain ⟨outcome, houtcome, -, hsame⟩ := hrun #[]
  have hdrawable : c.exposure.Drawable := (drawable_coarse_iff hc).2 (by norm_num)
  choose image _ hyields using fun request =>
    exists_image_of_build hc (serves_of_drawable hc hdrawable request)
  have hpoints : outcome = .ok (c.cutoffs.map (c.moments.point image)) := by
    obtain ⟨records, hdrawn⟩ := Comparison.yields_points (m := Logged ℝ) fun request =>
      hyields request
    rw [← houtcome, hdrawn]
    rfl
  refine ⟨c, _, c₂, hc, hc₇, hc₂, fun cutoff => hphotons rfl cutoff _ _ _ _,
    fun cutoff => hscreens rfl cutoff _ _ _ _, _, houtcome.trans hpoints, ?_, ?_⟩
  · rw [List.length_map, length_of_cutoffs hcutoffs, cutoffCount]
  · intro p hp p' hp'
    have hmem : ∀ q ∈ c.cutoffs.map (c.moments.point image), q.cutoff ∈ c.cutoffs := by
      intro q hq
      obtain ⟨cutoff, hcutoff, rfl⟩ := List.mem_map.1 hq
      exact hcutoff
    exact hsame _ hpoints p hp p' hp' (eq_of_mem_cutoffs_self hcutoffs (hmem p hp) (hmem p' hp'))

end ComparisonSettings

end Seeing
