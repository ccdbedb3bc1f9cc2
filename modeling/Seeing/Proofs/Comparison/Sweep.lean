import Seeing.Comparison.Sweep
import Seeing.Cutoff
import Seeing.Proofs.Real

/-!
# The course of a sweep

A sweep is run here with any two methods and any measurement, each with a state of its own, and
with a record of all calls. A method that draws a list of images goes from state to state by
itself, `Draws`, whatever the other one does. One cutoff after the other, a sweep makes points of
what the two draw, `run_append`, until all cutoffs are done or one of the methods fails. These are
the three ways in which a sweep ends, `Ends`, and it ends in no other.
-/

namespace Seeing

theorem length_of_cutoffs {α : Type} [Scalar α] {first last : α} {grid : List α}
    (hcutoffs : cutoffs first last = .ok grid) : grid.length = cutoffCount := by
  rw [cutoffs] at hcutoffs
  split_ifs at hcutoffs
  cases hcutoffs
  rw [List.length_map, List.length_range]

/-- What a sweep asks of its instruments. -/
inductive Call (α : Type) where
  /-- A long exposure at a cutoff. -/
  | exposure (cutoff : α)
  /-- A second kick at a cutoff. -/
  | kick (cutoff : α)
  /-- The size of an image. -/
  | size (image : Image α)

/-- The calls that a point of a sweep takes: both images are drawn before they are measured. -/
def SweepPoint.calls {α : Type} (p : SweepPoint α) : List (Call α) :=
  [.exposure p.cutoff, .kick p.cutoff, .size p.exposure, .size p.kick]

/-- A method with a state of its own. At a cutoff it draws an image or fails, and either way it
leaves a state. -/
abbrev Method (α ε σ : Type) := α → σ → Except ε (Image α) × σ

/-- The first method and the second one, and the measurement, which gives a size or none. -/
structure Instruments (α ε σ τ ρ : Type) where
  /-- The method that draws long exposures. -/
  exposure : Method α ε σ
  /-- The method that draws second kicks. -/
  kick : Method α ε τ
  /-- The measurement. -/
  size : Image α → ρ → Option α × ρ

/-- The states of the instruments, with the calls that were made. -/
structure Bench (α σ τ ρ : Type) where
  /-- The state of the first method. -/
  exposure : σ
  /-- The state of the second method. -/
  kick : τ
  /-- The state of the measurement. -/
  size : ρ
  /-- The calls, the first one first. -/
  calls : List (Call α)

/-- The images that a method draws at some cutoffs, and the state it goes to by itself. -/
inductive Draws {α ε σ : Type} (method : Method α ε σ) :
    σ → List α → List (Image α) → σ → Prop where
  /-- Nothing is drawn. -/
  | nil (s : σ) : Draws method s [] [] s
  /-- An image is drawn, and then the others. -/
  | cons {s s₁ s₂ : σ} {cutoff : α} {cutoffs : List α} {image : Image α}
      {images : List (Image α)} (first : method cutoff s = (.ok image, s₁))
      (rest : Draws method s₁ cutoffs images s₂) :
      Draws method s (cutoff :: cutoffs) (image :: images) s₂

/-- The sizes of the images of some points, in the order of the points. -/
inductive Measures {α ρ : Type} (size : Image α → ρ → Option α × ρ) :
    ρ → List (SweepPoint α) → ρ → Prop where
  /-- Nothing is measured. -/
  | nil (r : ρ) : Measures size r [] r
  /-- Both images of a point are measured, and then those of the others. -/
  | cons {r r₁ r₂ r₃ : ρ} {p : SweepPoint α} {points : List (SweepPoint α)}
      (exposure : size p.exposure r = (p.exposureSize, r₁))
      (kick : size p.kick r₁ = (p.kickSize, r₂)) (rest : Measures size r₂ points r₃) :
      Measures size r (p :: points) r₃

namespace Instruments

variable {α ε σ τ ρ : Type} (c : Instruments α ε σ τ ρ)

/-- The first method at work. -/
def drawExposure (cutoff : α) : ExceptT ε (StateM (Bench α σ τ ρ)) (Image α) := fun b =>
  ((c.exposure cutoff b.exposure).1,
    { b with
      exposure := (c.exposure cutoff b.exposure).2
      calls := b.calls ++ [.exposure cutoff] })

/-- The second method at work. -/
def drawKick (cutoff : α) : ExceptT ε (StateM (Bench α σ τ ρ)) (Image α) := fun b =>
  ((c.kick cutoff b.kick).1,
    { b with
      kick := (c.kick cutoff b.kick).2
      calls := b.calls ++ [.kick cutoff] })

/-- The measurement at work. -/
def measure (image : Image α) : ExceptT ε (StateM (Bench α σ τ ρ)) (Option α) := fun b =>
  (.ok (c.size image b.size).1,
    { b with
      size := (c.size image b.size).2
      calls := b.calls ++ [.size image] })

/-- The result of a sweep over some cutoffs, and the states and calls it leaves. -/
def run (cutoffs : List α) (b : Bench α σ τ ρ) :
    Except ε (List (SweepPoint α)) × Bench α σ τ ρ :=
  (sweep c.drawExposure c.drawKick c.measure cutoffs).run b

/-- The points are those of what the instruments draw and measure from the states of a bench, each
going to a state of its own. -/
structure Makes (b : Bench α σ τ ρ) (points : List (SweepPoint α)) (s : σ) (t : τ) (r : ρ) :
    Prop where
  exposures : Draws c.exposure b.exposure (points.map (·.cutoff)) (points.map (·.exposure)) s
  kicks : Draws c.kick b.kick (points.map (·.cutoff)) (points.map (·.kick)) t
  sizes : Measures c.size b.size points r

/-- How a sweep over some cutoffs ends. -/
inductive Ends (b : Bench α σ τ ρ) :
    List α → Except ε (List (SweepPoint α)) × Bench α σ τ ρ → Prop where
  /-- There is a point at every cutoff. -/
  | complete {points : List (SweepPoint α)} {s : σ} {t : τ} {r : ρ}
      (makes : c.Makes b points s t r) :
      Ends b (points.map (·.cutoff)) (.ok points, ⟨s, t, r, b.calls ++ points.flatMap (·.calls)⟩)
  /-- After some points the first method fails. The second one is not asked any more. -/
  | exposureFails {points : List (SweepPoint α)} {s s' : σ} {t : τ} {r : ρ} {cutoff : α} {e : ε}
      (makes : c.Makes b points s t r) (fails : c.exposure cutoff s = (.error e, s'))
      (later : List α) :
      Ends b (points.map (·.cutoff) ++ cutoff :: later)
        (.error e, ⟨s', t, r, b.calls ++ points.flatMap (·.calls) ++ [.exposure cutoff]⟩)
  /-- After some points the first method draws an image and the second one fails. The image is not
  measured. -/
  | kickFails {points : List (SweepPoint α)} {s s' : σ} {t t' : τ} {r : ρ} {cutoff : α}
      {image : Image α} {e : ε} (makes : c.Makes b points s t r)
      (draws : c.exposure cutoff s = (.ok image, s')) (fails : c.kick cutoff t = (.error e, t'))
      (later : List α) :
      Ends b (points.map (·.cutoff) ++ cutoff :: later)
        (.error e,
          ⟨s', t', r, b.calls ++ points.flatMap (·.calls) ++ [.exposure cutoff, .kick cutoff]⟩)

section Chain

variable {S β γ : Type} {x : ExceptT ε (StateM S) β} {f : β → ExceptT ε (StateM S) γ} {s s₁ : S}

theorem run_bind_of_ok {a : β} (hx : x.run s = (.ok a, s₁)) :
    (x >>= f).run s = (f a).run s₁ := by
  change ExceptT.bindCont f (x.run s).1 (x.run s).2 = _
  rw [hx]
  rfl

theorem run_bind_of_error {e : ε} (hx : x.run s = (.error e, s₁)) :
    (x >>= f).run s = (.error e, s₁) := by
  change ExceptT.bindCont f (x.run s).1 (x.run s).2 = _
  rw [hx]
  rfl

end Chain

variable {c} {b : Bench α σ τ ρ}

section Step

variable {cutoff : α} {cutoffs : List α}

theorem run_drawExposure (b : Bench α σ τ ρ) {drawn : Except ε (Image α)} {s : σ}
    (hdrawn : c.exposure cutoff b.exposure = (drawn, s)) :
    (c.drawExposure cutoff).run b =
      (drawn, { b with exposure := s, calls := b.calls ++ [.exposure cutoff] }) := by
  change ((c.exposure cutoff b.exposure).1, _) = _
  rw [hdrawn]

theorem run_drawKick (b : Bench α σ τ ρ) {drawn : Except ε (Image α)} {t : τ}
    (hdrawn : c.kick cutoff b.kick = (drawn, t)) :
    (c.drawKick cutoff).run b =
      (drawn, { b with kick := t, calls := b.calls ++ [.kick cutoff] }) := by
  change ((c.kick cutoff b.kick).1, _) = _
  rw [hdrawn]

theorem run_measure (b : Bench α σ τ ρ) {image : Image α} {size : Option α} {r : ρ}
    (hsize : c.size image b.size = (size, r)) :
    (c.measure image).run b =
      (.ok size, { b with size := r, calls := b.calls ++ [.size image] }) := by
  change (Except.ok (c.size image b.size).1, _) = _
  rw [hsize]

/-- The point at the first cutoff goes before those at the others. -/
theorem run_cons_of_ok {p : SweepPoint α} {s : σ} {t : τ} {r r₁ : ρ}
    (hexposure : c.exposure p.cutoff b.exposure = (.ok p.exposure, s))
    (hkick : c.kick p.cutoff b.kick = (.ok p.kick, t))
    (hsize : c.size p.exposure b.size = (p.exposureSize, r₁))
    (hsize₁ : c.size p.kick r₁ = (p.kickSize, r)) :
    c.run (p.cutoff :: cutoffs) b =
      ((c.run cutoffs ⟨s, t, r, b.calls ++ p.calls⟩).1.map (p :: ·),
        (c.run cutoffs ⟨s, t, r, b.calls ++ p.calls⟩).2) := by
  have hpoint : (sweepPoint c.drawExposure c.drawKick c.measure p.cutoff).run b =
      (.ok p, ⟨s, t, r, b.calls ++ p.calls⟩) := by
    rw [sweepPoint, run_bind_of_ok (run_drawExposure b hexposure),
      run_bind_of_ok (run_drawKick ⟨s, b.kick, b.size, _⟩ hkick),
      run_bind_of_ok (run_measure ⟨s, t, b.size, _⟩ hsize),
      run_bind_of_ok (run_measure ⟨s, t, r₁, _⟩ hsize₁)]
    simp only [List.append_assoc]
    rfl
  rw [run, sweep, run_bind_of_ok hpoint]
  cases hrest : c.run cutoffs ⟨s, t, r, b.calls ++ p.calls⟩ with
  | mk result b₁ =>
      cases result with
      | error e => exact run_bind_of_error hrest
      | ok points => exact run_bind_of_ok hrest

theorem run_cons_of_exposure_error {e : ε} {s : σ}
    (hexposure : c.exposure cutoff b.exposure = (.error e, s)) :
    c.run (cutoff :: cutoffs) b =
      (.error e, ⟨s, b.kick, b.size, b.calls ++ [.exposure cutoff]⟩) := by
  rw [run, sweep, run_bind_of_error]
  rw [sweepPoint, run_bind_of_error (run_drawExposure b hexposure)]

theorem run_cons_of_kick_error {image : Image α} {e : ε} {s : σ} {t : τ}
    (hexposure : c.exposure cutoff b.exposure = (.ok image, s))
    (hkick : c.kick cutoff b.kick = (.error e, t)) :
    c.run (cutoff :: cutoffs) b =
      (.error e, ⟨s, t, b.size, b.calls ++ [.exposure cutoff, .kick cutoff]⟩) := by
  rw [run, sweep, run_bind_of_error]
  rw [sweepPoint, run_bind_of_ok (run_drawExposure b hexposure),
    run_bind_of_error (run_drawKick ⟨s, b.kick, b.size, _⟩ hkick), List.append_assoc]
  rfl

end Step

section Course

theorem run_nil (b : Bench α σ τ ρ) : c.run [] b = (.ok [], b) := rfl

theorem makes_nil (b : Bench α σ τ ρ) : c.Makes b [] b.exposure b.kick b.size :=
  ⟨.nil _, .nil _, .nil _⟩

/-- Making points begins with making the first one. -/
theorem makes_cons_iff {p : SweepPoint α} {points : List (SweepPoint α)} {s : σ} {t : τ}
    {r : ρ} : c.Makes b (p :: points) s t r ↔
      ∃ s₁ t₁ r₁ r₂, c.exposure p.cutoff b.exposure = (.ok p.exposure, s₁) ∧
        c.kick p.cutoff b.kick = (.ok p.kick, t₁) ∧
        c.size p.exposure b.size = (p.exposureSize, r₁) ∧
        c.size p.kick r₁ = (p.kickSize, r₂) ∧
        c.Makes ⟨s₁, t₁, r₂, b.calls ++ p.calls⟩ points s t r := by
  constructor
  · rintro ⟨hexposures, hkicks, hsizes⟩
    cases hexposures with
    | cons hexposure hexposures =>
        cases hkicks with
        | cons hkick hkicks =>
            cases hsizes with
            | cons hsize hsize₁ hsizes =>
                exact ⟨_, _, _, _, hexposure, hkick, hsize, hsize₁, hexposures, hkicks, hsizes⟩
  · rintro ⟨s₁, t₁, r₁, r₂, hexposure, hkick, hsize, hsize₁, hexposures, hkicks, hsizes⟩
    exact ⟨.cons hexposure hexposures, .cons hkick hkicks, .cons hsize hsize₁ hsizes⟩

/-- A sweep goes on with the later cutoffs from the states that its points leave. -/
theorem run_append {points : List (SweepPoint α)} {s : σ} {t : τ} {r : ρ}
    (hmakes : c.Makes b points s t r) (later : List α) :
    c.run (points.map (·.cutoff) ++ later) b =
      ((c.run later ⟨s, t, r, b.calls ++ points.flatMap (·.calls)⟩).1.map (points ++ ·),
        (c.run later ⟨s, t, r, b.calls ++ points.flatMap (·.calls)⟩).2) := by
  induction points generalizing b with
  | nil =>
      obtain ⟨hexposures, hkicks, hsizes⟩ := hmakes
      cases hexposures
      cases hkicks
      cases hsizes
      rw [List.flatMap_nil, List.append_nil, List.map_nil, List.nil_append]
      cases c.run later b with
      | mk result b₁ => cases result <;> rfl
  | cons p points ih =>
      obtain ⟨s₁, t₁, r₁, r₂, hexposure, hkick, hsize, hsize₁, hmakes⟩ := makes_cons_iff.1 hmakes
      rw [List.map_cons, List.cons_append, run_cons_of_ok hexposure hkick hsize hsize₁, ih hmakes,
        List.flatMap_cons, List.append_assoc]
      generalize c.run later _ = outcome
      cases outcome with
      | mk result b₁ => cases result <;> rfl

/-- A point at the first cutoff goes before a sweep over the others, however that ends. -/
theorem ends_cons {p : SweepPoint α} {cutoffs : List α} {s : σ} {t : τ} {r r₁ : ρ}
    (hexposure : c.exposure p.cutoff b.exposure = (.ok p.exposure, s))
    (hkick : c.kick p.cutoff b.kick = (.ok p.kick, t))
    (hsize : c.size p.exposure b.size = (p.exposureSize, r₁))
    (hsize₁ : c.size p.kick r₁ = (p.kickSize, r))
    {result : Except ε (List (SweepPoint α))} {b₁ : Bench α σ τ ρ}
    (hends : c.Ends ⟨s, t, r, b.calls ++ p.calls⟩ cutoffs (result, b₁)) :
    c.Ends b (p.cutoff :: cutoffs) (result.map (p :: ·), b₁) := by
  have hfirst : ∀ {points : List (SweepPoint α)} {s₂ : σ} {t₂ : τ} {r₂ : ρ},
      c.Makes ⟨s, t, r, b.calls ++ p.calls⟩ points s₂ t₂ r₂ →
        c.Makes b (p :: points) s₂ t₂ r₂ := fun hmakes =>
    makes_cons_iff.2 ⟨s, t, r₁, r, hexposure, hkick, hsize, hsize₁, hmakes⟩
  cases hends with
  | complete hmakes =>
      simpa [Except.map] using Ends.complete (hfirst hmakes)
  | exposureFails hmakes hfails =>
      simpa [Except.map] using Ends.exposureFails (hfirst hmakes) hfails _
  | kickFails hmakes hdraws hfails =>
      simpa [Except.map] using Ends.kickFails (hfirst hmakes) hdraws hfails _

/-- A sweep ends in one of the three ways. -/
theorem exists_ends (cutoffs : List α) (b : Bench α σ τ ρ) :
    ∃ outcome, c.Ends b cutoffs outcome := by
  induction cutoffs generalizing b with
  | nil =>
      have hends := Ends.complete (makes_nil (c := c) b)
      exact ⟨_, hends⟩
  | cons cutoff cutoffs ih =>
      rcases hexposure : c.exposure cutoff b.exposure with ⟨_ | image, s⟩
      · have hends := Ends.exposureFails (makes_nil b) hexposure cutoffs
        exact ⟨_, hends⟩
      · rcases hkick : c.kick cutoff b.kick with ⟨_ | image₁, t⟩
        · have hends := Ends.kickFails (makes_nil b) hexposure hkick cutoffs
          exact ⟨_, hends⟩
        · let p : SweepPoint α := ⟨cutoff, image, image₁, (c.size image b.size).1,
            (c.size image₁ (c.size image b.size).2).1⟩
          obtain ⟨⟨result, b₁⟩, hends⟩ :=
            ih ⟨s, t, (c.size image₁ (c.size image b.size).2).2, b.calls ++ p.calls⟩
          exact ⟨_, ends_cons (p := p) hexposure hkick rfl rfl hends⟩

/-- The ways to end say what a sweep gives. -/
theorem run_of_ends {cutoffs : List α} {outcome : Except ε (List (SweepPoint α)) × Bench α σ τ ρ}
    (hends : c.Ends b cutoffs outcome) : c.run cutoffs b = outcome := by
  cases hends with
  | complete hmakes =>
      have hrun := run_append hmakes []
      rw [List.append_nil, run_nil] at hrun
      simpa [Except.map] using hrun
  | exposureFails hmakes hfails =>
      rw [run_append hmakes, run_cons_of_exposure_error hfails]
      rfl
  | kickFails hmakes hdraws hfails =>
      rw [run_append hmakes, run_cons_of_kick_error hdraws hfails]
      rfl

end Course

/-- A sweep asks the first method and then the second one at each cutoff in turn, and measures both
images before it goes on. Each method goes from state to state by its own draws alone. If none of
them fails there is a point at every cutoff, with the two images drawn at it and whatever sizes the
measurement gives. The first draw that fails ends the sweep with its error, and no other call is
made. The cutoffs of a range give four points, in their order. -/
theorem run_eq_iff_ends [Scalar α] (c : Instruments α ε σ τ ρ) (b : Bench α σ τ ρ) :
    (∀ cutoffs outcome, c.run cutoffs b = outcome ↔ c.Ends b cutoffs outcome) ∧
    ∀ first last cutoffs points b₁, Seeing.cutoffs first last = .ok cutoffs →
      c.run cutoffs b = (.ok points, b₁) →
      points.length = cutoffCount ∧ points.map (·.cutoff) = cutoffs := by
  have hends : ∀ cutoffs outcome, c.run cutoffs b = outcome ↔ c.Ends b cutoffs outcome := by
    intro cutoffs outcome
    constructor
    · rintro rfl
      obtain ⟨outcome, hends⟩ := exists_ends (c := c) cutoffs b
      rwa [run_of_ends hends]
    · exact run_of_ends
  refine ⟨hends, ?_⟩
  intro first last cutoffs points b₁ hcutoffs hrun
  have hcomplete : points.map (·.cutoff) = cutoffs := by
    cases (hends cutoffs _).1 hrun with
    | complete hmakes => rfl
  refine ⟨?_, hcomplete⟩
  rw [← length_of_cutoffs hcutoffs, ← hcomplete, List.length_map]

/-- An image of one pixel. -/
def onePixel : Image ℝ := ⟨1, 1, 1, .constant 1 1 0, one_pos, one_pos⟩

/-- Instruments that count their calls. The second method fails when it was asked before for a
number of times. -/
noncomputable def tiring (strength : ℕ) : Instruments ℝ Unit ℕ ℕ ℕ where
  exposure _ n := (.ok onePixel, n + 1)
  kick _ n := (if n = strength then .error () else .ok onePixel, n + 1)
  size _ n := (none, n + 1)

/-- Four second kicks give four points. When the third one fails it is the last of ten calls, after
three long exposures and the measurement of two points. -/
theorem run_eq_iff_ends_tiring : ∃ cutoffs, Seeing.cutoffs (1 : ℝ) 1 = .ok cutoffs ∧
    (∃ points, ((tiring 4).run cutoffs ⟨0, 0, 0, []⟩).1 = .ok points ∧
      points.length = cutoffCount ∧ points.map (·.cutoff) = cutoffs) ∧
    ∃ calls, (tiring 2).run cutoffs ⟨0, 0, 0, []⟩ = (.error (), ⟨3, 3, 4, calls⟩) ∧
      calls.length = 10 := by
  obtain ⟨cutoffs, hcutoffs⟩ : ∃ cutoffs, Seeing.cutoffs (1 : ℝ) 1 = .ok cutoffs :=
    ⟨_, if_pos (by simp)⟩
  have hlength := length_of_cutoffs hcutoffs
  obtain ⟨hends₄, hfour⟩ := run_eq_iff_ends (tiring 4) ⟨0, 0, 0, []⟩
  obtain ⟨hends₂, -⟩ := run_eq_iff_ends (tiring 2) ⟨0, 0, 0, []⟩
  let point (cutoff : ℝ) : SweepPoint ℝ := ⟨cutoff, onePixel, onePixel, none, none⟩
  refine ⟨cutoffs, hcutoffs, ?_, ?_⟩
  · match cutoffs, hlength, hcutoffs with
    | [k₀, k₁, k₂, k₃], _, hcutoffs =>
        have hmakes : (tiring 4).Makes ⟨0, 0, 0, []⟩
            [point k₀, point k₁, point k₂, point k₃] 4 4 8 :=
          ⟨.cons rfl (.cons rfl (.cons rfl (.cons rfl (.nil _)))),
            .cons rfl (.cons rfl (.cons rfl (.cons rfl (.nil _)))),
            .cons rfl rfl (.cons rfl rfl (.cons rfl rfl (.cons rfl rfl (.nil _))))⟩
        have hrun := (hends₄ _ _).2 (.complete hmakes)
        exact ⟨_, congrArg Prod.fst hrun, hfour _ _ _ _ _ hcutoffs hrun⟩
  · match cutoffs, hlength with
    | [k₀, k₁, k₂, k₃], _ =>
        have hmakes : (tiring 2).Makes ⟨0, 0, 0, []⟩ [point k₀, point k₁] 2 2 4 :=
          ⟨.cons rfl (.cons rfl (.nil _)), .cons rfl (.cons rfl (.nil _)),
            .cons rfl rfl (.cons rfl rfl (.nil _))⟩
        exact ⟨_, (hends₂ _ _).2 (.kickFails hmakes rfl rfl [k₃]), rfl⟩

end Instruments

end Seeing
