import Seeing.Comparison.Construction
import Seeing.Proofs.Comparison.Settled

/-!
# What a builder comes to

A builder that keeps records comes to the same part, or the same failure, as the checks of the
settings, `Constructs`. Once it has built its part, its records are those of the part. For the
comparison this is `ComparisonSettings.constructs`.
-/

namespace Seeing

section Constructs

variable {α ε β γ : Type}

/-- The action comes to the outcome in every monad. If that is a value, it has kept the records of
this value. -/
def Constructs
    (x : ∀ {m : Type → Type} [Monad m] [LawfulMonad m] [MonadLog α m], ExceptT ε m β)
    (outcome : Except ε β) (records : β → List (Record α)) : Prop :=
  ∃ kept, Notes x kept outcome ∧ ∀ b, outcome = .ok b → kept = records b

theorem constructs_mk (outcome : Except ε β) :
    Constructs (α := α) (ExceptT.mk (pure outcome)) outcome fun _ => [] :=
  ⟨[], notes_mk outcome, fun _ _ => rfl⟩

theorem constructs_record (r : Record α) :
    Constructs (ε := ε) (fun {m} => liftM (MonadLog.record r : m Unit)) (.ok ()) fun _ => [r] :=
  ⟨[r], notes_record r, fun _ _ => rfl⟩

variable {x : ∀ {m : Type → Type} [Monad m] [LawfulMonad m] [MonadLog α m], ExceptT ε m β}
  {outcome : Except ε β} {before : β → List (Record α)}

theorem Constructs.bind
    {f : ∀ {m : Type → Type} [Monad m] [LawfulMonad m] [MonadLog α m], β → ExceptT ε m γ}
    {g : β → Except ε γ} {r : β → γ → List (Record α)} {records : γ → List (Record α)}
    (hx : Constructs x outcome before) (hf : ∀ b, Constructs (f b) (g b) (r b))
    (hrecords : ∀ b c, outcome = .ok b → g b = .ok c → before b ++ r b c = records c) :
    Constructs (x >>= f) (outcome >>= g) records := by
  obtain ⟨kept, hx, hkept⟩ := hx
  cases outcome with
  | error fault => exact ⟨kept, Notes.bind_error hx, fun _ hc => by cases hc⟩
  | ok b =>
      obtain ⟨later, hf, hlater⟩ := hf b
      refine ⟨kept ++ later, Notes.bind_ok hx hf, ?_⟩
      intro c hc
      rw [hkept b rfl, hlater c hc]
      exact hrecords b c rfl hc

/-- What would come after a failure is not done. -/
theorem constructs_throw_bind
    {f : ∀ {m : Type → Type} [Monad m] [LawfulMonad m] [MonadLog α m], β → ExceptT ε m γ}
    (fault : ε) (records : γ → List (Record α)) :
    Constructs (fun {m} _ _ _ => (throw fault : ExceptT ε m β) >>= f) (.error fault) records :=
  ⟨[], Notes.bind_error (notes_mk (.error fault)), fun _ hc => by cases hc⟩

/-- Keeps records of a value that was built. -/
theorem Constructs.tap {y : ∀ {m : Type → Type} [Monad m] [LawfulMonad m] [MonadLog α m],
      β → ExceptT ε m Unit} {kept : β → List (Record α)} (hx : Constructs x outcome before)
    (hy : ∀ b, Notes (y b) (kept b) (.ok ())) :
    Constructs (fun {m} => do
      let b ← x (m := m)
      y b
      pure b) outcome fun b => before b ++ kept b := by
  have hpure : outcome >>= Except.ok = outcome := bind_pure outcome
  rw [← hpure]
  refine hx.bind (r := fun b _ => kept b) (fun b => ⟨kept b ++ [], ?_, ?_⟩) fun b c _ hc => ?_
  · exact Notes.bind_ok (f := fun _ => pure b) (hy b) (notes_mk (.ok b))
  · simp
  · cases hc
    rfl

theorem Constructs.adapt {δ : Type} (hx : Constructs x outcome before) (report : ε → δ) :
    Constructs (ExceptT.adapt report x) (outcome.mapError report) before := by
  obtain ⟨kept, hx, hkept⟩ := hx
  refine ⟨kept, Notes.adapt hx report, ?_⟩
  intro b hb
  cases outcome with
  | error fault => cases hb
  | ok c =>
      cases hb
      exact hkept b rfl

/-- A builder that cannot crash, where others can. -/
theorem Constructs.ofExcept (hx : Constructs x outcome before) :
    Constructs (ExceptT.adapt Failure.error x) (Failure.ofExcept outcome) before := by
  have houtcome := hx.adapt Failure.error
  cases outcome <;> exact houtcome

end Constructs

variable {α : Type} [Scalar α]

theorem PupilSettings.constructs (s : PupilSettings α) :
    Constructs s.construct (s.build.mapError Error.pupil)
      fun p => [.pupil p.side p.scale p.count] :=
  (constructs_mk _).tap fun p => notes_record (.pupil p.side p.scale p.count)

theorem AtmosphereSettings.constructs (s : AtmosphereSettings α) :
    Constructs s.construct s.build s.records :=
  (constructs_mk _).tap fun a => notes_forM (s.records a)

theorem ExposureSettings.constructs (s : ExposureSettings α) :
    Constructs s.construct s.build s.records := by
  unfold ExposureSettings.construct ExposureSettings.build
  cases s.positives.find? fun quantity => !(0 < quantity.2) with
  | some quantity => exact constructs_throw_bind _ _
  | none =>
      refine (constructs_mk _).bind (r := fun _ => s.records) (fun _ => ?_) fun _ _ _ _ => rfl
      refine s.pupilSettings.constructs.bind (r := fun _ e => s.atmosphere.records e.atmosphere)
        (fun p => ?_) fun p e hp he => ?_
      · refine s.atmosphere.constructs.bind (r := fun _ _ => []) (fun a => constructs_mk (.ok _))
          fun a e ha he => ?_
        cases he
        simp
      · obtain ⟨a, -, he⟩ := bind_eq_ok_iff.1 he
        cases he
        rfl

theorem KickSettings.constructs (s : KickSettings α) :
    Constructs s.construct s.build Kick.records := by
  unfold KickSettings.construct KickSettings.build
  cases !decide (0 < s.r0) with
  | true => exact constructs_throw_bind _ _
  | false =>
      rcases eq_or_ne s.photonCount 0 with hcount | hcount
      · simp only [hcount]
        exact constructs_throw_bind _ _
      · simp only [if_neg hcount]
        refine (constructs_mk _).bind (r := fun _ => Kick.records) (fun _ => ?_) fun _ _ _ _ => rfl
        refine (PupilSettings.constructs _).bind (r := fun _ _ => [])
          (fun p => constructs_mk (.ok _)) fun p k hp hk => ?_
        cases hk
        rfl

theorem ComparisonSettings.constructs [RandomSource α] (s : ComparisonSettings α) :
    Constructs s.construct s.build s.records := by
  unfold ComparisonSettings.construct ComparisonSettings.build
  refine (constructs_mk _).bind (r := fun _ => s.records) (fun _ => ?_) fun _ _ _ _ => rfl
  refine (constructs_mk _).bind (r := fun _ => s.records) (fun turbulence => ?_) fun _ _ _ _ => rfl
  refine (s.exposure _).constructs.ofExcept.bind
    (r := fun e (c : Comparison α) => c.kick.records ++ [.sampling e.pupil.side e.pupil.scale])
    (fun e => s.kick.constructs.ofExcept.bind
      (r := fun _ _ => [.sampling e.pupil.side e.pupil.scale]) (fun k => ?_) ?_) ?_
  · exact (constructs_record _).bind (g := fun _ => .ok _) (r := fun _ _ => [])
      (fun _ => constructs_mk (.ok _)) fun _ _ _ _ => rfl
  · intro k c _ hc
    cases hc
    rfl
  · intro e c _ hc
    obtain ⟨k, -, hc⟩ := bind_eq_ok_iff.1 hc
    cases hc
    exact (List.append_assoc ..).symm

end Seeing
