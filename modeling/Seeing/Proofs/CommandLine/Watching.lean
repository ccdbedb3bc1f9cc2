import Seeing.CommandLine.Program
import Seeing.Proofs.Comparison.Settled

/-!
# Programs that are watched

The surroundings of a program are any state with any operations on it: a write may fail for
whatever reason, and the state may be changed by a failed one. A program is watched by running it
in a monad that keeps a trace of what it does to them, with the outcomes. `Ran` says that an action
that is watched does what it does unwatched, and what it adds to the trace.

A program has a plan of what it is going to do. It either does all of it, or stops at one of its
deeds, `Stopped`.
-/

namespace Seeing

/-- Something that is done to the surroundings of a program. -/
inductive Deed where
  /-- A file is written. -/
  | write (path : String) (content : Document)
  /-- A directory is made. -/
  | make (path : String)
  /-- The results at a cutoff are told. -/
  | tell (point : SweepPoint Float)

/-- What is seen of a program. -/
@[ext]
structure Trace where
  /-- The deeds that were tried, the first one first, each with whether it was done. -/
  tried : List (Deed × Bool) := []
  /-- The paths that were looked for, each with whether it was there. -/
  looks : List (String × Bool) := []
  /-- The records that were kept. -/
  records : List (Record Float) := []

namespace Trace

instance : Append Trace where
  append t d := ⟨t.tried ++ d.tried, t.looks ++ d.looks, t.records ++ d.records⟩

variable (t d e : Trace)

@[simp] theorem tried_append : (t ++ d).tried = t.tried ++ d.tried := rfl

@[simp] theorem looks_append : (t ++ d).looks = t.looks ++ d.looks := rfl

@[simp] theorem records_append : (t ++ d).records = t.records ++ d.records := rfl

theorem append_assoc : t ++ d ++ e = t ++ (d ++ e) := by
  ext1 <;> simp

@[simp] theorem append_empty : t ++ {} = t := by
  ext1 <;> simp

@[simp] theorem empty_append : {} ++ t = t := by
  ext1 <;> simp

section Fold

variable {β : Type} (trace : β → Trace) (bs : List β)

@[simp] theorem tried_foldr : (bs.foldr (fun b d => trace b ++ d) {}).tried =
    bs.flatMap fun b => (trace b).tried := by
  induction bs with
  | nil => rfl
  | cons b bs ih => rw [List.foldr_cons, tried_append, ih, List.flatMap_cons]

@[simp] theorem looks_foldr : (bs.foldr (fun b d => trace b ++ d) {}).looks =
    bs.flatMap fun b => (trace b).looks := by
  induction bs with
  | nil => rfl
  | cons b bs ih => rw [List.foldr_cons, looks_append, ih, List.flatMap_cons]

end Fold

end Trace

/-- Actions on surroundings that are watched. -/
abbrev Watched (σ : Type) := StateT Trace (StateM σ)

section Watched

variable {σ : Type}

instance instDiskWatched [Disk (StateM σ)] : Disk (Watched σ) where
  read path := liftM (Disk.read path : StateM σ _)
  write path content := do
    let outcome ← liftM (Disk.write path content : StateM σ _)
    modify (· ++ { tried := [(.write path content, outcome.isOk)] })
    pure outcome
  isThere path := do
    let answer ← liftM (Disk.isThere path : StateM σ _)
    modify (· ++ { looks := [(path, answer)] })
    pure answer
  makeDirectory path := do
    let outcome ← liftM (Disk.makeDirectory path : StateM σ _)
    modify (· ++ { tried := [(.make path, outcome.isOk)] })
    pure outcome

instance instMonadLogWatched [MonadLog Float (StateM σ)] : MonadLog Float (Watched σ) where
  record r := do
    liftM (MonadLog.record r : StateM σ Unit)
    modify (· ++ { records := [r] })

instance instTellerWatched [Teller (StateM σ)] : Teller (Watched σ) where
  tell point := do
    liftM (Teller.tell point : StateM σ Unit)
    modify (· ++ { tried := [(.tell point, true)] })

/-- From a state on, an action gives a result and leaves a state. Watched as `x` it does the same,
and adds to the trace. -/
structure Ran {β : Type} (x : Watched σ β) (y : StateM σ β) (s : σ) (result : β) (d : Trace)
    (s' : σ) : Prop where
  plain : y.run s = (result, s')
  watched : ∀ t, (x.run t).run s = ((result, t ++ d), s')

variable {ε β γ : Type} {s s₁ s₂ : σ} {d e : Trace}

theorem ran_pure (b : β) (s : σ) : Ran (pure b) (pure b) s b {} s :=
  ⟨rfl, fun t => by rw [Trace.append_empty]; rfl⟩

theorem Ran.bind {x : Watched σ β} {y : StateM σ β} {f : β → Watched σ γ} {g : β → StateM σ γ}
    {b : β} {c : γ} (hx : Ran x y s b d s₁) (hf : Ran (f b) (g b) s₁ c e s₂) :
    Ran (x >>= f) (y >>= g) s c (d ++ e) s₂ := by
  constructor
  · rw [StateT.run_bind, hx.plain]
    exact hf.plain
  · intro t
    rw [StateT.run_bind, StateT.run_bind, hx.watched, ← Trace.append_assoc]
    exact hf.watched (t ++ d)

theorem Ran.map {x : Watched σ β} {y : StateM σ β} {b : β} (f : β → γ) (hx : Ran x y s b d s₁) :
    Ran (f <$> x) (f <$> y) s (f b) d s₁ := by
  rw [map_eq_pure_bind, map_eq_pure_bind, ← d.append_empty]
  exact hx.bind (ran_pure (f b) s₁)

section Operations

theorem ran_read [Disk (StateM σ)] (path : String) (s : σ) :
    ∃ opened s', Ran (Disk.read path) (Disk.read path) s opened {} s' :=
  ⟨_, _, rfl, fun t => by rw [Trace.append_empty]; rfl⟩

theorem ran_write [Disk (StateM σ)] (path : String) (content : Document) (s : σ) :
    ∃ outcome s', Ran (Disk.write path content) (Disk.write path content) s outcome
      { tried := [(.write path content, outcome.isOk)] } s' :=
  ⟨_, _, rfl, fun _ => rfl⟩

theorem ran_isThere [Disk (StateM σ)] (path : String) (s : σ) :
    ∃ answer s', Ran (Disk.isThere path) (Disk.isThere path) s answer
      { looks := [(path, answer)] } s' :=
  ⟨_, _, rfl, fun _ => rfl⟩

theorem ran_makeDirectory [Disk (StateM σ)] (path : String) (s : σ) :
    ∃ outcome s', Ran (Disk.makeDirectory path) (Disk.makeDirectory path) s outcome
      { tried := [(.make path, outcome.isOk)] } s' :=
  ⟨_, _, rfl, fun _ => rfl⟩

theorem ran_record [MonadLog Float (StateM σ)] (r : Record Float) (s : σ) :
    ∃ s', Ran (MonadLog.record r) (MonadLog.record r) s () { records := [r] } s' :=
  ⟨_, rfl, fun _ => rfl⟩

theorem ran_tell [Teller (StateM σ)] (point : SweepPoint Float) (s : σ) :
    ∃ s', Ran (Teller.tell point) (Teller.tell point) s () { tried := [(.tell point, true)] } s' :=
  ⟨_, rfl, fun _ => rfl⟩

end Operations

section Except

variable {x : ExceptT ε (Watched σ) β} {y : ExceptT ε (StateM σ) β}
  {f : β → ExceptT ε (Watched σ) γ} {g : β → ExceptT ε (StateM σ) γ}

theorem ran_mk (outcome : Except ε β) (s : σ) :
    Ran (ExceptT.run (ExceptT.mk (pure outcome))) (ExceptT.run (ExceptT.mk (pure outcome))) s
      outcome {} s :=
  ran_pure outcome s

theorem Ran.bind_ok {b : β} {outcome : Except ε γ} (hx : Ran x.run y.run s (.ok b) d s₁)
    (hf : Ran (f b).run (g b).run s₁ outcome e s₂) :
    Ran (x >>= f).run (y >>= g).run s outcome (d ++ e) s₂ := by
  rw [ExceptT.run_bind, ExceptT.run_bind]
  exact hx.bind hf

theorem Ran.bind_error {fault : ε} (hx : Ran x.run y.run s (.error fault) d s₁) :
    Ran (x >>= f).run (y >>= g).run s (.error fault) d s₁ := by
  rw [ExceptT.run_bind, ExceptT.run_bind, ← d.append_empty]
  exact hx.bind (ran_pure _ s₁)

theorem Ran.lift {x : Watched σ β} {y : StateM σ β} {b : β} (hx : Ran x y s b d s₁) :
    Ran (ExceptT.lift x : ExceptT ε (Watched σ) β).run (ExceptT.lift y).run s (.ok b) d s₁ :=
  hx.map Except.ok

theorem Ran.adapt {δ : Type} {outcome : Except ε β} (report : ε → δ)
    (hx : Ran x.run y.run s outcome d s₁) :
    Ran (ExceptT.adapt report x).run (ExceptT.adapt report y).run s (outcome.mapError report) d
      s₁ :=
  hx.map (Except.mapError report)

theorem Ran.lift_bind {x : Watched σ β} {y : StateM σ β} {b : β} {outcome : Except ε γ}
    (hx : Ran x y s b d s₁) (hf : f b = ExceptT.mk (pure outcome))
    (hg : g b = ExceptT.mk (pure outcome)) :
    Ran (ExceptT.lift x >>= f).run (ExceptT.lift y >>= g).run s outcome d s₁ := by
  rw [← d.append_empty]
  refine hx.lift.bind_ok ?_
  rw [hf, hg]
  exact ran_mk outcome s₁

/-- A loop of actions that do not fail. -/
theorem ran_forIn {f : β → ExceptT ε (Watched σ) Unit} {g : β → ExceptT ε (StateM σ) Unit}
    {trace : β → Trace} (hf : ∀ b s, ∃ s', Ran (f b).run (g b).run s (.ok ()) (trace b) s')
    (bs : List β) (s : σ) :
    ∃ s', Ran (forIn bs PUnit.unit fun b _ => do f b; pure (.yield PUnit.unit)).run
      (forIn bs PUnit.unit fun b _ => do g b; pure (.yield PUnit.unit)).run s (.ok PUnit.unit)
      (bs.foldr (fun b d => trace b ++ d) {}) s' := by
  induction bs generalizing s with
  | nil => exact ⟨s, ran_mk _ s⟩
  | cons b bs ih =>
      obtain ⟨s₁, hb⟩ := hf b s
      obtain ⟨s₂, hbs⟩ := ih s₁
      refine ⟨s₂, ?_⟩
      simp only [List.forIn_cons, bind_assoc, pure_bind]
      exact hb.bind_ok hbs

/-- What comes to the same in every monad is seen by its records only, and leaves the state that
they leave. -/
theorem ran_of_notes [MonadLog Float (StateM σ)]
    {x : ∀ {m : Type → Type} [Monad m] [LawfulMonad m] [MonadLog Float m], ExceptT ε m β}
    {records : List (Record Float)} {outcome : Except ε β} (hx : Notes x records outcome) (s : σ) :
    ∃ s', Ran (x (m := Watched σ)).run (x (m := StateM σ)).run s outcome { records := records } s' ∧
      (forM records (MonadLog.record (m := StateM σ))).run s = ((), s') := by
  rw [hx, hx]
  clear hx
  induction records generalizing s with
  | nil => exact ⟨s, ran_pure outcome s, rfl⟩
  | cons r records ih =>
      obtain ⟨s₁, hr⟩ := ran_record r s
      obtain ⟨s₂, hrecords, hstate⟩ := ih s₁
      refine ⟨s₂, ?_, ?_⟩
      · simp only [List.forM_cons, bind_assoc]
        exact hr.bind (f := fun _ => _) (g := fun _ => _) hrecords
      · rw [List.forM_cons, StateT.run_bind, hr.plain]
        exact hstate

end Except

end Watched

/-- The first deeds of a plan were done. The next one was not: it was tried in vain, or not at
all. -/
def Stopped (tried : List (Deed × Bool)) (plan : List Deed) : Prop :=
  ∃ finished next rest, plan = finished ++ next :: rest ∧
    (tried = finished.map (·, true) ∨ tried = finished.map (·, true) ++ [(next, false)])

section Stopped

variable {tried : List (Deed × Bool)} {plan : List Deed}

theorem stopped_cons (next : Deed) (rest : List Deed) : Stopped [] (next :: rest) :=
  ⟨[], next, rest, rfl, .inl rfl⟩

theorem stopped_in_vain (next : Deed) (rest : List Deed) :
    Stopped [(next, false)] (next :: rest) :=
  ⟨[], next, rest, rfl, .inr rfl⟩

theorem Stopped.append (hstopped : Stopped tried plan) (later : List Deed) :
    Stopped tried (plan ++ later) := by
  obtain ⟨finished, next, rest, rfl, htried⟩ := hstopped
  exact ⟨finished, next, rest ++ later, by simp, htried⟩

theorem Stopped.after (hstopped : Stopped tried plan) (earlier : List Deed) :
    Stopped (earlier.map (·, true) ++ tried) (earlier ++ plan) := by
  obtain ⟨finished, next, rest, rfl, htried⟩ := hstopped
  refine ⟨earlier ++ finished, next, rest, by simp, ?_⟩
  rcases htried with rfl | rfl
  · exact .inl (by simp)
  · exact .inr (by simp)

theorem Stopped.ne_map (hstopped : Stopped tried plan) : tried ≠ plan.map (·, true) := by
  obtain ⟨finished, next, rest, rfl, rfl | rfl⟩ := hstopped <;> simp

theorem Stopped.mem (hstopped : Stopped tried plan) {x : Deed × Bool} (hx : x ∈ tried) :
    x.1 ∈ plan := by
  obtain ⟨finished, next, rest, rfl, rfl | rfl⟩ := hstopped
  · obtain ⟨deed, hdeed, rfl⟩ := List.mem_map.1 hx
    exact List.mem_append_left _ hdeed
  · simp only [List.mem_append, List.mem_map, List.mem_singleton] at hx
    rcases hx with ⟨deed, hdeed, rfl⟩ | rfl
    · exact List.mem_append_left _ hdeed
    · simp

end Stopped

/-- An action that succeeded has done all of a plan. One that failed has stopped. -/
def Follows {ε β : Type} (tried : List (Deed × Bool)) (plan : List Deed) : Except ε β → Prop
  | .ok _ => tried = plan.map (·, true)
  | .error _ => Stopped tried plan

section Follows

variable {ε β : Type} {tried : List (Deed × Bool)} {plan : List Deed}

theorem Follows.done_or_stopped {outcome : Except ε β} (hfollows : Follows tried plan outcome) :
    tried = plan.map (·, true) ∨ Stopped tried plan := by
  cases outcome with
  | ok _ => exact .inl hfollows
  | error _ => exact .inr hfollows

theorem Follows.eq_ok_iff {outcome : Except ε Unit} (hfollows : Follows tried plan outcome) :
    outcome = .ok () ↔ tried = plan.map (·, true) := by
  cases outcome with
  | ok _ => exact iff_of_true rfl hfollows
  | error _ => exact iff_of_false nofun (Stopped.ne_map hfollows)

theorem Follows.after {outcome : Except ε β} (hfollows : Follows tried plan outcome)
    (earlier : List Deed) : Follows (earlier.map (·, true) ++ tried) (earlier ++ plan) outcome := by
  cases outcome with
  | ok _ => exact (congrArg (_ ++ ·) hfollows).trans (List.map_append ..).symm
  | error _ => exact Stopped.after hfollows earlier

end Follows

end Seeing
