import Seeing.Proofs.Atmosphere.Document
import Seeing.Proofs.CommandLine.Success
import Seeing.Proofs.CommandLine.Watching

/-!
# What a run does to its surroundings

A run has a plan, `Arguments.plan`: to write the settings of the atmosphere, to make the directory
of the figure and write the figure, to tell the sizes at the cutoffs, and to write the results. Each
stage of a run is watched by itself, with the deeds of its part of the plan: it does all of them, or
fails and has stopped at one of them. The stages are to write the settings, to run the comparison,
`Comparison.Seen`, and to tell and write what it came to. `ran_compare` puts them together, and
`effects_of_run` adds what comes before: nothing is done to the surroundings unless there is a
comparison.
-/

namespace Seeing

/-- The deeds of making the figure of some points. A directory that was looked for and was not there
has to be made. -/
def Figure.deeds (f : Figure) (points : List (SweepPoint Float)) (path : String)
    (looks : List (String × Bool)) : List Deed :=
  (looks.filter (!·.2)).map (.make ·.1) ++ [.write path (.raster (f.drawing points))]

namespace Arguments

variable [Toml.Library]

/-- The deed of writing the settings of the atmosphere, if the arguments ask for it. -/
def atmosphereDeeds (a : Arguments) (c : Comparison Float) : List Deed :=
  a.saveProfile.toList.map fun path => .write path (.text (c.atmosphere.documentText?.getD ""))

/-- The deed of writing the results, if the arguments ask for it. -/
def resultDeeds (a : Arguments) (points : List (SweepPoint Float)) : List Deed :=
  a.results.toList.map fun path => .write path (.pickle (pickleOfPoints points))

/-- What a run is going to do. -/
def plan (a : Arguments) (c : Comparison Float) (looks : List (String × Bool))
    (points : List (SweepPoint Float)) : List Deed :=
  a.atmosphereDeeds c ++ (c.figure.deeds points c.figurePath looks ++
    (points.map .tell ++ a.resultDeeds points))

end Arguments

variable {σ ε : Type}

/-- Goes on after a deed that was done, and fails after one that was not. -/
def orThrow {m : Type → Type} [Monad m] (fault : DiskError → ε) :
    Except DiskError Unit → ExceptT ε m Unit
  | .ok () => pure ()
  | .error cause => throw (fault cause)

theorem ran_orThrow {deed : Deed} {x : Watched σ (Except DiskError Unit)}
    {y : StateM σ (Except DiskError Unit)} {s : σ}
    (hxy : ∃ outcome s', Ran x y s outcome { tried := [(deed, outcome.isOk)] } s')
    (fault : DiskError → ε) :
    ∃ outcome d s', Ran (ExceptT.lift x >>= orThrow fault).run
        (ExceptT.lift y >>= orThrow fault).run s outcome d s' ∧
      d.looks = [] ∧ d.records = [] ∧ Follows d.tried [deed] outcome := by
  obtain ⟨outcome, s', hran⟩ := hxy
  cases outcome with
  | ok _ => exact ⟨.ok (), _, s', hran.lift_bind rfl rfl, rfl, rfl, rfl⟩
  | error cause =>
      exact ⟨.error (fault cause), _, s', hran.lift_bind rfl rfl, rfl, rfl, stopped_in_vain deed []⟩

section Disk

variable [Disk (StateM σ)]

section Library

variable [Toml.Library]

theorem ran_load (path : String) (s : σ) :
    ∃ loaded s', Ran (ReferenceProfile.load (m := Watched σ) path).run
      (ReferenceProfile.load path).run s loaded {} s' := by
  obtain ⟨opened, s', hread⟩ := ran_read path s
  unfold ReferenceProfile.load
  rcases hparsed : opened >>= (· >>= textOf) with cause | text
  · refine ⟨.error (.unreadable cause path), s', hread.lift_bind ?_ ?_⟩ <;>
      simp only [hparsed] <;> rfl
  · rcases hprofile : ReferenceProfile.ofDocument? text with _ | profile
    · refine ⟨.error .malformed, s', hread.lift_bind ?_ ?_⟩ <;>
        simp only [hparsed, hprofile] <;> rfl
    · rcases hcheck : profile.check with fault | _
      · refine ⟨.error (.profile (.reference fault)), s', hread.lift_bind ?_ ?_⟩ <;>
          simp only [hparsed, hprofile, hcheck] <;> rfl
      · refine ⟨.ok profile, s', hread.lift_bind ?_ ?_⟩ <;>
          simp only [hparsed, hprofile, hcheck] <;> rfl

theorem ran_loadReference (a : Arguments) (s : σ) :
    ∃ loaded s', Ran (a.loadReference (m := Watched σ)).run a.loadReference.run s loaded {} s' := by
  unfold Arguments.loadReference
  cases a.profile with
  | none => exact ⟨_, s, ran_mk (.ok _) s⟩
  | some path =>
      obtain ⟨loaded, s', hload⟩ := ran_load path s
      exact ⟨_, s', hload.adapt _⟩

theorem ran_save (settings : AtmosphereSettings Float) (path : String) (s : σ) :
    ∃ saved d s', Ran (settings.save (m := Watched σ) path).run (settings.save path).run s saved d
        s' ∧
      d.looks = [] ∧ d.records = [] ∧
      Follows d.tried [.write path (.text (settings.documentText?.getD ""))] saved := by
  unfold AtmosphereSettings.save
  cases settings.documentText? with
  | none =>
      exact ⟨.error SettingsFileError.tooLarge, {}, s, ran_mk _ s, rfl, rfl, stopped_cons _ _⟩
  | some text =>
      exact ran_orThrow (ran_write path (.text text) s) (SettingsFileError.creating · path)

theorem ran_saveAtmosphere (a : Arguments) (c : Comparison Float) (s : σ) :
    ∃ saved d s', Ran (a.saveAtmosphere (m := Watched σ) c).run (a.saveAtmosphere c).run s saved d
        s' ∧
      d.looks = [] ∧ d.records = [] ∧ Follows d.tried (a.atmosphereDeeds c) saved := by
  unfold Arguments.saveAtmosphere Arguments.atmosphereDeeds
  cases a.saveProfile with
  | none => exact ⟨.ok (), {}, s, ran_mk _ s, rfl, rfl, rfl⟩
  | some path =>
      obtain ⟨saved, d, s', hran, hlooks, hrecords, hfollows⟩ := ran_save c.atmosphere path s
      refine ⟨_, d, s', hran.adapt _, hlooks, hrecords, ?_⟩
      cases saved <;> exact hfollows

end Library

theorem ran_saveResults (a : Arguments) (points : List (SweepPoint Float)) (s : σ) :
    ∃ saved d s', Ran (a.saveResults (m := Watched σ) points).run (a.saveResults points).run s
        saved d s' ∧
      d.looks = [] ∧ d.records = [] ∧ Follows d.tried (a.resultDeeds points) saved := by
  unfold Arguments.saveResults Arguments.resultDeeds
  cases a.results with
  | none => exact ⟨.ok (), {}, s, ran_mk _ s, rfl, rfl, rfl⟩
  | some path =>
      obtain ⟨saved, d, s', hran, hlooks, hrecords, hfollows⟩ :=
        ran_orThrow (ran_write path (.pickle (pickleOfPoints points)) s)
          (Error.results (α := Float) · path)
      refine ⟨_, d, s', hran.adapt _, hlooks, hrecords, ?_⟩
      cases saved <;> exact hfollows

theorem ran_prepareDirectory (path : String) (s : σ) :
    ∃ made d s', Ran (Figure.prepareDirectory (m := Watched σ) path).run
        (Figure.prepareDirectory path).run s made d s' ∧
      d.looks.map (·.1) = (Path.parent? path).toList ∧
      Follows d.tried ((d.looks.filter (!·.2)).map (.make ·.1)) made := by
  unfold Figure.prepareDirectory
  cases Path.parent? path with
  | none => exact ⟨.ok (), {}, s, ran_mk _ s, rfl, rfl⟩
  | some directory =>
      obtain ⟨answer, s₁, hlook⟩ := ran_isThere directory s
      cases answer with
      | true => exact ⟨.ok (), _, s₁, hlook.lift_bind rfl rfl, rfl, rfl⟩
      | false =>
          obtain ⟨made, d, s₂, hmade, hlooks, -, hfollows⟩ :=
            ran_orThrow (ran_makeDirectory directory s₁) (FigureError.directory · directory)
          refine ⟨made, _, s₂, hlook.lift.bind_ok hmade, ?_, ?_⟩
          · simp [hlooks]
          · simpa [hlooks] using hfollows

/-- Writes the figure of some points, if the ending of the path is one for figures. -/
def Figure.writeDrawing {m : Type → Type} [Monad m] [Disk m] (f : Figure)
    (points : List (SweepPoint Float)) (path : String) : ExceptT FigureError m Unit :=
  if Figure.extensions.contains ((Path.extension? path).getD "") then
    ExceptT.lift (Disk.write path (.raster (f.drawing points)) : m _) >>=
      orThrow fun _ => FigureError.drawing
  else throw FigureError.drawing

theorem ran_writeDrawing (f : Figure) (points : List (SweepPoint Float)) (path : String) (s : σ) :
    ∃ saved d s', Ran (f.writeDrawing (m := Watched σ) points path).run
        (f.writeDrawing points path).run s saved d s' ∧
      d.looks = [] ∧ Follows d.tried [.write path (.raster (f.drawing points))] saved := by
  unfold Figure.writeDrawing
  split_ifs
  · obtain ⟨saved, d, s', hran, hlooks, -, hfollows⟩ :=
      ran_orThrow (ran_write path (.raster (f.drawing points)) s) fun _ => FigureError.drawing
    exact ⟨saved, d, s', hran, hlooks, hfollows⟩
  · exact ⟨.error .drawing, {}, s, ran_mk _ s, rfl, stopped_cons _ _⟩

variable [MonadLog Float (StateM σ)]

theorem ran_save_figure (f : Figure) (points : List (SweepPoint Float)) (path : String) (s : σ) :
    ∃ saved d s', Ran (f.save (m := Watched σ) points path).run (f.save points path).run s saved d
        s' ∧
      d.looks.map (·.1) <+: (Path.parent? path).toList ∧
      (saved = .ok () → d.looks.map (·.1) = (Path.parent? path).toList) ∧
      Follows d.tried (f.deeds points path d.looks) saved := by
  unfold Figure.save
  cases f.check points.length with
  | error fault =>
      refine ⟨.error fault, {}, s, (ran_mk _ s).bind_error, by simp, by simp, stopped_cons _ _⟩
  | ok _ =>
      obtain ⟨made, d, s₁, hmade, hlooks, hfollows⟩ := ran_prepareDirectory path s
      cases made with
      | error fault =>
          refine ⟨.error fault, _, s₁, (ran_mk _ s).bind_ok hmade.bind_error, ?_, by simp, ?_⟩
          · simp [hlooks]
          · exact hfollows.append _
      | ok _ =>
          obtain ⟨s₂, hlabels⟩ := ran_forIn
            (fun label s => (ran_record (.unlabelled label) s).imp fun _ hrecord => hrecord.lift)
            (f.labels points) s₁
          obtain ⟨saved, e, s₃, hwritten, helooks, hefollows⟩ := ran_writeDrawing f points path s₂
          have hlooked : ({} ++ (d ++ ((f.labels points).foldr
              (fun b d => { records := [.unlabelled b] } ++ d) {} ++ e))).looks = d.looks := by
            simp [helooks]
          refine ⟨saved, _, s₃,
            (ran_mk _ s).bind_ok (hmade.bind_ok (hlabels.bind_ok hwritten)), ?_, ?_, ?_⟩
          · rw [hlooked, hlooks]
          · intro _
            rw [hlooked, hlooks]
          · rw [hlooked, Figure.deeds]
            have htried : d.tried = _ := hfollows
            have hquiet : ((f.labels points).flatMap fun _ => ([] : List (Deed × Bool))) = [] := by
              simp
            simpa [htried, hquiet] using hefollows.after ((d.looks.filter (!·.2)).map (.make ·.1))

/-- What is seen of a run of a comparison. It fails if its points cannot all be drawn. If they can
be, they are what it ends with, unless it fails at their figure. -/
structure Comparison.Seen (c : Comparison Float)
    (ran : Except (Failure (Error Float)) (List (SweepPoint Float))) (d : Trace) : Prop where
  undrawn : ∀ failure, c.pointsOf = .error failure →
    ran = .error failure ∧ d.looks = [] ∧ d.tried = []
  drawn : ∀ points, c.pointsOf = .ok points →
    (∀ points', ran = .ok points' → points' = points) ∧
    d.looks.map (·.1) <+: (Path.parent? c.figurePath).toList ∧
    ((∃ points', ran = .ok points') → d.looks.map (·.1) = (Path.parent? c.figurePath).toList) ∧
    Follows d.tried (c.figure.deeds points c.figurePath d.looks) ran

/-- A run of a comparison either has drawn its points and made their figure, or it fails. -/
theorem ran_run (c : Comparison Float) (s : σ) :
    ∃ ran d s', Ran (c.run (m := Watched σ)).run c.run.run s ran d s' ∧ c.Seen ran d := by
  obtain ⟨records, hnotes⟩ := c.settles_points
  obtain ⟨s₁, hpoints, -⟩ := ran_of_notes hnotes s
  unfold Comparison.run Comparison.runWith
  cases hdrawn : c.pointsOf with
  | error failure =>
      rw [hdrawn] at hpoints
      refine ⟨.error failure, _, s₁, hpoints.bind_error, ?_, by simp [hdrawn]⟩
      intro failure' hfailure
      obtain rfl : failure = failure' := Except.error.inj (hdrawn.symm.trans hfailure)
      exact ⟨rfl, rfl, rfl⟩
  | ok points =>
      rw [hdrawn] at hpoints
      obtain ⟨saved, d, s₂, hsaved, hlooks, hlooked, hfollows⟩ :=
        ran_save_figure c.figure points c.figurePath s₁
      cases saved with
      | error fault =>
          refine ⟨.error (.error (.figure fault)), _, s₂,
            hpoints.bind_ok (hsaved.lift_bind rfl rfl), by simp [hdrawn], ?_⟩
          intro points' hpoints'
          obtain rfl : points = points' := Except.ok.inj (hdrawn.symm.trans hpoints')
          refine ⟨by simp, ?_, by simp, ?_⟩
          · simpa using hlooks
          · simpa [Follows] using hfollows
      | ok _ =>
          refine ⟨.ok points, _, s₂, hpoints.bind_ok (hsaved.lift_bind rfl rfl), by simp [hdrawn],
            ?_⟩
          intro points' hpoints'
          obtain rfl : points = points' := Except.ok.inj (hdrawn.symm.trans hpoints')
          refine ⟨by simp [eq_comm], ?_, ?_, ?_⟩
          · simpa using hlooks
          · simpa using hlooked rfl
          · simpa [Follows] using hfollows

end Disk

section Run

variable [Toml.Library] [Disk (StateM σ)] [MonadLog Float (StateM σ)] [Teller (StateM σ)]

omit [Toml.Library] [Disk (StateM σ)] [MonadLog Float (StateM σ)] in
theorem ran_tells (points : List (SweepPoint Float)) (s : σ) :
    ∃ d s', Ran (forIn points PUnit.unit fun point _ => do
          (liftM (Teller.tell point : Watched σ Unit) : ExceptT ε (Watched σ) Unit)
          pure (.yield PUnit.unit)).run
        (forIn points PUnit.unit fun point _ => do
          (liftM (Teller.tell point : StateM σ Unit) : ExceptT ε (StateM σ) Unit)
          pure (.yield PUnit.unit)).run s (.ok PUnit.unit) d s' ∧
      d.looks = [] ∧ d.tried = (points.map .tell).map (·, true) := by
  obtain ⟨s', hran⟩ := ran_forIn (ε := ε)
    (fun point s => (ran_tell point s).imp fun _ htell => htell.lift) points s
  refine ⟨_, s', hran, ?_, ?_⟩
  · simp
  · rw [Trace.tried_foldr, List.map_map, ← List.flatMap_pure_eq_map]
    rfl

/-- What a run does with its points. -/
def Arguments.publish {m : Type → Type} [Monad m] [Disk m] [Teller m] (a : Arguments)
    (points : List (SweepPoint Float)) : ExceptT RunFailure m Unit := do
  for point in points do
    Teller.tell (m := m) point
  a.saveResults (m := m) points

omit [Toml.Library] [MonadLog Float (StateM σ)] in
theorem ran_publish (a : Arguments) (points : List (SweepPoint Float)) (s : σ) :
    ∃ published d s', Ran (a.publish (m := Watched σ) points).run (a.publish points).run s
        published d s' ∧
      d.looks = [] ∧ Follows d.tried (points.map .tell ++ a.resultDeeds points) published := by
  obtain ⟨d, s₁, htells, hlooks, htried⟩ := ran_tells (ε := RunFailure) points s
  obtain ⟨published, e, s₂, hsaved, helooks, -, hfollows⟩ := ran_saveResults a points s₁
  refine ⟨published, d ++ e, s₂, htells.bind_ok hsaved, by simp [hlooks, helooks], ?_⟩
  rw [Trace.tried_append, htried]
  exact hfollows.after _

/-- What a run does with its comparison. -/
def Arguments.compare {m : Type → Type} [Monad m] [Disk m] [MonadLog Float m] [Teller m]
    (a : Arguments) (c : Comparison Float) : ExceptT RunFailure m Unit := do
  a.saveAtmosphere (m := m) c
  let points ← reporting (Failure.map Error.report) (c.run (m := m))
  for point in points do
    Teller.tell (m := m) point
  a.saveResults (m := m) points

/-- What is seen of a run from the time on that it has a comparison. -/
structure Arguments.Compared (a : Arguments) (c : Comparison Float) (s : σ) (succeeded : Prop)
    (d : Trace) (s' : σ) : Prop where
  /-- If the points cannot all be drawn, no more is done than to write the settings of the
  atmosphere. -/
  undrawn : ∀ failure, c.pointsOf = .error failure → ¬succeeded ∧ d.looks = [] ∧
    (d.tried = (a.atmosphereDeeds c).map (·, true) ∨ Stopped d.tried (a.atmosphereDeeds c))
  /-- If they can be, the deeds are the first ones of the plan for these points, and all of them if
  the run succeeds. -/
  drawn : ∀ points, c.pointsOf = .ok points → points.map (·.cutoff) = c.cutoffs ∧
    d.looks.map (·.1) <+: (Path.parent? c.figurePath).toList ∧
    (d.tried = (a.plan c d.looks points).map (·, true) ∨
      Stopped d.tried (a.plan c d.looks points)) ∧
    (succeeded ↔ d.looks.map (·.1) = (Path.parent? c.figurePath).toList ∧
      d.tried = (a.plan c d.looks points).map (·, true))
  /-- If the settings of the atmosphere cannot be written, nothing is drawn. The points are those
  that the comparison comes to, and if it fails, nothing is told and no results are written. -/
  staged : ∃ saved s₁, (a.saveAtmosphere (m := StateM σ) c).run.run s = (saved, s₁) ∧
    (∀ failure, saved = .error failure →
      s' = s₁ ∧ d.records = [] ∧ d.looks = [] ∧ Stopped d.tried (a.atmosphereDeeds c)) ∧
    (saved = .ok () → ∃ ran s₂, (c.run (m := StateM σ)).run.run s₁ = (ran, s₂) ∧
      (∀ points, ran = .ok points → c.pointsOf = .ok points) ∧
      ∀ failure, ran = .error failure → s' = s₂ ∧ ∀ x ∈ d.tried,
        (∀ point, x.1 ≠ .tell point) ∧ ∀ path content, x.1 ≠ .write path (.pickle content))

/-- Nothing is told of results before there is a figure, and none are written. -/
theorem not_result_of_mem {a : Arguments} {c : Comparison Float} {looks : List (String × Bool)}
    {points : List (SweepPoint Float)} {deed : Deed}
    (hdeed : deed ∈ a.atmosphereDeeds c ++ c.figure.deeds points c.figurePath looks) :
    (∀ point, deed ≠ .tell point) ∧ ∀ path content, deed ≠ .write path (.pickle content) := by
  simp only [Arguments.atmosphereDeeds, Figure.deeds, List.mem_append, List.mem_map,
    List.mem_singleton] at hdeed
  rcases hdeed with ⟨_, -, rfl⟩ | ⟨_, -, rfl⟩ | rfl <;> simp

namespace Comparison.Seen

variable {a : Arguments} {c : Comparison Float} {points : List (SweepPoint Float)} {d e : Trace}

omit [Toml.Library] in
theorem pointsOf_eq (hseen : c.Seen (.ok points) e) : c.pointsOf = .ok points := by
  cases hpoints : c.pointsOf with
  | error failure => exact absurd (hseen.undrawn failure hpoints).1 nofun
  | ok points' => rw [(hseen.drawn points' hpoints).1 points rfl]

section Failed

variable {failure : Failure (Error Float)} (hseen : c.Seen (.error failure) e)
  (htried : d.tried = (a.atmosphereDeeds c).map (·, true))

include hseen htried

/-- A run that fails once the settings are written has stopped on the way to the figure. -/
theorem stopped (hpoints : c.pointsOf = .ok points) : Stopped (d ++ e).tried
    (a.atmosphereDeeds c ++ c.figure.deeds points c.figurePath e.looks) := by
  obtain ⟨-, -, -, hfollows⟩ := hseen.drawn points hpoints
  rw [Trace.tried_append, htried]
  exact Stopped.after hfollows (a.atmosphereDeeds c)

theorem not_result {x : Deed × Bool} (hx : x ∈ (d ++ e).tried) :
    (∀ point, x.1 ≠ .tell point) ∧ ∀ path content, x.1 ≠ .write path (.pickle content) := by
  cases hpoints : c.pointsOf with
  | error failure' =>
      obtain ⟨-, -, hetried⟩ := hseen.undrawn failure' hpoints
      have hmem : x.1 ∈ a.atmosphereDeeds c ++ c.figure.deeds [] c.figurePath [] := by
        simp only [Trace.tried_append, htried, hetried, List.append_nil, List.mem_map] at hx
        obtain ⟨deed, hdeed, rfl⟩ := hx
        exact List.mem_append_left _ hdeed
      exact not_result_of_mem hmem
  | ok points => exact not_result_of_mem ((hseen.stopped htried hpoints).mem hx)

end Failed

end Comparison.Seen

theorem drawn_of_follows {a : Arguments} {c : Comparison Float} {points : List (SweepPoint Float)}
    (hpoints : c.pointsOf = .ok points) {d : Trace} {outcome : Except RunFailure Unit}
    (hlooks : d.looks.map (·.1) <+: (Path.parent? c.figurePath).toList)
    (hlooked : outcome = .ok () → d.looks.map (·.1) = (Path.parent? c.figurePath).toList)
    (hfollows : Follows d.tried (a.plan c d.looks points) outcome) :
    points.map (·.cutoff) = c.cutoffs ∧
      d.looks.map (·.1) <+: (Path.parent? c.figurePath).toList ∧
      (d.tried = (a.plan c d.looks points).map (·, true) ∨
        Stopped d.tried (a.plan c d.looks points)) ∧
      (outcome = .ok () ↔ d.looks.map (·.1) = (Path.parent? c.figurePath).toList ∧
        d.tried = (a.plan c d.looks points).map (·, true)) := by
  refine ⟨Comparison.map_cutoff_of_pointsOf hpoints, hlooks, hfollows.done_or_stopped, ?_⟩
  rw [hfollows.eq_ok_iff] at hlooked ⊢
  exact (and_iff_right_of_imp hlooked).symm

theorem ran_compare (a : Arguments) (c : Comparison Float) (s : σ) :
    ∃ outcome d s', Ran (a.compare (m := Watched σ) c).run (a.compare c).run s outcome d s' ∧
      a.Compared c s (outcome = .ok ()) d s' := by
  obtain ⟨saved, d, s₁, hsaved, hlooks, hrecords, hfollows⟩ := ran_saveAtmosphere a c s
  obtain ⟨ran, e, s₂, hrun, hseen⟩ := ran_run c s₁
  cases saved with
  | error failure =>
      refine ⟨.error failure, d, s₁, hsaved.bind_error, ?_, ?_, .error failure, s₁, hsaved.plain,
        ?_, by simp⟩
      · intro _ _
        exact ⟨by simp, hlooks, .inr hfollows⟩
      · intro points hpoints
        exact drawn_of_follows hpoints (by simp [hlooks]) (by simp) (hfollows.append _)
      · rintro _ -
        exact ⟨rfl, hrecords, hlooks, hfollows⟩
  | ok _ =>
      have htried : d.tried = (a.atmosphereDeeds c).map (·, true) := hfollows
      cases ran with
      | error failure =>
          have hlooked : (d ++ e).looks = e.looks := by simp [hlooks]
          refine ⟨.error (failure.map Error.report), d ++ e, s₂,
            hsaved.bind_ok (hrun.adapt _).bind_error, ?_, ?_, .ok (), s₁, hsaved.plain, by simp,
            fun _ => ⟨_, s₂, hrun.plain, by simp, ?_⟩⟩
          · intro failure' hfailure
            obtain ⟨-, helooks, hetried⟩ := hseen.undrawn failure' hfailure
            simp [hlooks, helooks, hetried, htried]
          · intro points hpoints
            obtain ⟨-, helooks, -, -⟩ := hseen.drawn points hpoints
            refine drawn_of_follows hpoints (hlooked ▸ helooks) (by simp) ?_
            have hplan := (hseen.stopped htried hpoints).append
              (points.map .tell ++ a.resultDeeds points)
            rwa [List.append_assoc, ← hlooked] at hplan
          · rintro _ -
            exact ⟨rfl, fun x hx => hseen.not_result htried hx⟩
      | ok points =>
          have hpoints := hseen.pointsOf_eq
          obtain ⟨-, helooks, helooked, hefollows⟩ := hseen.drawn points hpoints
          have hetried : e.tried = (c.figure.deeds points c.figurePath e.looks).map (·, true) :=
            hefollows
          obtain ⟨published, k, s₃, hpublish, hklooks, hkfollows⟩ := ran_publish a points s₂
          have hlooked : (d ++ (e ++ k)).looks = e.looks := by simp [hlooks, hklooks]
          refine ⟨published, d ++ (e ++ k), s₃,
            hsaved.bind_ok ((hrun.adapt _).bind_ok hpublish), ?_, ?_, .ok (), s₁, hsaved.plain,
            by simp, fun _ => ⟨_, s₂, hrun.plain, ?_, by simp⟩⟩
          · intro failure hfailure
            rw [hpoints] at hfailure
            cases hfailure
          · intro points' hpoints'
            obtain rfl : points = points' := Except.ok.inj (hpoints.symm.trans hpoints')
            refine drawn_of_follows hpoints (hlooked ▸ helooks)
              (fun _ => hlooked ▸ helooked ⟨_, rfl⟩) ?_
            rw [hlooked, Trace.tried_append, Trace.tried_append, htried, hetried]
            exact (hkfollows.after _).after _
          · rintro _ ⟨⟩
            exact hpoints

theorem exists_ending {words : List String} {a : Arguments}
    (hwords : CommandLine.read words = .run a) {s s' : σ} {outcome : Except RunFailure Unit}
    {trace : Trace}
    (hran : Ran (a.run (m := Watched σ)).run a.run.run s outcome trace s') :
    ∃ ending, Ran (runProgram (m := Watched σ) words) (runProgram words) s ending trace s' ∧
      (ending.status = 0 ↔ outcome = .ok ()) := by
  simp only [runProgram, hwords]
  rw [← trace.append_empty]
  rcases outcome with (report | _) | _
  · exact ⟨.failure report, hran.bind (ran_pure _ s'), by simp [Ending.status]⟩
  · exact ⟨.crash, hran.bind (ran_pure _ s'), by simp [Ending.status]⟩
  · exact ⟨.success, hran.bind (ran_pure _ s'), by simp [Ending.status]⟩

/-- What a run does with its reference profile. -/
def Arguments.buildAndCompare {m : Type → Type} [Monad m] [Disk m] [MonadLog Float m] [Teller m]
    (a : Arguments) (reference : ReferenceProfile Float) : ExceptT RunFailure m Unit :=
  a.construct (m := m) reference >>= a.compare

theorem Arguments.run_eq {m : Type → Type} [Monad m] [Disk m] [MonadLog Float m] [Teller m]
    (a : Arguments) : a.run (m := m) = a.loadReference >>= a.buildAndCompare :=
  rfl

omit [Toml.Library] [Disk (StateM σ)] [Teller (StateM σ)] in
theorem ran_construct (a : Arguments) (reference : ReferenceProfile Float) (s : σ) :
    ∃ records s', Ran (a.construct (m := Watched σ) reference).run (a.construct reference).run s
        ((a.settingsWith reference).build.mapError (Failure.map Error.report))
        { records := records } s' ∧
      (forM records (MonadLog.record (m := StateM σ))).run s = ((), s') ∧
      ∀ c, (a.settingsWith reference).build = .ok c →
        records = (a.settingsWith reference).records c := by
  obtain ⟨records, hnotes, hrecords⟩ := (a.settingsWith reference).constructs
  obtain ⟨s', hran, hstate⟩ := ran_of_notes hnotes s
  exact ⟨records, s', hran.adapt _, hstate, hrecords⟩

/-- Whatever the surroundings are and wherever they fail, the deeds of a run are the first ones of
its plan, in the order of the plan and each done but for the last, which may have been tried in
vain. The exit status tells success just if all of the plan was done. A run whose reference profile
cannot be loaded only reads, and one whose comparison is not built only reads and keeps records. If
the settings of the atmosphere cannot be saved, nothing is drawn. If the comparison fails, nothing
is told and no results are written. -/
theorem effects_of_run {words : List String} {a : Arguments}
    (hwords : CommandLine.read words = .run a) (s : σ) :
    ∃ ending trace s',
      Ran (runProgram (m := Watched σ) words) (runProgram words) s ending trace s' ∧
      ∃ loaded s₁, (a.loadReference (m := StateM σ)).run.run s = (loaded, s₁) ∧
        (∀ failure, loaded = .error failure → ending.status ≠ 0 ∧ s' = s₁ ∧ trace = {}) ∧
        ∀ reference, loaded = .ok reference →
          (∀ failure, (a.settingsWith reference).build = .error failure →
            ending.status ≠ 0 ∧ ∃ records, trace = { records := records } ∧
              (forM records (MonadLog.record (m := StateM σ))).run s₁ = ((), s')) ∧
          ∀ c, (a.settingsWith reference).build = .ok c → ∃ d s₂,
            trace = { records := (a.settingsWith reference).records c } ++ d ∧
            (forM ((a.settingsWith reference).records c) (MonadLog.record (m := StateM σ))).run s₁ =
              ((), s₂) ∧
            a.Compared c s₂ (ending.status = 0) d s' := by
  obtain ⟨loaded, s₁, hloaded⟩ := ran_loadReference a s
  cases loaded with
  | error failure =>
      have hrun := hloaded.bind_error (f := a.buildAndCompare) (g := a.buildAndCompare)
      rw [← Arguments.run_eq, ← Arguments.run_eq] at hrun
      obtain ⟨ending, hran, hstatus⟩ := exists_ending hwords hrun
      refine ⟨ending, {}, s₁, hran, .error failure, s₁, hloaded.plain, ?_, by simp⟩
      rintro _ -
      exact ⟨by simp [hstatus], rfl, rfl⟩
  | ok reference =>
      obtain ⟨records, s₂, hconstruct, hstate, hrecords⟩ := ran_construct a reference s₁
      cases hbuild : (a.settingsWith reference).build with
      | error failure =>
          rw [hbuild] at hconstruct
          have hrun := hloaded.bind_ok (f := a.buildAndCompare) (g := a.buildAndCompare)
            hconstruct.bind_error
          rw [← Arguments.run_eq, ← Arguments.run_eq, Trace.empty_append] at hrun
          obtain ⟨ending, hran, hstatus⟩ := exists_ending hwords hrun
          refine ⟨ending, _, s₂, hran, .ok reference, s₁, hloaded.plain, by simp, ?_⟩
          rintro _ ⟨⟩
          refine ⟨?_, by simp [hbuild]⟩
          rintro _ -
          exact ⟨by simp [hstatus], records, rfl, hstate⟩
      | ok c =>
          obtain rfl := hrecords c hbuild
          rw [hbuild] at hconstruct
          obtain ⟨outcome, d, s', hcompare, hcompared⟩ := ran_compare a c s₂
          have hrun := hloaded.bind_ok (f := a.buildAndCompare) (g := a.buildAndCompare)
            (hconstruct.bind_ok hcompare)
          rw [← Arguments.run_eq, ← Arguments.run_eq, Trace.empty_append] at hrun
          obtain ⟨ending, hran, hstatus⟩ := exists_ending hwords hrun
          refine ⟨ending, _, s', hran, .ok reference, s₁, hloaded.plain, by simp, ?_⟩
          rintro _ ⟨⟩
          refine ⟨by simp [hbuild], ?_⟩
          intro c' hc'
          obtain rfl : c = c' := Except.ok.inj (hbuild.symm.trans hc')
          exact ⟨d, s₂, rfl, hstate, propext hstatus ▸ hcompared⟩

end Run

section Narrow

/-- An option with a value that follows it. -/
theorem CommandLine.readFrom_option (name : String) {a a' : Arguments} {given : List String}
    {word value : String} {set : Setter}
    (hword : word ≠ "--" ∧ word.startsWith "--" = true ∧ splitOption word = (name, none) ∧
      name ≠ "help" ∧ name ∉ given ∧ isValue value = true)
    (hlookup : options.lookup name = some set) (hset : set value a = some a')
    (rest : List String) :
    readFrom a given (word :: value :: rest) = readFrom a' (name :: given) rest := by
  obtain ⟨hdashes, hoption, hsplit, hhelp, hgiven, hvalue⟩ := hword
  rw [readFrom, if_neg hdashes, if_pos hoption, hsplit]
  simp [hhelp, hgiven, hlookup, hvalue, hset]

/-- The arguments for a pupil of two centimetres and for all files. -/
def narrow : Arguments where
  settings := { diameter := 0.02 }
  saveProfile := some "settings.toml"
  results := some "points.pkl"

/-- The words of these arguments. -/
def narrowWords : List String :=
  ["--diam", "0.02", "--save-profile", "settings.toml", "--pickle", "points.pkl"]

theorem read_narrowWords : CommandLine.read narrowWords = .run narrow := by
  have hdiam : CommandLine.options.lookup "diam" =
      some (CommandLine.float fun x s => { s with diameter := x }) := by
    simp [CommandLine.options, List.lookup]
  have hprofile : CommandLine.options.lookup "save-profile" =
      some (CommandLine.path fun p a => { a with saveProfile := some p }) := by
    simp [CommandLine.options, List.lookup]
  have hpickle : CommandLine.options.lookup "pickle" =
      some (CommandLine.path fun p a => { a with results := some p }) := by
    simp [CommandLine.options, List.lookup]
  have hdiameter : CommandLine.readFloat? "0.02" = some 0.02 := by decide +kernel
  have hsettings : CommandLine.readPath? "settings.toml" = some "settings.toml" := by
    decide +kernel
  have hpoints : CommandLine.readPath? "points.pkl" = some "points.pkl" := by decide +kernel
  rw [CommandLine.read, narrowWords,
    CommandLine.readFrom_option "diam" (by decide +kernel) hdiam (congrArg _ hdiameter),
    CommandLine.readFrom_option "save-profile" (by decide +kernel) hprofile
      (congrArg _ hsettings),
    CommandLine.readFrom_option "pickle" (by decide +kernel) hpickle (congrArg _ hpoints)]
  rfl

theorem exists_build_narrow : ∃ c, (narrow.settingsWith .cerroPachon).build = .ok c ∧ c.Ready ∧
    c.atmosphere.seed.toNat ≤ 2 ^ 63 - 1 ∧ c.atmosphere.turbulence.layerCount ≤ 2 ^ 63 - 1 := by
  have hany : ((narrow.settingsWith .cerroPachon).build.toOption.any fun c =>
      decide (c.Ready ∧ c.atmosphere.seed.toNat ≤ 2 ^ 63 - 1 ∧
        c.atmosphere.turbulence.layerCount ≤ 2 ^ 63 - 1)) = true := by
    decide +kernel
  cases hbuild : (narrow.settingsWith .cerroPachon).build with
  | error failure =>
      rw [hbuild] at hany
      cases hany
  | ok c =>
      rw [hbuild] at hany
      exact ⟨c, rfl, of_decide_eq_true hany⟩

section Files

variable {c : Comparison Float} (hbuild : (narrow.settingsWith .cerroPachon).build = .ok c)
  {points : List (SweepPoint Float)} (hpoints : c.pointsOf = .ok points)

include hbuild hpoints

theorem check_narrow : c.figure.check points.length = .ok () := by
  obtain ⟨_, hcutoffs, -, -, -, hc⟩ := ComparisonSettings.build_eq_ok_iff.1 hbuild
  have hlength : points.length = cutoffCount := by
    rw [← length_of_cutoffs hcutoffs, ← Comparison.map_cutoff_of_pointsOf hpoints,
      List.length_map]
  rw [hlength, hc]
  rfl

omit hpoints in
theorem figurePath_narrow : c.figurePath = "output/secondKick.png" := by
  obtain ⟨_, -, -, -, -, hc⟩ := ComparisonSettings.build_eq_ok_iff.1 hbuild
  rw [hc]
  rfl

/-- On the empty disk there is room for all files. -/
theorem moves_narrow {text : String} (htext : c.atmosphere.documentText? = some text) :
    ∃ v, Moves (runProgram (m := Worldly) narrowWords) {} .success v := by
  have hdirectory : Path.resolve "output" = ["output"] := by decide
  -- the disk after the settings, after the directory of the figure, and after the figure
  let v₁ : Volume := ({} : Volume).put ["settings.toml"] (.file (.text text))
  let v₂ : Volume := v₁.put ["output"] .directory
  let v₃ : Volume :=
    v₂.put ["output", "secondKick.png"] (.file (.raster (c.figure.drawing points)))
  have hsettings : ({} : Volume).write "settings.toml" (.text text) = .ok v₁ :=
    Volume.write_of_missing (by decide) (by decide) rfl rfl _
  have hmade : Moves (Figure.prepareDirectory (m := Worldly) "output/secondKick.png").run v₁
      (.ok ()) v₂ := by
    have hmissing : v₁.find "output" = .error .missing := by
      rw [Volume.find, hdirectory]
      rfl
    refine moves_prepareDirectory_of_missing (by decide) hmissing ?_
    rw [hdirectory]
    rfl
  have hfigure : v₂.write "output/secondKick.png" (.raster (c.figure.drawing points)) = .ok v₃ :=
    Volume.write_of_missing (by decide) (by decide) rfl rfl _
  have hresults : v₃.write "points.pkl" (.pickle (pickleOfPoints points)) =
      .ok (v₃.put ["points.pkl"] (.file (.pickle (pickleOfPoints points)))) :=
    Volume.write_of_missing (by decide) (by decide) rfl rfl _
  have hsaved : Moves (c.figure.save (m := Worldly) points c.figurePath).run v₁ (.ok ()) v₃ := by
    rw [figurePath_narrow hbuild]
    exact moves_save_figure (check_narrow hbuild hpoints) hmade (by decide +kernel) hfigure
  exact ⟨_, Arguments.moves_runProgram read_narrowWords (Arguments.moves_run
    (Arguments.moves_loadReference rfl _) hbuild
    (Arguments.moves_saveAtmosphere rfl htext hsettings) (moves_run_comparison hpoints hsaved)
    (Arguments.moves_saveResults rfl hresults))⟩

end Files

/-- With a pupil of two centimetres and an empty disk, all of the plan is done. -/
theorem effects_of_run_narrow : ∃ (ending : Ending) (trace : Trace) (w : World)
      (c : Comparison Float) (points : List (SweepPoint Float)),
    Ran (runProgram (m := Watched World) narrowWords) (runProgram narrowWords) {} ending trace w ∧
      ending.status = 0 ∧ (narrow.settingsWith .cerroPachon).build = .ok c ∧
      c.pointsOf = .ok points ∧ points.map (·.cutoff) = c.cutoffs ∧
      trace.looks.map (·.1) = ["output"] ∧
      trace.tried = (narrow.plan c trace.looks points).map (·, true) := by
  obtain ⟨c, hbuild, hready, hcounts⟩ := exists_build_narrow
  obtain ⟨points, hpoints⟩ := ComparisonSettings.exists_pointsOf_of_build hbuild hready
  obtain ⟨text, htext⟩ :=
    (AtmosphereSettings.exists_documentText?_iff Toml.lawful_standardLibrary).2 hcounts
  obtain ⟨v, hmoves⟩ := moves_narrow hbuild hpoints htext
  obtain ⟨w', hsuccess, -⟩ := hmoves {} rfl
  obtain ⟨ending, trace, w, hran, loaded, w₁, hloaded, -, hafter⟩ :=
    effects_of_run read_narrowWords ({} : World)
  obtain ⟨rfl, rfl⟩ : .ok .cerroPachon = loaded ∧ {} = w₁ := Prod.ext_iff.1 hloaded
  obtain ⟨d, w₂, rfl, -, hcompared⟩ := (hafter _ rfl).2 c hbuild
  obtain ⟨rfl, rfl⟩ : .success = ending ∧ w' = w :=
    Prod.ext_iff.1 (hsuccess.symm.trans hran.plain)
  obtain ⟨hcutoffs, -, -, hdone⟩ := hcompared.drawn points hpoints
  obtain ⟨hlooks, htried⟩ := hdone.1 rfl
  refine ⟨_, _, _, c, points, hran, rfl, hbuild, hpoints, hcutoffs, hlooks.trans ?_, htried⟩
  rw [figurePath_narrow hbuild]
  decide

end Narrow

end Seeing
