import Seeing.Proofs.Comparison.Construction
import Seeing.World

/-!
# Runs that succeed

In a world an action moves the disk from one volume to another, `Moves`, whatever records and
effects the world holds. All but writing leaves the disk as it was, so a run moves it by its files,
one after the other: `Arguments.moves_run`. It succeeds if its comparison can be built and drawn and
the disk takes the files.
-/

namespace Seeing

section Moves

variable {ε δ β γ : Type}

/-- In every world with the volume `v`, the action gives the value and leaves the volume `v'`. -/
def Moves (x : Worldly β) (v : Volume) (b : β) (v' : Volume) : Prop :=
  ∀ w : World, w.volume = v → ∃ w' : World, x.run w = (b, w') ∧ w'.volume = v'

variable {v v' v'' : Volume} {b : β} {c : γ}

theorem moves_pure (b : β) (v : Volume) : Moves (pure b) v b v :=
  fun w hw => ⟨w, rfl, hw⟩

theorem Moves.bind {x : Worldly β} {f : β → Worldly γ} (hx : Moves x v b v')
    (hf : Moves (f b) v' c v'') : Moves (x >>= f) v c v'' := by
  intro w hw
  obtain ⟨w₁, hx, hw₁⟩ := hx w hw
  obtain ⟨w₂, hf, hw₂⟩ := hf w₁ hw₁
  refine ⟨w₂, ?_, hw₂⟩
  rw [StateT.run_bind, hx]
  exact hf

theorem Moves.map {x : Worldly β} (f : β → γ) (hx : Moves x v b v') :
    Moves (f <$> x) v (f b) v' := by
  rw [map_eq_pure_bind]
  exact hx.bind (moves_pure (f b) v')

section Operations

theorem moves_record (r : Record Float) (v : Volume) : Moves (MonadLog.record r) v () v :=
  fun _ hw => ⟨_, rfl, hw⟩

theorem moves_tell (point : SweepPoint Float) (v : Volume) : Moves (Teller.tell point) v () v :=
  fun _ hw => ⟨_, rfl, hw⟩

theorem moves_isThere_of_missing {path : String} {cause : DiskError}
    (hfind : v.find path = .error cause) : Moves (Disk.isThere path) v false v := by
  rintro w rfl
  refine ⟨w, ?_, rfl⟩
  change (_, w) = _
  rw [hfind]

theorem moves_update {effect : Effect} {outcome : Except DiskError Volume}
    (houtcome : outcome = .ok v') (w : World) :
    ∃ w', w.update effect outcome = (.ok (), w') ∧ w'.volume = v' := by
  subst houtcome
  exact ⟨_, rfl, rfl⟩

theorem moves_write {path : String} {content : Document}
    (hwrite : v.write path content = .ok v') : Moves (Disk.write path content) v (.ok ()) v' := by
  rintro w rfl
  exact moves_update hwrite w

theorem moves_makeDirectory {path : String}
    (hmake : v.makeAll [] (Path.resolve path) = .ok v') :
    Moves (Disk.makeDirectory path) v (.ok ()) v' := by
  rintro w rfl
  exact moves_update hmake w

end Operations

section Except

variable {x : ExceptT ε Worldly β} {f : β → ExceptT ε Worldly γ}

theorem Moves.bind_ok {outcome : Except ε γ} (hx : Moves x.run v (.ok b) v')
    (hf : Moves (f b).run v' outcome v'') : Moves (x >>= f).run v outcome v'' := by
  rw [ExceptT.run_bind]
  exact hx.bind hf

theorem Moves.lift {x : Worldly β} (hx : Moves x v b v') :
    Moves (ExceptT.lift x : ExceptT ε Worldly β).run v (.ok b) v' :=
  hx.map Except.ok

theorem Moves.adapt {outcome : Except ε β} (report : ε → δ) (hx : Moves x.run v outcome v') :
    Moves (ExceptT.adapt report x).run v (outcome.mapError report) v' :=
  hx.map (Except.mapError report)

theorem moves_mk (outcome : Except ε β) (v : Volume) :
    Moves (ExceptT.run (ExceptT.mk (pure outcome))) v outcome v :=
  moves_pure outcome v

/-- What comes to the same in every monad leaves the disk as it was. -/
theorem moves_of_notes
    {x : ∀ {m : Type → Type} [Monad m] [LawfulMonad m] [MonadLog Float m], ExceptT ε m β}
    {records : List (Record Float)} {outcome : Except ε β} (hx : Notes x records outcome)
    (v : Volume) : Moves (x (m := Worldly)).run v outcome v := by
  rw [hx]
  clear hx
  induction records with
  | nil => exact moves_pure outcome v
  | cons r records ih =>
      simp only [List.forM_cons, bind_assoc]
      exact (moves_record r v).bind (f := fun _ => _) ih

/-- A loop of actions that leave the disk as it was. -/
theorem moves_forIn {f : β → ExceptT ε Worldly Unit} (hf : ∀ b, Moves (f b).run v (.ok ()) v)
    (bs : List β) :
    Moves (forIn bs PUnit.unit fun b _ => do f b; pure (.yield PUnit.unit)).run v
      (.ok PUnit.unit) v := by
  induction bs with
  | nil => exact moves_pure _ v
  | cons b bs ih =>
      simp only [List.forIn_cons, bind_assoc, pure_bind]
      exact (hf b).bind_ok ih

end Except

end Moves

section Files

variable {v v' v'' : Volume} {path : String}

theorem moves_prepareDirectory_of_missing {directory : String} {cause : DiskError}
    (hparent : Path.parent? path = some directory) (hfind : v.find directory = .error cause)
    (hmake : v.makeAll [] (Path.resolve directory) = .ok v') :
    Moves (Figure.prepareDirectory (m := Worldly) path).run v (.ok ()) v' := by
  unfold Figure.prepareDirectory
  rw [hparent]
  exact (moves_isThere_of_missing hfind).lift.bind_ok
    ((moves_makeDirectory hmake).lift.bind_ok (moves_mk _ _))

theorem moves_save_figure {f : Figure} {points : List (SweepPoint Float)}
    (hcheck : f.check points.length = .ok ())
    (hdirectory : Moves (Figure.prepareDirectory (m := Worldly) path).run v (.ok ()) v')
    (hextension : Figure.extensions.contains ((Path.extension? path).getD "") = true)
    (hwrite : v'.write path (.raster (f.drawing points)) = .ok v'') :
    Moves (f.save (m := Worldly) points path).run v (.ok ()) v'' := by
  unfold Figure.save
  rw [hcheck]
  refine (moves_mk _ v).bind_ok (hdirectory.bind_ok
    ((moves_forIn (fun label => (moves_record (.unlabelled label) v').lift) _).bind_ok ?_))
  rw [if_pos hextension]
  exact (moves_write hwrite).lift.bind_ok (moves_mk _ _)

theorem moves_run_comparison {c : Comparison Float} {points : List (SweepPoint Float)}
    (hpoints : c.pointsOf = .ok points)
    (hfigure : Moves (c.figure.save (m := Worldly) points c.figurePath).run v (.ok ()) v') :
    Moves (c.run (m := Worldly)).run v (.ok points) v' := by
  obtain ⟨records, hnotes⟩ := c.settles_points
  rw [hpoints] at hnotes
  exact (moves_of_notes hnotes v).bind_ok (hfigure.lift.bind_ok (moves_mk _ _))

end Files

namespace Arguments

variable [Toml.Library] {a : Arguments} {c : Comparison Float} {points : List (SweepPoint Float)}
  {v v' : Volume} {path : String}

theorem moves_loadReference (hprofile : a.profile = none) (v : Volume) :
    Moves (a.loadReference (m := Worldly)).run v (.ok a.settings.reference) v := by
  unfold loadReference
  rw [hprofile]
  exact moves_mk _ v

theorem moves_saveAtmosphere {text : String} (hpath : a.saveProfile = some path)
    (htext : c.atmosphere.documentText? = some text) (hwrite : v.write path (.text text) = .ok v') :
    Moves (a.saveAtmosphere (m := Worldly) c).run v (.ok ()) v' := by
  have hsaved : Moves (c.atmosphere.save (m := Worldly) path).run v (.ok ()) v' := by
    unfold AtmosphereSettings.save
    rw [htext]
    exact (moves_write hwrite).lift.bind_ok (moves_mk _ _)
  unfold saveAtmosphere
  rw [hpath]
  exact hsaved.adapt _

omit [Toml.Library] in
theorem moves_saveResults (hpath : a.results = some path)
    (hwrite : v.write path (.pickle (pickleOfPoints points)) = .ok v') :
    Moves (a.saveResults (m := Worldly) points).run v (.ok ()) v' := by
  have hsaved : Moves (Seeing.saveResults (m := Worldly) points path).run v (.ok ()) v' :=
    (moves_write hwrite).lift.bind_ok (moves_mk _ _)
  unfold saveResults
  rw [hpath]
  exact hsaved.adapt _

omit [Toml.Library] in
theorem moves_construct {reference : ReferenceProfile Float}
    (hbuild : (a.settingsWith reference).build = .ok c) (v : Volume) :
    Moves (a.construct (m := Worldly) reference).run v (.ok c) v := by
  obtain ⟨records, hnotes, -⟩ := (a.settingsWith reference).constructs
  rw [hbuild] at hnotes
  exact (moves_of_notes hnotes v).adapt _

/-- A run succeeds if its comparison can be built and drawn, and the disk takes the settings of the
atmosphere, then the figure, and then the results. -/
theorem moves_run {reference : ReferenceProfile Float} {v₁ v₂ v₃ : Volume}
    (hreference : Moves (a.loadReference (m := Worldly)).run v (.ok reference) v)
    (hbuild : (a.settingsWith reference).build = .ok c)
    (hatmosphere : Moves (a.saveAtmosphere (m := Worldly) c).run v (.ok ()) v₁)
    (hrun : Moves (c.run (m := Worldly)).run v₁ (.ok points) v₂)
    (hresults : Moves (a.saveResults (m := Worldly) points).run v₂ (.ok ()) v₃) :
    Moves (a.run (m := Worldly)).run v (.ok ()) v₃ :=
  hreference.bind_ok <| (moves_construct hbuild v).bind_ok <| hatmosphere.bind_ok <|
    (hrun.adapt _).bind_ok <|
      (moves_forIn (fun point => (moves_tell point v₂).lift) points).bind_ok hresults

theorem moves_runProgram {words : List String} (hwords : CommandLine.read words = .run a)
    (hrun : Moves (a.run (m := Worldly)).run v (.ok ()) v') :
    Moves (runProgram (m := Worldly) words) v .success v' := by
  simp only [runProgram, hwords]
  exact hrun.bind (moves_pure Ending.success v')

end Arguments

end Seeing
