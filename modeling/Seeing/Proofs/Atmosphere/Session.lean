import Seeing.Atmosphere.Session
import Seeing.Proofs.Settings
import Seeing.Random.Source
import Seeing.Scalar.Machine

/-!
# What an atmosphere holds while it is used

Drawing screens in place does what `Atmosphere.instantiate?` says, or crashes and changes nothing:
`Atmosphere.run_instantiate`. So the screens of an atmosphere in use are those of the last call that
returned, whatever was set or tried after it. A `Session` keeps this call beside the atmosphere,
`Session.Holds` is what every action preserves, and `Session.holds_of_actions` is what a whole
session preserves from the atmosphere that was built.

The phase between pixels is read at four places of each screen. `PhaseScreen.phase?` reads them with
a check, and never finds one outside of the data: `PhaseScreen.phase?_eq_some`.
-/

namespace Seeing

namespace PhaseScreen

variable {α : Type} [Scalar α]

/-- The phase at a point and a time, with every place in the data checked before it is read. -/
def phase? (p : PhaseScreen α) (x y t : α) : Option α := do
  let u := Scalar.wrap ((x - p.velocity.1 * t) / p.scale) p.side
  let v := Scalar.wrap ((y - p.velocity.2 * t) / p.scale) p.side
  let i₀ := Scalar.toNat (Scalar.floor u) % p.side
  let j₀ := Scalar.toNat (Scalar.floor v) % p.side
  let i₁ := (i₀ + 1) % p.side
  let j₁ := (j₀ + 1) % p.side
  let du := u - Scalar.floor u
  let dv := v - Scalar.floor v
  let data := p.phases.toArray
  let c₀₀ ← data[j₀ * p.side + i₀]?
  let c₁₀ ← data[j₀ * p.side + i₁]?
  let c₀₁ ← data[j₁ * p.side + i₀]?
  let c₁₁ ← data[j₁ * p.side + i₁]?
  some ((1 - du) * (1 - dv) * c₀₀ + du * (1 - dv) * c₁₀ + (1 - du) * dv * c₀₁ + du * dv * c₁₁)

omit [Scalar α] in
theorem getElem?_toArray_phases (p : PhaseScreen α) (i j : ℕ) :
    p.phases.toArray[j % p.side * p.side + i % p.side]? = some (p.pixel i j) := by
  have hlt := Grid.index_lt ⟨i % p.side, Nat.mod_lt i p.side_pos⟩
    ⟨j % p.side, Nat.mod_lt j p.side_pos⟩
  rw [Array.getElem?_eq_getElem (by rwa [Grid.size_toArray])]
  rfl

omit [Scalar α] in
theorem pixel_mod_left (p : PhaseScreen α) (i j : ℕ) : p.pixel (i % p.side) j = p.pixel i j := by
  simp only [pixel, Nat.mod_mod]

omit [Scalar α] in
theorem pixel_mod_right (p : PhaseScreen α) (i j : ℕ) : p.pixel i (j % p.side) = p.pixel i j := by
  simp only [pixel, Nat.mod_mod]

theorem phase?_eq_some (p : PhaseScreen α) (x y t : α) : p.phase? x y t = some (p.phase x y t) := by
  simp only [phase?, phase, getElem?_toArray_phases, pixel_mod_left, pixel_mod_right]
  rfl

end PhaseScreen

namespace Atmosphere

variable {α : Type} [Scalar α]

/-- The phase through all layers, with every place in the data of the screens checked before it is
read. -/
def phase? (a : Atmosphere α) (x y t wavelength : α) : Option α := do
  let phases ← a.screens.mapM fun s => s.phase? x y t
  some (Scalar.sumList phases * 500 / wavelength)

theorem phase?_eq_some (a : Atmosphere α) (x y t wavelength : α) :
    a.phase? x y t wavelength = some (a.phase x y t wavelength) := by
  have hphases : (a.screens.mapM fun s => s.phase? x y t) =
      some (a.screens.map fun s => s.phase x y t) := by
    simp only [PhaseScreen.phase?_eq_some]
    exact List.mapM_pure
  rw [phase?, hphases]
  rfl

variable [RandomSource α]

omit [Scalar α] in
@[simp] theorem length_screenSeeds (a : Atmosphere α) :
    a.screenSeeds.length = a.layers.length := by
  rw [screenSeeds, Array.length_toList, size_drawMany]

section Instantiate

variable {a : Atmosphere α} {cutoff : α}

/-- Values that are computed one after the other in a state, without a look at it. -/
theorem mapM_mk_pure {m : Type → Type} [Monad m] [LawfulMonad m] {β γ : Type} (f : β → Option γ)
    (bs : List β) : (bs.mapM fun b => (OptionT.mk (pure (f b)) : OptionT m γ)) =
      OptionT.mk (pure (bs.mapM f)) := by
  induction bs with
  | nil => rfl
  | cons b bs ih =>
      rw [List.mapM_cons, List.mapM_cons, ih]
      apply OptionT.ext
      cases f b with
      | none => simp
      | some c => cases bs.mapM f <;> simp

/-- All screens have the same side. So all of them can be drawn, or the first one crashes. -/
theorem instantiate?_eq_map (a : Atmosphere α) (cutoff : α) : a.instantiate? cutoff =
    ((a.layers.zip a.screenSeeds).mapM fun x => a.drawScreen? cutoff x.1 x.2).map
      fun screens => { a with screens := screens } := by
  simp only [drawScreen?, instantiate?]
  cases hzip : a.layers.zip a.screenSeeds with
  | nil =>
      have hlayers : a.layers = [] := by
        simpa [-List.zip_eq_nil_iff] using congrArg List.length hzip
      simp [hlayers]
  | cons x xs =>
      have hlayers : a.layers.isEmpty = false := by
        rw [List.isEmpty_eq_false_iff]
        intro hlayers
        simp [hlayers] at hzip
      rw [hlayers]
      simp only [Bool.false_eq_true, if_false]
      split_ifs with hside hstorable
      · rw [← hzip, drawScreens_eq_map]
        exact (congrArg (Option.map fun screens => { a with screens := screens })
          (List.mapM_pure (m := Option))).symm
      · rfl
      · rfl

theorem instantiate?_eq_some_iff {drawn : Atmosphere α} (hlayers : a.layers ≠ []) :
    a.instantiate? cutoff = some drawn ↔
      Storage.HoldsSquare a.screenSide Storage.amplitudeBytes ∧
        ∃ side_pos, drawn = { a with screens := a.drawScreens cutoff side_pos } := by
  rw [instantiate?, List.isEmpty_eq_false_iff.2 hlayers]
  simp only [Bool.false_eq_true, if_false]
  split_ifs with hside hstorable
  · simp [hside, hstorable, eq_comm]
  · simp [hstorable]
  · simp [hside]

/-- A call gives all screens, or it gives none and leaves the atmosphere alone. -/
theorem run_instantiate (a : Atmosphere α) (cutoff : α) : (instantiate cutoff).run a =
    ((a.instantiate? cutoff).map fun _ => (), (a.instantiate? cutoff).getD a) := by
  rw [instantiate?_eq_map]
  simp only [instantiate, mapM_mk_pure]
  change ((OptionT.mk (pure _) : Using α (List (PhaseScreen α))) >>= fun screens =>
    set { a with screens := screens }).run a = _
  cases (a.layers.zip a.screenSeeds).mapM fun x => a.drawScreen? cutoff x.1 x.2 <;> rfl

end Instantiate

section DrawScreens

variable (a : Atmosphere α) (cutoff : α) (side_pos : 0 < a.screenSide)

theorem length_drawScreens : (a.drawScreens cutoff side_pos).length = a.layers.length := by
  simp [drawScreens_eq_map]

theorem map_velocity_drawScreens :
    (a.drawScreens cutoff side_pos).map (·.velocity) = a.layers.map Layer.velocity := by
  have hzip : (a.layers.zip a.screenSeeds).map Prod.fst = a.layers :=
    List.map_fst_zip (by simp)
  rw [drawScreens_eq_map, List.map_map]
  conv_rhs => rw [← hzip, List.map_map]
  rfl

theorem shape_of_mem_drawScreens {p : PhaseScreen α} (hp : p ∈ a.drawScreens cutoff side_pos) :
    p.side = a.screenSide ∧ p.scale = a.screenScale ∧ p.phases.toArray.size = p.side * p.side := by
  rw [drawScreens_eq_map, List.mem_map] at hp
  obtain ⟨x, -, rfl⟩ := hp
  exact ⟨rfl, rfl, Grid.size_toArray _⟩

end DrawScreens

/-- A call that returned: the atmosphere as it was asked, and the cutoff. -/
structure Drawing (α : Type) where
  /-- The atmosphere as it was before the call. -/
  asked : Atmosphere α
  /-- The cutoff of the call. -/
  cutoff : α

/-- An atmosphere in use, with the last call that returned. -/
structure Session (α : Type) where
  /-- The atmosphere as it is now. -/
  atmosphere : Atmosphere α
  /-- The last call that returned, if one has. -/
  last : Option (Drawing α)

namespace Session

/-- The session after one more action. -/
def after (s : Session α) (action : Action α) : Session α :=
  match (perform action).run s.atmosphere, action with
  | (some (), a), .instantiate cutoff => ⟨a, some ⟨s.atmosphere, cutoff⟩⟩
  | (_, a), _ => ⟨a, s.last⟩

/-- What is true of a session from the atmosphere `start` on, after whatever actions. -/
structure Holds (start : Atmosphere α) (s : Session α) : Prop where
  layers_eq : s.atmosphere.layers = start.layers
  layers_asked : ∀ d, s.last = some d → d.asked.layers = start.layers
  screens_of_none : s.last = none → s.atmosphere.screens = []
  screens_of_some : ∀ d, s.last = some d → ∃ side_pos,
    s.atmosphere.screens = d.asked.drawScreens d.cutoff side_pos

variable {start : Atmosphere α} {s : Session α}

theorem after_instantiate (s : Session α) (cutoff : α) : s.after (.instantiate cutoff) =
    match s.atmosphere.instantiate? cutoff with
    | some drawn => ⟨drawn, some ⟨s.atmosphere, cutoff⟩⟩
    | none => s := by
  simp only [after, perform, run_instantiate]
  cases s.atmosphere.instantiate? cutoff <;> rfl

/-- A field that is set is not one of the layers, and the screens are those of before. -/
theorem Holds.after (hlayers : start.layers ≠ []) (hs : s.Holds start) (action : Action α) :
    (s.after action).Holds start := by
  cases action with
  | instantiate cutoff =>
      rw [after_instantiate]
      cases hdrawn : s.atmosphere.instantiate? cutoff with
      | none => exact hs
      | some drawn =>
          have hne : s.atmosphere.layers ≠ [] := hs.layers_eq ▸ hlayers
          obtain ⟨-, side_pos, rfl⟩ := (instantiate?_eq_some_iff hne).1 hdrawn
          refine ⟨hs.layers_eq, ?_, ?_, ?_⟩
          · rintro d ⟨⟩
            exact hs.layers_eq
          · intro hlast
            cases hlast
          · rintro d ⟨⟩
            exact ⟨side_pos, rfl⟩
  | _ => exact ⟨hs.layers_eq, hs.layers_asked, hs.screens_of_none, hs.screens_of_some⟩

theorem holds_of_actions (hlayers : start.layers ≠ []) (hs : s.Holds start)
    (actions : List (Action α)) : (actions.foldl Session.after s).Holds start := by
  induction actions generalizing s with
  | nil => exact hs
  | cons action actions ih => exact ih (hs.after hlayers action)

theorem holds_of_build {settings : AtmosphereSettings α} (hbuild : settings.build = .ok start) :
    Holds start ⟨start, none⟩ := by
  obtain ⟨-, -, -, rfl⟩ := AtmosphereSettings.build_eq_ok_iff.1 hbuild
  refine ⟨rfl, ?_, fun _ => rfl, ?_⟩
  · intro d hlast
    cases hlast
  · intro d hlast
    cases hlast

end Session

/-- An atmosphere with layers has no screens until a call has returned. From then on it has one
screen for each layer, in the order of the layers, of equal and positive side and with a value for
each pixel. They are what the last call that returned has drawn from the fields and the cutoff of
its time, whatever was set since. A call that crashes, as every call for screens without pixels
does, changes nothing. No place outside of the data of a screen is ever read for a phase. -/
theorem screens_of_session {settings : AtmosphereSettings α} {start : Atmosphere α}
    (hbuild : settings.build = .ok start) (hlayers : start.layers ≠ []) (actions : List (Action α))
    {s : Session α} (hs : actions.foldl Session.after ⟨start, none⟩ = s) :
    (s.atmosphere.isInstantiated = true ↔ ∃ d, s.last = some d) ∧
    (s.last = none → s.atmosphere.screens = []) ∧
    (∀ d, s.last = some d → ∃ side_pos : 0 < d.asked.screenSide,
      s.atmosphere.screens = d.asked.drawScreens d.cutoff side_pos ∧
      s.atmosphere.screens.length = start.layers.length ∧
      s.atmosphere.screens.map (·.velocity) = start.layers.map Layer.velocity ∧
      ∀ p ∈ s.atmosphere.screens, p.side = d.asked.screenSide ∧ p.scale = d.asked.screenScale ∧
        p.phases.toArray.size = p.side * p.side) ∧
    (∀ cutoff, (s.atmosphere.screenSide = 0 → ((instantiate cutoff).run s.atmosphere).1 = none) ∧
      (((instantiate cutoff).run s.atmosphere).1 = none →
        ((instantiate cutoff).run s.atmosphere).2 = s.atmosphere ∧
          s.after (.instantiate cutoff) = s)) ∧
    ∀ x y t wavelength,
      s.atmosphere.phase? x y t wavelength = some (s.atmosphere.phase x y t wavelength) := by
  have hholds : s.Holds start := hs ▸ Session.holds_of_actions hlayers
    (Session.holds_of_build hbuild) actions
  have hdrawn : ∀ d, s.last = some d → ∃ side_pos : 0 < d.asked.screenSide,
      s.atmosphere.screens = d.asked.drawScreens d.cutoff side_pos ∧
      s.atmosphere.screens.length = start.layers.length ∧
      s.atmosphere.screens.map (·.velocity) = start.layers.map Layer.velocity ∧
      ∀ p ∈ s.atmosphere.screens, p.side = d.asked.screenSide ∧ p.scale = d.asked.screenScale ∧
        p.phases.toArray.size = p.side * p.side := by
    intro d hd
    obtain ⟨side_pos, hscreens⟩ := hholds.screens_of_some d hd
    rw [hscreens, length_drawScreens, map_velocity_drawScreens, hholds.layers_asked d hd]
    exact ⟨side_pos, rfl, rfl, rfl, fun p => shape_of_mem_drawScreens _ _ side_pos⟩
  refine ⟨?_, hholds.screens_of_none, hdrawn, ?_, s.atmosphere.phase?_eq_some⟩
  · rw [isInstantiated, Bool.not_eq_true', List.isEmpty_eq_false_iff]
    cases hlast : s.last with
    | none => simp [hholds.screens_of_none hlast]
    | some d =>
        obtain ⟨-, -, hlength, -⟩ := hdrawn d hlast
        refine ⟨fun _ => ⟨d, rfl⟩, fun _ => ?_⟩
        rw [← List.length_pos_iff_ne_nil, hlength, List.length_pos_iff_ne_nil]
        exact hlayers
  · intro cutoff
    have hne : s.atmosphere.layers ≠ [] := hholds.layers_eq ▸ hlayers
    rw [run_instantiate, Session.after_instantiate]
    constructor
    · intro hside
      rw [Option.map_eq_none_iff, Option.eq_none_iff_forall_ne_some]
      intro drawn hdrawn
      obtain ⟨-, side_pos, -⟩ := (instantiate?_eq_some_iff hne).1 hdrawn
      omega
    · intro hnone
      rw [Option.map_eq_none_iff] at hnone
      simp [hnone]

end Atmosphere

/-- The settings of one layer under screens of two pixels along a side. -/
def AtmosphereSettings.twoPixels : AtmosphereSettings Float where
  turbulence := ⟨1, [0], [1], [0], [0]⟩
  screenSize := 1
  screenScale := 0.5

theorem AtmosphereSettings.exists_build_twoPixels : ∃ start, twoPixels.build = .ok start ∧
    start.layers ≠ [] ∧ start.screenSize = 1 ∧ start.screenScale = 0.5 := by
  refine ⟨_, build_eq_ok_iff.2 ⟨rfl, by decide, by decide, rfl⟩, ?_, rfl, rfl⟩
  simp only [layers, TurbulenceProfile.layers, twoPixels, List.zip_cons_cons,
    List.zipWith_cons_cons]
  exact List.cons_ne_nil _ _

namespace Atmosphere

/-- The screens of the first call are still there after the side is set to zero and another call has
crashed. -/
theorem screens_of_session_twoPixels : ∃ start : Atmosphere Float,
    AtmosphereSettings.twoPixels.build = .ok start ∧ start.layers ≠ [] ∧
    ∃ s : Session Float, [.instantiate 1, .setScreenSize 0, .instantiate 2].foldl Session.after
        ⟨start, none⟩ = s ∧
      s.atmosphere.isInstantiated = true ∧ ((instantiate 2).run s.atmosphere).2 = s.atmosphere ∧
      ∃ side_pos, s.atmosphere.screens = start.drawScreens 1 side_pos := by
  obtain ⟨start, hbuild, hlayers, hsize, hscale⟩ := AtmosphereSettings.exists_build_twoPixels
  have side_pos : 0 < start.screenSide := by
    rw [screenSide, hsize, hscale]
    decide +kernel
  have hstorable : Storage.HoldsSquare start.screenSide Storage.amplitudeBytes := by
    rw [screenSide, hsize, hscale]
    decide +kernel
  have hfirst : start.instantiate? 1 =
      some { start with screens := start.drawScreens 1 side_pos } :=
    (instantiate?_eq_some_iff hlayers).2 ⟨hstorable, side_pos, rfl⟩
  have hreturned : Session.after ⟨start, none⟩ (.instantiate 1) =
      ⟨{ start with screens := start.drawScreens 1 side_pos }, some ⟨start, 1⟩⟩ := by
    rw [Session.after_instantiate, hfirst]
  obtain ⟨s, hs⟩ : ∃ s, [.instantiate 1, .setScreenSize 0].foldl Session.after
      (⟨start, none⟩ : Session Float) = s := ⟨_, rfl⟩
  have hlast : s.last = some ⟨start, 1⟩ := by
    rw [← hs, List.foldl_cons, hreturned]
    rfl
  have hside : s.atmosphere.screenSide = 0 := by
    have hzero : s.atmosphere.screenSize = 0 ∧ s.atmosphere.screenScale = start.screenScale := by
      rw [← hs, List.foldl_cons, hreturned]
      exact ⟨rfl, rfl⟩
    rw [screenSide, hzero.1, hzero.2, hscale]
    decide +kernel
  obtain ⟨hinstantiated, -, hscreens, hcrash, -⟩ := screens_of_session hbuild hlayers _ hs
  obtain ⟨hcrashes, hunchanged⟩ := hcrash 2
  obtain ⟨hsame, hafter⟩ := hunchanged (hcrashes hside)
  obtain ⟨_, hdrawn, -⟩ := hscreens _ hlast
  refine ⟨start, hbuild, hlayers, s, ?_, hinstantiated.2 ⟨_, hlast⟩, hsame, side_pos, hdrawn⟩
  rw [← hs] at hafter ⊢
  exact hafter

end Atmosphere

end Seeing
