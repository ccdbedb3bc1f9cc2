import Seeing.Proofs.Atmosphere.Session
import Seeing.Proofs.Random

/-!
# The streams of the screens

The screen of a layer is drawn from a stream of its own, the state `Atmosphere.screenState`. It is
fixed by the seed of the atmosphere and the number of the layer, since the seeds of the screens are
the first words of one stream, and the screens draw nothing from that stream:
`Atmosphere.getElem?_drawScreens`. What a layer gets from its stream, `Atmosphere.screenDeviates`,
therefore depends neither on the other layers nor on the cutoff, and its wind only moves the screen.
-/

namespace Seeing

namespace Atmosphere

variable {α : Type} [Scalar α] [RandomSource α]

/-- The state from which the screen of the layer number `k` is drawn. -/
def screenState (seed : UInt64) (k : ℕ) : RandomSource.State α :=
  RandomSource.ofSeed (drawAt (RandomSource.word (α := α)) (RandomSource.ofSeed seed) k)

/-- The deviates of the modes of the screen of the layer number `k`. -/
def screenDeviates (a : Atmosphere α) (k : ℕ) : Grid a.screenSide a.screenSide (Amplitude α) :=
  (PhaseScreen.drawDeviates a.screenSide (screenState a.seed k)).1

variable {a : Atmosphere α} {cutoff : α}

omit [Scalar α] in
theorem screenSeeds_eq_map (a : Atmosphere α) : a.screenSeeds =
    (List.range a.layers.length).map
      (drawAt (RandomSource.word (α := α)) (RandomSource.ofSeed a.seed)) :=
  toList_drawMany _ _ _

/-- The screen of a layer, in which no other layer has a part. -/
theorem getElem?_drawScreens (side_pos : 0 < a.screenSide) {k : ℕ} {l : Layer α}
    (hl : a.layers[k]? = some l) : (a.drawScreens cutoff side_pos)[k]? =
      some (.ofDeviates (a.statistics cutoff l) l.velocity side_pos (a.screenDeviates k)) := by
  obtain ⟨hk, -⟩ := List.getElem?_eq_some_iff.1 hl
  have hseed : a.screenSeeds[k]? =
      some (drawAt (RandomSource.word (α := α)) (RandomSource.ofSeed a.seed) k) := by
    rw [screenSeeds_eq_map, List.getElem?_map, List.getElem?_range hk, Option.map_some]
  have hpair : (a.layers.zip a.screenSeeds)[k]? =
      some (l, drawAt (RandomSource.word (α := α)) (RandomSource.ofSeed a.seed) k) :=
    List.getElem?_zip_eq_some.2 ⟨hl, hseed⟩
  rw [drawScreens_eq_map, List.getElem?_map, hpair, Option.map_some]
  rfl

/-- What is drawn for a layer of an atmosphere with screens. -/
theorem getElem?_screens_of_instantiate? {b : Atmosphere α} (hb : a.instantiate? cutoff = some b)
    {k : ℕ} {l : Layer α} (hl : a.layers[k]? = some l) : ∃ side_pos : 0 < a.screenSide,
      b.screens[k]? =
        some (.ofDeviates (a.statistics cutoff l) l.velocity side_pos (a.screenDeviates k)) := by
  have hlayers : a.layers ≠ [] := by
    rintro hnone
    simp [hnone] at hl
  obtain ⟨-, side_pos, rfl⟩ := (instantiate?_eq_some_iff hlayers).1 hb
  exact ⟨side_pos, getElem?_drawScreens side_pos hl⟩

/-- Screens that were there before are forgotten. -/
theorem instantiate?_screens (a : Atmosphere α) (screens : List (PhaseScreen α)) (cutoff : α) :
    { a with screens := screens }.instantiate? cutoff = a.instantiate? cutoff := rfl

/-- An atmosphere with layers gets its screens if their size allows it, whatever the cutoff. -/
theorem exists_instantiate?_iff (hlayers : a.layers ≠ []) (cutoff : α) :
    (∃ b, a.instantiate? cutoff = some b) ↔
      0 < a.screenSide ∧ Storage.HoldsSquare a.screenSide Storage.amplitudeBytes := by
  simp only [instantiate?_eq_some_iff hlayers]
  constructor
  · rintro ⟨_, hstorable, side_pos, -⟩
    exact ⟨side_pos, hstorable⟩
  · rintro ⟨side_pos, hstorable⟩
    exact ⟨_, hstorable, side_pos, rfl⟩

/-- Drawing anew comes to what drawing comes to, whatever the cutoff was before. -/
theorem exists_instantiate?_again {b : Atmosphere α} (hb : a.instantiate? cutoff = some b)
    (cutoff' : α) : ∃ c, a.instantiate? cutoff' = some c ∧ b.instantiate? cutoff' = some c := by
  obtain ⟨screens, rfl⟩ : ∃ screens, b = { a with screens := screens } := by
    rw [instantiate?] at hb
    split_ifs at hb <;> cases hb <;> exact ⟨_, rfl⟩
  simp only [instantiate?_screens, and_self]
  by_cases hlayers : a.layers = []
  · exact ⟨_, if_pos (List.isEmpty_iff.2 hlayers)⟩
  · have hdrawable := (exists_instantiate?_iff hlayers cutoff).1 ⟨_, hb⟩
    exact (exists_instantiate?_iff hlayers cutoff').2 hdrawable

/-- Two atmospheres that differ in their layers only draw the same screen for layers of the same
number and Fried parameter, except that each of them is carried by the wind of its own layer. Drawn
anew, at whatever cutoff, a screen is made of the same deviates, as if it had not been drawn
before. -/
theorem screens_of_streams {a a' b : Atmosphere α}
    (hsame : a' = { a with layers := a'.layers, screens := a'.screens })
    (hb : a.instantiate? cutoff = some b) :
    (∀ (k : ℕ) (l l' : Layer α), a.layers[k]? = some l → a'.layers[k]? = some l' → l.r0 = l'.r0 →
      ∃ (b' : Atmosphere α) (p : PhaseScreen α), a'.instantiate? cutoff = some b' ∧
        b.screens[k]? = some p ∧ b'.screens[k]? = some { p with velocity := l'.velocity }) ∧
    ∀ cutoff', ∃ c, a.instantiate? cutoff' = some c ∧ b.instantiate? cutoff' = some c ∧
      ∀ (k : ℕ) (l : Layer α), a.layers[k]? = some l → ∃ side_pos : 0 < a.screenSide,
        b.screens[k]? = some (.ofDeviates (a.statistics cutoff l) l.velocity side_pos
          (a.screenDeviates k)) ∧
        c.screens[k]? = some (.ofDeviates (a.statistics cutoff' l) l.velocity side_pos
          (a.screenDeviates k)) := by
  constructor
  · intro k l l' hl hl' hr0
    obtain ⟨layers, screens, rfl⟩ :
        ∃ layers screens, a' = { a with layers := layers, screens := screens } := ⟨_, _, hsame⟩
    have hlayers : a.layers ≠ [] := List.ne_nil_of_mem (List.mem_of_getElem? hl)
    have hlayers' : { a with layers := layers, screens := screens }.layers ≠ [] :=
      List.ne_nil_of_mem (List.mem_of_getElem? hl')
    have hdrawable := (exists_instantiate?_iff hlayers cutoff).1 ⟨b, hb⟩
    obtain ⟨b', hb'⟩ := (exists_instantiate?_iff hlayers' cutoff).2 hdrawable
    obtain ⟨side_pos, hscreen⟩ := getElem?_screens_of_instantiate? hb hl
    obtain ⟨_, hscreen'⟩ := getElem?_screens_of_instantiate? hb' hl'
    have hstatistics : a.statistics cutoff l' = a.statistics cutoff l := by
      rw [statistics, statistics, hr0]
    refine ⟨b', _, hb', hscreen, hscreen'.trans ?_⟩
    change some (PhaseScreen.ofDeviates (a.statistics cutoff l') l'.velocity side_pos
      (a.screenDeviates k)) = _
    rw [hstatistics]
    rfl
  · intro cutoff'
    obtain ⟨c, hc, hagain⟩ := exists_instantiate?_again hb cutoff'
    refine ⟨c, hc, hagain, ?_⟩
    intro k l hl
    obtain ⟨side_pos, hscreen⟩ := getElem?_screens_of_instantiate? hb hl
    obtain ⟨_, hanew⟩ := getElem?_screens_of_instantiate? hc hl
    exact ⟨side_pos, hscreen, hanew⟩

end Atmosphere

namespace AtmosphereSettings

/-- The settings of two layers under screens of two pixels along a side. The lower layer is as
strong as the only one of `twoPixels`, at another altitude and in another wind. -/
def twoLayers : AtmosphereSettings Float :=
  { twoPixels with turbulence := ⟨2, [3, 9], [1, 2], [5, 6], [0, 1]⟩ }

theorem layers_twoLayers : ∃ lower lower' upper : Layer Float, twoPixels.layers = [lower] ∧
    twoLayers.layers = [lower', upper] ∧ lower.r0 = lower'.r0 :=
  ⟨_, _, _, rfl, rfl, rfl⟩

end AtmosphereSettings

namespace Atmosphere

/-- The lower layer gets the screen of the only one, and keeps its deviates at another cutoff. -/
theorem screens_of_streams_twoLayers : ∃ (a a' b b' c : Atmosphere Float) (p : PhaseScreen Float)
    (l l' : Layer Float), AtmosphereSettings.twoPixels.build = .ok a ∧
      AtmosphereSettings.twoLayers.build = .ok a' ∧ a.layers[0]? = some l ∧
      a'.layers[0]? = some l' ∧ a.instantiate? 1 = some b ∧ a'.instantiate? 1 = some b' ∧
      b.screens[0]? = some p ∧ b'.screens[0]? = some { p with velocity := l'.velocity } ∧
      b.instantiate? 2 = some c ∧ ∃ side_pos : 0 < a.screenSide,
        p = .ofDeviates (a.statistics 1 l) l.velocity side_pos (a.screenDeviates 0) ∧
        c.screens[0]? = some
          (.ofDeviates (a.statistics 2 l) l.velocity side_pos (a.screenDeviates 0)) := by
  obtain ⟨l, l', upper, hl, hl', hr0⟩ := AtmosphereSettings.layers_twoLayers
  obtain ⟨a, hbuild, hlayers, hsize, hscale⟩ := AtmosphereSettings.exists_build_twoPixels
  obtain ⟨-, -, -, ha⟩ := AtmosphereSettings.build_eq_ok_iff.1 hbuild
  have hfirst : a.layers[0]? = some l := by
    rw [ha, hl]
    rfl
  have side_pos : 0 < a.screenSide := by
    rw [screenSide, hsize, hscale]
    decide +kernel
  have hstorable : Storage.HoldsSquare a.screenSide Storage.amplitudeBytes := by
    rw [screenSide, hsize, hscale]
    decide +kernel
  obtain ⟨b, hb⟩ := (exists_instantiate?_iff hlayers 1).2 ⟨side_pos, hstorable⟩
  obtain ⟨a', ha', hsame⟩ : ∃ a' : Atmosphere Float,
      a' = { a with layers := AtmosphereSettings.twoLayers.layers } ∧
        a' = { a with layers := a'.layers, screens := a'.screens } := ⟨_, rfl, rfl⟩
  have hbuild' : AtmosphereSettings.twoLayers.build = .ok a' := by
    rw [ha', ha]
    exact AtmosphereSettings.build_eq_ok_iff.2 ⟨rfl, by decide, by decide, rfl⟩
  have hfirst' : a'.layers[0]? = some l' := by
    rw [ha', hl']
    rfl
  obtain ⟨hscreens, hagain⟩ := screens_of_streams hsame hb
  obtain ⟨b', p, hb', hp, hp'⟩ := hscreens 0 l l' hfirst hfirst' hr0
  obtain ⟨c, -, hc, hdeviates⟩ := hagain 2
  obtain ⟨side_pos, hdrawn, hanew⟩ := hdeviates 0 l hfirst
  exact ⟨a, a', b, b', c, p, l, l', hbuild, hbuild', hfirst, hfirst', hb, hb', hp, hp', hc,
    side_pos, Option.some.inj (hp.symm.trans hdrawn), hanew⟩

end Atmosphere

end Seeing
