import Seeing.Atmosphere.Document
import Seeing.Proofs.Disk.Volume
import Seeing.Proofs.Toml.Library
import Seeing.World

/-!
# Settings that are saved and loaded

A library that is known to write and to read documents of records does so with the settings of an
atmosphere: `AtmosphereSettings.ofDocument?_documentText?`. So settings that were saved are loaded
again, unless a count is too large and nothing was written: `AtmosphereSettings.loadIn_saveIn`.
-/

open Seeing.Toml

namespace Seeing

namespace TurbulenceProfile

theorem ofValue?_of_lookup {p : TurbulenceProfile Float} {origin : Origin} {entries : Entries}
    (hentries : ∀ key, entries.lookup key = (p.fields.lookup key).map Datum.value) :
    ofValue? (.table origin entries) = some p := by
  have hcount : (Value.integer p.layerCount).count? = some p.layerCount := rfl
  have hlookup : entries.lookup "n_layer" = some (.integer p.layerCount) ∧
      entries.lookup "altitude" = some (.array (p.altitude.map .float)) ∧
      entries.lookup "xi0" = some (.array (p.weight.map .float)) ∧
      entries.lookup "wind_speed" = some (.array (p.windSpeed.map .float)) ∧
      entries.lookup "wind_direction" = some (.array (p.windDirection.map .float)) := by
    simp only [hentries]
    exact ⟨rfl, rfl, rfl, rfl, rfl⟩
  simp only [ofValue?, Value.field?, hlookup, hcount, floats?_map_float, Option.bind_eq_bind,
    Option.bind_some]

end TurbulenceProfile

namespace AtmosphereSettings

variable {s : AtmosphereSettings Float}

theorem wellNamed_fields (s : AtmosphereSettings Float) : s.fields.WellNamed where
  named := by
    constructor
    · change ["r0_500", "turb_factor", "oscale", "turbulence", "screen_size", "screen_scale",
        "seed"].Nodup
      decide
    · simp only [fields, List.forall_mem_cons]
      refine ⟨?_, ?_, ?_, ?_, ?_, ?_, ?_, List.forall_mem_nil _⟩ <;> decide
  named_record := by
    have hturbulence : Named s.turbulence.fields := by
      constructor
      · change ["n_layer", "altitude", "xi0", "wind_speed", "wind_direction"].Nodup
        decide
      · simp only [TurbulenceProfile.fields, List.forall_mem_cons]
        refine ⟨?_, ?_, ?_, ?_, ?_, List.forall_mem_nil _⟩ <;> decide
    simp only [fields, List.forall_mem_cons]
    refine ⟨nofun, nofun, nofun, ?_, nofun, nofun, nofun, List.forall_mem_nil _⟩
    rintro _ ⟨⟩
    exact hturbulence

/-- Only the seed and the number of layers can be too large. -/
theorem fits_fields_iff : s.fields.Fits ↔
    s.seed.toNat ≤ 2 ^ 63 - 1 ∧ s.turbulence.layerCount ≤ 2 ^ 63 - 1 := by
  simp only [Fields.Fits, fields, Field.data, TurbulenceProfile.fields, Datum.Fits,
    List.forall_mem_cons, List.map_cons, List.map_nil]
  tauto

/-- The machine numbers of settings. -/
def numbers (s : AtmosphereSettings Float) : List Float :=
  [s.r0, s.strength, s.outerScale, s.screenSize, s.screenScale] ++ s.turbulence.altitude ++
    s.turbulence.weight ++ s.turbulence.windSpeed ++ s.turbulence.windDirection

theorem forall_mem_numbers_iff {P : Float → Prop} : (∀ x ∈ s.numbers, P x) ↔
    ∀ field ∈ s.fields, ∀ d ∈ field.2.data, ∀ x ∈ d.numbers, P x := by
  simp only [numbers, fields, Field.data, TurbulenceProfile.fields, Datum.numbers,
    List.forall_mem_append, List.forall_mem_cons, List.map_cons, List.map_nil]
  tauto

section Library

variable [Library] (hlawful : Library.Lawful)

include hlawful

theorem exists_documentText?_iff :
    (∃ text, s.documentText? = some text) ↔
      s.seed.toNat ≤ 2 ^ 63 - 1 ∧ s.turbulence.layerCount ≤ 2 ^ 63 - 1 := by
  rw [← fits_fields_iff, ← hlawful.exists_text_iff s.wellNamed_fields, documentText?]
  cases Library.write? s.fields <;> simp

theorem ofDocument?_documentText? (hnumbers : ∀ x ∈ s.numbers, ReadsBack x) {text : String}
    (htext : s.documentText? = some text) : ofDocument? text = some s := by
  obtain ⟨written, hwrite, rfl⟩ := Option.map_eq_some_iff.1 htext
  obtain ⟨entries, hread, hagrees⟩ := hlawful.exists_agrees s.wellNamed_fields hwrite
    (forall_mem_numbers_iff.1 fun x hx => (hnumbers x hx).rereads hlawful)
  have htitle : documentTitle.toList.all isPrintable = true := by decide
  have hread' := hlawful.read?_comment s.wellNamed_fields hwrite htitle hread
  have hnumber {key : String} {x : Float}
      (hkey : s.fields.lookup key = some (.datum (.float x))) :
      entries.lookup key = some (.float x) :=
    hagrees.lookup_datum hkey
  have hlookup : entries.lookup "r0_500" = some (.float s.r0) ∧
      entries.lookup "turb_factor" = some (.float s.strength) ∧
      entries.lookup "oscale" = some (.float s.outerScale) ∧
      entries.lookup "screen_size" = some (.float s.screenSize) ∧
      entries.lookup "screen_scale" = some (.float s.screenScale) :=
    ⟨hnumber rfl, hnumber rfl, hnumber rfl, hnumber rfl, hnumber rfl⟩
  have hcount : entries.lookup "seed" = some (.integer s.seed.toNat) :=
    hagrees.lookup_datum (rfl : s.fields.lookup "seed" = some (.datum (.count s.seed.toNat)))
  obtain ⟨origin, table, htable, hfields⟩ :=
    hagrees.lookup_record (rfl : s.fields.lookup "turbulence" = some (.record _))
  rw [ofDocument?, hread', Option.bind_eq_bind, Option.bind_some]
  simp only [hlookup, htable, hcount]
  change (TurbulenceProfile.ofValue? (.table origin table)).bind
    (fun turbulence => some { s with turbulence, seed := s.seed.toNat.toUInt64 }) = some s
  rw [TurbulenceProfile.ofValue?_of_lookup hfields, Option.bind_some, Nat.toUInt64_eq,
    UInt64.ofNat_toNat]

end Library

/-- The bytes of a text are read as the text. -/
theorem textOf_toUTF8 (text : String) : textOf text.toUTF8 = .ok text := by
  have hvalid : text.toUTF8.IsValidUTF8 := text.isValidUTF8
  rw [textOf, String.fromUTF8?, dif_pos hvalid]
  rfl

section Files

variable [Library] {path : String}

/-- Saves the settings in a world. -/
def saveIn (s : AtmosphereSettings Float) (path : String) (w : World) :
    Except SettingsFileError Unit × World :=
  (s.save path : ExceptT SettingsFileError Worldly Unit).run.run w

/-- Loads settings in a world. -/
def loadIn (path : String) (w : World) :
    Except SettingsFileError (AtmosphereSettings Float) × World :=
  (load path : ExceptT SettingsFileError Worldly (AtmosphereSettings Float)).run.run w

omit [Library] in
theorem run_liftM {β : Type} (action : Worldly β) (w : World) :
    (liftM action : ExceptT SettingsFileError Worldly β).run.run w =
      pure (.ok (action w).1, (action w).2) :=
  rfl

theorem saveIn_of_documentText?_eq_none (htext : s.documentText? = none) (path : String)
    (w : World) : s.saveIn path w = (.error .tooLarge, w) := by
  rw [saveIn, save, htext]
  rfl

theorem saveIn_of_documentText?_eq_some {text : String} (htext : s.documentText? = some text)
    (path : String) (w : World) :
    let written := w.update (.wrote path) (w.volume.write path (.text text))
    s.saveIn path w = (written.1.mapError (.creating · path), written.2) := by
  intro written
  have hwrite : (Disk.write path (.text text) : Worldly (Except DiskError Unit)) w = written := rfl
  rw [saveIn, save, htext]
  simp only [ExceptT.run_bind, StateT.run_bind, run_liftM, hwrite, pure_bind]
  cases written.1 <;> rfl

theorem saveIn_of_writable {text : String} (htext : s.documentText? = some text) {w : World}
    (hpath : w.volume.Writable path) :
    s.saveIn path w = (.ok (), { w with
      volume := w.volume.put (Path.resolve path) (.file (.text text))
      effects := w.effects.push (.wrote path) }) := by
  rw [saveIn_of_documentText?_eq_some htext, hpath.write_eq_ok]
  rfl

/-- Settings are saved only when there is a document for them and the path can be written. -/
theorem exists_text_and_writable_of_saveIn {w : World} (hsaved : (s.saveIn path w).1 = .ok ()) :
    (∃ text, s.documentText? = some text) ∧ w.volume.Writable path := by
  cases htext : s.documentText? with
  | none =>
      rw [saveIn_of_documentText?_eq_none htext] at hsaved
      cases hsaved
  | some text =>
      refine ⟨⟨text, rfl⟩, ?_⟩
      rw [saveIn_of_documentText?_eq_some htext] at hsaved
      cases hwrite : w.volume.write path (.text text) with
      | ok v => exact ⟨_, v, hwrite⟩
      | error e =>
          rw [hwrite] at hsaved
          cases hsaved

theorem loadIn_of_find {text : String} (htext : ofDocument? text = some s) {w : World}
    (hfind : w.volume.find path = .ok (.file (.text text))) : loadIn path w = (.ok s, w) := by
  have hread : (Disk.read path : Worldly (Except DiskError (Except DiskError ByteArray))) w =
      (.ok (.ok text.toUTF8), w) := by
    change (w.read path, w) = _
    rw [World.read, hfind]
    rfl
  have hdecode : ((Except.ok text.toUTF8 : Except DiskError ByteArray) >>= textOf) = .ok text :=
    textOf_toUTF8 text
  rw [loadIn, load]
  simp only [ExceptT.run_bind, StateT.run_bind, run_liftM, hread, pure_bind, hdecode, htext]
  rfl

/-- Let a library be known to write and to read documents. Settings that are saved at a path that
can be written are loaded from it again, bit by bit and with the same atmosphere, as long as a
document can hold their counts. Otherwise nothing is written. -/
theorem loadIn_saveIn (hlawful : Library.Lawful) (s : AtmosphereSettings Float)
    (hnan : ∀ x ∈ s.numbers, x.isNaN = false)
    (hreads : ∀ x ∈ s.numbers, x.isNaN = false → ReadsBack x) (path : String) (w : World) :
    (w.volume.Writable path →
      ((s.saveIn path w).1 = .ok () ↔
        s.seed.toNat ≤ 2 ^ 63 - 1 ∧ s.turbulence.layerCount ≤ 2 ^ 63 - 1)) ∧
    ((s.saveIn path w).1 = .ok () →
      ∃ loaded, loadIn path (s.saveIn path w).2 = (.ok loaded, (s.saveIn path w).2) ∧
        loaded = s ∧ loaded.build = s.build) ∧
    (2 ^ 63 - 1 < s.seed.toNat ∨ 2 ^ 63 - 1 < s.turbulence.layerCount →
      s.saveIn path w = (.error .tooLarge, w)) := by
  refine ⟨fun hpath => ?_, fun hsaved => ?_, fun hlarge => ?_⟩
  · rw [← exists_documentText?_iff hlawful]
    refine ⟨fun hsaved => (exists_text_and_writable_of_saveIn hsaved).1, ?_⟩
    rintro ⟨text, htext⟩
    rw [saveIn_of_writable htext hpath]
  · obtain ⟨⟨text, htext⟩, hpath⟩ := exists_text_and_writable_of_saveIn hsaved
    have hread := ofDocument?_documentText? hlawful (fun x hx => hreads x hx (hnan x hx)) htext
    refine ⟨s, ?_, rfl, rfl⟩
    rw [saveIn_of_writable htext hpath]
    exact loadIn_of_find hread (hpath.find_put _)
  · apply saveIn_of_documentText?_eq_none
    have hnone := mt (exists_documentText?_iff hlawful (s := s)).1 (by omega)
    rwa [← Option.isSome_iff_exists, Option.not_isSome_iff_eq_none] at hnone

end Files

/-- Settings with lists of all shapes, with both zeros and with infinities. -/
def uneven : AtmosphereSettings Float where
  r0 := 0.15
  strength := 1.5
  outerScale := 1.0 / 0.0
  turbulence :=
    { layerCount := 3
      altitude := []
      weight := [-0.0]
      windSpeed := [0.0, -1.0 / 0.0]
      windDirection := [0.5, 20.0, -12.25] }
  screenSize := 102.4
  screenScale := 0.0125
  seed := 11

/-- They are saved and loaded by the standard library. -/
theorem loadIn_saveIn_uneven :
    (uneven.saveIn "a" {}).1 = .ok () ∧
      loadIn "a" (uneven.saveIn "a" {}).2 = (.ok uneven, (uneven.saveIn "a" {}).2) := by
  have hnan : ∀ x ∈ uneven.numbers, x.isNaN = false := by decide +kernel
  have hreads : ∀ x ∈ uneven.numbers, ReadsBack x := by
    have hscans {x y : Float} (hread : Scans x y) (heq : (y == x) = true) : ReadsBack x :=
      ⟨y, rereads_of_scans hread, heq⟩
    change ∀ x ∈ [0.15, 1.5, 1.0 / 0.0, 102.4, 0.0125, -0.0, 0.0, -1.0 / 0.0, 0.5, 20.0, -12.25],
      ReadsBack x
    iterate 11 rw [List.forall_mem_cons]; refine ⟨hscans rfl rfl, ?_⟩
    exact List.forall_mem_nil _
  have hpath : ({} : World).volume.Writable "a" :=
    ⟨.bytes ⟨#[]⟩, _, rfl⟩
  obtain ⟨hiff, hload, -⟩ := loadIn_saveIn lawful_standardLibrary uneven hnan
    (fun x hx _ => hreads x hx) "a" {}
  have hsaved := (hiff hpath).2 ⟨by decide, by decide⟩
  obtain ⟨loaded, hloaded, rfl, -⟩ := hload hsaved
  exact ⟨hsaved, hloaded⟩

end AtmosphereSettings

end Seeing
