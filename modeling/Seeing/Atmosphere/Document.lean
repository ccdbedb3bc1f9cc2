import Seeing.Atmosphere.Settings
import Seeing.Random.Source
import Seeing.Scalar.Machine
import Seeing.Toml.Decoding
import Seeing.Toml.Library

/-!
# Settings as documents

The settings of an atmosphere and reference profiles are kept in TOML documents, which a library
writes and reads. `AtmosphereSettings.documentText?` is the document of settings, unless the library
has none for them, and `AtmosphereSettings.ofDocument?` gives the settings of a document. Every
field must be there; others are passed over.
-/

namespace Seeing

/-- The text of a file, if its bytes are one. -/
def textOf (bytes : ByteArray) : Except DiskError String :=
  match String.fromUTF8? bytes with
  | some text => .ok text
  | none => .error .notText

variable [Toml.Library]

namespace ReferenceProfile

/-- The reference profile of a document. -/
def ofDocument? (text : String) : Option (ReferenceProfile Float) := do
  let entries ← Toml.Library.read? text
  let altitude ← (← entries.lookup "altitude").floats?
  let weight ← (← entries.lookup "weight").floats?
  some ⟨altitude, weight⟩

/-- Reads and checks the reference profile of a file. -/
def load {m : Type → Type} [Monad m] [Disk m] (path : String) :
    ExceptT (AtmosphereError Float) m (ReferenceProfile Float) := do
  let opened ← (Disk.read path : m _)
  match opened >>= (· >>= textOf) with
  | .error cause => throw (.unreadable cause path)
  | .ok text =>
    match ofDocument? text with
    | none => throw .malformed
    | some profile =>
      match profile.check with
      | .error fault => throw (.profile (.reference fault))
      | .ok () => pure profile

end ReferenceProfile

namespace TurbulenceProfile

/-- The turbulence profile of a value. -/
def ofValue? (value : Toml.Value) : Option (TurbulenceProfile Float) := do
  let layerCount ← (← value.field? "n_layer" 0).count?
  let altitude ← (← value.field? "altitude" 1).floats?
  let weight ← (← value.field? "xi0" 2).floats?
  let windSpeed ← (← value.field? "wind_speed" 3).floats?
  let windDirection ← (← value.field? "wind_direction" 4).floats?
  some { layerCount, altitude, weight, windSpeed, windDirection }

/-- The fields of a turbulence profile in a document. -/
def fields (p : TurbulenceProfile Float) : List (String × Toml.Datum) :=
  [("n_layer", .count p.layerCount), ("altitude", .floats p.altitude), ("xi0", .floats p.weight),
    ("wind_speed", .floats p.windSpeed), ("wind_direction", .floats p.windDirection)]

end TurbulenceProfile

namespace AtmosphereSettings

/-- The settings of a document. -/
def ofDocument? (text : String) : Option (AtmosphereSettings Float) := do
  let entries ← Toml.Library.read? text
  let r0 ← (← entries.lookup "r0_500").float?
  let strength ← (← entries.lookup "turb_factor").float?
  let outerScale ← (← entries.lookup "oscale").float?
  let turbulence ← TurbulenceProfile.ofValue? (← entries.lookup "turbulence")
  let screenSize ← (← entries.lookup "screen_size").float?
  let screenScale ← (← entries.lookup "screen_scale").float?
  let seed ← (← entries.lookup "seed").count?
  some { r0, strength, outerScale, turbulence, screenSize, screenScale, seed := seed.toUInt64 }

/-- The fields of settings in a document. -/
def fields (s : AtmosphereSettings Float) : Toml.Fields :=
  [("r0_500", .datum (.float s.r0)), ("turb_factor", .datum (.float s.strength)),
    ("oscale", .datum (.float s.outerScale)), ("turbulence", .record s.turbulence.fields),
    ("screen_size", .datum (.float s.screenSize)), ("screen_scale", .datum (.float s.screenScale)),
    ("seed", .datum (.count s.seed.toNat))]

/-- The comment that a document of settings starts with. -/
def documentTitle : String := " ::second_kick::AtmosphereBuilder"

/-- The document of settings, after its comment and an empty line. -/
def documentText? (s : AtmosphereSettings Float) : Option String :=
  (Toml.Library.write? s.fields).map ("#" ++ documentTitle ++ "\n\n" ++ ·)

variable {m : Type → Type} [Monad m] [Disk m]

/-- Reads the settings of a file. -/
def load (path : String) : ExceptT SettingsFileError m (AtmosphereSettings Float) := do
  match ← (Disk.read path : m _) with
  | .error cause => throw (.opening cause path)
  | .ok content =>
    match content >>= textOf with
    | .error cause => throw (.reading cause path)
    | .ok text =>
      match ofDocument? text with
      | none => throw .malformed
      | some settings => pure settings

/-- Writes settings into a file. -/
def save (s : AtmosphereSettings Float) (path : String) : ExceptT SettingsFileError m Unit := do
  match s.documentText? with
  | none => throw .tooLarge
  | some text =>
    match ← (Disk.write path (.text text) : m (Except DiskError Unit)) with
    | .ok () => pure ()
    | .error cause => throw (.creating cause path)

end AtmosphereSettings

end Seeing
