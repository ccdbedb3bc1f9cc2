import Seeing.Atmosphere.Document
import Seeing.CommandLine.Arguments
import Seeing.Comparison.Construction
import Seeing.Report

/-!
# The program

A run reads the reference profile, builds the comparison, writes the settings of the atmosphere,
draws the images and the figure, tells the sizes, and writes the results. It stops at the first
failure.
-/

namespace Seeing

/-- A monad with a place to tell results. -/
class Teller (m : Type → Type) where
  /-- Tells the sizes of the images at a cutoff. -/
  tell : SweepPoint Float → m Unit

/-- The line that tells the sizes of the images at a cutoff. -/
def SweepPoint.line (p : SweepPoint Float) : String :=
  let size : Option Float → String
    | some x => "Some(" ++ FloatText.listing x ++ ")"
    | none => "None"
  "kcrit=" ++ FloatText.fixed 0 4 p.cutoff ++ ": FFT sigma=" ++ size p.exposureSize ++
    ", 2nd kick sigma=" ++ size p.kickSize

/-- What a run ends with if it fails: the report of an error, or a crash. -/
abbrev RunFailure := Failure (List String)

/-- An action whose error is turned into the failure of a run. -/
def reporting {m : Type → Type} [Monad m] {ε β : Type} (report : ε → RunFailure)
    (action : ExceptT ε m β) : ExceptT RunFailure m β :=
  ExceptT.adapt report action

namespace Arguments

variable [Toml.Library] {m : Type → Type} [Monad m] [Disk m]

/-- The reference profile that the arguments ask for. -/
def loadReference (a : Arguments) : ExceptT RunFailure m (ReferenceProfile Float) :=
  match a.profile with
  | none => pure a.settings.reference
  | some path =>
    reporting (fun e => .error e.report) (ReferenceProfile.load (m := m) path)

/-- The settings of the comparison that the arguments ask for. -/
def settingsWith (a : Arguments) (reference : ReferenceProfile Float) :
    ComparisonSettings Float :=
  { a.settings with reference := reference }

/-- Builds the comparison that the arguments ask for. -/
def construct [MonadLog Float m] (a : Arguments) (reference : ReferenceProfile Float) :
    ExceptT RunFailure m (Comparison Float) :=
  reporting (Failure.map Error.report) ((a.settingsWith reference).construct (m := m))

/-- Writes the settings of the atmosphere, if the arguments ask for it. -/
def saveAtmosphere (a : Arguments) (c : Comparison Float) : ExceptT RunFailure m Unit :=
  match a.saveProfile with
  | none => pure ()
  | some path => reporting (fun e => .error e.report) (c.atmosphere.save (m := m) path)

/-- Writes the results, if the arguments ask for it. -/
def saveResults (a : Arguments) (points : List (SweepPoint Float)) :
    ExceptT RunFailure m Unit :=
  match a.results with
  | none => pure ()
  | some path => reporting (fun e => .error e.report) (Seeing.saveResults (m := m) points path)

/-- Runs the program. -/
def run [MonadLog Float m] [Teller m] (a : Arguments) : ExceptT RunFailure m Unit := do
  let reference ← a.loadReference (m := m)
  let comparison ← a.construct (m := m) reference
  a.saveAtmosphere (m := m) comparison
  let points ← reporting (Failure.map Error.report) (comparison.run (m := m))
  for point in points do
    Teller.tell (m := m) point
  a.saveResults (m := m) points

end Arguments

/-- How the program ended. -/
inductive Ending where
  /-- It did all that it was asked for. -/
  | success
  /-- It stopped with a report. -/
  | failure (report : List String)
  /-- It crashed. -/
  | crash
  /-- It was asked for help. -/
  | help
  /-- It did not understand its command line. -/
  | misuse

/-- The exit status for an ending. -/
def Ending.status : Ending → UInt32
  | .success => 0
  | .failure _ => 1
  | .crash => 101
  | .help => 0
  | .misuse => 2

/-- Runs the program for the words of its command line. -/
def runProgram [Toml.Library] {m : Type → Type} [Monad m] [Disk m] [MonadLog Float m] [Teller m]
    (words : List String) : m Ending := do
  match CommandLine.read words with
  | .help => pure .help
  | .misuse => pure .misuse
  | .run arguments =>
    match ← (arguments.run (m := m)).run with
    | .ok () => pure .success
    | .error (.error report) => pure (.failure report)
    | .error .crash => pure .crash

end Seeing
