import Seeing.Comparison
import Seeing.Decimal.Reader
import Seeing.Random.Source
import Seeing.Scalar.Machine

/-!
# Command lines

A command line is a list of options, each with a value that follows it or is attached to it by an
equals sign. `CommandLine.read` gives the arguments, or finds that help is asked for, or that the
line is not understood.
-/

namespace Seeing

/-- The arguments of the program. -/
structure Arguments where
  /-- The settings of the comparison, with the reference profile for when no other is given. -/
  settings : ComparisonSettings Float := {}
  /-- The file of a reference profile. -/
  profile : Option String := none
  /-- The file to write the settings of the atmosphere into. -/
  saveProfile : Option String := none
  /-- The file to write the results into. -/
  results : Option String := none

/-- What a command line asks for. -/
inductive CommandLine where
  /-- A run of the program. -/
  | run (arguments : Arguments)
  /-- Help. -/
  | help
  /-- The line is not understood. -/
  | misuse

namespace CommandLine

/-- A whole number of sixty four bits. -/
def readWord? (text : String) : Option Nat :=
  let digits := match text.toList with
    | '+' :: rest => rest
    | text => text
  if digits.isEmpty ∨ digits.any (!·.isDigit) then none
  else
    let n := Nat.ofDigitChars 10 digits 0
    if n < 0x10000000000000000 then some n else none

/-- A path, which is not empty. -/
def readPath? (text : String) : Option String := if text.isEmpty then none else some text

/-- A machine number. -/
def readFloat? (text : String) : Option Float := FloatText.read? text.toList

/-- An option: how it changes the arguments, given its value. -/
abbrev Setter := String → Arguments → Option Arguments

/-- An option with a machine number. -/
def float (set : Float → ComparisonSettings Float → ComparisonSettings Float) : Setter :=
  fun text a => (readFloat? text).map fun x => { a with settings := set x a.settings }

/-- An option with a whole number. -/
def word (set : Nat → ComparisonSettings Float → ComparisonSettings Float) : Setter :=
  fun text a => (readWord? text).map fun n => { a with settings := set n a.settings }

/-- An option with a path. -/
def path (set : String → Arguments → Arguments) : Setter :=
  fun text a => (readPath? text).map fun p => set p a

/-- The options of the program. -/
def options : List (String × Setter) :=
  [("seed", word fun n s => { s with seed := n.toUInt64 }),
    ("r0_500", float fun x s => { s with r0 := x }),
    ("turb_factor", float fun x s => { s with strength := x }),
    ("L0", float fun x s => { s with outerScale := x }),
    ("nlayers", word fun n s => { s with layerCount := n }),
    ("time_step", float fun x s => { s with timeStep := x }),
    ("exptime", float fun x s => { s with exposureTime := x }),
    ("screen_size", float fun x s => { s with screenSize := x }),
    ("screen_scale", float fun x s => { s with screenScale := x }),
    ("max_speed", float fun x s => { s with maxSpeed := x }),
    ("kmin", float fun x s => { s with firstCutoff := x }),
    ("kmax", float fun x s => { s with lastCutoff := x }),
    ("nphot", word fun n s => { s with photonCount := n }),
    ("lam", float fun x s => { s with wavelength := x }),
    ("diam", float fun x s => { s with diameter := x }),
    ("obscuration", float fun x s => { s with obscuration := x }),
    ("nx", word fun n s => { s with imageSide := n }),
    ("scale", float fun x s => { s with imageScale := x }),
    ("pad_factor", float fun x s => { s with padding := x }),
    ("oversampling", float fun x s => { s with oversampling := x }),
    ("outfile", path fun p a => { a with settings := { a.settings with figurePath := p } }),
    ("profile", path fun p a => { a with profile := some p }),
    ("save-profile", path fun p a => { a with saveProfile := some p }),
    ("pickle", path fun p a => { a with results := some p })]

/-- Whether a word of the line is a value rather than an option. A single dash is a value. -/
def isValue (word : String) : Bool := !word.startsWith "-" || word = "-"

/-- A word without its leading dashes, split at its first equals sign. -/
def splitOption (word : String) : String × Option String :=
  let body := word.toList.drop 2
  let name := body.takeWhile (· ≠ '=')
  match body.dropWhile (· ≠ '=') with
  | _ :: value => (.ofList name, some (.ofList value))
  | [] => (.ofList name, none)

/-- The reading of a line: the arguments so far, and the options that have been given. -/
def readFrom (arguments : Arguments) (given : List String) : List String → CommandLine
  | [] => .run arguments
  | word :: rest =>
    if word = "--" then if rest.isEmpty then .run arguments else .misuse
    else if word.startsWith "--" then
      let (name, attached) := splitOption word
      if name = "help" then if attached.isNone then .help else .misuse
      else if given.contains name then .misuse
      else
        match options.lookup name with
        | none => .misuse
        | some set =>
          match attached, rest with
          | some value, rest =>
            match set value arguments with
            | some arguments => readFrom arguments (name :: given) rest
            | none => .misuse
          | none, value :: rest =>
            if isValue value then
              match set value arguments with
              | some arguments => readFrom arguments (name :: given) rest
              | none => .misuse
            else .misuse
          | none, [] => .misuse
    else if word.startsWith "-h" then .help
    else .misuse

/-- What a command line asks for. -/
def read (words : List String) : CommandLine := readFrom {} [] words

end CommandLine

end Seeing
