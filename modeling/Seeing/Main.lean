import Seeing.CommandLine.Program

/-!
# The command

The program on the machine: its disk is the system's, results go to the standard output, and reports
to the standard error. Records are not shown.
-/

namespace Seeing

/-- The system's words for a failed operation. -/
def DiskError.ofSystem : IO.Error → DiskError
  | .noFileOrDirectory .. => .missing
  | .alreadyExists .. => .taken
  | .inappropriateType _ 20 _ => .notDirectory
  | .inappropriateType _ 21 _ => .isDirectory
  | e => .other (toString e)

/-- The outcome of an operation of the system. -/
def attempt {β : Type} (action : IO β) : IO (Except DiskError β) := do
  match ← action.toBaseIO with
  | .ok b => pure (.ok b)
  | .error e => pure (.error (.ofSystem e))

instance instDiskIO : Disk IO where
  read path := do
    match ← attempt (IO.FS.readBinFile path) with
    | .ok bytes => pure (.ok (.ok bytes))
    | .error .isDirectory => pure (.ok (.error .isDirectory))
    | .error e => pure (.error e)
  write path content := attempt (IO.FS.writeBinFile path content.encode)
  isThere path := do
    match ← attempt (IO.FS.realPath path) with
    | .ok _ => pure true
    | .error _ => pure false
  makeDirectory path := attempt (IO.FS.createDirAll path)

instance instMonadLogIO : MonadLog Float IO where
  record _ := pure ()

instance instTellerIO : Teller IO where
  tell point := IO.println point.line

end Seeing

open Seeing in
/-- The command. -/
def main (words : List String) : IO UInt32 := do
  let ending ← runProgram words
  match ending with
  | .success => pure ()
  | .failure report => for line in reportLines report do IO.eprintln line
  | .crash => IO.eprintln "The program read outside its data."
  | .help =>
    IO.println "Compares the second kick with long exposures. Options, each with a value:"
    for (name, _) in CommandLine.options do IO.println ("  --" ++ name)
  | .misuse => IO.eprintln "The command line is not understood."
  pure ending.status
