import Seeing.Disk.Path
import Seeing.Figure.Raster
import Seeing.Pickle

/-!
# Disks

What the programs ask of a disk, as operations of a monad: `Disk m`. `Volume` is the disk as a
value, on which the programs can be run and reasoned about without a machine.
-/

namespace Seeing

/-- Why an operation on a disk failed. -/
inductive DiskError where
  /-- A file or a directory on the path is missing. -/
  | missing
  /-- A step of the path other than the last is a file. -/
  | notDirectory
  /-- The path names a directory where a file is asked for. -/
  | isDirectory
  /-- The path names something where nothing may be. -/
  | taken
  /-- The bytes of the file are no text. -/
  | notText
  /-- Another reason of the system. -/
  | other (reason : String)
  deriving DecidableEq, Repr

/-- The words of the system for a failed operation. -/
def DiskError.message : DiskError → String
  | .missing => "No such file or directory (os error 2)"
  | .notDirectory => "Not a directory (os error 20)"
  | .isDirectory => "Is a directory (os error 21)"
  | .taken => "File exists (os error 17)"
  | .notText => "stream did not contain valid UTF-8"
  | .other reason => reason

/-- What is written into a file. -/
inductive Document where
  /-- A text. -/
  | text (content : String)
  /-- A figure. -/
  | raster (content : Raster)
  /-- A pickled value. -/
  | pickle (content : Pickle)
  /-- Bytes of any kind. -/
  | bytes (content : ByteArray)

/-- The bytes of a document. -/
def Document.encode : Document → ByteArray
  | .text content => content.toUTF8
  | .raster content => content.encode
  | .pickle content => content.bytes.toByteArray
  | .bytes content => content

/-- A monad with a disk. -/
class Disk (m : Type → Type) where
  /-- Opens the file of a path and reads its bytes. The outer error is that of opening it. -/
  read : String → m (Except DiskError (Except DiskError ByteArray))
  /-- Creates or replaces the file of a path. -/
  write : String → Document → m (Except DiskError Unit)
  /-- Whether a path names a file or a directory. -/
  isThere : String → m Bool
  /-- Makes the directory of a path, and those that hold it. -/
  makeDirectory : String → m (Except DiskError Unit)

/-- What a path can name. -/
inductive DiskNode where
  /-- A directory. -/
  | directory
  /-- A file with its content. -/
  | file (content : Document)

/-- A disk as a value: what is at the end of which steps. The directory at the end of no step is
always there. -/
structure Volume where
  /-- The files and directories. -/
  nodes : List (List String × DiskNode) := []

namespace Volume

/-- What is at the end of some steps. -/
def node? (v : Volume) (steps : List String) : Option DiskNode :=
  if steps.isEmpty then some .directory else v.nodes.lookup steps

/-- What is at the end of the rest of some steps, when those before lead to a directory. -/
def walk (v : Volume) : (before rest : List String) → Except DiskError DiskNode
  | before, [] =>
    match v.node? before with
    | some node => .ok node
    | none => .error .missing
  | before, step :: rest =>
    match v.node? before with
    | some .directory => walk v (before ++ [step]) rest
    | some (.file _) => .error .notDirectory
    | none => .error .missing

/-- What a path names. The empty path names nothing. -/
def find (v : Volume) (path : String) : Except DiskError DiskNode :=
  if path.isEmpty then .error .missing else v.walk [] (Path.resolve path)

/-- The disk with a node put at the end of some steps. -/
def put (v : Volume) (steps : List String) (node : DiskNode) : Volume :=
  ⟨(steps, node) :: v.nodes.filter (·.1 != steps)⟩

/-- Writes a file. -/
def write (v : Volume) (path : String) (content : Document) : Except DiskError Volume :=
  match v.find path with
  | .ok .directory => .error .isDirectory
  | .ok (.file _) => .ok (v.put (Path.resolve path) (.file content))
  | .error .missing =>
    match v.walk [] (Path.resolve path).dropLast with
    | .ok .directory =>
      if path.isEmpty then .error .missing
      else .ok (v.put (Path.resolve path) (.file content))
    | .ok (.file _) => .error .notDirectory
    | .error e => .error e
  | .error e => .error e

/-- Makes one directory. -/
def makeOne (v : Volume) (steps : List String) : Except DiskError Volume :=
  match v.walk [] steps with
  | .ok _ => .error .taken
  | .error .missing =>
    match v.walk [] steps.dropLast with
    | .ok .directory => .ok (v.put steps .directory)
    | .ok (.file _) => .error .notDirectory
    | .error e => .error e
  | .error e => .error e

/-- Makes a directory and those that hold it, given by the steps before one and the steps from there
on. A directory that is there already is as good as one that is made. -/
def makeAll (v : Volume) : (before rest : List String) → Except DiskError Volume
  | _, [] => .ok v
  | before, step :: rest =>
    match v.walk [] (before ++ [step]) with
    | .ok .directory => makeAll v (before ++ [step]) rest
    | .ok (.file _) => .error (if rest.isEmpty then .taken else .notDirectory)
    | .error _ =>
      match v.makeOne (before ++ [step]) with
      | .ok v => makeAll v (before ++ [step]) rest
      | .error e => .error e

/-- The disk with a file, and with the directories that hold it if nothing stands in their way. -/
def withFile (v : Volume) (path : String) (content : Document) : Volume :=
  let steps := Path.resolve path
  let housed := match v.makeAll [] steps.dropLast with
    | .ok housed => housed
    | .error _ => v
  housed.put steps (.file content)

/-- The content of the file that a path names. -/
def file? (v : Volume) (path : String) : Option Document :=
  match v.find path with
  | .ok (.file content) => some content
  | _ => none

end Volume

end Seeing
