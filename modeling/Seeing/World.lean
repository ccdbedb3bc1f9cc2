import Seeing.CommandLine.Program

/-!
# Worlds

A world is what surrounds the program, as a value: the disk, the records that were kept, and the
effects that the program had, in their order. Programs run in the monad of a world, without a
machine.
-/

namespace Seeing

/-- An effect of the program on its surroundings. -/
inductive Effect where
  /-- It made a directory. -/
  | made (path : String)
  /-- It wrote a file. -/
  | wrote (path : String)
  /-- It told the results at a cutoff. -/
  | told (point : SweepPoint Float)

/-- The surroundings of the program. -/
structure World where
  /-- The disk. -/
  volume : Volume := {}
  /-- The records that were kept. -/
  records : Array (Record Float) := #[]
  /-- The effects, the first one first. -/
  effects : Array Effect := #[]

/-- Actions in a world. -/
abbrev Worldly := StateM World

namespace World

/-- What the program told. -/
def told (w : World) : List (SweepPoint Float) :=
  w.effects.toList.filterMap fun
    | .told point => some point
    | _ => none

/-- The outcome of reading a file. -/
def read (w : World) (path : String) : Except DiskError (Except DiskError ByteArray) :=
  match w.volume.find path with
  | .error e => .error e
  | .ok .directory => .ok (.error .isDirectory)
  | .ok (.file content) => .ok (.ok content.encode)

/-- The world after an operation on its disk, with the effect of the operation if it succeeded. -/
def update (w : World) (effect : Effect) (outcome : Except DiskError Volume) :
    Except DiskError Unit × World :=
  match outcome with
  | .ok volume => (.ok (), { w with volume := volume, effects := w.effects.push effect })
  | .error e => (.error e, w)

end World

instance instDiskWorldly : Disk Worldly where
  read path := fun w => (w.read path, w)
  write path content := fun w => w.update (.wrote path) (w.volume.write path content)
  isThere path := fun w =>
    (match w.volume.find path with | .ok _ => true | .error _ => false, w)
  makeDirectory path := fun w =>
    w.update (.made path) (w.volume.makeAll [] (Path.resolve path))

instance instMonadLogWorldly : MonadLog Float Worldly where
  record r := modify fun w => { w with records := w.records.push r }

instance instTellerWorldly : Teller Worldly where
  tell point := modify fun w => { w with effects := w.effects.push (.told point) }

end Seeing
