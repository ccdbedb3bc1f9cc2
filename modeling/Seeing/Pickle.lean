/-!
# Pickles

The values of a pickle file and their bytes, in protocol 3.
-/

namespace Seeing

/-- A value that can be pickled. -/
inductive Pickle where
  /-- Nothing. -/
  | none
  /-- A count. -/
  | count (n : Nat)
  /-- A machine number. -/
  | float (x : Float)
  /-- A list. -/
  | list (items : List Pickle)
  /-- A record by the names of its fields. -/
  | record (fields : List (String × Pickle))

namespace Pickle

/-- The lowest bytes of a number, the lowest first. -/
def littleEndian : (length : Nat) → Nat → List UInt8
  | 0, _ => []
  | length + 1, n => n.toUInt8 :: littleEndian length (n / 256)

/-- The bytes of a name, after its length in bytes. -/
def nameBytes (name : String) : List UInt8 :=
  let bytes := name.toUTF8.toList
  0x58 :: littleEndian 4 bytes.length ++ bytes

mutual

/-- The bytes of a value. -/
def body : Pickle → List UInt8
  | .none => [0x4e]
  | .count n => 0x4a :: littleEndian 4 n
  | .float x => 0x47 :: (littleEndian 8 x.toBits.toNat).reverse
  | .list [] => [0x5d]
  | .list items => [0x5d, 0x28] ++ itemBytes items ++ [0x65]
  | .record fields => [0x7d, 0x28] ++ fieldBytes fields ++ [0x75]

/-- The bytes of the items of a list. -/
def itemBytes : List Pickle → List UInt8
  | [] => []
  | item :: items => body item ++ itemBytes items

/-- The bytes of the fields of a record, each name before its value. -/
def fieldBytes : List (String × Pickle) → List UInt8
  | [] => []
  | (name, value) :: fields => nameBytes name ++ body value ++ fieldBytes fields

end

/-- The bytes of a pickle file. -/
def bytes (value : Pickle) : List UInt8 := [0x80, 0x03] ++ body value ++ [0x2e]

end Pickle

end Seeing
