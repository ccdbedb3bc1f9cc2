/-!
# Storage

The values of an array stand one behind the other in one piece of storage, and a piece has at most
`Storage.limit` bytes. Whoever asks for a longer array crashes. Shorter ones are always given: what
is left of the storage of a machine is not looked at.
-/

namespace Seeing.Storage

/-- The largest number of bytes of an array. -/
def limit : Nat := 0x7FFFFFFFFFFFFFFF

/-- The bytes of a real number, and of every other word. -/
def realBytes : Nat := 8

/-- The bytes of a complex amplitude, which has two parts. -/
def amplitudeBytes : Nat := 2 * realBytes

/-- The bytes of a phase screen apart from its phases. It has a side, a scale, a velocity of two
parts, and three words that tell where its phases are, how many they are, and how many there can
be. -/
def screenBytes : Nat := 7 * realBytes

/-- There can be an array of `count` values of so many bytes each. -/
def Holds (count bytes : Nat) : Prop := count * bytes ≤ limit

instance (count bytes : Nat) : Decidable (Holds count bytes) :=
  inferInstanceAs (Decidable (count * bytes ≤ limit))

/-- There can be a square of `side` by `side` values of so many bytes each. -/
def HoldsSquare (side bytes : Nat) : Prop := Holds (side * side) bytes

instance (side bytes : Nat) : Decidable (HoldsSquare side bytes) :=
  inferInstanceAs (Decidable (Holds (side * side) bytes))

theorem holdsSquare_iff_lt {side bytes bound : Nat} (hfirst : limit < bound * bound * bytes)
    (hlast : (bound - 1) * (bound - 1) * bytes ≤ limit) :
    HoldsSquare side bytes ↔ side < bound := by
  constructor
  · intro hholds
    apply Nat.lt_of_not_le
    intro hle
    have hsquare := Nat.mul_le_mul_right bytes (Nat.mul_le_mul hle hle)
    exact Nat.not_le_of_lt hfirst (Nat.le_trans hsquare hholds)
  · intro hlt
    have hle : side ≤ bound - 1 := Nat.le_sub_one_of_lt hlt
    exact Nat.le_trans (Nat.mul_le_mul_right bytes (Nat.mul_le_mul hle hle)) hlast

theorem holdsSquare_amplitudeBytes_iff {side : Nat} :
    HoldsSquare side amplitudeBytes ↔ side < 759250125 :=
  holdsSquare_iff_lt (by decide) (by decide)

end Seeing.Storage
