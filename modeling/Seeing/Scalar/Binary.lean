/-!
# The binary form of machine numbers

A finite machine number is `± m * 2 ^ e` for whole `m` and `e`. `Binary.ofFloat` reads `m` and `e`
off the bits, so that decimal texts and remainders are computed in whole numbers, without rounding.
-/

namespace Seeing

/-- A finite number: a sign, a whole significand and the exponent of the power of two it is
multiplied with. -/
structure Binary where
  /-- Whether the number carries a minus sign. -/
  negative : Bool
  /-- The whole significand. -/
  significand : Nat
  /-- The exponent of two. -/
  exponent : Int
  deriving DecidableEq, Repr

namespace Binary

/-- Whether the sign bit is set. -/
def signBit (x : Float) : Bool := Nat.pow 2 63 ≤ x.toBits.toNat

/-- The exponent field. -/
def exponentField (x : Float) : Nat := x.toBits.toNat / Nat.pow 2 52 % Nat.pow 2 11

/-- The fraction field. -/
def fractionField (x : Float) : Nat := x.toBits.toNat % Nat.pow 2 52

/-- The binary form of a finite number. Numbers too small for a leading one have the exponent field
zero and share their scale with the field one. -/
def ofFloat (x : Float) : Binary :=
  let field := exponentField x
  if field = 0 then ⟨signBit x, fractionField x, -1074⟩
  else ⟨signBit x, Nat.pow 2 52 + fractionField x, (field : Int) - 1075⟩

/-- The magnitude as a fraction of whole numbers. -/
def fraction (b : Binary) : Nat × Nat :=
  match b.exponent with
  | .ofNat e => (b.significand * Nat.pow 2 e, 1)
  | .negSucc e => (b.significand, Nat.pow 2 (e + 1))

/-- The power of two as a machine number, for the exponents that a binary form has. -/
def powerOfTwo (e : Int) : Float :=
  if -1022 ≤ e then Float.ofBits ((e + 1023).toNat * Nat.pow 2 52).toUInt64
  else Float.ofBits (Nat.pow 2 (e + 1074).toNat).toUInt64

end Binary

end Seeing
