import Seeing.Decimal.Shortest

/-!
# Machine numbers as text

The formats in which numbers are written: the shortest decimal written positionally, a fixed number
of places in a field of given width, and the format of listings, which marks whole numbers by a
decimal point and turns to powers of ten for very large and very small ones.
-/

namespace Seeing.FloatText

/-- The text of what is no finite number. -/
def special (x : Float) : List Char :=
  if x.isNaN then "NaN".toList else if x < 0 then "-inf".toList else "inf".toList

/-- A minus sign for numbers whose sign bit is set. -/
def sign (x : Float) : List Char := if Binary.signBit x then ['-'] else []

/-- The shortest decimal that reads back, written positionally. -/
def plain (x : Float) : String :=
  .ofList <|
    if x.isFinite then sign x ++ (Decimal.shortest (Binary.ofFloat x)).positional else special x

/-- Padding with blanks on the left up to `width` characters. -/
def padLeft (width : Nat) (text : List Char) : List Char :=
  List.replicate (width - text.length) ' ' ++ text

/-- A number with `places` digits after the point, right aligned in `width` characters. -/
def fixed (width places : Nat) (x : Float) : String :=
  .ofList <| padLeft width <|
    if x.isFinite then
      let (num, den) := (Binary.ofFloat x).fraction
      sign x ++ (Decimal.ofPlaces num den places).positional
    else special x

/-- The digits of a decimal with a point after the first, and the exponent that belongs to it. -/
def withExponent (d : Decimal) : List Char :=
  let digits := Nat.toDigits 10 d.coefficient
  let mantissa := match digits with
    | first :: second :: rest => first :: '.' :: second :: rest
    | digits => digits
  mantissa ++ 'e' :: (toString (d.exponent + digits.length - 1)).toList

/-- The text of a number in a listing: a whole number keeps the digit zero after its point, and from
`1e16` up and below `1e-4` a power of ten is split off. -/
def listing (x : Float) : String :=
  .ofList <|
    if x.isFinite then
      let d := Decimal.shortest (Binary.ofFloat x)
      let size := x.abs
      if 1e16 ≤ size ∨ (0 < size ∧ size < 1e-4) then sign x ++ withExponent d
      else if 0 ≤ d.exponent then sign x ++ d.positional ++ ['.', '0']
      else sign x ++ d.positional
    else special x

end Seeing.FloatText
