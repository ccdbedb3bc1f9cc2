import Seeing.Decimal.Rounding

/-!
# Reading decimals

A written decimal is read as the machine number nearest to it. `Decimal.toFloat` gives the value,
`FloatText.read?` accepts the texts of numbers: an optional sign, digits with an optional point and
an optional exponent, or a word for what is no finite number.
-/

namespace Seeing

namespace Decimal

/-- The machine number nearest to `coefficient * 10 ^ exponent`. Decimals out of the range of
machine numbers are recognised by the place of their leading digit, so that no power of ten is
computed for them. -/
def toFloat (d : Decimal) : Float :=
  let leading := d.exponent + digitCount d.coefficient
  if d.coefficient = 0 ∨ leading < -330 then 0
  else if 310 < leading then 1.0 / 0.0
  else match d.exponent with
    | .ofNat e => Float.ofScientific d.coefficient false e
    | .negSucc e => Float.ofScientific d.coefficient true (e + 1)

end Decimal

namespace FloatText

/-- The digits that a text starts with, and what follows them. -/
def takeDigits (text : List Char) : List Char × List Char :=
  (text.takeWhile Char.isDigit, text.dropWhile Char.isDigit)

/-- The sign that a text starts with, as whether it is a minus, and what follows it. -/
def takeSign : List Char → Bool × List Char
  | '-' :: rest => (true, rest)
  | '+' :: rest => (false, rest)
  | text => (false, text)

/-- The exponent written at the end of a number, zero for none. -/
def readExponent? : List Char → Option Int
  | [] => some 0
  | c :: rest =>
    if c = 'e' ∨ c = 'E' then
      let (negative, digits) := takeSign rest
      if digits.isEmpty ∨ digits.any (!·.isDigit) then none
      else
        let size : Int := Nat.ofDigitChars 10 digits 0
        some (if negative then -size else size)
    else none

/-- The decimal of a text without sign: digits, a point with more digits, an exponent. Digits may be
missing on one side of the point. -/
def readDecimal? (text : List Char) : Option Decimal :=
  let (whole, rest) := takeDigits text
  let (places, rest) := match rest with
    | '.' :: rest => takeDigits rest
    | rest => ([], rest)
  if whole.isEmpty && places.isEmpty then none
  else do
    let exponent ← readExponent? rest
    some ⟨Nat.ofDigitChars 10 (whole ++ places) 0, exponent - places.length⟩

/-- The words for what is no finite number, in any mixture of capitals. -/
def readWord? (text : List Char) : Option Float :=
  let word := text.map Char.toLower
  if word = "inf".toList ∨ word = "infinity".toList then some (1.0 / 0.0)
  else if word = "nan".toList then some (0.0 / 0.0)
  else none

/-- The machine number that a text denotes. -/
def read? (text : List Char) : Option Float := do
  let (negative, rest) := takeSign text
  let size ← (readDecimal? rest).map Decimal.toFloat <|> readWord? rest
  some (if negative then -size else size)

end FloatText

end Seeing
