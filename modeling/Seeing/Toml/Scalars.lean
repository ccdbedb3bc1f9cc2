import Seeing.Decimal.Reader
import Seeing.Toml.Value

/-!
# Reading TOML scalars

Numbers, texts, truth values, dates and times. Every reader takes the text from the place of the
value on and gives the value with the text after it.
-/

namespace Seeing.Toml

/-- A reader: the value at the start of a text, and the text after it. -/
abbrev Read (β : Type) := List Char → Option (β × List Char)

/-- The text after a word it starts with. -/
def word? : (word : List Char) → List Char → Option (List Char)
  | [], text => some text
  | w :: word, c :: text => if w = c then word? word text else none
  | _ :: _, [] => none

/-- Whether a character may stand in a comment or in a text on one line. -/
def isPrintable (c : Char) : Bool := c = '\t' || (0x20 ≤ c.toNat && c.toNat ≠ 0x7f)

/-- The value of a hexadecimal digit. -/
def hexDigit? (c : Char) : Option Nat :=
  if c.isDigit then some (c.toNat - '0'.toNat)
  else if 'a' ≤ c ∧ c ≤ 'f' then some (c.toNat - 'a'.toNat + 10)
  else if 'A' ≤ c ∧ c ≤ 'F' then some (c.toNat - 'A'.toNat + 10)
  else none

/-- The character with the given hexadecimal digits. -/
def hexChar? (digits : List Char) : Option Char := do
  let code ← digits.foldlM (fun code c => (hexDigit? c).map (16 * code + ·)) 0
  if code.isValidChar then some (Char.ofNat code) else none

/-- The character of an escape by a single letter. -/
def escaped? : Char → Option Char
  | 'b' => some '\x08'
  | 't' => some '\t'
  | 'n' => some '\n'
  | 'f' => some '\x0c'
  | 'r' => some '\r'
  | '"' => some '"'
  | '\\' => some '\\'
  | _ => none

/-- A character in front of a text that has been read. -/
def before (c : Char) (read : Option (List Char × List Char)) : Option (List Char × List Char) :=
  read.map fun (text, rest) => (c :: text, rest)

/-- The rest of a text in double quotes. -/
def quoted? : Read (List Char)
  | '"' :: rest => some ([], rest)
  | '\\' :: 'u' :: a :: b :: c :: d :: rest => do
    before (← hexChar? [a, b, c, d]) (quoted? rest)
  | '\\' :: 'U' :: a :: b :: c :: d :: e :: f :: g :: h :: rest => do
    before (← hexChar? [a, b, c, d, e, f, g, h]) (quoted? rest)
  | '\\' :: c :: rest => do before (← escaped? c) (quoted? rest)
  | c :: rest => if isPrintable c then before c (quoted? rest) else none
  | [] => none

/-- The rest of a text in single quotes, where nothing is escaped. -/
def literal? : Read (List Char)
  | '\'' :: rest => some ([], rest)
  | c :: rest => if isPrintable c then before c (literal? rest) else none
  | [] => none

/-- Where the reading of a text over several lines stands. -/
inductive LineState where
  /-- Between characters. -/
  | text
  /-- After a backslash that ends its line, before the end of the line. -/
  | joining
  /-- After the end of that line, before the next character. -/
  | joined
  deriving DecidableEq

/-- The rest of a text in three double quotes. -/
def quotedLines? : LineState → Read (List Char)
  | .joining, '\n' :: rest => quotedLines? .joined rest
  | .joining, '\r' :: '\n' :: rest => quotedLines? .joined rest
  | .joining, c :: rest => if c = ' ' ∨ c = '\t' then quotedLines? .joining rest else none
  | .joined, ' ' :: rest => quotedLines? .joined rest
  | .joined, '\t' :: rest => quotedLines? .joined rest
  | .joined, '\n' :: rest => quotedLines? .joined rest
  | .joined, '\r' :: '\n' :: rest => quotedLines? .joined rest
  | _, '"' :: '"' :: '"' :: '"' :: '"' :: rest => some (['"', '"'], rest)
  | _, '"' :: '"' :: '"' :: '"' :: rest => some (['"'], rest)
  | _, '"' :: '"' :: '"' :: rest => some ([], rest)
  | _, '\\' :: 'u' :: a :: b :: c :: d :: rest => do
    before (← hexChar? [a, b, c, d]) (quotedLines? .text rest)
  | _, '\\' :: 'U' :: a :: b :: c :: d :: e :: f :: g :: h :: rest => do
    before (← hexChar? [a, b, c, d, e, f, g, h]) (quotedLines? .text rest)
  | _, '\\' :: '\n' :: rest => quotedLines? .joined rest
  | _, '\\' :: '\r' :: '\n' :: rest => quotedLines? .joined rest
  | _, '\\' :: ' ' :: rest => quotedLines? .joining rest
  | _, '\\' :: '\t' :: rest => quotedLines? .joining rest
  | _, '\\' :: c :: rest => do before (← escaped? c) (quotedLines? .text rest)
  | _, '\r' :: '\n' :: rest => before '\n' (quotedLines? .text rest)
  | _, c :: rest => if c = '\n' ∨ isPrintable c then before c (quotedLines? .text rest) else none
  | _, [] => none

/-- The rest of a text in three single quotes. -/
def literalLines? : Read (List Char)
  | '\'' :: '\'' :: '\'' :: '\'' :: '\'' :: rest => some (['\'', '\''], rest)
  | '\'' :: '\'' :: '\'' :: '\'' :: rest => some (['\''], rest)
  | '\'' :: '\'' :: '\'' :: rest => some ([], rest)
  | '\r' :: '\n' :: rest => before '\n' (literalLines? rest)
  | c :: rest => if c = '\n' ∨ isPrintable c then before c (literalLines? rest) else none
  | [] => none

/-- The text after the end of a line at its start, if there is one. -/
def skipNewline : List Char → List Char
  | '\n' :: rest => rest
  | '\r' :: '\n' :: rest => rest
  | text => text

/-- A text in quotes of any kind. -/
def string? : Read String
  | '"' :: '"' :: '"' :: rest =>
    (quotedLines? .text (skipNewline rest)).map fun (t, r) => (.ofList t, r)
  | '"' :: rest => (quoted? rest).map fun (t, r) => (.ofList t, r)
  | '\'' :: '\'' :: '\'' :: rest =>
    (literalLines? (skipNewline rest)).map fun (t, r) => (.ofList t, r)
  | '\'' :: rest => (literal? rest).map fun (t, r) => (.ofList t, r)
  | _ => none

/-- The digits that follow, where an underscore may stand between two of them. -/
def moreDigits (isDigit : Char → Bool) : List Char → List Char × List Char
  | '_' :: c :: rest =>
    if isDigit c then
      let (digits, rest) := moreDigits isDigit rest
      (c :: digits, rest)
    else ([], '_' :: c :: rest)
  | c :: rest =>
    if isDigit c then
      let (digits, rest) := moreDigits isDigit rest
      (c :: digits, rest)
    else ([], c :: rest)
  | [] => ([], [])

/-- One digit or more, where an underscore may stand between two of them. -/
def digits? (isDigit : Char → Bool) : Read (List Char)
  | c :: rest =>
    if isDigit c then
      let (digits, rest) := moreDigits isDigit rest
      some (c :: digits, rest)
    else none
  | [] => none

/-- The digits of a whole number, without leading zeros. -/
def wholeDigits? : Read (List Char)
  | '0' :: rest => some (['0'], rest)
  | text => digits? Char.isDigit text

/-- The exponent of a number, as its sign and digits. -/
def exponent? : Read Int
  | c :: rest =>
    if c = 'e' ∨ c = 'E' then do
      let (negative, rest) := FloatText.takeSign rest
      let (digits, rest) ← digits? Char.isDigit rest
      let size : Int := Nat.ofDigitChars 10 digits 0
      some (if negative then -size else size, rest)
    else none
  | [] => none

/-- The digits after the point of a number. -/
def places? : Read (List Char)
  | '.' :: rest => digits? Char.isDigit rest
  | _ => none

/-- A number with places or an exponent. One too large for a machine number is none. -/
def decimal? : Read Float := fun text => do
  let (negative, rest) := FloatText.takeSign text
  let (whole, rest) ← wholeDigits? rest
  let places := places? rest
  let exponent := exponent? ((places.map (·.2)).getD rest)
  if places.isNone && exponent.isNone then none
  else
    let (places, rest) := places.getD ([], rest)
    let (exponent, rest) := exponent.getD (0, rest)
    let size := Decimal.toFloat
      ⟨Nat.ofDigitChars 10 (whole ++ places) 0, exponent - places.length⟩
    if !negative && size.isInf then none
    else some (if negative then -size else size, rest)

/-- A word for what is no finite number. -/
def specialFloat? : Read Float := fun text =>
  let (negative, rest) := FloatText.takeSign text
  match word? "inf".toList rest with
  | some rest => some (if negative then -(1.0 / 0.0) else 1.0 / 0.0, rest)
  | none => (word? "nan".toList rest).map fun rest => (0.0 / 0.0, rest)

/-- Whether a number fits into sixty four bits with a sign. -/
def fitsWord (n : Int) : Bool := -0x8000000000000000 ≤ n && n < 0x8000000000000000

/-- A whole number in the digits of a base, after the mark of the base. -/
def based? (base : Nat) (isDigit : Char → Bool) : Read Int := fun text => do
  let (digits, rest) ← digits? isDigit text
  let n := digits.foldl (fun n c => base * n + (hexDigit? c).getD 0) 0
  if fitsWord n then some (n, rest) else none

/-- A whole number. -/
def integer? : Read Int
  | '0' :: 'x' :: rest => based? 16 (fun c => (hexDigit? c).isSome) rest
  | '0' :: 'o' :: rest => based? 8 (fun c => '0' ≤ c && c ≤ '7') rest
  | '0' :: 'b' :: rest => based? 2 (fun c => c = '0' || c = '1') rest
  | text => do
    let (negative, rest) := FloatText.takeSign text
    let (digits, rest) ← wholeDigits? rest
    let size : Int := Nat.ofDigitChars 10 digits 0
    let n := if negative then -size else size
    if fitsWord n then some (n, rest) else none

/-- A number of a fixed count of digits. -/
def fixedDigits? (count : Nat) : Read Nat := fun text =>
  let digits := text.take count
  if digits.length = count ∧ digits.all Char.isDigit then
    some (Nat.ofDigitChars 10 digits 0, text.drop count)
  else none

/-- The number of days of a month. -/
def daysOf (year month : Nat) : Nat :=
  if month = 2 then
    if year % 4 = 0 ∧ (year % 100 ≠ 0 ∨ year % 400 = 0) then 29 else 28
  else if month = 4 ∨ month = 6 ∨ month = 9 ∨ month = 11 then 30
  else 31

/-- The text after a date. -/
def date? (text : List Char) : Option (List Char) := do
  let (year, rest) ← fixedDigits? 4 text
  let rest ← word? ['-'] rest
  let (month, rest) ← fixedDigits? 2 rest
  let rest ← word? ['-'] rest
  let (day, rest) ← fixedDigits? 2 rest
  if 1 ≤ month ∧ month ≤ 12 ∧ 1 ≤ day ∧ day ≤ daysOf year month then some rest else none

/-- The text after a time of the day. -/
def time? (text : List Char) : Option (List Char) := do
  let (hour, rest) ← fixedDigits? 2 text
  let rest ← word? [':'] rest
  let (minute, rest) ← fixedDigits? 2 rest
  let rest ← word? [':'] rest
  let (second, rest) ← fixedDigits? 2 rest
  if 23 < hour ∨ 59 < minute ∨ 60 < second then none
  else
    match rest with
    | '.' :: fraction =>
      let digits := fraction.takeWhile Char.isDigit
      if digits.isEmpty then some rest else some (fraction.drop digits.length)
    | rest => some rest

/-- The text after the offset of a time. -/
def offset? : List Char → Option (List Char)
  | 'Z' :: rest => some rest
  | 'z' :: rest => some rest
  | c :: rest => do
    if c = '+' ∨ c = '-' then
      let (hour, rest) ← fixedDigits? 2 rest
      let rest ← word? [':'] rest
      let (minute, rest) ← fixedDigits? 2 rest
      if hour ≤ 23 ∧ minute ≤ 59 then some rest else none
    else none
  | [] => none

/-- The text after a time of the day that follows a date, with its offset. -/
def timeOfDate? : List Char → Option (List Char)
  | c :: rest => do
    if c = 'T' ∨ c = 't' ∨ c = ' ' then
      let rest ← time? rest
      some ((offset? rest).getD rest)
    else none
  | [] => none

/-- A date, a time, or both. -/
def moment? : Read Value := fun text =>
  match date? text with
  | some rest => some (.moment, (timeOfDate? rest).getD rest)
  | none => (time? text).map fun rest => (.moment, rest)

/-- A scalar value. -/
def scalar? : Read Value := fun text =>
  match text with
  | '"' :: _ => (string? text).map fun (s, rest) => (.string s, rest)
  | '\'' :: _ => (string? text).map fun (s, rest) => (.string s, rest)
  | 't' :: _ => (word? "true".toList text).map fun rest => (.boolean true, rest)
  | 'f' :: _ => (word? "false".toList text).map fun rest => (.boolean false, rest)
  | _ =>
    moment? text <|> (decimal? text).map (fun (x, rest) => (.float x, rest)) <|>
      (specialFloat? text).map (fun (x, rest) => (.float x, rest)) <|>
      (integer? text).map (fun (n, rest) => (.integer n, rest))

end Seeing.Toml
