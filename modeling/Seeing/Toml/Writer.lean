import Seeing.Decimal.Text
import Seeing.Toml.Value

/-!
# Writing TOML documents

The fields of a record that are no records come first in its document, in their order, and the
others follow as tables. Machine numbers are written by their shortest decimal. The items of a list
of several are written on lines of their own.
-/

namespace Seeing.Toml

/-- The text of a machine number: a whole one keeps the digit zero after its point. -/
def floatText (x : Float) : List Char :=
  if x.isFinite then
    let d := Decimal.shortest (Binary.ofFloat x)
    FloatText.sign x ++ d.positional ++ if 0 ≤ d.exponent then ['.', '0'] else []
  else if x.isNaN then "nan".toList
  else if x < 0 then "-inf".toList else "inf".toList

/-- The text of a list of machine numbers. -/
def floatsText : List Float → List Char
  | [] => ['[', ']']
  | [x] => '[' :: floatText x ++ [']']
  | xs =>
    '[' :: '\n' :: xs.flatMap (fun x => [' ', ' ', ' ', ' '] ++ floatText x ++ [',', '\n']) ++ [']']

/-- The line that assigns a value to a key. -/
def line (key : String) (value : List Char) : List Char :=
  key.toList ++ [' ', '=', ' '] ++ value ++ ['\n']

/-- The text of what a field holds. -/
def Datum.text : Datum → List Char
  | .float x => floatText x
  | .count n => Nat.toDigits 10 n
  | .floats xs => floatsText xs

/-- The lines of the fields of a record without records. -/
def lines (fields : List (String × Datum)) : List Char :=
  fields.flatMap fun field => line field.1 field.2.text

/-- What a field holds, if it is no record. -/
def Field.datum? : Field → Option Datum
  | .datum d => some d
  | .record _ => none

/-- The fields of the record that a field holds, if it is one. -/
def Field.record? : Field → Option (List (String × Datum))
  | .datum _ => none
  | .record fields => some fields

/-- The fields that are no records. -/
def Fields.data (fields : Fields) : List (String × Datum) :=
  fields.filterMap fun field => field.2.datum?.map (field.1, ·)

/-- The fields that are records. -/
def Fields.records (fields : Fields) : List (String × List (String × Datum)) :=
  fields.filterMap fun field => field.2.record?.map (field.1, ·)

/-- The lines of a table, after an empty line. -/
def tableLines (name : String) (fields : List (String × Datum)) : List Char :=
  ['\n', '['] ++ name.toList ++ [']', '\n'] ++ lines fields

/-- The document of a record. -/
def Fields.text (fields : Fields) : List Char :=
  lines fields.data ++ fields.records.flatMap fun table => tableLines table.1 table.2

end Seeing.Toml
