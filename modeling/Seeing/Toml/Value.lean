/-!
# TOML values

What is written into a TOML document are the fields of a record, some of which may be records
themselves. What is read out of one are values.

The statements of a document build its values up. Tables remember how they came to be, because that
decides whether a later statement may add to them: a table named by a header is complete, one that
is only a step of a header's path may still get a header of its own, one made by a dotted key grows
by dotted keys alone, and a table written in braces is closed.
-/

namespace Seeing.Toml

/-- What a field holds that is no record. -/
inductive Datum where
  /-- A machine number. -/
  | float (number : Float)
  /-- A count. -/
  | count (number : Nat)
  /-- A list of machine numbers. -/
  | floats (numbers : List Float)

/-- What a field of a record holds. -/
inductive Field where
  /-- Something that is no record. -/
  | datum (datum : Datum)
  /-- A record without records, as its fields with their names. -/
  | record (fields : List (String × Datum))

/-- The fields of a record, in the order in which it has them, with their names. -/
abbrev Fields := List (String × Field)

/-- What is held by a field and, if it is a record, by its fields. -/
def Field.data : Field → List Datum
  | .datum d => [d]
  | .record fields => fields.map Prod.snd

/-- A document can hold it: whole numbers have a sign and 64 bits. -/
def Datum.Fits : Datum → Prop
  | .count n => n ≤ 0x7FFFFFFFFFFFFFFF
  | _ => True

instance : DecidablePred Datum.Fits
  | .float _ => isTrue trivial
  | .count n => inferInstanceAs (Decidable (n ≤ 0x7FFFFFFFFFFFFFFF))
  | .floats _ => isTrue trivial

/-- A document can hold all that the fields hold. -/
def Fields.Fits (fields : Fields) : Prop := ∀ field ∈ fields, ∀ d ∈ field.2.data, d.Fits

instance (fields : Fields) : Decidable fields.Fits :=
  inferInstanceAs (Decidable (∀ field ∈ fields, ∀ d ∈ field.2.data, d.Fits))

/-- How a table came to be. -/
inductive Origin where
  /-- By a header of its own, or as the document itself. -/
  | header
  /-- As a step on the path of a header. -/
  | step
  /-- As a step of a dotted key. -/
  | dotted
  /-- Written in braces. -/
  | braces
  deriving DecidableEq, Repr

/-- A TOML value. -/
inductive Value where
  /-- A text. -/
  | string (text : String)
  /-- A whole number. -/
  | integer (number : Int)
  /-- A machine number. -/
  | float (number : Float)
  /-- A truth value. -/
  | boolean (truth : Bool)
  /-- A date, a time, or both. -/
  | moment
  /-- A list of values in brackets. -/
  | array (items : List Value)
  /-- A table. -/
  | table (origin : Origin) (entries : List (String × Value))
  /-- The tables of the headers in double brackets. -/
  | tables (items : List (List (String × Value)))
  deriving Repr

/-- The entries of a table. -/
abbrev Entries := List (String × Value)

namespace Entries

/-- The entries with the value of a key replaced, or with the key added at the end. -/
def put (entries : Entries) (key : String) (value : Value) : Entries :=
  if (entries.lookup key).isSome then
    entries.map fun (k, v) => if k = key then (k, value) else (k, v)
  else entries ++ [(key, value)]

/-- The table with the table at a path replaced by its image. Steps that are missing are made. A
dotted key may not pass through a table that has a header. -/
def updateAt? (dotted : Bool) (f : Origin × Entries → Option (Origin × Entries)) :
    (path : List String) → Origin × Entries → Option (Origin × Entries)
  | [], table => f table
  | key :: path, (origin, entries) =>
    match entries.lookup key with
    | none => do
      let (childOrigin, child) ← updateAt? dotted f path (if dotted then .dotted else .step, [])
      some (origin, entries.put key (.table childOrigin child))
    | some (.table childOrigin child) =>
      if childOrigin = .braces ∨ (dotted ∧ childOrigin = .header) then none
      else do
        let (childOrigin, child) ← updateAt? dotted f path (childOrigin, child)
        some (origin, entries.put key (.table childOrigin child))
    | some (.tables items) =>
      match items.getLast? with
      | none => none
      | some last => do
        let (_, last) ← updateAt? dotted f path (.header, last)
        some (origin, entries.put key (.tables (items.dropLast ++ [last])))
    | some _ => none

/-- The table with a value assigned to a dotted key: the steps before the last, and the last. -/
def assign? (steps : List String) (key : String) (value : Value) (table : Origin × Entries) :
    Option (Origin × Entries) :=
  updateAt? true (fun (origin, entries) =>
    if (origin == .dotted) == steps.isEmpty then none
    else if (entries.lookup key).isSome then none
    else some (origin, entries ++ [(key, value)])) steps table

/-- The table opened by a header. -/
def open? (steps : List String) (key : String) (table : Origin × Entries) :
    Option (Origin × Entries) :=
  updateAt? false (fun (origin, entries) =>
    match entries.lookup key with
    | none => some (origin, entries ++ [(key, .table .header [])])
    | some (.table .step child) => some (origin, entries.put key (.table .header child))
    | some _ => none) steps table

/-- The table with one more table in the list opened by a header in double brackets. -/
def append? (steps : List String) (key : String) (table : Origin × Entries) :
    Option (Origin × Entries) :=
  updateAt? false (fun (origin, entries) =>
    match entries.lookup key with
    | none => some (origin, entries ++ [(key, .tables [[]])])
    | some (.tables items) => some (origin, entries.put key (.tables (items ++ [[]])))
    | some _ => none) steps table

end Entries

end Seeing.Toml
