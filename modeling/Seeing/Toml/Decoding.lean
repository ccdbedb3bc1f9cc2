import Seeing.Toml.Value

/-!
# Values as data

What a value stands for where a number, a count or a list is expected. Whole numbers stand for
machine numbers too. Where a record is expected, a table gives its fields by name and a list by
their order.
-/

namespace Seeing.Toml.Value

/-- A machine number. -/
def float? : Value → Option Float
  | .float x => some x
  | .integer n => some (Float.ofInt n)
  | _ => none

/-- A count. -/
def count? : Value → Option Nat
  | .integer (.ofNat n) => some n
  | _ => none

/-- A list of machine numbers. -/
def floats? : Value → Option (List Float)
  | .array items => items.mapM float?
  | _ => none

/-- The field of a record with the given name and place. -/
def field? (value : Value) (name : String) (place : Nat) : Option Value :=
  match value with
  | .table _ entries => entries.lookup name
  | .array items => items[place]?
  | .tables items => (items[place]?).map (.table .header)
  | _ => none

end Seeing.Toml.Value
