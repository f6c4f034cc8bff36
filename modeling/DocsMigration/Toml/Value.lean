import DocsMigration.Decimal.Binary64
/-! TOML values. A value can also be looked at as a record: a table has its fields by name, and an
array has them in order. -/

namespace DocsMigration

namespace Toml

inductive Value where
  | string (s : Text)
  | integer (n : Int)
  | float (x : Binary64)
  | boolean (b : Bool)
  | dateTime (s : Text)
  | array (items : List Value)
  | table (entries : List (Text × Value))
deriving Repr

abbrev Table := List (Text × Value)

namespace Value

/-- The fields of a record, each given by its name and its place. A date or time is a record without
any field. -/
def fields? : Value → Option (Text → Nat → Option Value)
  | .table entries => some fun name _ => entries.lookup name
  | .array items => some fun _ place => items[place]?
  | .dateTime _ => some fun _ _ => none
  | _ => none

def string? : Value → Option Text
  | .string s => some s
  | _ => none

def boolean? : Value → Option Bool
  | .boolean b => some b
  | _ => none

def natural? : Value → Option Nat
  | .integer n => if 0 ≤ n ∧ n < 4294967296 then some n.toNat else none
  | _ => none

def array? : Value → Option (List Value)
  | .array items => some items
  | _ => none

end Value

end Toml

end DocsMigration
