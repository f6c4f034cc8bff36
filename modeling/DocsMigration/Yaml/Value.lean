import DocsMigration.Decimal.Binary64
/-! YAML values. A mapping keeps the order of its entries, and its keys may be any values; two keys
agree whatever the order of the entries inside them. -/

namespace DocsMigration

namespace Yaml

/-- A YAML value; the tag of a tagged one is kept without its exclamation mark. -/
inductive Value where
  | null
  | bool (b : Bool)
  | int (n : Int)
  | float (x : Binary64)
  | string (s : Text)
  | sequence (items : List Value)
  | mapping (entries : List (Value × Value))
  | tagged (tag : Text) (value : Value)
deriving Repr

abbrev Mapping := List (Value × Value)

mutual

def Value.agrees : Value → Value → Bool
  | .null, .null => true
  | .bool a, .bool b => a == b
  | .int a, .int b => a == b
  | .float a, .float b => Binary64.agrees a b
  | .string a, .string b => a == b
  | .sequence xs, .sequence ys => Value.allAgree xs ys
  | .mapping es, .mapping fs => es.length == fs.length && Value.allOccur es fs
  | .tagged t a, .tagged u b => t == u && Value.agrees a b
  | _, _ => false
termination_by structural x => x

def Value.allAgree : List Value → List Value → Bool
  | [], [] => true
  | x :: xs, y :: ys => Value.agrees x y && Value.allAgree xs ys
  | _, _ => false
termination_by structural xs => xs

def Value.allOccur : List (Value × Value) → List (Value × Value) → Bool
  | [], _ => true
  | e :: es, fs => fs.any (fun f => Value.entryAgrees e f) && Value.allOccur es fs
termination_by structural es => es

def Value.entryAgrees : Value × Value → Value × Value → Bool
  | (k, v), (k', v') => Value.agrees k k' && Value.agrees v v'
termination_by structural e => e

end

inductive Kind where
  | null
  | bool
  | number
  | string
  | sequence
  | mapping
  | tagged
deriving DecidableEq, Repr

namespace Value

def kind : Value → Kind
  | .null => .null
  | .bool _ => .bool
  | .int _ => .number
  | .float _ => .number
  | .string _ => .string
  | .sequence _ => .sequence
  | .mapping _ => .mapping
  | .tagged _ _ => .tagged

def untagged : Value → Value
  | .tagged _ v => v
  | v => v

def string? (v : Value) : Option Text :=
  match v.untagged with
  | .string s => some s
  | _ => none

end Value

namespace Mapping

def get? (key : Value) (m : Mapping) : Option Value :=
  (m.find? fun e => e.1.agrees key).map (·.2)

def contains (key : Value) (m : Mapping) : Bool := m.any fun e => e.1.agrees key

/-- Sets the value of a key: where the key stands already, or else at the end. -/
def insert (key value : Value) : Mapping → Mapping
  | [] => [(key, value)]
  | e :: m => if e.1.agrees key then (e.1, value) :: m else e :: insert key value m

end Mapping

/-- What a mapping, tagged or not, holds under a key that is a string. -/
def Value.field? (key : Text) (v : Value) : Option Value :=
  match v.untagged with
  | .mapping m => Mapping.get? (.string key) m
  | _ => none

end Yaml

end DocsMigration
