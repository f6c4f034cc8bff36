import DocsMigration.Text.Digits
import DocsMigration.Yaml.Value
/-! What a scalar written without quotes stands for. An empty one is null; the words for null and
the truth values come in three letter cases; then integers, decimals and the names of the infinities
and of not-a-number are tried; anything else is a string. -/

namespace DocsMigration

namespace Yaml

def nullWords : List Text := ["null".toList, "Null".toList, "NULL".toList, "~".toList]

def trueWords : List Text := ["true".toList, "True".toList, "TRUE".toList]

def falseWords : List Text := ["false".toList, "False".toList, "FALSE".toList]

def boolOf? (s : Text) : Option Bool :=
  if trueWords.contains s then some true
  else if falseWords.contains s then some false
  else none

def baseMarker? (s : Text) : Option (Nat × Text) :=
  match s with
  | '0' :: 'x' :: rest => some (16, rest)
  | '0' :: 'o' :: rest => some (8, rest)
  | '0' :: 'b' :: rest => some (2, rest)
  | _ => none

def unsign : Text → Text
  | '+' :: s => s
  | '-' :: s => s
  | s => s

/-- Digits with a zero in front, such as a postal code, are no number. -/
def isPaddedNumber (s : Text) : Bool :=
  match unsign s with
  | '0' :: c :: rest => (c :: rest).all Char.isDigit
  | _ => false

def integerOf? (s : Text) : Option Int :=
  let negative := s.head? = some '-'
  let magnitude :=
    match baseMarker? (unsign s) with
    | some (base, rest) => Text.naturalOf? base rest
    | none => if isPaddedNumber s then none else Text.naturalOf? 10 (unsign s)
  magnitude.map fun n => if negative then -(n : Int) else n

def floatOf? (s : Text) : Option Binary64 :=
  let positive := if s.head? = some '+' then s.drop 1 else s
  if s.head? = some '+' ∧ (positive.head? = some '+' ∨ positive.head? = some '-') then none
  else if [".inf".toList, ".Inf".toList, ".INF".toList].contains positive then
    some (.infinite false)
  else if ["-.inf".toList, "-.Inf".toList, "-.INF".toList].contains s then some (.infinite true)
  else if [".nan".toList, ".NaN".toList, ".NAN".toList].contains s then some .nan
  else match Binary64.parse? positive with
    | some x => if x.isFinite then some x else none
    | none => none

/-- What a scalar without quotes stands for. An integer may be too wide to be a value. -/
inductive Plain where
  | value (v : Value)
  | wideInteger
deriving Repr

/-- The integers that are values: 64 bits, signed or unsigned. -/
def fitsInteger (n : Int) : Bool := -(Nat.pow 2 63 : Int) ≤ n && n < (Nat.pow 2 64 : Int)

/-- The integers that are recognised as such: 128 bits, signed or unsigned. -/
def fitsWideInteger (n : Int) : Bool := -(Nat.pow 2 127 : Int) ≤ n && n < (Nat.pow 2 128 : Int)

def integerValue? (s : Text) : Option Plain :=
  match integerOf? s with
  | some n =>
    if fitsInteger n then some (.value (.int n))
    else if fitsWideInteger n then some .wideInteger
    else none
  | none => none

def resolve (s : Text) : Plain :=
  if s.isEmpty || nullWords.contains s then .value .null
  else match boolOf? s with
    | some b => .value (.bool b)
    | none => match integerValue? s with
      | some p => p
      | none =>
        match if isPaddedNumber s then none else floatOf? s with
        | some x => .value (.float x)
        | none => .value (.string s)

end Yaml

end DocsMigration
