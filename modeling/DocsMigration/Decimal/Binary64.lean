import DocsMigration.Text.Basic
/-! Double precision numbers as exact values: a mantissa below 2^53 times a power of two. A decimal
is read as the nearest of them, and of two equally near ones as the one with the even mantissa. -/

namespace DocsMigration

/-- A double precision number. A finite one is `mantissa * 2 ^ exponent`, where the mantissa has 53
bits unless the exponent is the least one. -/
inductive Binary64 where
  | nan
  | infinite (negative : Bool)
  | finite (negative : Bool) (mantissa : Nat) (exponent : Int)
deriving DecidableEq, Repr

namespace Binary64

def leastExponent : Int := -1074

def greatestExponent : Int := 971

/-- Two numbers agree if they compare as equal, which the two zeros do, or are both not a number. -/
def agrees : Binary64 → Binary64 → Bool
  | .finite _ 0 _, .finite _ 0 _ => true
  | a, b => a == b

/-- The quotient of two naturals, rounded to the nearest natural and from a tie to the even one. -/
def roundQuotient (num den : Nat) : Nat :=
  let q := num / den
  let r := num % den
  if 2 * r < den then q
  else if den < 2 * r then q + 1
  else if q % 2 = 0 then q else q + 1

/-- The quotient over a power of two, as a numerator and a denominator. -/
def scaled (num den : Nat) (exponent : Int) : Nat × Nat :=
  if exponent < 0 then (num * Nat.pow 2 exponent.natAbs, den)
  else (num, den * Nat.pow 2 exponent.natAbs)

def ofQuotient (negative : Bool) (num den : Nat) : Binary64 :=
  let estimate : Int := (Nat.log2 num : Int) - (Nat.log2 den : Int) - 53
  let low := max estimate leastExponent
  let (n, d) := scaled num den low
  let exponent := if Nat.pow 2 53 ≤ n / d then low + 1 else low
  let (n, d) := scaled num den exponent
  let mantissa := roundQuotient n d
  let (mantissa, exponent) :=
    if mantissa = Nat.pow 2 53 then (Nat.pow 2 52, exponent + 1) else (mantissa, exponent)
  if greatestExponent < exponent then .infinite negative else .finite negative mantissa exponent

/-- The nearest number to `digits * 10 ^ exponent`; a magnitude far outside the range is settled
before any power is computed. -/
def ofDecimal (negative : Bool) (digits : Nat) (exponent : Int) : Binary64 :=
  let magnitude := exponent + (Nat.toDigits 10 digits).length
  if digits = 0 ∨ magnitude < -400 then .finite negative 0 leastExponent
  else if 400 < magnitude then .infinite negative
  else if exponent < 0 then ofQuotient negative digits (Nat.pow 10 exponent.natAbs)
  else ofQuotient negative (digits * Nat.pow 10 exponent.natAbs) 1

def takeDigits (s : Text) : Nat × Nat × Text :=
  let ds := s.takeWhile Char.isDigit
  (ds.foldl (fun n c => 10 * n + (c.toNat - '0'.toNat)) 0, ds.length, s.dropWhile Char.isDigit)

/-- The exponent of a decimal: nothing, or the letter e with a sign and digits. -/
def exponent? : Text → Option Int
  | [] => some 0
  | c :: s =>
    if c = 'e' ∨ c = 'E' then
      let (negative, s) := match s with
        | '-' :: t => (true, t)
        | '+' :: t => (false, t)
        | t => (false, t)
      match takeDigits s with
      | (n, count, []) =>
        if count = 0 then none else some (if negative then -(n : Int) else n)
      | _ => none
    else none

def unsigned? (negative : Bool) (s : Text) : Option Binary64 :=
  let (whole, wholeCount, s) := takeDigits s
  let (part, partCount, s) := match s with
    | '.' :: t => takeDigits t
    | t => (0, 0, t)
  if wholeCount + partCount = 0 then none
  else (exponent? s).map fun e =>
    ofDecimal negative (whole * Nat.pow 10 partCount + part) (e - partCount)

def parse? : Text → Option Binary64
  | '-' :: s => unsigned? true s
  | '+' :: s => unsigned? false s
  | s => unsigned? false s

def isFinite : Binary64 → Bool
  | .finite _ _ _ => true
  | _ => false

end Binary64

end DocsMigration
