import DocsMigration.Decimal.Binary64
/-! The shortest decimal of a double precision number: the fewest digits that read back as the
number, and of the decimals with that many digits the nearest one. -/

namespace DocsMigration

/-- The decimal `digits * 10 ^ power`. -/
structure ShortDecimal where
  digits : Nat
  power : Int
deriving DecidableEq, Repr

namespace Binary64

/-- The reals that read as one positive number, in quarters of its last place: from `low` to `high`,
the ends included if `closed`. The gap below a power of two is half as wide. -/
structure Interval where
  low : Nat
  high : Nat
  closed : Bool

def interval (mantissa : Nat) (exponent : Int) : Interval where
  low :=
    if mantissa = Nat.pow 2 52 ∧ leastExponent < exponent then 4 * mantissa - 1
    else 4 * mantissa - 2
  high := 4 * mantissa + 2
  closed := mantissa % 2 = 0

/-- The least `n` with `num / den < 10 ^ n`, for a positive quotient. -/
def decimalLength (num den : Nat) : Int :=
  if den ≤ num then (Nat.toDigits 10 (num / den)).length
  else 1 - ((Nat.toDigits 10 ((den + num - 1) / num - 1)).length : Int)

/-- A factor for decimals on the grid of `10 ^ power` and one for quarters of `2 ^ exponent`; scaled
by them, the two compare as naturals. -/
def factors (power exponent : Int) : Nat × Nat :=
  (Nat.pow 10 power.toNat * Nat.pow 2 (2 - exponent).toNat,
    Nat.pow 10 (-power).toNat * Nat.pow 2 (exponent - 2).toNat)

/-- The point of the grid of `10 ^ power` that reads back as the number, the nearer of two and from
a tie the even one. -/
def gridPoint? (mantissa : Nat) (exponent power : Int) : Option ShortDecimal :=
  let i := interval mantissa exponent
  let (a, b) := factors power exponent
  let below := 4 * mantissa * b / a
  let rest := 2 * (4 * mantissa * b % a)
  let within (digits : Nat) : Bool :=
    if i.closed then i.low * b ≤ digits * a && digits * a ≤ i.high * b
    else i.low * b < digits * a && digits * a < i.high * b
  let roundsDown := rest < a || (rest == a && below % 2 == 0)
  match below != 0 && within below, within (below + 1) with
  | false, false => none
  | true, false => some ⟨below, power⟩
  | false, true => some ⟨below + 1, power⟩
  | true, true => some ⟨if roundsDown then below else below + 1, power⟩

def dropZeros : Nat → ShortDecimal → ShortDecimal
  | 0, d => d
  | limit + 1, d =>
    if d.digits % 10 = 0 then dropZeros limit ⟨d.digits / 10, d.power + 1⟩ else d

/-- The shortest decimal of a positive finite number. Seventeen digits always suffice. -/
def shortest (mantissa : Nat) (exponent : Int) : ShortDecimal :=
  let length := decimalLength (mantissa * Nat.pow 2 exponent.toNat) (Nat.pow 2 (-exponent).toNat)
  let found := (List.range 17).findSome? fun (n : Nat) =>
    gridPoint? mantissa exponent (length - ((n + 1 : Nat) : Int))
  dropZeros 20 (found.getD ⟨0, 0⟩)

/-- Writes a positive decimal: positional from 0.00001 up to sixteen places before the point, and
otherwise with an exponent. -/
def decimalText (d : ShortDecimal) : Text :=
  let digits := Text.ofNat d.digits
  let point := digits.length + d.power
  if 0 ≤ d.power ∧ point ≤ 16 then digits ++ List.replicate d.power.toNat '0' ++ ".0".toList
  else if 0 < point ∧ point ≤ 16 then
    digits.take point.toNat ++ '.' :: digits.drop point.toNat
  else if -5 < point ∧ point ≤ 0 then "0.".toList ++ List.replicate (-point).toNat '0' ++ digits
  else
    let mark := if 1 < digits.length then digits.take 1 ++ '.' :: digits.drop 1 else digits
    let power := point - 1
    mark ++ 'e' :: (if power < 0 then ['-'] else []) ++ Text.ofNat power.natAbs

def text : Binary64 → Text
  | .nan => ".nan".toList
  | .infinite negative => if negative then "-.inf".toList else ".inf".toList
  | .finite negative mantissa exponent =>
    (if negative then ['-'] else []) ++
      (if mantissa = 0 then "0.0".toList else decimalText (shortest mantissa exponent))

end Binary64

end DocsMigration
