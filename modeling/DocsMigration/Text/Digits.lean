import DocsMigration.Text.Basic
/-! Digits of a base up to sixteen, in either letter case, and the characters that are written by
their code. -/

namespace DocsMigration

namespace Text

def digitValue (c : Char) : Nat :=
  if c.isDigit then c.toNat - '0'.toNat
  else if 'a' ≤ c ∧ c ≤ 'f' then c.toNat - 'a'.toNat + 10
  else if 'A' ≤ c ∧ c ≤ 'F' then c.toNat - 'A'.toNat + 10
  else 16

/-- A natural in the given base, at most sixteen; there has to be a digit. -/
def naturalOf? (base : Nat) (s : Text) : Option Nat :=
  if !s.isEmpty && s.all (digitValue · < base) then
    some (s.foldl (fun n c => base * n + digitValue c) 0)
  else none

/-- The character with a hexadecimal code of `count` digits, which may not be a surrogate or too
large. -/
def charOfCode? (digits : Text) (count : Nat) : Option Char :=
  if digits.length = count then
    match naturalOf? 16 digits with
    | some n => if n.isValidChar then some (Char.ofNat n) else none
    | none => none
  else none

end Text

end DocsMigration
