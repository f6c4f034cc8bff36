import DocsMigration.Text.Digits
import DocsMigration.Toml.Value
/-! The parts of a TOML text that hold no other values: keys, strings in four notations, numbers,
truth values, dates and times. -/

namespace DocsMigration

namespace Toml

/-- The characters that may stand in strings and comments: all but control characters, with the
exception of the tab. -/
def isTextChar (c : Char) : Bool := c == '\t' || (0x20 ≤ c.toNat && c.toNat != 0x7F)

def isBlankChar (c : Char) : Bool := c == ' ' || c == '\t'

def skipBlanks (s : Text) : Text := s.dropWhile isBlankChar

def lineBreak? : Text → Option Text
  | '\n' :: s => some s
  | '\r' :: '\n' :: s => some s
  | _ => none

namespace Quoted

def escapes : List (Char × Char) := [
  ('b', '\x08'), ('t', '\t'), ('n', '\n'), ('f', '\x0c'), ('r', '\r'), ('e', '\x1b'), ('"', '"'),
  ('\\', '\\')]

def codeLengths : List (Char × Nat) := [('x', 2), ('u', 4), ('U', 8)]

def escape? : Text → Option (Char × Text)
  | [] => none
  | c :: s =>
    match escapes.lookup c with
    | some d => some (d, s)
    | none => match codeLengths.lookup c with
      | some count => (Text.charOfCode? (s.take count) count).map fun d => (d, s.drop count)
      | none => none

def skipSpace : Text → Text
  | '\r' :: '\n' :: s => skipSpace s
  | c :: s => if isBlankChar c || c == '\n' then skipSpace s else c :: s
  | [] => []

/-- The text behind a backslash that ends its line: the next character that is not blank. -/
def lineEnd? (s : Text) : Option Text := (lineBreak? (skipBlanks s)).map skipSpace

/-- Reads a string of one line up to its closing quote. In double quotes a backslash escapes. -/
def line? (quote : Char) : Nat → Text → Text → Option (Text × Text)
  | 0, _, _ => none
  | _, _, [] => none
  | fuel + 1, read, c :: s =>
    if c = quote then some (read.reverse, s)
    else if c = '\\' ∧ quote = '"' then
      match escape? s with
      | some (d, rest) => line? quote fuel (d :: read) rest
      | none => none
    else if isTextChar c then line? quote fuel (c :: read) s
    else none

/-- Reads a string of several lines up to its three closing quotes, before which up to two more may
stand. -/
def lines? (quote : Char) : Nat → Text → Text → Option (Text × Text)
  | 0, _, _ => none
  | _, _, [] => none
  | fuel + 1, read, c :: s =>
    if c = quote then
      let count := min 5 ((c :: s).takeWhile (· = quote)).length
      if count < 3 then lines? quote fuel (c :: read) s
      else some (read.reverse ++ List.replicate (count - 3) quote, (c :: s).drop count)
    else if c = '\\' ∧ quote = '"' then
      match lineEnd? s with
      | some rest => lines? quote fuel read rest
      | none => match escape? s with
        | some (d, rest) => lines? quote fuel (d :: read) rest
        | none => none
    else match lineBreak? (c :: s) with
      | some rest => lines? quote fuel ('\n' :: read) rest
      | none => if isTextChar c then lines? quote fuel (c :: read) s else none

/-- Reads a string in the given quotes, which are either one or three; a line break directly behind
three opening quotes is dropped. -/
def string? (quote : Char) (s : Text) : Option (Text × Text) :=
  match Text.stripPrefix? (List.replicate 3 quote) s with
  | some rest => lines? quote (rest.length + 1) [] ((lineBreak? rest).getD rest)
  | none => line? quote (s.length + 1) [] (s.drop 1)

end Quoted

namespace Key

def isBareChar (c : Char) : Bool := c.isAlphanum || c == '-' || c == '_'

def part? (s : Text) : Option (Text × Text) :=
  match s with
  | '"' :: rest => Quoted.line? '"' (rest.length + 1) [] rest
  | '\'' :: rest => Quoted.line? '\'' (rest.length + 1) [] rest
  | _ =>
    let part := s.takeWhile isBareChar
    if part.isEmpty then none else some (part, s.dropWhile isBareChar)

def partsFrom? : Nat → Text → Option (List Text × Text)
  | 0, _ => none
  | fuel + 1, s => do
    let (part, rest) ← part? (skipBlanks s)
    match skipBlanks rest with
    | '.' :: rest =>
      let (parts, rest) ← partsFrom? fuel rest
      return (part :: parts, rest)
    | rest => return ([part], rest)

def parts? (s : Text) : Option (List Text × Text) := partsFrom? (s.length + 1) s

end Key

namespace Number

/-- Digits with single underscores between them, without the underscores. -/
def digits? (isDigit : Char → Bool) (s : Text) : Option Text :=
  let parts := Text.splitAt '_' s
  if parts.all fun p => !p.isEmpty && p.all isDigit then some parts.flatten else none

def sign : Text → Bool × Text
  | '+' :: s => (false, s)
  | '-' :: s => (true, s)
  | s => (false, s)

/-- Decimal digits without a zero in front of others. -/
def whole? (s : Text) : Option Text :=
  (digits? Char.isDigit s).filter fun ds => ds.length ≤ 1 || ds.head? != some '0'

def based? (base : Nat) (s : Text) : Option Int :=
  (digits? (Text.digitValue · < base) s).bind fun ds => (Text.naturalOf? base ds).map Int.ofNat

/-- An integer, in decimal with a sign or in another base without one. Its size is limited to 128
bits. -/
def integer? (s : Text) : Option Int :=
  let n :=
    match s with
    | '0' :: 'x' :: rest => based? 16 rest
    | '0' :: 'o' :: rest => based? 8 rest
    | '0' :: 'b' :: rest => based? 2 rest
    | _ =>
      let (negative, rest) := sign s
      ((whole? rest).bind (Text.naturalOf? 10)).map fun n => if negative then -(n : Int) else n
  n.filter fun n => -(Nat.pow 2 127 : Int) ≤ n && n < (Nat.pow 2 128 : Int)

def exponent? (s : Text) : Option Text :=
  let (negative, rest) := sign s
  (digits? Char.isDigit rest).map fun ds => if negative then '-' :: ds else ds

/-- A decimal: a whole part, and then a fraction, an exponent or both. It has to be in range. -/
def decimal? (s : Text) : Option Binary64 := do
  let (negative, rest) := sign s
  let isPoint (c : Char) : Bool := c == '.' || c == 'e' || c == 'E'
  let whole ← whole? (rest.takeWhile (!isPoint ·))
  let rest := rest.dropWhile (!isPoint ·)
  guard (!rest.isEmpty)
  let isLetter (c : Char) : Bool := c == 'e' || c == 'E'
  let fraction ← match rest.takeWhile (!isLetter ·) with
    | [] => some []
    | _ :: ds => (digits? Char.isDigit ds).map ('.' :: ·)
  let power ← match rest.dropWhile (!isLetter ·) with
    | [] => some []
    | _ :: e => (exponent? e).map ('e' :: ·)
  let x ← Binary64.unsigned? negative (whole ++ fraction ++ power)
  guard x.isFinite
  return x

def float? (s : Text) : Option Binary64 :=
  let (negative, rest) := sign s
  if rest = "inf".toList then some (.infinite negative)
  else if rest = "nan".toList then some .nan
  else decimal? s

end Number

namespace DateTime

def number? (count : Nat) (s : Text) : Option (Nat × Text) :=
  let ds := s.take count
  if ds.length = count ∧ ds.all Char.isDigit then
    (Text.naturalOf? 10 ds).map fun n => (n, s.drop count)
  else none

def daysIn (year month : Nat) : Nat :=
  if month = 2 then
    if year % 4 = 0 ∧ (year % 100 ≠ 0 ∨ year % 400 = 0) then 29 else 28
  else if month = 4 ∨ month = 6 ∨ month = 9 ∨ month = 11 then 30
  else 31

def date? (s : Text) : Option Text := do
  let (year, s) ← number? 4 s
  let (month, s) ← number? 2 (← Text.stripPrefix? ['-'] s)
  let (day, s) ← number? 2 (← Text.stripPrefix? ['-'] s)
  guard (1 ≤ month ∧ month ≤ 12 ∧ 1 ≤ day ∧ day ≤ daysIn year month)
  return s

def hourMinute? (s : Text) : Option Text := do
  let (hour, s) ← number? 2 s
  let (minute, s) ← number? 2 (← Text.stripPrefix? [':'] s)
  guard (hour ≤ 23 ∧ minute ≤ 59)
  return s

/-- The text behind a time of day; seconds and fractions of one may be left out. -/
def time? (s : Text) : Option Text := do
  let s ← hourMinute? s
  match s with
  | ':' :: s =>
    let (second, s) ← number? 2 s
    guard (second ≤ 60)
    match s with
    | '.' :: s => if s.head?.any Char.isDigit then some (s.dropWhile Char.isDigit) else none
    | _ => return s
  | _ => return s

def isOffset (s : Text) : Bool :=
  match s with
  | ['Z'] => true
  | ['z'] => true
  | '+' :: s => hourMinute? s == some []
  | '-' :: s => hourMinute? s == some []
  | _ => false

def isDateTime (s : Text) : Bool :=
  match date? s with
  | some [] => true
  | some (c :: rest) =>
    (c == 'T' || c == 't' || c == ' ') &&
      match time? rest with
      | some rest => rest.isEmpty || isOffset rest
      | none => false
  | none => time? s == some []

end DateTime

def endsBare (c : Char) : Bool :=
  isBlankChar c || c == '\n' || c == '\r' || c == ',' || c == ']' || c == '}' || c == '#'

/-- A value without quotes at the front of a text, and the text behind it. A blank may stand between
a date and a time. -/
def bareText (s : Text) : Text × Text :=
  let word := s.takeWhile (!endsBare ·)
  match s.dropWhile (!endsBare ·) with
  | ' ' :: c :: rest =>
    if c.isDigit ∧ DateTime.date? word = some [] then
      (word ++ ' ' :: (c :: rest).takeWhile (!endsBare ·), (c :: rest).dropWhile (!endsBare ·))
    else (word, ' ' :: c :: rest)
  | rest => (word, rest)

def bareValue? (word : Text) : Option Value :=
  if word = "true".toList then some (.boolean true)
  else if word = "false".toList then some (.boolean false)
  else match Number.integer? word with
    | some n => some (.integer n)
    | none => match Number.float? word with
      | some x => some (.float x)
      | none => if DateTime.isDateTime word then some (.dateTime word) else none

end Toml

end DocsMigration
