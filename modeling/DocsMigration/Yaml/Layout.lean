import DocsMigration.Decimal.Shortest
import DocsMigration.Yaml.Cursor
import DocsMigration.Yaml.Resolution
/-! Writing YAML in block style with an indentation of two. A string is written without quotes if
that reads back as the same string, as a literal block if it has several lines, and else in single
or, where those cannot hold it, double quotes. -/

namespace DocsMigration

namespace Yaml

namespace Layout

def isPrintable (c : Char) : Bool :=
  let n := c.toNat
  n == 0x0A || (0x20 ≤ n && n ≤ 0x7E) || (0xA0 ≤ n && n ≤ 0xFFFD && n != 0xFEFF) || 0x10000 ≤ n

/-- What a text holds that bears on how it can be written. -/
structure Features where
  /-- Signs that would be read as block structure. -/
  indicators : Bool
  unprintable : Bool
  severalLines : Bool
  /-- A space or a line break at either end. -/
  spaceAtEdge : Bool
  spaceAtEnd : Bool
  /-- A space directly behind a line break. -/
  breakThenSpace : Bool
  /-- A line break directly behind a space. -/
  spaceThenBreak : Bool
deriving Repr

/-- Whether a sign that starts a text would be read as structure; `rest` is the text behind it. -/
def leadsStructure (c : Char) (rest : Text) : Bool :=
  "#,[]\x7b\x7d&*!|>'\"%@\x60".toList.contains c ||
    ((c == '?' || c == ':' || c == '-') && endsWord rest)

def holdsStructure : Char → Text → Bool
  | _, [] => false
  | before, c :: rest =>
    (c == ':' && endsWord rest) || (c == '#' && (isBlankChar before || isBreakChar before)) ||
      holdsStructure c rest

def hasPair (p q : Char → Bool) : Text → Bool
  | a :: b :: rest => (p a && q b) || hasPair p q (b :: rest)
  | _ => false

def isSpaceOrBreak (c : Char) : Bool := c == ' ' || isBreakChar c

def features (s : Text) : Features where
  indicators :=
    Text.startsWith s "---".toList || Text.startsWith s "...".toList ||
      match s with
      | [] => false
      | c :: rest => leadsStructure c rest || holdsStructure c rest
  unprintable := s.any (!isPrintable ·)
  severalLines := s.any isBreakChar
  spaceAtEdge := s.head?.any isSpaceOrBreak || s.getLast?.any isSpaceOrBreak
  spaceAtEnd := s.getLast? == some ' '
  breakThenSpace := hasPair isBreakChar (· == ' ') s
  spaceThenBreak := hasPair (· == ' ') isBreakChar s

namespace Features

def allowsPlain (f : Features) : Bool :=
  !(f.indicators || f.unprintable || f.severalLines || f.spaceAtEdge || f.breakThenSpace ||
    f.spaceThenBreak)

def allowsSingle (f : Features) : Bool :=
  !(f.unprintable || f.breakThenSpace || f.spaceThenBreak)

def allowsBlock (f : Features) : Bool := !(f.unprintable || f.spaceAtEnd || f.spaceThenBreak)

end Features

inductive Style where
  | plain
  | single
  | double
  | literal
deriving DecidableEq, Repr

def isAmbiguous (s : Text) : Bool :=
  isPaddedNumber s ||
    match resolve s with
    | .value (.string _) => false
    | _ => true

def style (s : Text) : Style :=
  let f := features s
  if s.any (· == '\n') then if f.allowsBlock then .literal else .double
  else if !isAmbiguous s && f.allowsPlain then .plain
  else if f.allowsSingle then .single
  else .double

def spaces (n : Nat) : Text := List.replicate n ' '

/-- Starts a new line, unless the text is at the start of one already. -/
def freshLine (indent : Nat) (s : Text) : Text :=
  (if s.getLast?.any isBreakChar then s else s ++ ['\n']) ++ spaces indent

/-- The inside of single quotes; a line behind a break is indented. -/
def singleBody (indent : Nat) : Bool → Text → Text
  | broken, [] => if broken then spaces indent else []
  | broken, c :: s =>
    if isBreakChar c then c :: singleBody indent true s
    else
      (if broken then spaces indent else []) ++
        (if c = '\'' then ['\'', '\''] else [c]) ++ singleBody indent false s

def shortEscapes : List (Char × Char) := [
  ('\x00', '0'), ('\x07', 'a'), ('\x08', 'b'), ('\t', 't'), ('\n', 'n'), ('\x0b', 'v'),
  ('\x0c', 'f'), ('\r', 'r'), ('\x1b', 'e'), ('"', '"'), ('\\', '\\'), ('\u0085', 'N'),
  ('\u00a0', '_'), ('\u2028', 'L'), ('\u2029', 'P')]

def hexText (width n : Nat) : Text :=
  let digits := (Nat.toDigits 16 n).map Char.toUpper
  List.replicate (width - digits.length) '0' ++ digits

def escaped (c : Char) : Text :=
  match shortEscapes.lookup c with
  | some d => ['\\', d]
  | none =>
    if c.toNat ≤ 0xFF then '\\' :: 'x' :: hexText 2 c.toNat
    else if c.toNat ≤ 0xFFFF then '\\' :: 'u' :: hexText 4 c.toNat
    else '\\' :: 'U' :: hexText 8 c.toNat

def doubleBody (s : Text) : Text :=
  s.flatMap fun c =>
    if !isPrintable c || isBreakChar c || c == '"' || c == '\\' then escaped c else [c]

/-- The signs behind the indicator of a literal block: the indentation if the text starts with a
space or a break, and what becomes of the breaks at its end. -/
def literalHints (s : Text) : Text :=
  (if s.head?.any isSpaceOrBreak then ['2'] else []) ++
    match s.reverse with
    | [] => ['-']
    | last :: before =>
      if !isBreakChar last then ['-']
      else match before with
        | [] => ['+']
        | c :: _ => if isBreakChar c then ['+'] else []

def literalBody (indent : Nat) : Bool → Text → Text
  | _, [] => []
  | broken, c :: s =>
    if isBreakChar c then c :: literalBody indent true s
    else (if broken then spaces indent else []) ++ c :: literalBody indent false s

/-- A string inside a block with the given indentation; a string that is a key stays on its line. -/
def stringText (indent : Nat) (isKey : Bool) (s : Text) : Text :=
  match style s with
  | .plain => s
  | .single =>
    if isKey && (features s).severalLines then '"' :: doubleBody s ++ ['"']
    else '\'' :: singleBody (indent + 2) false s ++ ['\'']
  | .double => '"' :: doubleBody s ++ ['"']
  | .literal => '|' :: literalHints s ++ '\n' :: literalBody (indent + 2) true s

def integerText (n : Int) : Text := (if n < 0 then ['-'] else []) ++ Text.ofNat n.natAbs

def flatText? (indent : Nat) (isKey : Bool) : Value → Option Text
  | .null => some "null".toList
  | .bool b => some (if b then "true".toList else "false".toList)
  | .int n => some (integerText n)
  | .float x => some x.text
  | .string s => some (stringText indent isKey s)
  | .sequence [] => some "[]".toList
  | .mapping [] => some "\x7b\x7d".toList
  | _ => none

def isTagChar (c : Char) : Bool := c.isAlphanum || "-_;/?:@&=+$,.~*'()[]!".toList.contains c

def octets (c : Char) : List Nat :=
  let n := c.toNat
  if n < 0x80 then [n]
  else if n < 0x800 then [0xC0 + n / 64, 0x80 + n % 64]
  else if n < 0x10000 then [0xE0 + n / 4096, 0x80 + n / 64 % 64, 0x80 + n % 64]
  else [0xF0 + n / 262144, 0x80 + n / 4096 % 64, 0x80 + n / 64 % 64, 0x80 + n % 64]

def tagChars (s : Text) : Text :=
  s.flatMap fun c =>
    if isTagChar c then [c] else (octets c).flatMap fun n => '%' :: hexText 2 n

/-- A tag; one that is only an exclamation mark is written as a verbatim tag. -/
def tagText (name : Text) : Text :=
  if name = ['!'] then "!<!>".toList
  else match name with
    | '!' :: rest => '!' :: tagChars rest
    | _ => '!' :: tagChars name

/-- How many bytes a key of one line may take up. -/
def keyLimit : Nat := 128

/-- The bytes of a value that count towards the limit of a key, unless it takes up several lines. -/
def keySize? : Value → Option Nat
  | .null => some 4
  | .bool b => some (if b then 4 else 5)
  | .int n => some (integerText n).length
  | .float x => some x.text.length
  | .string s => if (features s).severalLines then none else some (Text.utf8Size s)
  | .sequence [] => some 0
  | .mapping [] => some 0
  | _ => none

/-- Whether a key is written in front of its colon; any other is written behind a question mark. -/
def isSimpleKey : Value → Bool
  | .tagged name v => (keySize? v).any (· + Text.utf8Size name + 1 ≤ keyLimit)
  | v => (keySize? v).any (· ≤ keyLimit)

def splitTag : Value → Text × Value
  | .tagged name v => (' ' :: tagText name, v)
  | v => ([], v)

def simpleKeyText (indent : Nat) (k : Value) : Text :=
  let (tag, v) := splitTag k
  (if tag.isEmpty then [] else tag.drop 1 ++ [' ']) ++ (flatText? indent true v).getD []

/-- Where a collection stands: behind a key and its colon, behind another indicator of a mapping, or
behind the dash of a sequence. -/
inductive Slot where
  | afterKey
  | afterMark
  | afterDash
deriving DecidableEq, Repr

/-- The lines of a collection: the first goes on behind the indicator or starts a line of its own,
and every other one starts a line. -/
def stack (compact : Bool) (indent : Nat) (opening : Text) : List Text → Text
  | [] => opening
  | part :: parts =>
    parts.foldl (fun s p => freshLine indent s ++ p)
      ((if compact then opening ++ [' '] else freshLine indent opening) ++ part)

mutual

/-- A value behind an indicator, inside a block with the given indentation. A sequence behind a key
is not indented further. -/
def behind (indent : Nat) (slot : Slot) (opening : Text) : Value → Text
  | .tagged name v => behind indent slot (opening ++ ' ' :: tagText name) v
  | .sequence xs =>
    let compact := slot != .afterKey && opening.length == 1
    let inner := if slot != .afterDash && !compact then indent else indent + 2
    if xs.isEmpty then opening ++ " []".toList else stack compact inner opening (items inner xs)
  | .mapping es =>
    let compact := slot != .afterKey && opening.length == 1
    if es.isEmpty then opening ++ " \x7b\x7d".toList
    else stack compact (indent + 2) opening (entries (indent + 2) es)
  | v => opening ++ ' ' :: (flatText? indent false v).getD []
termination_by structural v => v

def items (indent : Nat) : List Value → List Text
  | [] => []
  | v :: rest => behind indent .afterDash ['-'] v :: items indent rest
termination_by structural vs => vs

def entries (indent : Nat) : List (Value × Value) → List Text
  | [] => []
  | e :: rest => entry indent e :: entries indent rest
termination_by structural es => es

def entry (indent : Nat) : Value × Value → Text
  | (k, v) =>
    if isSimpleKey k then behind indent .afterKey (simpleKeyText indent k ++ [':']) v
    else freshLine indent (behind indent .afterMark ['?'] k) ++ behind indent .afterMark [':'] v
termination_by structural e => e

end

end Layout

def render : Mapping → Text
  | [] => "\x7b\x7d\n".toList
  | m =>
    match Layout.entries 0 m with
    | [] => []
    | part :: parts =>
      Layout.freshLine 0 (parts.foldl (fun s p => Layout.freshLine 0 s ++ p) part)

/-- A way to write mappings; some may have no text. -/
abbrev Writer := Mapping → Option Text

def writer : Writer := fun m => some (render m)

def Writer.failures (write : Writer) (message : Text) (m : Mapping) : List Text :=
  if (write m).isSome then [] else [message]

theorem Writer.failures_eq_nil_iff {write : Writer} {message : Text} {m : Mapping} :
    write.failures message m = [] ↔ (write m).isSome := by
  unfold failures
  split <;> simp [*]

end Yaml

end DocsMigration
