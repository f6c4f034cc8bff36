import DocsMigration.Text.Basic
/-! A place in a YAML text: the text still to be read, with the place's index, line and column. A
line break is a carriage return with or without a line feed, a line feed, a next-line character, or
a line or paragraph separator; only the two separators stand for themselves in a scalar. -/

namespace DocsMigration

namespace Yaml

def isBlankChar (c : Char) : Bool := c == ' ' || c == '\t'

def isBreakChar (c : Char) : Bool :=
  c == '\r' || c == '\n' || c == '\u0085' || c == '\u2028' || c == '\u2029'

def endsWord (s : Text) : Bool :=
  match s with
  | [] => true
  | c :: _ => isBlankChar c || isBreakChar c

/-- The letters, digits and signs of anchors, tag handles and directives. -/
def isNameChar (c : Char) : Bool := c.isAlphanum || c == '_' || c == '-'

structure Cursor where
  rest : Text
  index : Nat
  line : Nat
  column : Nat
deriving Repr

namespace Cursor

def start (s : Text) : Cursor := ⟨s, 0, 0, 0⟩

def head? (k : Cursor) : Option Char := k.rest.head?

def atEnd (k : Cursor) : Bool := k.rest.isEmpty

def atBlank (k : Cursor) : Bool := k.rest.head?.any isBlankChar

def atBreak (k : Cursor) : Bool := k.rest.head?.any isBreakChar

def advance (n : Nat) (k : Cursor) : Cursor :=
  { k with rest := k.rest.drop n, index := k.index + n, column := k.column + n }

def advanceWhile (p : Char → Bool) (k : Cursor) : Cursor :=
  k.advance (k.rest.takeWhile p).length

/-- Goes over the line break at the cursor, and gives what it stands for in a scalar. -/
def takeBreak (k : Cursor) : Text × Cursor :=
  let past (n : Nat) : Cursor := ⟨k.rest.drop n, k.index + n, k.line + 1, 0⟩
  match k.rest with
  | '\r' :: '\n' :: _ => (['\n'], past 2)
  | '\r' :: _ => (['\n'], past 1)
  | '\n' :: _ => (['\n'], past 1)
  | '\u0085' :: _ => (['\n'], past 1)
  | '\u2028' :: _ => (['\u2028'], past 1)
  | '\u2029' :: _ => (['\u2029'], past 1)
  | _ => ([], k)

def skipToBreak (k : Cursor) : Cursor := k.advanceWhile (!isBreakChar ·)

/-- Whether a marker of three characters stands alone at the start of a line. -/
def atMarker (marker : Text) (k : Cursor) : Bool :=
  k.column == 0 &&
    match Text.stripPrefix? marker k.rest with
    | some rest => endsWord rest
    | none => false

def atDocumentStart (k : Cursor) : Bool := k.atMarker "---".toList

def atDocumentEnd (k : Cursor) : Bool := k.atMarker "...".toList

/-- The rest of a line behind a token may hold blanks and a comment, and nothing else. -/
def skipLineEnd? (k : Cursor) : Option Cursor :=
  let k := k.advanceWhile isBlankChar
  let k := if k.head? = some '#' then k.skipToBreak else k
  if k.atEnd then some k
  else if k.atBreak then some k.takeBreak.2
  else none

end Cursor

end Yaml

end DocsMigration
