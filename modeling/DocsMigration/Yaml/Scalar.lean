import DocsMigration.Yaml.Cursor
import DocsMigration.Yaml.Resolution
/-! The five notations of a scalar: without quotes, in single or double quotes, and as a literal or
folded block. Within the first three a line break is folded: it becomes a space, or, if empty lines
follow it, the breaks of those lines alone. -/

namespace DocsMigration

namespace Yaml

/-- The whitespace between two parts of a scalar: blanks, or line breaks if a line was broken. -/
structure Gap where
  blanks : Text
  firstBreak : Text
  laterBreaks : Text
  broken : Bool
deriving Repr

namespace Gap

def none : Gap := ⟨[], [], [], false⟩

def escaped : Gap := ⟨[], [], [], true⟩

def folded (g : Gap) : Text :=
  if !g.broken then g.blanks
  else if g.firstBreak.head? = some '\n' then
    if g.laterBreaks.isEmpty then [' '] else g.laterBreaks
  else g.firstBreak ++ g.laterBreaks

/-- Reads blanks and line breaks; behind a break no tab may stand left of `margin`. -/
def read (margin : Nat) : Nat → Gap → Cursor → Option (Gap × Cursor)
  | 0, _, _ => Option.none
  | fuel + 1, g, k =>
    if k.atBlank then
      if g.broken && k.column < margin && k.head? == some '\t' then Option.none
      else
        let g := if g.broken then g else { g with blanks := g.blanks ++ k.rest.take 1 }
        read margin fuel g (k.advance 1)
    else if k.atBreak then
      let (br, next) := k.takeBreak
      let g := if g.broken then { g with laterBreaks := g.laterBreaks ++ br }
        else ⟨[], br, g.laterBreaks, true⟩
      read margin fuel g next
    else some (g, k)

end Gap

namespace PlainScalar

/-- The characters up to a blank, a line break, or an indicator that ends the scalar. Inside a flow
collection a colon in front of a flow indicator is refused. -/
def word? (flow : Bool) : Text → Option Text
  | [] => some []
  | c :: s =>
    if isBlankChar c || isBreakChar c then some []
    else if flow && c == ':' && s.head?.any (",?[]\x7b\x7d".toList.contains ·) then none
    else if c == ':' && endsWord s then some []
    else if flow && ",[]\x7b\x7d".toList.contains c then some []
    else (word? flow s).map (c :: ·)

/-- Reads words and the gaps between them; the scalar ends at a comment, a document marker, an
indicator, or a line that is indented less than `margin`. Tells whether it ended behind a break. -/
def readFrom (flow : Bool) (margin : Nat) : Nat → Text → Gap → Cursor → Option (Text × Bool × Cursor)
  | 0, _, _, _ => none
  | fuel + 1, text, gap, k =>
    if k.atDocumentStart || k.atDocumentEnd || k.head? == some '#' then some (text, gap.broken, k)
    else do
      let word ← word? flow k.rest
      let k := k.advance word.length
      let text := if word.isEmpty then text else text ++ gap.folded ++ word
      let gap := if word.isEmpty then gap else Gap.none
      if !(k.atBlank || k.atBreak) then return (text, gap.broken, k)
      let (gap, k) ← Gap.read margin (k.rest.length + 1) gap k
      if !flow && k.column < margin then return (text, gap.broken, k)
      readFrom flow margin fuel text gap k

def read (flow : Bool) (margin : Nat) (k : Cursor) : Option (Text × Bool × Cursor) :=
  readFrom flow margin (k.rest.length + 1) [] Gap.none k

end PlainScalar

namespace QuotedScalar

def escapes : List (Char × Char) := [
  ('0', '\x00'), ('a', '\x07'), ('b', '\x08'), ('t', '\t'), ('\t', '\t'), ('n', '\n'),
  ('v', '\x0b'), ('f', '\x0c'), ('r', '\r'), ('e', '\x1b'), (' ', ' '), ('"', '"'), ('/', '/'),
  ('\\', '\\'), ('N', '\u0085'), ('_', '\u00a0'), ('L', '\u2028'), ('P', '\u2029')]

def codeLengths : List (Char × Nat) := [('x', 2), ('u', 4), ('U', 8)]

def escape? : Text → Option (Char × Nat)
  | [] => none
  | c :: s =>
    match escapes.lookup c with
    | some d => some (d, 1)
    | none => match codeLengths.lookup c with
      | some count => (Text.charOfCode? (s.take count) count).map fun d => (d, count + 1)
      | none => none

/-- Reads up to a blank, a line break or the closing quote; in double quotes also up to a line break
behind a backslash. The characters read so far are kept backwards, and the flag tells of an escaped
break. -/
def word? (single : Bool) : Nat → Text → Cursor → Option (Text × Bool × Cursor)
  | 0, _, _ => none
  | fuel + 1, read, k =>
    if endsWord k.rest then some (read.reverse, false, k)
    else match single, k.rest with
      | true, '\'' :: '\'' :: _ => word? single fuel ('\'' :: read) (k.advance 2)
      | true, '\'' :: _ => some (read.reverse, false, k)
      | false, '"' :: _ => some (read.reverse, false, k)
      | false, '\\' :: s =>
        if s.head?.any isBreakChar then some (read.reverse, true, (k.advance 1).takeBreak.2)
        else match escape? s with
          | some (c, width) => word? single fuel (c :: read) (k.advance (width + 1))
          | none => none
      | _, c :: _ => word? single fuel (c :: read) (k.advance 1)
      | _, [] => some (read.reverse, false, k)

def readFrom (single : Bool) : Nat → Text → Cursor → Option (Text × Cursor)
  | 0, _, _ => none
  | fuel + 1, text, k =>
    if k.atDocumentStart || k.atDocumentEnd || k.atEnd then none
    else do
      let (word, brokenOff, k) ← word? single (k.rest.length + 1) [] k
      let text := text ++ word
      if k.head? == some (if single then '\'' else '"') then
        return (text, k.advance 1)
      let (gap, k) ← Gap.read 0 (k.rest.length + 1) (if brokenOff then Gap.escaped else Gap.none) k
      readFrom single fuel (text ++ gap.folded) k

def read (single : Bool) (k : Cursor) : Option (Text × Cursor) :=
  readFrom single (k.rest.length + 1) [] (k.advance 1)

end QuotedScalar

namespace BlockScalar

inductive Chomping where
  | strip
  | clip
  | keep
deriving DecidableEq, Repr

structure Header where
  chomping : Chomping
  /-- The indentation relative to the surrounding block, if it is given. -/
  increment : Option Nat
deriving Repr

def chomping? : Option Char → Option Chomping
  | some '+' => some .keep
  | some '-' => some .strip
  | _ => none

def header? (k : Cursor) : Option (Header × Cursor) :=
  let digit? (k : Cursor) : Option (Option Nat × Cursor) :=
    match k.head? with
    | some c =>
      if c == '0' then none
      else if c.isDigit then some (some (c.toNat - '0'.toNat), k.advance 1)
      else some (none, k)
    | none => some (none, k)
  match chomping? k.head? with
  | some ch => (digit? (k.advance 1)).map fun (increment, k) => (⟨ch, increment⟩, k)
  | none =>
    match digit? k with
    | none => none
    | some (none, k) => some (⟨.clip, none⟩, k)
    | some (increment, k) =>
      match chomping? k.head? with
      | some ch => some (⟨ch, increment⟩, k.advance 1)
      | none => some (⟨.clip, increment⟩, k)

/-- Reads the indentation and the empty lines in front of a line of the block. While the
indentation is unknown, which zero says, it is the widest seen, and at least `least`. -/
def readBreaks (least : Nat) : Nat → Nat → Nat → Text → Cursor → Option (Nat × Text × Cursor)
  | 0, _, _, _, _ => none
  | fuel + 1, indent, widest, breaks, k =>
    let spaces := (k.rest.takeWhile (· = ' ')).length
    let k := k.advance (if indent = 0 then spaces else min spaces (indent - k.column))
    let widest := max widest k.column
    if (indent = 0 || k.column < indent) && k.head? == some '\t' then none
    else if k.atBreak then
      let (br, k) := k.takeBreak
      readBreaks least fuel indent widest (breaks ++ br) k
    else some (if indent = 0 then max widest least else indent, breaks, k)

/-- The lines read so far, with the break behind the last of them and the breaks of the empty lines
after it. -/
structure Lines where
  text : Text
  lastBreak : Text
  emptyBreaks : Text
  leadingBlank : Bool

/-- Joins the next line: in a folded block the break between two lines that do not start with a
blank becomes a space, unless empty lines follow it. -/
def Lines.join (literal : Bool) (l : Lines) (startsBlank : Bool) (line : Text) : Text :=
  let between :=
    if !literal && l.lastBreak.head? == some '\n' && !l.leadingBlank && !startsBlank then
      if l.emptyBreaks.isEmpty then [' '] else []
    else l.lastBreak
  l.text ++ between ++ l.emptyBreaks ++ line

def readLines (literal : Bool) (indent : Nat) : Nat → Lines → Cursor → Option (Lines × Cursor)
  | 0, _, _ => none
  | fuel + 1, l, k =>
    if k.column == indent && !k.atEnd then do
      let startsBlank := k.atBlank
      let line := k.rest.takeWhile (!isBreakChar ·)
      let text := l.join literal startsBlank line
      let (lastBreak, k) := (k.advance line.length).takeBreak
      let (_, emptyBreaks, k) ← readBreaks 0 (k.rest.length + 1) indent 0 [] k
      readLines literal indent fuel ⟨text, lastBreak, emptyBreaks, startsBlank⟩ k
    else some (l, k)

def read (literal : Bool) (outer : Int) (k : Cursor) : Option (Text × Cursor) := do
  let (header, k) ← header? (k.advance 1)
  let k ← k.skipLineEnd?
  let given := match header.increment with
    | some n => (max outer 0).toNat + n
    | none => 0
  let least := max 1 (outer + 1).toNat
  let (indent, breaks, k) ← readBreaks least (k.rest.length + 1) given 0 [] k
  let (l, k) ← readLines literal indent (k.rest.length + 1) ⟨[], [], breaks, false⟩ k
  return (match header.chomping with
    | .strip => l.text
    | .clip => l.text ++ l.lastBreak
    | .keep => l.text ++ l.lastBreak ++ l.emptyBreaks, k)

end BlockScalar

end Yaml

end DocsMigration
