import DocsMigration.Yaml.Scalar
import DocsMigration.Yaml.Tag
/-! The tokens of a YAML text. Indentation shows in them as the start and end of blocks. A key is
recognised only when its colon is met, and then its token is put in front of the tokens that came
since: so the reader remembers, for each level of flow collections, where a key may have started. -/

namespace DocsMigration

namespace Yaml

inductive Token where
  | directive (d : Directive)
  | documentStart
  | documentEnd
  | blockSequenceStart
  | blockMappingStart
  | blockEnd
  | flowSequenceStart
  | flowSequenceEnd
  | flowMappingStart
  | flowMappingEnd
  | blockEntry
  | flowEntry
  | key
  | value
  | alias (name : Text)
  | anchor (name : Text)
  | tag (t : Tag)
  | scalar (plain : Bool) (text : Text)
deriving DecidableEq, Repr

/-- A place where a key may have started: the number of tokens before it, and where it is. A required
one has to become a key. -/
structure PossibleKey where
  required : Bool
  tokensBefore : Nat
  index : Nat
  line : Nat
  column : Nat
deriving Repr

/-- The state of the reader: the tokens come last first, the innermost block and flow level come
first, and `keys` has one place for each flow level and one for the blocks. -/
structure Reader where
  cursor : Cursor
  tokens : List Token
  indent : Int
  outerIndents : List Int
  keys : List (Option PossibleKey)
  keyAllowed : Bool
deriving Repr

namespace Reader

def start (s : Text) : Reader := ⟨Cursor.start s, [], -1, [], [none], true⟩

def inFlow (r : Reader) : Bool := 1 < r.keys.length

def emit (t : Token) (r : Reader) : Reader := { r with tokens := t :: r.tokens }

def insertToken (before : Nat) (t : Token) (r : Reader) : Reader :=
  let since := r.tokens.length - before
  { r with tokens := r.tokens.take since ++ t :: r.tokens.drop since }

def advance (n : Nat) (r : Reader) : Reader := { r with cursor := r.cursor.advance n }

def allowKey (allowed : Bool) (r : Reader) : Reader := { r with keyAllowed := allowed }

/-- Opens a block at a column further in than the current one; its token goes behind the first
`before` tokens. -/
def openBlock (column before : Nat) (t : Token) (r : Reader) : Reader :=
  if !r.inFlow && r.indent < column then
    insertToken before t { r with indent := column, outerIndents := r.indent :: r.outerIndents }
  else r

def closeBlocksFrom (column : Int) : List Int → Reader → Reader
  | outer :: rest, r =>
    if column < r.indent then
      closeBlocksFrom column rest (emit .blockEnd { r with indent := outer, outerIndents := rest })
    else r
  | [], r => r

def closeBlocks (column : Int) (r : Reader) : Reader :=
  if r.inFlow then r else closeBlocksFrom column r.outerIndents r

/-- Gives up the possible key of the current level, unless it has to be one. -/
def dropKey? (r : Reader) : Option Reader :=
  match r.keys with
  | some key :: rest => if key.required then none else some { r with keys := none :: rest }
  | _ => some r

def saveKey? (r : Reader) : Option Reader :=
  if r.keyAllowed then do
    let r ← r.dropKey?
    let k := r.cursor
    let key : PossibleKey :=
      ⟨!r.inFlow && r.indent == (k.column : Int), r.tokens.length, k.index, k.line, k.column⟩
    return { r with keys := some key :: r.keys.drop 1 }
  else some r

/-- A key does not go over a line break, and is at most 1024 characters long. -/
def isStale (k : Cursor) (key : PossibleKey) : Bool :=
  key.line < k.line || key.index + 1024 < k.index

def dropStaleKeys? (r : Reader) : Option Reader := do
  let keys ← r.keys.mapM fun key => match key with
    | some p => if isStale r.cursor p then if p.required then none else some none else some (some p)
    | none => some none
  return { r with keys := keys }

/-- Goes to the next token, over blanks, comments and line breaks. Where a key is allowed in a block
a tab is no blank; a line break allows a key again. -/
def skipToToken : Nat → Reader → Reader
  | 0, r => r
  | fuel + 1, r =>
    let k := r.cursor
    let k := if k.index == 0 && k.head? == some '\ufeff' then k.advance 1 else k
    let tabs := r.inFlow || !r.keyAllowed
    let k := k.advanceWhile fun c => c == ' ' || (tabs && c == '\t')
    let k := if k.head? == some '#' then k.skipToBreak else k
    if k.atBreak then
      skipToToken fuel
        { r with cursor := k.takeBreak.2, keyAllowed := !r.inFlow || r.keyAllowed }
    else { r with cursor := k }

/-- Ends all blocks, as a directive, a document marker and the end of the text do. -/
def endBlocks? (r : Reader) : Option Reader := do
  let r ← (r.closeBlocks (-1)).dropKey?
  return r.allowKey false

def directive? (r : Reader) : Option Reader := do
  let r ← r.endBlocks?
  let (d, k) ← Directive.read? r.cursor
  return emit (.directive d) { r with cursor := k }

def documentMarker? (t : Token) (r : Reader) : Option Reader := do
  let r ← r.endBlocks?
  return (r.advance 3).emit t

def flowStart? (t : Token) (r : Reader) : Option Reader := do
  let r ← r.saveKey?
  return (({ r with keys := none :: r.keys }.allowKey true).advance 1).emit t

def flowEnd? (t : Token) (r : Reader) : Option Reader := do
  let r ← r.dropKey?
  let r := if r.inFlow then { r with keys := r.keys.drop 1 } else r
  return ((r.allowKey false).advance 1).emit t

def flowEntry? (r : Reader) : Option Reader := do
  let r ← r.dropKey?
  return ((r.allowKey true).advance 1).emit .flowEntry

def blockEntry? (r : Reader) : Option Reader := do
  guard (r.inFlow || r.keyAllowed)
  let r := r.openBlock r.cursor.column r.tokens.length .blockSequenceStart
  let r ← r.dropKey?
  return ((r.allowKey true).advance 1).emit .blockEntry

def key? (r : Reader) : Option Reader := do
  guard (r.inFlow || r.keyAllowed)
  let r := r.openBlock r.cursor.column r.tokens.length .blockMappingStart
  let r ← r.dropKey?
  return ((r.allowKey (!r.inFlow)).advance 1).emit .key

def value? (r : Reader) : Option Reader :=
  match r.keys with
  | some key :: rest =>
    let r := r.insertToken key.tokensBefore .key
    let r := r.openBlock key.column key.tokensBefore .blockMappingStart
    some ((({ r with keys := none :: rest }.allowKey false).advance 1).emit .value)
  | _ => do
    guard (r.inFlow || r.keyAllowed)
    let r := r.openBlock r.cursor.column r.tokens.length .blockMappingStart
    return ((r.allowKey (!r.inFlow)).advance 1).emit .value

def endsName (s : Text) : Bool :=
  endsWord s || s.head?.any ("?:,]\x7d%@\x60".toList.contains ·)

def named? (make : Text → Token) (r : Reader) : Option Reader := do
  let r ← r.saveKey?
  let k := r.cursor.advance 1
  let name := k.rest.takeWhile isNameChar
  let k := k.advance name.length
  guard (!name.isEmpty && endsName k.rest)
  return emit (make name) { r with cursor := k, keyAllowed := false }

def tag? (r : Reader) : Option Reader := do
  let r ← r.saveKey?
  let (t, k) ← Tag.read? r.inFlow r.cursor
  return emit (.tag t) { r with cursor := k, keyAllowed := false }

def blockScalar? (literal : Bool) (r : Reader) : Option Reader := do
  let r ← r.dropKey?
  let (text, k) ← BlockScalar.read literal r.indent r.cursor
  return emit (.scalar false text) { r with cursor := k, keyAllowed := true }

def quotedScalar? (single : Bool) (r : Reader) : Option Reader := do
  let r ← r.saveKey?
  let (text, k) ← QuotedScalar.read single r.cursor
  return emit (.scalar false text) { r with cursor := k, keyAllowed := false }

def plainScalar? (r : Reader) : Option Reader := do
  let r ← r.saveKey?
  let (text, broken, k) ← PlainScalar.read r.inFlow (r.indent + 1).toNat r.cursor
  return emit (.scalar true text) { r with cursor := k, keyAllowed := broken }

def startsPlain (flow : Bool) (c : Char) (s : Text) : Bool :=
  !("-?:,[]\x7b\x7d#&*!|>'\"%@\x60".toList.contains c || isBlankChar c || isBreakChar c) ||
    (c == '-' && !s.head?.any isBlankChar) ||
    (!flow && (c == '?' || c == ':') && !endsWord s)

def token? (r : Reader) : Option Reader :=
  let k := r.cursor
  if k.column == 0 && k.head? == some '%' then r.directive?
  else if k.atDocumentStart then r.documentMarker? .documentStart
  else if k.atDocumentEnd then r.documentMarker? .documentEnd
  else match k.rest with
    | [] => none
    | c :: s =>
      match c with
      | '[' => r.flowStart? .flowSequenceStart
      | '\x7b' => r.flowStart? .flowMappingStart
      | ']' => r.flowEnd? .flowSequenceEnd
      | '\x7d' => r.flowEnd? .flowMappingEnd
      | ',' => r.flowEntry?
      | '*' => r.named? .alias
      | '&' => r.named? .anchor
      | '!' => r.tag?
      | '\'' => r.quotedScalar? true
      | '"' => r.quotedScalar? false
      | _ =>
        if c == '-' && endsWord s then r.blockEntry?
        else if c == '?' && (r.inFlow || endsWord s) then r.key?
        else if c == ':' && (r.inFlow || endsWord s) then r.value?
        else if (c == '|' || c == '>') && !r.inFlow then r.blockScalar? (c == '|')
        else if startsPlain r.inFlow c s then r.plainScalar?
        else none

def finish? (r : Reader) : Option (List Token) := do
  let r ← r.endBlocks?
  return r.tokens.reverse

def readAll? : Nat → Reader → Option (List Token)
  | 0, _ => none
  | fuel + 1, r => do
    let r ← (skipToToken (r.cursor.rest.length + 1) r).dropStaleKeys?
    let r := r.closeBlocks r.cursor.column
    if r.cursor.atEnd then r.finish? else readAll? fuel (← r.token?)

end Reader

def isAllowedChar (c : Char) : Bool :=
  let n := c.toNat
  n == 0x09 || n == 0x0A || n == 0x0D || (0x20 ≤ n && n ≤ 0x7E) || n == 0x85 ||
    (0xA0 ≤ n && n ≤ 0xFFFD) || 0x10000 ≤ n

/-- The tokens of a text, or nothing if it is no YAML. A byte order mark in front is dropped. -/
def tokens? (s : Text) : Option (List Token) :=
  let s := if s.head? = some '\ufeff' then s.drop 1 else s
  if s.all isAllowedChar then Reader.readAll? (s.length + 2) (Reader.start s) else none

end Yaml

end DocsMigration
