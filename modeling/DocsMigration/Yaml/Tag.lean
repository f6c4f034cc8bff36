import DocsMigration.Yaml.Cursor
import DocsMigration.Yaml.Resolution
/-! Tags and the directives that give their handles a meaning. A tag is a handle and a suffix; the
suffix may hold octets written with a percent sign. -/

namespace DocsMigration

namespace Yaml

/-- A tag as written. A verbatim tag has no handle. -/
structure Tag where
  handle : Text
  suffix : Text
deriving DecidableEq, Repr

namespace Tag

def isUriChar (c : Char) : Bool := isNameChar c || ";/?:@&=+$.!~*'()".toList.contains c

/-- In a verbatim tag and in a directive the signs of flow collections are allowed too. -/
def isVerbatimChar (c : Char) : Bool := isUriChar c || ",[]".toList.contains c

def octet? : Text → Option (Nat × Text)
  | '%' :: a :: b :: s => (Text.naturalOf? 16 [a, b]).map fun n => (n, s)
  | _ => none

/-- The number of octets of a character whose first octet is given, and that octet's own bits. -/
def leadOctet? (n : Nat) : Option (Nat × Nat) :=
  if n < 0x80 then some (1, n)
  else if 0xC0 ≤ n ∧ n < 0xE0 then some (2, n - 0xC0)
  else if 0xE0 ≤ n ∧ n < 0xF0 then some (3, n - 0xE0)
  else if 0xF0 ≤ n ∧ n < 0xF8 then some (4, n - 0xF0)
  else none

def trailOctets? : Nat → Nat → Text → Option (Nat × Text)
  | 0, code, s => some (code, s)
  | count + 1, code, s =>
    match octet? s with
    | some (n, s) =>
      if 0x80 ≤ n ∧ n < 0xC0 then trailOctets? count (64 * code + (n - 0x80)) s else none
    | none => none

def escapedChar? (s : Text) : Option (Char × Text) := do
  let (lead, s) ← octet? s
  let (count, bits) ← leadOctet? lead
  let (code, s) ← trailOctets? (count - 1) bits s
  return (Char.ofNat code, s)

def uri? (allowed : Char → Bool) : Nat → Cursor → Option (Text × Cursor)
  | 0, _ => none
  | fuel + 1, k =>
    match k.rest with
    | '%' :: _ => do
      let (c, rest) ← escapedChar? k.rest
      let (text, next) ← uri? allowed fuel (k.advance (k.rest.length - rest.length))
      return (c :: text, next)
    | c :: _ =>
      if allowed c then do
        let (text, next) ← uri? allowed fuel (k.advance 1)
        return (c :: text, next)
      else some ([], k)
    | [] => some ([], k)

def readUri? (allowed : Char → Bool) (k : Cursor) : Option (Text × Cursor) :=
  uri? allowed (k.rest.length + 1) k

def readHandle? (k : Cursor) : Option (Text × Cursor) :=
  match k.rest with
  | '!' :: s =>
    let name := s.takeWhile isNameChar
    let next := k.advance (1 + name.length)
    if next.head? = some '!' then some ('!' :: name ++ ['!'], next.advance 1)
    else some ('!' :: name, next)
  | _ => none

def readVerbatim? (k : Cursor) : Option (Tag × Cursor) := do
  let (uri, k) ← readUri? isVerbatimChar (k.advance 2)
  guard (!uri.isEmpty && k.head? == some '>')
  return (⟨[], uri⟩, k.advance 1)

/-- Reads a tag with a handle; the characters behind a single exclamation mark are the suffix, and
without any the tag is the exclamation mark itself. -/
def readShorthand? (k : Cursor) : Option (Tag × Cursor) := do
  let (handle, next) ← readHandle? k
  if 1 < handle.length ∧ handle.getLast? = some '!' then
    let (suffix, next) ← readUri? isUriChar next
    guard (!suffix.isEmpty)
    return (⟨handle, suffix⟩, next)
  else
    let (more, next) ← readUri? isUriChar next
    let suffix := handle.drop 1 ++ more
    return (if suffix.isEmpty then ⟨[], ['!']⟩ else ⟨['!'], suffix⟩, next)

/-- Reads the tag at the cursor, which a blank, a line break or, in a flow collection, a comma has
to follow. -/
def read? (flow : Bool) (k : Cursor) : Option (Tag × Cursor) := do
  let (tag, k) ←
    if (k.rest.drop 1).head? = some '<' then readVerbatim? k else readShorthand? k
  guard (endsWord k.rest || (flow && k.head? == some ','))
  return (tag, k)

end Tag

inductive Directive where
  | version (major minor : Nat)
  | tag (handle : Text) (leading : Text)
deriving DecidableEq, Repr

namespace Directive

def number? (k : Cursor) : Option (Nat × Cursor) :=
  let digits := k.rest.takeWhile Char.isDigit
  if 9 < digits.length then none
  else (Text.naturalOf? 10 digits).map fun n => (n, k.advance digits.length)

def version? (k : Cursor) : Option (Directive × Cursor) := do
  let (major, k) ← number? (k.advanceWhile isBlankChar)
  guard (k.head? == some '.')
  let (minor, k) ← number? (k.advance 1)
  return (.version major minor, k)

def tag? (k : Cursor) : Option (Directive × Cursor) := do
  let (handle, k) ← Tag.readHandle? (k.advanceWhile isBlankChar)
  guard (handle == ['!'] || handle.getLast? == some '!')
  guard k.atBlank
  let (leading, k) ← Tag.readUri? Tag.isVerbatimChar (k.advanceWhile isBlankChar)
  guard (!leading.isEmpty && endsWord k.rest)
  return (.tag handle leading, k)

def read? (k : Cursor) : Option (Directive × Cursor) := do
  let k := k.advance 1
  let name := k.rest.takeWhile isNameChar
  let k := k.advance name.length
  guard (!name.isEmpty && endsWord k.rest)
  let (directive, k) ←
    if name = "YAML".toList then version? k
    else if name = "TAG".toList then tag? k
    else none
  let k ← k.skipLineEnd?
  return (directive, k)

end Directive

end Yaml

end DocsMigration
