import DocsMigration.Text.Basic
/-! Paths as they are written. A path keeps its text, so that it is shown as it was given: doubled
slashes and single dots stay where they are, and count for nothing when its parts are asked for. -/

namespace DocsMigration

abbrev Name := Text

structure Path where
  text : Text
deriving DecidableEq, Repr

namespace Path

def isAbsolute (p : Path) : Bool := p.text.head? == some '/'

/-- The steps that lead along a path, single and double dots among them. -/
def names (p : Path) : List Name := (Text.splitAt '/' p.text).filter (!·.isEmpty)

def currentName : Name := ['.']

def parentName : Name := ['.', '.']

def hasParentStep (p : Path) : Bool := p.names.contains parentName

def endsAsDirectory (p : Path) : Bool :=
  match p.names.getLast? with
  | some last => p.text.getLast? == some '/' || last == currentName || last == parentName
  | none => true

/-- Goes on from a path along another; an absolute one starts anew. -/
def join (p q : Path) : Path :=
  if q.isAbsolute || p.text.isEmpty then q
  else if p.text.getLast? == some '/' then ⟨p.text ++ q.text⟩
  else ⟨p.text ++ '/' :: q.text⟩

/-- Whether a part between slashes counts for nothing behind the first one. -/
def isIdle (part : Text) : Bool := part.isEmpty || part == currentName

/-- The parts between slashes, without those at the end that count for nothing. A slash or a single
dot at the start is kept apart. -/
structure Parts where
  start : Option Text
  rest : List Text
deriving DecidableEq, Repr

def dropIdleEnd (parts : List Text) : List Text := (parts.reverse.dropWhile isIdle).reverse

def parts (p : Path) : Parts :=
  match Text.splitAt '/' p.text with
  | [] => ⟨none, []⟩
  | first :: rest =>
    if p.text.isEmpty then ⟨none, []⟩
    else if isIdle first then ⟨some first, dropIdleEnd rest⟩
    else ⟨none, dropIdleEnd (first :: rest)⟩

/-- The text of parts; a start that is a slash is an empty part. -/
def Parts.toPath (ps : Parts) : Path :=
  match ps.start, ps.rest with
  | some [], [] => ⟨['/']⟩
  | start, rest => ⟨List.intercalate ['/'] (start.toList ++ rest)⟩

/-- The path without its last part; nothing for the empty path and for a slash alone. -/
def parent? (p : Path) : Option Path :=
  let ps := p.parts
  match ps.rest.reverse, ps.start with
  | _ :: before, start => some (Parts.toPath ⟨start, dropIdleEnd before.reverse⟩)
  | [], some (_ :: _) => some ⟨[]⟩
  | [], _ => none

def fileName? (p : Path) : Option Name :=
  p.parts.rest.getLast?.filter (· != parentName)

def ancestorsWithin : Nat → Path → List Path
  | 0, p => [p]
  | count + 1, p =>
    p :: match p.parent? with
      | some q => ancestorsWithin count q
      | none => []

def ancestors (p : Path) : List Path := ancestorsWithin p.text.length p

end Path

namespace Name

def Proper (n : Name) : Prop :=
  n ≠ [] ∧ '/' ∉ n ∧ n ≠ Path.currentName ∧ n ≠ Path.parentName

/-- A name cut at its last dot; a dot at the start cuts nothing off. -/
def splitExtension (n : Name) : Name × Option Text :=
  match Text.splitLast? '.' n with
  | some (stem, extension) => if stem.isEmpty then (n, none) else (stem, some extension)
  | none => (n, none)

def stem (n : Name) : Text := (splitExtension n).1

def extension? (n : Name) : Option Text := (splitExtension n).2

def isHidden (n : Name) : Bool := n.head? == some '.'

end Name

end DocsMigration
