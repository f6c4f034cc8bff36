import DocsMigration.Text.Whitespace
/-! An indented block is a header line with the lines that belong to it: the longest run of lines
after the header that are empty, indented by one level, or led by a tab. The outline of a page tells
its blocks from its other lines, and a pass over the page is a rendering of its outline. -/

namespace DocsMigration

namespace Markdown

def blockIndent : Nat := 4

/-- A line without its indentation, or nothing if the line is no member of a block: a line with
enough spaces loses exactly `indent` of them, a line led by a tab loses all its leading tabs. -/
def stripIndent (indent : Nat) (line : Text) : Option Text :=
  if line.isEmpty then some []
  else if indent ≤ (line.takeWhile (· = ' ')).length then some (line.drop indent)
  else if line.head? = some '\t' then some (line.dropWhile (· = '\t'))
  else none

def memberRun (indent : Nat) : List Text → List Text
  | [] => []
  | line :: rest =>
    match stripIndent indent line with
    | some stripped => stripped :: memberRun indent rest
    | none => []

def dropBlankEnd (ls : List Text) : List Text :=
  (ls.reverse.dropWhile Text.isBlank).reverse

/-- The body of a block, and the index of the first line behind it. -/
structure IndentedBody where
  lines : List Text
  next : Nat
deriving DecidableEq, Repr

/-- The body that starts at the line with index `start`. -/
def indentedBody (ls : List Text) (start indent : Nat) : IndentedBody :=
  let run := memberRun indent (ls.drop start)
  ⟨dropBlankEnd run, start + run.length⟩

/-- A block with a header of type `η`; `members` are its de-indented lines. -/
structure Block (η : Type) where
  header : η
  members : List Text
deriving DecidableEq, Repr

namespace Block

def body {η : Type} (b : Block η) : List Text := dropBlankEnd b.members

def span {η : Type} (b : Block η) : Nat := b.members.length + 1

end Block

inductive Element (η : Type) where
  | line (l : Text)
  | block (b : Block η)
deriving DecidableEq, Repr

namespace Element

def block? {η : Type} : Element η → Option (Block η)
  | .line _ => none
  | .block b => some b

end Element

/-- The outline of the lines behind the first `skip`, which belong to a block already taken. -/
def outlineFrom {η : Type} (header? : Text → Option η) : Nat → List Text → List (Element η)
  | _, [] => []
  | skip + 1, _ :: rest => outlineFrom header? skip rest
  | 0, line :: rest =>
    match header? line with
    | none => .line line :: outlineFrom header? 0 rest
    | some h =>
      let run := memberRun blockIndent rest
      .block ⟨h, run⟩ :: outlineFrom header? run.length rest

def outline {η : Type} (header? : Text → Option η) (ls : List Text) : List (Element η) :=
  outlineFrom header? 0 ls

end Markdown

end DocsMigration
