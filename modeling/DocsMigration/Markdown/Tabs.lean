import DocsMigration.Markdown.Block
/-! Content tabs become a tabs shortcode. Tabs that follow one another without another line between
them form one group; a tab header is recognised before a line is looked at as a member, so it ends
the body of the tab before it. -/

namespace DocsMigration

namespace Markdown

structure Tab where
  label : Text
  body : List Text
deriving DecidableEq, Repr

namespace Tabs

/-- The label of a tab header: three equals signs, a space and a quoted text that is not empty.
What follows the closing quote does not matter. -/
def label? (line : Text) : Option Text :=
  match Text.stripPrefix? "=== \"".toList line with
  | some rest =>
    match Text.splitOnce? '"' rest with
    | some (label, _) => if label.isEmpty then none else some label
    | none => none
  | none => none

def tabOf (b : Block Text) : Tab := ⟨b.header, b.body⟩

def opener : Text := "\x7b\x7b< tabs >\x7d\x7d".toList

def closer : Text := "\x7b\x7b< /tabs >\x7d\x7d".toList

def tabOpener (label : Text) : Text := "\x7b\x7b< tab \"".toList ++ label ++ "\" >\x7d\x7d".toList

def tabCloser : Text := "\x7b\x7b< /tab >\x7d\x7d".toList

def renderTab (t : Tab) : List Text := tabOpener t.label :: (t.body ++ [tabCloser])

/-- Renders an outline; `inGroup` says whether a group of tabs is open. A group is closed before the
first line behind it, and an empty line follows it. -/
def render (inGroup : Bool) : List (Element Text) → List Text
  | [] => if inGroup then [closer, []] else []
  | .line l :: rest => (if inGroup then [closer, []] else []) ++ l :: render false rest
  | .block b :: rest =>
    (if inGroup then [] else [opener]) ++ renderTab (tabOf b) ++ render true rest

def convertLines (ls : List Text) : List Text := render false (outline label? ls)

def convert (s : Text) : Text := Text.unlines (convertLines (Text.lines s))

def leadingBlocks : List (Element Text) → List (Block Text)
  | .block b :: rest => b :: leadingBlocks rest
  | _ => []

structure Group where
  tabs : List Tab
  next : Nat
deriving DecidableEq, Repr

/-- The group of tabs at a line; it has no tab if the line is no tab header. -/
def groupAt (ls : List Text) (start : Nat) : Group :=
  let blocks := leadingBlocks (outline label? (ls.drop start))
  ⟨blocks.map tabOf, blocks.foldl (fun next b => next + b.span) start⟩

end Tabs

end Markdown

end DocsMigration
