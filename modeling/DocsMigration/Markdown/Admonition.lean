import DocsMigration.Markdown.Block
import DocsMigration.Text.Case
import DocsMigration.Text.Word
/-! Admonitions become shortcodes: a plain one a callout, a collapsible one a details block. The
header line names the kind of admonition and may give a title in quotes; the kind decides how the
callout looks and what a details block without a title is called. -/

namespace DocsMigration

namespace Markdown

inductive Fence where
  /-- Three exclamation marks: always visible. -/
  | plain
  /-- Three question marks: folded until opened. -/
  | collapsible
deriving DecidableEq, Repr

namespace Fence

def mark : Fence → Text
  | .plain => "!!!".toList
  | .collapsible => "???".toList

end Fence

/-- The header of an admonition; `kind` is in lower case and `title` is not empty. -/
structure AdmonitionHeader where
  fence : Fence
  kind : Text
  title : Option Text
deriving DecidableEq, Repr

namespace AdmonitionHeader

def fence? (line : Text) : Option (Fence × Text) :=
  match Text.stripPrefix? Fence.plain.mark line with
  | some rest => some (.plain, rest)
  | none => (Text.stripPrefix? Fence.collapsible.mark line).map fun rest => (.collapsible, rest)

/-- What may follow the kind: nothing or a quoted title, in either case with whitespace around it.
The title of a header without one is empty. -/
def titleText? (rest : Text) : Option Text :=
  match Text.trimStart rest with
  | [] => some []
  | c :: s =>
    if c = '"' ∧ (rest.head?.any Text.isSpace) then
      match Text.splitOnce? '"' s with
      | some (title, after) => if Text.isBlank after then some title else none
      | none => none
    else none

def parse (line : Text) : Option AdmonitionHeader := do
  let (fence, rest) ← fence? line
  guard (rest.head?.any Text.isSpace)
  let word := (Text.trimStart rest).takeWhile Text.isWord
  guard (!word.isEmpty)
  let title ← titleText? ((Text.trimStart rest).dropWhile Text.isWord)
  return ⟨fence, Text.toLower word, if title.isEmpty then none else some title⟩

end AdmonitionHeader

inductive CalloutStyle where
  | neutral
  | info
  | warning
  | error
deriving DecidableEq, Repr

namespace CalloutStyle

def typeName : CalloutStyle → Option Text
  | .neutral => none
  | .info => some "info".toList
  | .warning => some "warning".toList
  | .error => some "error".toList

end CalloutStyle

structure Callout where
  style : CalloutStyle
  defaultTitle : Text
deriving DecidableEq, Repr

namespace Callout

def table : List (Text × Callout) := [
  ("note".toList, ⟨.neutral, "Note".toList⟩),
  ("info".toList, ⟨.info, "Info".toList⟩),
  ("tip".toList, ⟨.info, "Tip".toList⟩),
  ("hint".toList, ⟨.info, "Hint".toList⟩),
  ("warning".toList, ⟨.warning, "Warning".toList⟩),
  ("caution".toList, ⟨.warning, "Caution".toList⟩),
  ("attention".toList, ⟨.warning, "Attention".toList⟩),
  ("danger".toList, ⟨.error, "Danger".toList⟩),
  ("error".toList, ⟨.error, "Error".toList⟩),
  ("bug".toList, ⟨.error, "Bug".toList⟩),
  ("failure".toList, ⟨.error, "Failure".toList⟩),
  ("fail".toList, ⟨.error, "Fail".toList⟩),
  ("success".toList, ⟨.info, "Success".toList⟩),
  ("check".toList, ⟨.info, "Check".toList⟩),
  ("done".toList, ⟨.info, "Done".toList⟩),
  ("question".toList, ⟨.neutral, "Question".toList⟩),
  ("faq".toList, ⟨.neutral, "FAQ".toList⟩),
  ("quote".toList, ⟨.neutral, "Quote".toList⟩),
  ("abstract".toList, ⟨.info, "Abstract".toList⟩),
  ("summary".toList, ⟨.info, "Summary".toList⟩),
  ("example".toList, ⟨.neutral, "Example".toList⟩)]

/-- The callout of a kind, in any letter case. A kind outside the table is neutral and is titled by
its own name. -/
def ofKind (kind : Text) : Callout :=
  let lower := Text.toLower kind
  (table.lookup lower).getD ⟨.neutral, Text.capitalize lower⟩

end Callout

namespace Admonition

def calloutOpener (style : CalloutStyle) : Text :=
  match style.typeName with
  | some value => "\x7b\x7b< callout type=\"".toList ++ value ++ "\" >\x7d\x7d".toList
  | none => "\x7b\x7b< callout >\x7d\x7d".toList

def calloutCloser : Text := "\x7b\x7b< /callout >\x7d\x7d".toList

def detailsOpener (title : Text) : Text :=
  "\x7b\x7b< details \"".toList ++ title ++ "\" >\x7d\x7d".toList

def detailsCloser : Text := "\x7b\x7b< /details >\x7d\x7d".toList

def titleLines : Option Text → List Text
  | some title => ["**".toList ++ title ++ "**".toList, []]
  | none => []

def renderBlock (b : Block AdmonitionHeader) : List Text :=
  let callout := Callout.ofKind b.header.kind
  match b.header.fence with
  | .plain =>
    calloutOpener callout.style :: (titleLines b.header.title ++ b.body ++ [calloutCloser, []])
  | .collapsible =>
    detailsOpener (b.header.title.getD callout.defaultTitle) :: (b.body ++ [detailsCloser, []])

def renderElement : Element AdmonitionHeader → List Text
  | .line l => [l]
  | .block b => renderBlock b

def convertLines (ls : List Text) : List Text :=
  (outline AdmonitionHeader.parse ls).flatMap renderElement

def convert (s : Text) : Text := Text.unlines (convertLines (Text.lines s))

end Admonition

end Markdown

end DocsMigration
