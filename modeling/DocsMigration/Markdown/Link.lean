import DocsMigration.Markdown.Url
import DocsMigration.Text.Scan
import DocsMigration.Text.Whitespace
/-! Links between pages. Every page is served as a directory, so a link to a page's source file is
retargeted to a directory URL; a link to anything else stays as it is. -/

namespace DocsMigration

namespace Markdown

structure Link where
  label : Text
  target : Text
deriving DecidableEq, Repr

namespace Link

def isTargetChar (c : Char) : Bool := !(c == ')' || Text.isSpace c)

/-- A link at the front of a text: a label without closing brackets in square brackets, directly
followed by a target in parentheses, which is not empty and has no whitespace. -/
def matcher : Text.Matcher Link
  | '[' :: s =>
    match s.dropWhile (· != ']') with
    | ']' :: '(' :: t =>
      match t.dropWhile isTargetChar with
      | ')' :: rest =>
        let target := t.takeWhile isTargetChar
        if target.isEmpty then none else some (⟨s.takeWhile (· != ']'), target⟩, rest)
      | _ => none
    | _ => none
  | _ => none

def render (l : Link) : Text := '[' :: l.label ++ "](".toList ++ l.target ++ [')']

/-- The directory URL for a link to a page's source file, or nothing if the link stays as it is. The
page that stands for its whole directory is named by the directory; from a page beside it, which is
a directory of its own, that is one level up. -/
def retarget (url : Text) : Option Text :=
  if Text.startsWith url ['#'] || Url.isExternal url then none
  else match Text.stripSuffix? ".md".toList url with
    | none => none
    | some stem =>
      if stem = "index".toList then some "../".toList
      else match Text.stripSuffix? "/index".toList stem with
        | some [] => some "./".toList
        | some dir => some (dir ++ ['/'])
        | none => some (stem ++ ['/'])

def convert (s : Text) : Text :=
  Text.replaceAll matcher
    (fun source l => match retarget l.target with
      | some url => render ⟨l.label, url⟩
      | none => source) s

end Link

end Markdown

end DocsMigration
