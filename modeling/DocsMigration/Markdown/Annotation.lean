import DocsMigration.Text.Scan
import DocsMigration.Text.Whitespace
/-! Inline annotations without a counterpart on the new site: attribute lists that style a link as a
button, and icon shortcodes. Both are removed. -/

namespace DocsMigration

namespace Markdown

namespace ButtonAttributes

/-- A button's attribute list at the front of a text, with the whitespace before it. -/
def matcher : Text.Matcher Unit := fun s =>
  match Text.trimStart s with
  | '{' :: t =>
    match Text.stripPrefix? ".md-button".toList (Text.trimStart t) with
    | some u =>
      match u.dropWhile (· != '}') with
      | '}' :: rest => some ((), rest)
      | _ => none
    | none => none
  | _ => none

def strip (s : Text) : Text := Text.replaceAll matcher (fun _ _ => []) s

end ButtonAttributes

namespace Icon

def isNameChar (c : Char) : Bool := ('a' ≤ c && c ≤ 'z') || c.isDigit || c == '-'

/-- What can stand between the colon and the name of an icon. -/
def families : List Text := ["material-".toList, "fontawesome-".toList]

/-- The text behind an icon shortcode, if the text starts with one: a colon, the family, a name and
a colon. -/
def after? (s : Text) : Option Text :=
  match s with
  | ':' :: t =>
    match families.findSome? (Text.stripPrefix? · t) with
    | some u =>
      match u.dropWhile isNameChar with
      | ':' :: rest => if (u.takeWhile isNameChar).isEmpty then none else some rest
      | _ => none
    | none => none
  | _ => none

def matcher : Text.Matcher Unit := fun s => (after? s).map fun rest => ((), rest)

/-- A bracketed label that an icon leads, at the front of a text; the value is the label without the
icon and the whitespace behind it. A label of nothing but whitespace keeps its last character. -/
def labelMatcher : Text.Matcher Text
  | '[' :: s =>
    match after? s with
    | some t =>
      match (Text.trimStart t).dropWhile (· != ']') with
      | ']' :: rest =>
        let label := (Text.trimStart t).takeWhile (· != ']')
        if !label.isEmpty then some (label, rest)
        else (t.takeWhile Text.isSpace).getLast?.map fun c => ([c], rest)
      | _ => none
    | none => none
  | _ => none

/-- Removes the icons that lead a bracketed label, then all others. -/
def strip (s : Text) : Text :=
  Text.replaceAll matcher (fun _ _ => [])
    (Text.replaceAll labelMatcher (fun _ label => '[' :: label ++ [']']) s)

end Icon

end Markdown

end DocsMigration
