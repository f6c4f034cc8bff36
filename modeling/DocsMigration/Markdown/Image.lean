import DocsMigration.Markdown.Url
import DocsMigration.Markdown.Link
import DocsMigration.Text.Word
/-! Image references. Static files are served from the root of the site, so a reference that is
relative to a page is rooted there, in images of the page's own notation and in image tags. -/

namespace DocsMigration

namespace Markdown

namespace Image

def dropParents : Text → Text
  | '.' :: '.' :: '/' :: s => dropParents s
  | s => s

/-- The rooted path of an image, or nothing for a path that is rooted or leads out of the site. -/
def normalize (path : Text) : Option Text :=
  if Text.startsWith path ['/'] || Url.isExternal path then none
  else some ('/' :: dropParents path)

def matcher : Text.Matcher Link
  | '!' :: s => Link.matcher s
  | _ => none

def convertInline (s : Text) : Text :=
  Text.replaceAll matcher
    (fun source l => match normalize l.target with
      | some path => '!' :: Link.render ⟨l.label, path⟩
      | none => source) s

end Image

/-- The part of an image tag up to the end of its source: the text before the value of the source
attribute, the value, and its closing quote. -/
structure ImageTag where
  before : Text
  source : Text
  quote : Char
deriving DecidableEq, Repr

namespace ImageTag

/-- Whether a character is one of the letters, whatever its case; the long s is an s as well. -/
def isLetter (letters : List Char) (c : Char) : Bool := letters.contains c

def stripLetters? : List (List Char) → Text → Option Text
  | [], s => some s
  | set :: sets, c :: s => if isLetter set c then stripLetters? sets s else none
  | _ :: _, [] => none

def tagName : List (List Char) := [['i', 'I'], ['m', 'M'], ['g', 'G']]

def attributeName : List (List Char) := [['s', 'S', 'ſ'], ['r', 'R'], ['c', 'C']]

def quotedValue? (quote : Char) (s : Text) : Option (Text × Text) :=
  let value := s.takeWhile (· != quote)
  if value.isEmpty || (s.dropWhile (· != quote)).isEmpty then none
  else some (value, s.dropWhile (· != quote))

/-- The source attribute at the front of a text: a whitespace character, the name, an equals sign
with whitespace around it, and the quoted value. Gives the text from the opening quote's successor
on, with the quote. -/
def valueStart? (s : Text) : Option (Char × Text) :=
  match s with
  | c :: t =>
    if Text.isSpace c then
      match stripLetters? attributeName t with
      | some u =>
        match Text.trimStart u with
        | '=' :: v =>
          match Text.trimStart v with
          | '"' :: w => some ('"', w)
          | '\'' :: w => some ('\'', w)
          | _ => none
        | _ => none
      | none => none
    else none
  | [] => none

def attribute? (s : Text) : Option (ImageTag × Text) :=
  match valueStart? s with
  | some (quote, t) =>
    match quotedValue? quote t with
    | some (value, rest) =>
      some (⟨s.take (s.length - t.length), value, quote⟩, rest.drop 1)
    | none => none
  | none => none

def findAttribute? : Text → Option (ImageTag × Text)
  | [] => none
  | c :: s =>
    match attribute? (c :: s) with
    | some found => some found
    | none =>
      if c = '>' then none
      else (findAttribute? s).map fun (tag, rest) => ({ tag with before := c :: tag.before }, rest)

def matcher : Text.Matcher ImageTag
  | '<' :: s =>
    match stripLetters? tagName s with
    | some t =>
      if t.head?.any Text.isWord then none
      else (findAttribute? t).map fun (tag, rest) =>
        ({ tag with before := '<' :: s.take 3 ++ tag.before }, rest)
    | none => none
  | _ => none

def convert (s : Text) : Text :=
  Text.replaceAll matcher
    (fun source tag => match Image.normalize tag.source with
      | some path => tag.before ++ path ++ [tag.quote]
      | none => source) s

end ImageTag

namespace Image

/-- Roots the paths of all images of a text, then the sources of all image tags. -/
def convert (s : Text) : Text := ImageTag.convert (convertInline s)

end Image

end Markdown

end DocsMigration
