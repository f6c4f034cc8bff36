import DocsMigration.Text.Whitespace
import DocsMigration.Yaml.Document
import DocsMigration.Yaml.Layout
/-! Front matter is the metadata at the top of a page: YAML between two delimiter lines. Merging puts
the title and weight of a page into it and keeps whatever the author wrote: a title is added only if
there is none, and the weight is always set. -/

namespace DocsMigration

namespace Markdown

namespace FrontMatter

def delimiter : Text := "---".toList

def isDelimiter (line : Text) : Bool := Text.trimEnd line == delimiter

/-- The lines before the first delimiter and the lines behind it. -/
def cut? : List Text → Option (List Text × List Text)
  | [] => none
  | line :: rest =>
    if isDelimiter line then some ([], rest)
    else (cut? rest).map fun (before, after) => (line :: before, after)

structure Split where
  yaml : Option Text
  body : Text
deriving DecidableEq, Repr

/-- Cuts a page. It has front matter if its first line is a delimiter and some later line is one;
any other page is all body. -/
def split (s : Text) : Split :=
  match Text.fullLines s with
  | [] => ⟨none, s⟩
  | first :: rest =>
    if isDelimiter first then
      match cut? rest with
      | some (yaml, body) => ⟨some yaml.flatten, body.flatten⟩
      | none => ⟨none, s⟩
    else ⟨none, s⟩

inductive Warning where
  | notMapping (kind : Yaml.Kind)
  | malformed
deriving DecidableEq, Repr

namespace Warning

def message : Warning → Text
  | .notMapping _ => "Front matter is not a mapping, replacing it".toList
  | .malformed => "Failed to parse front matter, replacing it".toList

end Warning

structure Reading where
  metadata : Yaml.Mapping
  warning : Option Warning

/-- Reads metadata. What is not a mapping counts as none, and all but a blank or null text is warned
about. -/
def read (yaml : Text) : Reading :=
  if Text.isBlank yaml then ⟨[], none⟩
  else match Yaml.parse? yaml with
    | some (.mapping m) => ⟨m, none⟩
    | some .null => ⟨[], none⟩
    | some v => ⟨[], some (.notMapping v.kind)⟩
    | none => ⟨[], some .malformed⟩

def titleKey : Yaml.Value := .string "title".toList

def weightKey : Yaml.Value := .string "weight".toList

/-- The metadata with a title, the author's if there is one, and with the given weight. -/
def complete (m : Yaml.Mapping) (title : Text) (weight : Nat) : Yaml.Mapping :=
  let titled := if m.contains titleKey then m else m.insert titleKey (.string title)
  titled.insert weightKey (.int weight)

def dropBlankLines (s : Text) : Text := ((Text.fullLines s).dropWhile Text.isBlank).flatten

def block (yaml : Text) : Text := delimiter ++ '\n' :: Text.trimEnd yaml ++ '\n' :: delimiter

def ofPage (s : Text) : Reading := ((split s).yaml.map read).getD ⟨[], none⟩

/-- Puts a title and a weight into the front matter of a page, by some writer of YAML. One empty line
follows it. Metadata that cannot be written is left out. -/
def mergeBy (write : Yaml.Writer) (s title : Text) (weight : Nat) : Text :=
  block ((write (complete (ofPage s).metadata title weight)).getD []) ++ "\n\n".toList ++
    dropBlankLines (split s).body

def merge (s title : Text) (weight : Nat) : Text := mergeBy Yaml.writer s title weight

def warnings (s : Text) : List Warning := (ofPage s).warning.toList

def reportsBy (write : Yaml.Writer) (s title : Text) (weight : Nat) : List Text :=
  (warnings s).map Warning.message ++ write.failures "Failed to serialize front matter".toList
    (complete (ofPage s).metadata title weight)

end FrontMatter

end Markdown

end DocsMigration
