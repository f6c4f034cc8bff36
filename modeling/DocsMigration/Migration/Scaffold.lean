import DocsMigration.Config.Settings
import DocsMigration.Migration.Error
/-! Files that every site needs: the head partial, which loads the copied scripts, and an index page
for each section. Both are written only where nothing is yet, so that changes by hand are kept. -/

namespace DocsMigration

namespace Scaffold

def headPartialPath : Path := ⟨"layouts/_partials/custom/head.html".toList⟩

def headPartial : Text :=
  "\x7b\x7b- /* AOS (Animate On Scroll) – migrated from MkDocs */ -\x7d\x7d\n".toList ++
  "<link rel=\"stylesheet\" href=\"/css/aos.css\">\n".toList ++
  "<script src=\"/js/aos.js\" defer></script>\n".toList ++
  "<script src=\"/js/extra.js\" defer></script>\n".toList

def sectionIndexName : Path := ⟨"_index.md".toList⟩

def sectionMetadata (title : Text) (weight : Nat) : Yaml.Mapping :=
  [(Markdown.FrontMatter.titleKey, .string title), (Markdown.FrontMatter.weightKey, .int weight)]

/-- The metadata of a section for want of a writer. -/
def sectionLines (title : Text) (weight : Nat) : Text :=
  "title: ".toList ++ title ++ ['\n'] ++ ("weight: ".toList ++ Text.ofNat weight ++ ['\n'])

/-- The index page of a section, by some writer of YAML: front matter alone. -/
def sectionIndexBy (write : Yaml.Writer) (title : Text) (weight : Nat) : Text :=
  Markdown.FrontMatter.block
    ((write (sectionMetadata title weight)).getD (sectionLines title weight)) ++ ['\n']

def sectionIndex (title : Text) (weight : Nat) : Text := sectionIndexBy Yaml.writer title weight

def sectionReportsBy (write : Yaml.Writer) (title : Text) (weight : Nat) : List Text :=
  write.failures "Failed to serialize section front matter".toList (sectionMetadata title weight)

/-- Writes a file unless something is at its place; tells whether it did. -/
def writeMissing (p : Path) (s : Text) : MigrationWork Bool := do
  if ← Work.ask (·.pathExists · p) then return false
  MigrationWork.makeHolder p
  MigrationWork.reportedAt p (Work.writeText p s)
  return true

def createHeadPartial (site : Path) : MigrationWork Bool :=
  writeMissing (site.join headPartialPath) headPartial

def createSectionIndex (site : Path) (s : Section) : MigrationWork (Option Path) := do
  let p := (⟨s.path⟩ : Path).join sectionIndexName
  return if ← writeMissing (site.join p) (sectionIndex s.title s.weight) then some p else none

end Scaffold

end DocsMigration
