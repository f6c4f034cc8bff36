import DocsMigration.Files.Workspace
/-! Why a migration fails. -/

namespace DocsMigration

inductive MigrationError where
  | file (p : Path) (cause : FileError)
  | missingDocs (p : Path)
  | missingNavigation (p : Path)
  | notCloned (url : Text)
  | unreadableNavigation (p : Path) (cause : FileError)
  | malformedNavigation
deriving DecidableEq, Repr

namespace MigrationError

def summary : MigrationError → Text
  | .file p _ => "I/O error at ".toList ++ p.text
  | .missingDocs p => "Docs directory not found: ".toList ++ p.text
  | .missingNavigation p => "Navigation file not found: ".toList ++ p.text
  | .notCloned url => "Failed to clone ".toList ++ url
  | .unreadableNavigation p _ => "Failed to read ".toList ++ p.text
  | .malformedNavigation => "Invalid YAML in navigation file".toList

def cause? : MigrationError → Option Text
  | .file _ cause => some cause.message
  | .unreadableNavigation _ cause => some cause.message
  | .notCloned _ => some "no such repository".toList
  | _ => none

def message (e : MigrationError) : Text :=
  match e.cause? with
  | some cause => e.summary ++ ": ".toList ++ cause
  | none => e.summary

end MigrationError

abbrev MigrationWork := Work MigrationError

namespace MigrationWork

/-- Does file work whose failure is reported at the given path. -/
def reportedAt {α : Type} (p : Path) (work : Work FileError α) : MigrationWork α :=
  ExceptT.adapt (MigrationError.file p) work

def makeHolder (p : Path) : MigrationWork Unit :=
  match p.parent? with
  | some holder => reportedAt holder (Work.makeDirectories holder)
  | none => pure ()

end MigrationWork

end DocsMigration
