import DocsMigration.Config.Settings
import DocsMigration.Migration.Error
/-! The repository that documents are read from. A local checkout is used where it is; any other
repository is cloned into a place that is free, and that is free again after the work. -/

namespace DocsMigration

/-- The files of a repository, by their locations below its root. -/
abbrev RepositoryFiles := List (Location × Entry)

abbrev Repositories := List (Text × RepositoryFiles)

inductive Checkout where
  | existing (p : Path)
  | cloned (url : Text) (place : Location)
deriving DecidableEq, Repr

namespace Checkout

def root : Checkout → Path
  | .existing p => p
  | .cloned _ place => place.toPath

def url? : Checkout → Option Text
  | .existing _ => none
  | .cloned url _ => some url

/-- The disk with the files of a repository at the place of a clone; the directories on the way to them
come with them. -/
def addClone (place : Location) (files : RepositoryFiles) (d : Disk) : Disk :=
  files.foldl (fun d (l, e) => d.put (place ++ l) e) (d.put place .directory)

def dropClone (place : Location) (d : Disk) : Disk :=
  ⟨d.entries.filter fun x => !place.isPrefixOf x.1⟩

/-- Does work on the local checkout, or on a clone that is removed whether or not the work fails. -/
def withCheckout {α : Type} (repositories : Repositories) (s : SourceSettings)
    (work : Checkout → MigrationWork α) : MigrationWork α :=
  match s.path with
  | some p => work (.existing p)
  | none =>
    match repositories.lookup s.repositoryUrl with
    | none => throw (.notCloned s.repositoryUrl)
    | some files => do
      let w ← get
      let place := w.host.temporary w.disk
      modify fun w => { w with disk := addClone place files w.disk }
      let result ← Work.attempt (work (.cloned s.repositoryUrl place))
      modify fun w => { w with disk := dropClone place w.disk }
      match result with
      | .ok a => pure a
      | .error e => throw e

end Checkout

end DocsMigration
