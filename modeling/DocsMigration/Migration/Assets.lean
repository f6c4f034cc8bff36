import DocsMigration.Config.Settings
import DocsMigration.Migration.Error
/-! Copying assets from the documents into the site. A directory is copied with everything below it,
into what is there already or, on demand, into a cleared place. An asset that is missing is passed
over. -/

namespace DocsMigration

structure CopiedAsset where
  target : Path
  files : Nat
deriving DecidableEq, Repr

namespace CopiedAsset

/-- Copies entries of one directory into another and counts the files; links are not copied. -/
def copyEntries (copyInner : Path → Path → MigrationWork Nat) (source target : Path) :
    List (Name × Entry) → MigrationWork Nat
  | [] => pure 0
  | (name, e) :: rest => do
    let inner := source.join ⟨name⟩
    let count ← match e with
      | .directory => copyInner inner (target.join ⟨name⟩)
      | .file _ => do
        MigrationWork.reportedAt inner (Work.copyFile inner (target.join ⟨name⟩))
        pure 1
      | .link _ => pure 0
    return count + (← copyEntries copyInner source target rest)

def copyTreeWithin : Nat → Path → Path → MigrationWork Nat
  | 0 => fun source _ => throw (.file source .nameTooLong)
  | depth + 1 => fun source target => do
    MigrationWork.reportedAt target (Work.makeDirectories target)
    let entries ← MigrationWork.reportedAt source (Work.readDirectory source)
    copyEntries (copyTreeWithin depth) source target entries

/-- Copies a directory and counts its files. No path is longer than the limit, so the depth is
bounded by it, even for a directory that is copied into itself. -/
def copyTree (source target : Path) : MigrationWork Nat :=
  copyTreeWithin Disk.pathLimit source target

def copyFile (source target : Path) : MigrationWork Unit := do
  MigrationWork.makeHolder target
  MigrationWork.reportedAt source (Work.copyFile source target)

def copy (docs site : Path) (a : Asset) : MigrationWork (Option CopiedAsset) := do
  let source := docs.join ⟨a.source⟩
  let target := site.join ⟨a.target⟩
  if ← Work.ask (·.isDirectory · source) then
    if a.replace && (← Work.ask (·.pathExists · target)) then
      MigrationWork.reportedAt target (Work.removeTree target)
    return some ⟨⟨a.target⟩, ← copyTree source target⟩
  else if ← Work.ask (·.isFile · source) then
    copyFile source target
    return some ⟨⟨a.target⟩, 1⟩
  else return none

def copyAll (docs site : Path) (assets : List Asset) : MigrationWork (List CopiedAsset) := do
  return (← assets.mapM (copy docs site)).filterMap id

end CopiedAsset

end DocsMigration
