import DocsMigration.Migration.Error
/-! The documents of a docs directory are its Markdown files, at any depth. Hidden files and
directories are passed over, and links to directories are not entered. -/

namespace DocsMigration

/-- A document; its relative path starts at the docs directory. -/
structure Document where
  relPath : Text
  path : Path
deriving DecidableEq, Repr

namespace Document

def extension : Text := "md".toList

/-- The relative path of a name below a directory with the relative path `above`. -/
def below (above : Text) (name : Name) : Text :=
  if above.isEmpty then name else above ++ '/' :: name

def scanEntries (scanInner : Path → Text → Except MigrationError (List Document))
    (directory : Path) (above : Text) : List (Name × Entry) → Except MigrationError (List Document)
  | [] => .ok []
  | (name, e) :: rest => do
    let found ←
      if Name.isHidden name then pure []
      else match e with
        | .directory => scanInner (directory.join ⟨name⟩) (below above name)
        | _ =>
          if Name.extension? name = some extension then
            pure [⟨below above name, directory.join ⟨name⟩⟩]
          else pure []
    return found ++ (← scanEntries scanInner directory above rest)

def scanWithin (o : Enumeration) (d : Disk) (cwd : Location) :
    Nat → Path → Text → Except MigrationError (List Document)
  | 0 => fun directory _ => .error (.file directory .nameTooLong)
  | depth + 1 => fun directory above => do
    let entries ← (d.readDirectory cwd directory).mapError (.file directory)
    scanEntries (scanWithin o d cwd depth) directory above (o.order directory entries)

/-- The documents below a directory, in the order of their relative paths, if the entries are met in the
given order; there are none if it is missing. No path is longer than the limit, so the depth is bounded by
it. -/
def scanBy (o : Enumeration) (d : Disk) (cwd : Location) (docs : Path) :
    Except MigrationError (List Document) := do
  if d.isDirectory cwd docs then
    let found ← scanWithin o d cwd Disk.pathLimit docs []
    return Text.sortBy (fun a b => Text.le a.relPath b.relPath) found
  else return []

def scan (d : Disk) (cwd : Location) (docs : Path) : Except MigrationError (List Document) :=
  scanBy .byName d cwd docs

/-- Scans a directory as its entries are met by now. -/
def findAll (docs : Path) : MigrationWork (List Document) := do
  let o ← Work.enumeration
  Work.inspect (scanBy o · · docs)

end Document

end DocsMigration
