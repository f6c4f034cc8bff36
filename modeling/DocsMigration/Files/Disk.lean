import DocsMigration.Files.Path
import DocsMigration.Text.Order
/-! A disk holds a file, a symbolic link or a directory at each of its locations. Finding what a path
means goes along its names from a directory and follows links, up to a limit. -/

namespace DocsMigration

/-- The names that lead from the root of a disk to an entry. -/
abbrev Location := List Name

namespace Location

def toPath (l : Location) : Path := ⟨'/' :: List.intercalate ['/'] l⟩

end Location

/-- What a file holds: text, or bytes that are not text. -/
inductive Content where
  | text (s : Text)
  | bytes (bs : List Nat)
deriving DecidableEq, Repr

inductive Entry where
  | file (c : Content)
  | link (target : Path)
  | directory
deriving DecidableEq, Repr

inductive FileError where
  | notFound
  | alreadyExists
  | notDirectory
  | isDirectory
  | invalidArgument
  | notEmpty
  | nameTooLong
  | tooManyLinks
  | zeroByte
  | notText
deriving DecidableEq, Repr

namespace FileError

def message : FileError → Text
  | .notFound => "No such file or directory (os error 2)".toList
  | .alreadyExists => "File exists (os error 17)".toList
  | .notDirectory => "Not a directory (os error 20)".toList
  | .isDirectory => "Is a directory (os error 21)".toList
  | .invalidArgument => "Invalid argument (os error 22)".toList
  | .notEmpty => "Directory not empty (os error 39)".toList
  | .nameTooLong => "File name too long (os error 36)".toList
  | .tooManyLinks => "Too many levels of symbolic links (os error 40)".toList
  | .zeroByte => "file name contained an unexpected NUL byte".toList
  | .notText => "stream did not contain valid UTF-8".toList

end FileError

inductive Change where
  | makeDirectory (l : Location)
  | write (l : Location) (c : Content)
  | remove (l : Location)
deriving DecidableEq, Repr

/-- The entries below the root, which is always a directory. -/
structure Disk where
  entries : List (Location × Entry)
deriving DecidableEq, Repr

namespace Disk

def get? (d : Disk) (l : Location) : Option Entry :=
  if l.isEmpty then some .directory else d.entries.lookup l

def put (d : Disk) (l : Location) (e : Entry) : Disk :=
  ⟨(l, e) :: d.entries.filter fun x => x.1 != l⟩

def erase (d : Disk) (l : Location) : Disk := ⟨d.entries.filter fun x => x.1 != l⟩

def apply (d : Disk) : Change → Disk
  | .makeDirectory l => d.put l .directory
  | .write l c => d.put l (.file c)
  | .remove l => d.erase l

def isDirectoryAt (d : Disk) (l : Location) : Bool := d.get? l == some .directory

/-- The entries of a directory, in the order of their names. -/
def children (d : Disk) (l : Location) : List (Name × Entry) :=
  Text.sortBy (fun x y => Text.le x.1 y.1) <|
    d.entries.filterMap fun (m, e) =>
      match m.getLast? with
      | some name => if m.dropLast == l then some (name, e) else none
      | none => none

def depth (d : Disk) : Nat := (d.entries.map (·.1.length)).foldr max 0

def linkLimit : Nat := 40

def nameLimit : Nat := 255

/-- How many bytes a path may have, with one more behind them. -/
def pathLimit : Nat := 4096

/-- The names along a path; a slash at its end counts as a step to the directory itself. -/
def stepsOf (p : Path) : List Name :=
  p.names ++ if p.text.getLast? == some '/' then [Path.currentName] else []

/-- Goes along names from a location. At a link, `follow` goes on along the target and the names
left; a link at the end is followed only on demand. What is reached at the end need not exist. -/
def walk (d : Disk) (followLast : Bool) (follow : Location → List Name → Except FileError Location) :
    Location → List Name → Except FileError Location
  | here, [] => .ok here
  | here, name :: rest =>
    match d.get? here with
    | none => .error .notFound
    | some .directory =>
      if name = Path.currentName then walk d followLast follow here rest
      else if name = Path.parentName then walk d followLast follow here.dropLast rest
      else if nameLimit < Text.utf8Size name then .error .nameTooLong
      else
        match d.get? (here ++ [name]) with
        | some (.link target) =>
          if rest.isEmpty && !followLast then .ok (here ++ [name])
          else if target.text.isEmpty then .error .notFound
          else follow (if target.isAbsolute then [] else here) (stepsOf target ++ rest)
        | _ => walk d followLast follow (here ++ [name]) rest
    | some _ => .error .notDirectory

def walkWithin (d : Disk) (followLast : Bool) : Nat → Location → List Name → Except FileError Location
  | 0 => fun _ _ => .error .tooManyLinks
  | budget + 1 => walk d followLast (walkWithin d followLast budget)

def travel (d : Disk) (followLast : Bool) (cwd : Location) (p : Path) (names : List Name) :
    Except FileError Location :=
  if p.text.isEmpty then .error .notFound
  else if p.text.any (· == '\x00') then .error .zeroByte
  else if pathLimit ≤ Text.utf8Size p.text then .error .nameTooLong
  else walkWithin d followLast (linkLimit + 1) (if p.isAbsolute then [] else cwd) names

/-- The location that a path means; the entry there may be missing. -/
def locate (d : Disk) (followLast : Bool) (cwd : Location) (p : Path) : Except FileError Location :=
  travel d followLast cwd p (stepsOf p)

def find (d : Disk) (cwd : Location) (p : Path) : Except FileError (Location × Entry) := do
  let l ← d.locate true cwd p
  match d.get? l with
  | some e => .ok (l, e)
  | none => .error .notFound

def entry? (d : Disk) (cwd : Location) (p : Path) : Option Entry :=
  match d.find cwd p with
  | .ok (_, e) => some e
  | .error _ => none

def pathExists (d : Disk) (cwd : Location) (p : Path) : Bool := (d.entry? cwd p).isSome

def isDirectory (d : Disk) (cwd : Location) (p : Path) : Bool := d.entry? cwd p == some .directory

def isFile (d : Disk) (cwd : Location) (p : Path) : Bool :=
  match d.entry? cwd p with
  | some (.file _) => true
  | _ => false

def findHolder (d : Disk) (cwd : Location) (p : Path) : Except FileError Location := do
  let l ← d.travel true cwd p p.names.dropLast
  match d.get? l with
  | some .directory => .ok l
  | some _ => .error .notDirectory
  | none => .error .notFound

def readFile (d : Disk) (cwd : Location) (p : Path) : Except FileError Content := do
  match ← d.find cwd p with
  | (_, .file c) => .ok c
  | _ => .error .isDirectory

def readText (d : Disk) (cwd : Location) (p : Path) : Except FileError Text := do
  match ← d.readFile cwd p with
  | .text s => .ok s
  | .bytes _ => .error .notText

def readDirectory (d : Disk) (cwd : Location) (p : Path) : Except FileError (List (Name × Entry)) := do
  match ← d.find cwd p with
  | (l, .directory) => .ok (d.children l)
  | _ => .error .notDirectory

/-- The location of a new directory; nothing may be there yet, not even a link. -/
def newDirectory (d : Disk) (cwd : Location) (p : Path) : Except FileError Location := do
  match p.names.getLast? with
  | none => if p.text.isEmpty then .error .notFound else .error .alreadyExists
  | some name =>
    let holder ← d.findHolder cwd p
    if name = Path.currentName ∨ name = Path.parentName then .error .alreadyExists
    else if nameLimit < Text.utf8Size name then .error .nameTooLong
    else if (d.get? (holder ++ [name])).isSome then .error .alreadyExists
    else .ok (holder ++ [name])

def writableFile (d : Disk) (cwd : Location) (p : Path) : Except FileError Location := do
  if p.endsAsDirectory then
    let _ ← d.findHolder cwd p
    .error .isDirectory
  else
    let l ← d.locate true cwd p
    if d.isDirectoryAt l then .error .isDirectory else .ok l

end Disk

end DocsMigration
