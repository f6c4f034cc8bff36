import DocsMigration.Files.Disk
/-! Working on a disk. Every operation first finds out from the disk as it is what it has to do, and
then changes it in single steps, which are kept in a journal; an operation that fails keeps the steps
it had done. Two things are left to the host of the work: in which order a directory lists its entries,
and where something temporary is put. -/

namespace DocsMigration

/-- An order in which the entries of each directory are met. -/
structure Enumeration where
  order : Path → List (Name × Entry) → List (Name × Entry)
  perm : ∀ directory entries, (order directory entries).Perm entries

def Enumeration.byName : Enumeration := ⟨fun _ entries => entries, fun _ _ => .refl _⟩

/-- What is left to the host. The order of entries may be another one each time, as the steps done so far
tell the times apart; a temporary place is one where nothing is. -/
class Host where
  enumeration : List Change → Enumeration
  temporary : Disk → Location
  proper : ∀ d, ∀ n ∈ temporary d, n.Proper
  free : ∀ d l, temporary d <+: l → d.get? l = none

namespace Disk

def topLength (d : Disk) : Nat := (d.entries.map fun x => (x.1.headD []).length).foldr max 0

def sparePrefix : Name := "docshift-".toList

def spareName (d : Disk) : Name := sparePrefix ++ List.replicate d.topLength 'x'

theorem length_le_topLength {d : Disk} {n : Name} {l : Location} {e : Entry} (h : (n :: l, e) ∈ d.entries) :
    n.length ≤ d.topLength := by
  unfold topLength
  generalize d.entries = entries at h ⊢
  induction entries with
  | nil => contradiction
  | cons x entries ih =>
    rw [List.map_cons, List.foldr_cons]
    rcases List.mem_cons.1 h with rfl | h
    · exact Nat.le_max_left _ _
    · exact Nat.le_trans (ih h) (Nat.le_max_right _ _)

theorem length_spareName (d : Disk) : d.spareName.length = 9 + d.topLength := by
  have hprefix : sparePrefix.length = 9 := by decide
  rw [spareName, List.length_append, List.length_replicate, hprefix]

theorem proper_spareName (d : Disk) : d.spareName.Proper := by
  have hlength := d.length_spareName
  have hslash : '/' ∉ sparePrefix := by decide
  refine ⟨fun h => ?_, ?_, fun h => ?_, fun h => ?_⟩
  · rw [h, List.length_nil] at hlength
    omega
  · rw [spareName, List.mem_append, not_or]
    exact ⟨hslash, by simp⟩
  · rw [h, Path.currentName, List.length_singleton] at hlength
    omega
  · rw [h, Path.parentName, List.length_cons, List.length_singleton] at hlength
    omega

theorem get?_spareName {d : Disk} {l : Location} (h : [d.spareName] <+: l) : d.get? l = none := by
  obtain ⟨r, rfl⟩ := h
  cases hlookup : d.entries.lookup ([d.spareName] ++ r) with
  | none => simpa [get?] using hlookup
  | some e =>
    obtain ⟨before, after, heq, -⟩ := List.lookup_eq_some_iff.1 hlookup
    have hle : d.spareName.length ≤ d.topLength := length_le_topLength (l := r) (e := e) (by simp [heq])
    rw [length_spareName] at hle
    omega

end Disk

instance Host.plain : Host where
  enumeration _ := .byName
  temporary d := [d.spareName]
  proper d _ hn := List.mem_singleton.1 hn ▸ d.proper_spareName
  free _ _ h := Disk.get?_spareName h

structure Workspace where
  disk : Disk
  cwd : Location
  journal : List Change
  [host : Host]

/-- Work that may fail with an error of type `ε`; the steps before the failure stay done. -/
abbrev Work (ε : Type) := ExceptT ε (StateM Workspace)

namespace Work

def perform {ε : Type} (c : Change) : Work ε Unit :=
  modify fun w => { w with disk := w.disk.apply c, journal := w.journal ++ [c] }

def inspect {ε α : Type} (f : Disk → Location → Except ε α) : Work ε α := do
  let w ← get
  liftExcept (f w.disk w.cwd)
where
  liftExcept : Except ε α → Work ε α
    | .ok a => pure a
    | .error e => throw e

def ask {ε α : Type} (f : Disk → Location → α) : Work ε α := do
  let w ← get
  return f w.disk w.cwd

/-- Does work and gives what comes of it, a failure as well. -/
def attempt {ε α : Type} (work : Work ε α) : Work ε (Except ε α) := ExceptT.lift work.run

def makeDirectory (p : Path) : Work FileError Unit := do
  perform (.makeDirectory (← inspect (·.newDirectory · p)))

/-- Makes the first of several paths a directory; the paths behind it are its ancestors, nearest
first, and are made if they are missing. -/
def makeDirectoriesOf : List Path → Work FileError Unit
  | [] => pure ()
  | p :: ancestors =>
    if p.text.isEmpty then pure ()
    else tryCatch (makeDirectory p) fun e =>
      if e = .notFound then do
        makeDirectoriesOf ancestors
        tryCatch (makeDirectory p) (accept p)
      else accept p e
where
  /-- A directory that is there already is as good as a new one. -/
  accept (p : Path) (e : FileError) : Work FileError Unit := do
    if ← ask (·.isDirectory · p) then pure () else throw e

def makeDirectories (p : Path) : Work FileError Unit := makeDirectoriesOf p.ancestors

/-- Writes a text to a file. An existing file is emptied first. -/
def writeText (p : Path) (s : Text) : Work FileError Unit := do
  let l ← inspect (·.writableFile · p)
  perform (.write l (.text []))
  perform (.write l (.text s))

/-- Copies a file. The target is emptied before the source is read, so that a file copied onto itself
ends up empty. -/
def copyFile (source target : Path) : Work FileError Unit := do
  match ← inspect (·.find · source) with
  | (origin, .file _) =>
    let l ← inspect (·.writableFile · target)
    perform (.write l (.text []))
    match ← ask fun d _ => d.get? origin with
    | some (.file c) => perform (.write l c)
    | _ => pure ()
  | _ => throw .invalidArgument

def enumeration {ε : Type} : Work ε Enumeration := do
  let w ← get
  return w.host.enumeration w.journal

def readDirectory (p : Path) : Work FileError (List (Name × Entry)) := do
  let entries ← inspect (·.readDirectory · p)
  return (← enumeration).order p entries

/-- What keeps a directory from being removed by this path, although it is empty. -/
def removalObstacle (d : Disk) (cwd : Location) (p : Path) : Option FileError :=
  match p.names.getLast? with
  | some name =>
    if name = Path.currentName then some .invalidArgument
    else if name = Path.parentName then some .notEmpty
    else match d.travel false cwd p p.names with
      | .ok l => if d.isDirectoryAt l then none else some .notDirectory
      | .error e => some e
  | none => some .notEmpty

def removeEntry (emptyInner : Location → Work FileError Unit) (l : Location) (e : Entry) :
    Work FileError Unit := do
  if e = .directory then emptyInner l
  perform (.remove l)

/-- Removes everything below a directory, whose entries nest less than `depth` deep. -/
def emptyDirectory : Nat → Location → Work FileError Unit
  | 0 => fun _ => throw .notEmpty
  | depth + 1 => fun l => do
    let entries ← ask fun d _ => d.children l
    ((← enumeration).order l.toPath entries).forM fun (name, e) =>
      removeEntry (emptyDirectory depth) (l ++ [name]) e

/-- Removes a directory with everything below it; of a link only the link is removed. -/
def removeTree (p : Path) : Work FileError Unit := do
  let l ← inspect (·.locate false · p)
  match ← ask fun d _ => d.get? l with
  | none => throw .notFound
  | some (.link _) => perform (.remove l)
  | some (.file _) => throw .notDirectory
  | some .directory =>
    emptyDirectory (← ask fun d _ => d.depth + 1) l
    match ← ask (removalObstacle · · p) with
    | some e => throw e
    | none => perform (.remove l)

end Work

end DocsMigration
