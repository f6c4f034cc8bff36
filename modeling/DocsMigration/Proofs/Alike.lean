import DocsMigration.Migration.Scaffold
import DocsMigration.Proofs.Steps
/-! Disks that look alike. The list of the entries of a disk tells in what order they came there; but the
work on files asks for single places only, so on disks with the same entry at each place it ends alike, and
leaves disks that look alike again. -/

namespace DocsMigration

namespace Disk

/-- Whether two disks have the same entry at each place. -/
def Alike (d d' : Disk) : Prop := ∀ l, d.get? l = d'.get? l

variable {d d' : Disk} {cwd here : Location} {p : Path} {ns : List Name} {followLast : Bool}
  {follow : Location → List Name → Except FileError Location}

theorem Alike.apply (h : d.Alike d') (c : Change) : (d.apply c).Alike (d'.apply c) := fun l => by
  rw [get?_apply, get?_apply, h l]

theorem Alike.walk (h : d.Alike d') :
    d.walk followLast follow here ns = d'.walk followLast follow here ns := by
  induction ns generalizing here with
  | nil => rfl
  | cons n ns ih => simp only [Disk.walk, h here, h (here ++ [n]), ih]

theorem Alike.walkWithin (h : d.Alike d') (budget : Nat) :
    d.walkWithin followLast budget = d'.walkWithin followLast budget := by
  induction budget with
  | zero => rfl
  | succ budget ih =>
    funext here ns
    simp only [Disk.walkWithin, ih, h.walk]

theorem Alike.travel (h : d.Alike d') :
    d.travel followLast cwd p ns = d'.travel followLast cwd p ns := by
  simp only [Disk.travel, h.walkWithin]

theorem Alike.locate (h : d.Alike d') : d.locate followLast cwd p = d'.locate followLast cwd p := h.travel

theorem Alike.entry? (h : d.Alike d') : d.entry? cwd p = d'.entry? cwd p := by
  have hget : d.get? = d'.get? := funext h
  simp only [Disk.entry?, Disk.find, h.locate, hget]

theorem Alike.findHolder (h : d.Alike d') : d.findHolder cwd p = d'.findHolder cwd p := by
  have hget : d.get? = d'.get? := funext h
  simp only [Disk.findHolder, h.travel, hget]

theorem Alike.newDirectory (h : d.Alike d') : d.newDirectory cwd p = d'.newDirectory cwd p := by
  have hget : d.get? = d'.get? := funext h
  simp only [Disk.newDirectory, h.findHolder, hget]

theorem Alike.writableFile (h : d.Alike d') : d.writableFile cwd p = d'.writableFile cwd p := by
  have hdirectory : d.isDirectoryAt = d'.isDirectoryAt := funext fun l => by
    rw [isDirectoryAt, isDirectoryAt, h l]
  simp only [Disk.writableFile, h.findHolder, h.locate, hdirectory]

end Disk

namespace Work

variable {ε α β : Type}

/-- Whether work ends alike on disks that look alike. -/
def Observes (work : Work ε α) : Prop := ∀ w w' : Workspace, w.cwd = w'.cwd → w.disk.Alike w'.disk →
  (work.outcome w).1 = (work.outcome w').1 ∧
    (work.outcome w).2.cwd = (work.outcome w').2.cwd ∧
      (work.outcome w).2.disk.Alike (work.outcome w').2.disk

theorem Observes.outcome_eq {work : Work ε α} (h : work.Observes) {w w' v : Workspace} {r : Except ε α}
    (hcwd : w.cwd = w'.cwd) (hdisk : w.disk.Alike w'.disk) (hout : work.outcome w = (r, v)) :
    ∃ v', work.outcome w' = (r, v') ∧ v.cwd = v'.cwd ∧ v.disk.Alike v'.disk := by
  obtain ⟨hresult, hcwd', hdisk'⟩ := h w w' hcwd hdisk
  rw [hout] at hresult hcwd' hdisk'
  exact ⟨(work.outcome w').2, Prod.ext hresult.symm rfl, hcwd', hdisk'⟩

theorem observes_pure (a : α) : (pure a : Work ε α).Observes := fun _ _ hcwd hdisk => ⟨rfl, hcwd, hdisk⟩

theorem observes_throw (e : ε) : (throw e : Work ε α).Observes := fun _ _ hcwd hdisk => ⟨rfl, hcwd, hdisk⟩

theorem observes_perform (c : Change) : (perform c : Work ε Unit).Observes := fun _ _ hcwd hdisk =>
  ⟨rfl, hcwd, hdisk.apply c⟩

theorem observes_inspect {f : Disk → Location → Except ε α}
    (hf : ∀ d d' : Disk, d.Alike d' → ∀ cwd, f d cwd = f d' cwd) : (inspect f).Observes := by
  intro w w' hcwd hdisk
  rw [outcome_inspect, outcome_inspect, hcwd, hf _ _ hdisk]
  exact ⟨rfl, rfl, hdisk⟩

theorem observes_ask {f : Disk → Location → α}
    (hf : ∀ d d' : Disk, d.Alike d' → ∀ cwd, f d cwd = f d' cwd) : (ask f : Work ε α).Observes := by
  intro w w' hcwd hdisk
  rw [outcome_ask, outcome_ask, hcwd, hf _ _ hdisk]
  exact ⟨rfl, rfl, hdisk⟩

theorem observes_bind {x : Work ε β} {f : β → Work ε α} (hx : x.Observes) (hf : ∀ b, (f b).Observes) :
    (x >>= f).Observes := by
  intro w w' hcwd hdisk
  rw [outcome_bind, outcome_bind]
  rcases hout : x.outcome w with ⟨r, v⟩
  obtain ⟨v', hout', hcwd', hdisk'⟩ := hx.outcome_eq hcwd hdisk hout
  rw [hout']
  cases r with
  | error e => exact ⟨rfl, hcwd', hdisk'⟩
  | ok b => exact hf b v v' hcwd' hdisk'

theorem observes_tryCatch {x : Work ε α} {h : ε → Work ε α} (hx : x.Observes) (hh : ∀ e, (h e).Observes) :
    (tryCatch x h).Observes := by
  intro w w' hcwd hdisk
  rw [outcome_tryCatch, outcome_tryCatch]
  rcases hout : x.outcome w with ⟨r, v⟩
  obtain ⟨v', hout', hcwd', hdisk'⟩ := hx.outcome_eq hcwd hdisk hout
  rw [hout']
  cases r with
  | error e => exact hh e v v' hcwd' hdisk'
  | ok b => exact ⟨rfl, hcwd', hdisk'⟩

theorem observes_reportedAt {work : Work FileError α} {p : Path} (h : work.Observes) :
    (MigrationWork.reportedAt p work).Observes := by
  intro w w' hcwd hdisk
  obtain ⟨hresult, hrest⟩ := h w w' hcwd hdisk
  rw [outcome_reportedAt, outcome_reportedAt, hresult]
  exact ⟨rfl, hrest⟩

theorem observes_mapM {f : β → Work ε α} {xs : List β} (hf : ∀ x ∈ xs, (f x).Observes) :
    (xs.mapM f).Observes := by
  induction xs with
  | nil => exact observes_pure _
  | cons x xs ih =>
    rw [List.mapM_cons]
    obtain ⟨hx, hxs⟩ := List.forall_mem_cons.1 hf
    exact observes_bind hx fun _ => observes_bind (ih hxs) fun _ => observes_pure _

section Files

variable {p : Path} {s : Text}

theorem observes_makeDirectory : (makeDirectory p).Observes :=
  observes_bind (observes_inspect fun _ _ h _ => h.newDirectory) fun _ => observes_perform _

theorem observes_accept {e : FileError} : (makeDirectoriesOf.accept p e).Observes := by
  refine observes_bind (observes_ask fun d d' h cwd => ?_) fun isDirectory => ?_
  · simp only [Disk.isDirectory, h.entry?]
  · cases isDirectory
    · exact observes_throw e
    · exact observes_pure ()

theorem observes_makeDirectoriesOf (ps : List Path) : (makeDirectoriesOf ps).Observes := by
  induction ps with
  | nil => exact observes_pure ()
  | cons p ps ih =>
    rw [makeDirectoriesOf]
    split_ifs
    · exact observes_pure ()
    refine observes_tryCatch observes_makeDirectory fun e => ?_
    split_ifs
    · exact observes_bind ih fun _ => observes_tryCatch observes_makeDirectory fun _ => observes_accept
    · exact observes_accept

theorem observes_makeHolder : (MigrationWork.makeHolder p).Observes := by
  unfold MigrationWork.makeHolder
  split
  · exact observes_reportedAt (observes_makeDirectoriesOf _)
  · exact observes_pure ()

theorem observes_writeText : (writeText p s).Observes :=
  observes_bind (observes_inspect fun _ _ h _ => h.writableFile) fun _ =>
    observes_bind (observes_perform _) fun _ => observes_perform _

theorem observes_writeMissing : (Scaffold.writeMissing p s).Observes := by
  refine observes_bind (observes_ask fun d d' h cwd => ?_) fun isThere => ?_
  · simp only [Disk.pathExists, h.entry?]
  · split_ifs
    · exact observes_pure false
    · exact observes_bind observes_makeHolder fun _ =>
        observes_bind (observes_reportedAt observes_writeText) fun _ => observes_pure true

theorem observes_createSectionIndex {site : Path} {sect : Section} :
    (Scaffold.createSectionIndex site sect).Observes :=
  observes_bind observes_writeMissing fun _ => observes_pure _

end Files

end Work

end DocsMigration
