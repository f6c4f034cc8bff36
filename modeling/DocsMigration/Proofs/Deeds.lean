import DocsMigration.Migration.Run
import DocsMigration.Proofs.Copying
import DocsMigration.Proofs.Scanning
import DocsMigration.Proofs.Settings
/-! What a run does to the site is a row of deeds: assets are copied, the head partial is written, pages
are written, sections get their index pages. Each deed has a target on the site. It makes the
directories on the way there that are missing, and for the rest it stays at its target, an asset also
below it. -/

namespace DocsMigration

open Disk

/-- One thing that a run does to the site. -/
inductive Deed where
  | asset (a : Asset)
  | headPartial
  | page (doc : Document)
  | index (s : Section)
deriving DecidableEq, Repr

namespace Deed

variable (c : Config) (cwd : Location)

def path : Deed → Path
  | asset a => ⟨a.target⟩
  | headPartial => Scaffold.headPartialPath
  | page doc => Route.destination doc.relPath c.site.homePage
  | index s => (⟨s.path⟩ : Path).join Scaffold.sectionIndexName

def target (deed : Deed) : Path := c.site.root.join (deed.path c)

/-- Whether a place is one that a deed may write to: the place of its target, and for an asset also any
place below it. -/
def Owns (deed : Deed) (l : Location) : Prop :=
  match deed with
  | asset _ => (deed.target c).place cwd <+: l
  | _ => l = (deed.target c).place cwd

/-- Whether a deed leaves alone what is there already. -/
def Spares : Deed → Prop
  | headPartial | index _ => True
  | asset _ | page _ => False

/-- Whether the path of a deed's target leads to nothing. If all directories exist that the path of the
site backs out of, then nothing is at its place. -/
def Vacant (deed : Deed) (d : Disk) : Prop :=
  d.pathExists cwd (deed.target c) = false ∧
    ((∀ b ∈ c.site.root.detours cwd, d.get? b = some .directory) →
      d.get? ((deed.target c).place cwd) = none)

/-- What a deed that was begun on the disk `start` may do. -/
def May (deed : Deed) (start d : Disk) (change : Change) : Prop :=
  d.Opens ((deed.target c).way cwd) change ∨
    d.Fits change ∧ deed.Owns c cwd change.location ∧ (deed.Spares → deed.Vacant c cwd start)

variable {c cwd} {deed : Deed} {start d : Disk} {change : Change} {l : Location}

theorem May.fits (h : deed.May c cwd start d change) : d.Fits change := by
  rcases h with h | h
  · exact h.1
  · exact h.1

theorem Owns.below (h : deed.Owns c cwd l) : (deed.target c).place cwd <+: l := by
  cases deed with
  | asset => exact h
  | headPartial | page | index => exact h ▸ List.prefix_rfl

theorem owns_place : deed.Owns c cwd ((deed.target c).place cwd) := by
  cases deed with
  | asset => exact List.prefix_rfl
  | headPartial | page | index => rfl

theorem may_of_puts (h : d.Puts cwd (deed.target c) change)
    (hspares : deed.Spares → deed.Vacant c cwd start) : deed.May c cwd start d change := by
  rcases h with hopens | hwrite
  · exact .inl hopens
  · exact .inr ⟨hwrite.fits, hwrite.location_eq ▸ owns_place, hspares⟩

theorem may_of_copies {a : Asset} {Seen : Location → Entry → Prop}
    (h : d.Copies Seen (((Deed.asset a).target c).way cwd) (((Deed.asset a).target c).place cwd) change) :
    (Deed.asset a).May c cwd start d change := by
  have hfits := h.fits
  cases h with
  | opens ho => exact .inl ho
  | @directory r ho _ =>
    obtain ⟨-, -, l, hl, rfl⟩ := ho
    obtain rfl := List.mem_singleton.1 hl
    exact .inr ⟨hfits, List.prefix_append _ r, False.elim⟩
  | @file r _ _ _ hc =>
    obtain ⟨content, rfl⟩ := hc
    exact .inr ⟨hfits, List.prefix_append _ r, False.elim⟩

theorem may_of_clears {a : Asset} (h : d.Clears (((Deed.asset a).target c).place cwd) change) :
    (Deed.asset a).May c cwd start d change := by
  obtain ⟨hfits, m, hm, rfl⟩ := h
  exact .inr ⟨hfits, hm, False.elim⟩

end Deed

namespace Migration

variable (c : Config) (n : Navigation) (doc : Document)

def pageOf : MigratedPage :=
  let info := n.pageMeta doc.relPath c.site.defaultWeight
  ⟨doc.relPath, Route.destination doc.relPath c.site.homePage, info.title, info.weight⟩

def pageText (s : Text) : Text := c.rewriters.convert s (n.pageMeta doc.relPath c.site.defaultWeight)

end Migration

namespace CopiedAsset

/-- Clears the place of a target, if that is wanted and something is there. -/
def makeRoom (target : Path) (replace : Bool) : MigrationWork Unit := do
  if replace && (← Work.ask (·.pathExists · target)) then
    MigrationWork.reportedAt target (Work.removeTree target)

theorem copy_eq (docs site : Path) (a : Asset) : copy docs site a = do
    if ← Work.ask (·.isDirectory · (docs.join ⟨a.source⟩)) then
      makeRoom (site.join ⟨a.target⟩) a.replace
      let files ← copyTree (docs.join ⟨a.source⟩) (site.join ⟨a.target⟩)
      return some ⟨⟨a.target⟩, files⟩
    else if ← Work.ask (·.isFile · (docs.join ⟨a.source⟩)) then
      copyFile (docs.join ⟨a.source⟩) (site.join ⟨a.target⟩)
      return some ⟨⟨a.target⟩, 1⟩
    else return none := by
  unfold copy makeRoom
  refine bind_congr fun isDirectory => ?_
  split_ifs
  · rw [bind_assoc]
    refine bind_congr fun isThere => ?_
    dsimp only
    split_ifs <;> simp
  · rfl

end CopiedAsset

section Works

open Work

variable {c : Config} {w : Workspace} {p : Path}

theorem makeHolder_does (hd : w.disk.Plain) :
    (MigrationWork.makeHolder p).Does (Opens (p.way w.cwd)) (fun _ d => ∀ holder, p.parent? = some holder →
      holder.text ≠ [] → ∀ m ∈ holder.way w.cwd, d.get? m = some .directory) w := by
  unfold MigrationWork.makeHolder
  split
  · rename_i holder hholder
    refine does_reportedAt ((makeDirectories_does hd).mono
      (fun _ _ h => h.mono (Path.way_parent? hholder)) fun _ d hd' q hq hne => ?_)
    obtain rfl : holder = q := Option.some.inj (hholder.symm.trans hq)
    exact (hd' hne).2
  · rename_i hnone
    exact does_pure (by simp [hnone])

/-- A file is put to its place, with the directories on the way there. -/
theorem place_does {α : Type} {Q : α → Disk → Prop} {write : MigrationWork α} (hd : w.disk.Plain)
    (hwrite : ∀ cs, w.disk.Allows (Opens (p.way w.cwd)) cs →
      write.Does (Overwrites w.cwd p) Q (w.after cs)) :
    (MigrationWork.makeHolder p >>= fun _ => write).Does
      (Puts w.cwd p) Q w :=
  does_bind (makeHolder_does hd) (fun _ _ => .inl) fun _ cs hcs _ =>
    (hwrite cs hcs).mono (fun _ _ => .inr) fun _ _ => id

theorem writeMissing_does {s : Text} (hd : w.disk.Plain) :
    (Scaffold.writeMissing p s).Does
      (fun d change => w.disk.pathExists w.cwd p = false ∧ d.Puts w.cwd p change)
      (fun _ d => d.Leads w.cwd p) w := by
  refine does_ask_bind ?_
  split_ifs with hexists
  · exact does_pure (hd.pathExists_iff.1 hexists).1
  have hmissing : w.disk.pathExists w.cwd p = false := by simpa using hexists
  refine (place_does hd fun cs hcs => ?_).mono (fun _ _ h => ⟨hmissing, h⟩) fun _ _ => id
  exact does_bind (does_reportedAt (writeText_does (plain_after_opens hd hcs))) (fun _ _ => id)
    fun _ _ _ hdone => does_pure hdone.1.1

theorem Deed.vacant_of_missing {deed : Deed} {cwd : Location} {start d : Disk} {change : Change}
    (hstart : start.Plain) (hinside : Config.isInside (deed.path c))
    (hmissing : start.pathExists cwd (deed.target c) = false)
    (hwrite : d.Overwrites cwd (deed.target c) change) : deed.Vacant c cwd start := by
  refine ⟨hmissing, fun hdetours => ?_⟩
  by_contra hsome
  obtain ⟨hleads, hends, hdir, -⟩ := hwrite
  have hway : ∀ m ∈ ((deed.target c).origin cwd).passed (stepsOf (deed.target c)),
      start.get? m = some .directory := by
    intro m hm
    have hne : m ≠ (deed.target c).place cwd := by
      rintro rfl
      exact hdir (hleads.2 _ hm)
    rcases hstart.way_cases hinside hdetours (passed_stepsOf_subset hm) with hprefix | h
    · exact hstart.get?_of_prefix hsome hprefix hne
    · exact h
  have hexists : start.pathExists cwd (deed.target c) := hstart.pathExists_iff.2 ⟨⟨hleads.1, hway⟩, hsome⟩
  simp [hmissing] at hexists

theorem spares_does (deed : Deed) {s : Text} (hd : w.disk.Plain) (hinside : Config.isInside (deed.path c)) :
    (Scaffold.writeMissing (deed.target c) s).Does (deed.May c w.cwd w.disk) (fun _ _ => True) w := by
  refine (writeMissing_does hd).mono (fun d change h => ?_) fun _ _ _ => trivial
  obtain ⟨hmissing, hopens | hwrite⟩ := h
  · exact .inl hopens
  · exact Deed.may_of_puts (.inr hwrite) fun _ => Deed.vacant_of_missing hd hinside hmissing hwrite

/-- Writing a page reads the document and leaves the converted text at its place. -/
theorem migratePage_does (n : Navigation) (doc : Document) (hd : w.disk.Plain) :
    (Migration.migratePage c n doc).Does
      (Puts w.cwd ((Deed.page doc).target c))
      (fun page d => page = Migration.pageOf c n doc ∧ ((Deed.page doc).target c).endsAsDirectory = false ∧
        ∃ s, w.disk.readText w.cwd doc.path = .ok s ∧
          d.Stands w.cwd ((Deed.page doc).target c) (.text (Migration.pageText c n doc s))) w := by
  refine does_readAt_bind fun text htext => place_does hd fun cs hcs => ?_
  exact does_bind (does_reportedAt (writeText_does (plain_after_opens hd hcs))) (fun _ _ => id)
    fun _ _ _ hdone => does_pure ⟨rfl, hdone.2, text, htext, hdone.1⟩

theorem migratePage_may (n : Navigation) (doc : Document) (hd : w.disk.Plain) :
    (Migration.migratePage c n doc).Does ((Deed.page doc).May c w.cwd w.disk) (fun _ _ => True) w :=
  (migratePage_does n doc hd).mono (fun _ _ h => Deed.may_of_puts h False.elim) fun _ _ _ => trivial

theorem copyTree_does {source target : Path} (hd : w.disk.Plain) (htarget : target.text ≠ []) :
    (CopiedAsset.copyTree source target).Does
      (Copies (fun _ _ => True) (target.way w.cwd) (target.place w.cwd))
      (fun _ d => ∀ m ∈ source.way w.cwd, d.get? m = some .directory) w :=
  (CopiedAsset.copyTreeWithin_does (fun _ => id) hd (fun _ _ hd h => hd.apply_fits h.fits)
    (fun _ _ _ _ _ => trivial) htarget).mono (fun _ _ => id) fun _ _ h => h.2.2.1

theorem makeRoom_does {target : Path} {replace : Bool} (hd : w.disk.Plain) :
    (CopiedAsset.makeRoom target replace).Does (Clears (target.place w.cwd)) (fun _ d =>
      (if replace && w.disk.pathExists w.cwd target then
        ∀ m, target.place w.cwd <+: m → d.get? m = none
      else d = w.disk) ∧ ∀ m, ¬ target.place w.cwd <+: m → d.get? m = w.disk.get? m) w := by
  refine does_ask_bind ?_
  split_ifs with h
  · exact does_reportedAt (removeTree_does hd)
  · exact does_pure ⟨rfl, fun _ _ => rfl⟩

theorem copySingle_does (source target : Path) (hd : w.disk.Plain) :
    (CopiedAsset.copyFile source target).Does
      (Puts w.cwd target)
      (fun _ d => ∀ content, w.disk.get? (source.place w.cwd) = some (.file content) →
        source.place w.cwd ≠ target.place w.cwd → d.Stands w.cwd target content) w := by
  refine place_does hd fun cs hcs => (does_reportedAt (copyFile_does (plain_after_opens hd hcs))).mono
    (fun _ _ => id) ?_
  rintro _ d ⟨c, hc, hcopied⟩ content hsource hne
  have hkept : (w.disk.after cs).get? (source.place w.cwd) = some (.file content) :=
    hcs.keeps (I := fun d => d.get? (source.place w.cwd) = some (.file content)) hsource
      fun _ _ hd ho => ho.get?_apply_of_some hd
  obtain rfl : c = content := by simpa [hkept] using hc.symm
  exact hcopied hne

/-- Copying an asset keeps to its target, and the docs directory can be found afterwards if it could be
before. -/
theorem copyAsset_does {a : Asset} (docs : Path) (hd : w.disk.Plain)
    (ha : Config.Contained a.source ∧ Config.Contained a.target) :
    (CopiedAsset.copy docs c.site.root a).Does
      (fun d change => w.disk.pathExists w.cwd (docs.join ⟨a.source⟩) ∧
        (Deed.asset a).May c w.cwd w.disk d change)
      (fun _ d => (∀ m ∈ docs.way w.cwd, w.disk.get? m = some .directory) →
        ∀ m ∈ docs.way w.cwd, d.get? m = some .directory) w := by
  rw [CopiedAsset.copy_eq]
  refine does_ask_bind ?_
  split_ifs with hdir
  · have hexists := pathExists_of_isDirectory hdir
    refine does_bind (makeRoom_does hd) (fun d change h => ⟨hexists, Deed.may_of_clears h⟩)
      fun _ cs hcs _ => ?_
    have hd' : (w.after cs).disk.Plain := hd.after_fits (fun _ _ h => h.1) hcs
    exact does_bind (copyTree_does hd' (Path.join_text_ne_nil ha.2.ne_nil))
      (fun _ _ h => ⟨hexists, Deed.may_of_copies h⟩)
      fun _ _ _ hway => does_pure fun _ m hm => hway m (Path.way_subset_join ha.1.2 hm)
  · refine does_ask_bind ?_
    split_ifs with hfile
    · have hexists := pathExists_of_isFile hfile
      exact does_bind (copySingle_does _ _ hd) (fun _ _ h => ⟨hexists, Deed.may_of_puts h False.elim⟩)
        fun _ _ hcs _ => does_pure fun hdocs => hcs.keeps
          (I := fun d => ∀ m ∈ docs.way w.cwd, d.get? m = some .directory) hdocs
          fun _ _ hd hc m hm => hc.keeps_directory (hd m hm)
    · exact does_pure id

end Works

end DocsMigration
