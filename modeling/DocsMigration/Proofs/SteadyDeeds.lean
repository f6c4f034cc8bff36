import DocsMigration.Proofs.ApartSource
import DocsMigration.Proofs.DeedEffects
/-! Deeds on steady ground. Between two deeds the source is as it was, and the directories exist that a run
needs; a deed that succeeds leaves it so. Hence what a deed reads is found on the disk that the run started
from, and its effects are the same whenever it is done. -/

namespace DocsMigration

open Disk Work Effect

namespace ApartSource

variable {c : Config} (S : ApartSource c)

section Reading

/-- Whether a path leads through the docs directory: all places on its way are on the way there, or in the
source. -/
def Reads (p : Path) : Prop := ∀ m ∈ p.way S.cwd, m ∈ S.docs.way S.cwd ∨ S.source <+: m

variable {S} {d : Disk} {p q : Path} {r : List Name}

theorem reads_join (hq : Config.isInside q) : S.Reads (S.docs.join q) := fun _ hm =>
  (Path.way_join_cases hq hm).imp_right fun h => S.holds.trans h.1

theorem reads_descend (hr : ∀ n ∈ r, n.Proper) : S.Reads (S.docs.descend r) := fun _ hm =>
  ((Path.mem_way_descend hr).1 hm).imp_right fun h => S.holds.trans h.1

theorem Steady.eq_src (h : S.Steady d) (hp : S.Reads p) :
    ∀ m ∈ p.way S.cwd, d.get? m = S.src.get? m := by
  intro m hm
  rcases hp m hm with hm | hm
  · rw [h.docs m hm, (S.plain.isDirectory_iff.1 S.opened).2 m hm]
  · exact h.agrees m hm

theorem Steady.entry?_eq (h : S.Steady d) (hp : S.Reads p) :
    d.entry? S.cwd p = S.src.entry? S.cwd p :=
  h.plain.entry?_congr S.plain (h.eq_src hp)

theorem Steady.readText_eq (h : S.Steady d) (hp : S.Reads p) :
    d.readText S.cwd p = S.src.readText S.cwd p := by
  rw [readText, readFile, h.plain.find_congr S.plain (h.eq_src hp)]
  rfl

end Reading

section Deeds

variable {S} {deed : Deed} {w : Workspace} {α : Type}

theorem Steady.untouched_does {work : MigrationWork α} {Q : α → Disk → Prop} (h : S.Steady w.disk)
    (deed : Deed) (hinside : Config.isInside (deed.path c))
    (hmay : work.Does (deed.May c S.cwd w.disk) Q w) :
    work.Does (fun d change => S.Untouched (d.apply change)) Q w :=
  (hmay.with (h.undisturbed deed hinside) fun _ _ hd hc => hd.apply w.disk hinside hc).mono
    (fun _ _ hc => (hc.1.apply w.disk hinside hc.2).toUntouched) fun _ _ hd => hd.2

theorem Steady.apply {d start : Disk} {change : Change} (h : S.Steady d)
    (hinside : Config.isInside (deed.path c)) (hmay : deed.May c S.cwd start d change)
    (hchange : d.Puts S.cwd (deed.target c) change) : S.Steady (d.apply change) :=
  ⟨((h.undisturbed deed hinside).apply start hinside hmay).toUntouched,
    fun m hm => hchange.keeps_directory (h.docs m hm), fun b hb => hchange.keeps_directory (h.detours b hb)⟩

theorem Steady.does {work : MigrationWork α} {Q : α → Disk → Prop} (h : S.Steady w.disk)
    (deed : Deed) (hinside : Config.isInside (deed.path c))
    (hmay : work.Does (deed.May c S.cwd w.disk) (fun _ _ => True) w)
    (hdoes : work.Does (Puts S.cwd (deed.target c)) Q w) :
    work.Does (fun d change => S.Steady (d.apply change) ∧ d.Puts S.cwd (deed.target c) change)
      (fun a d => Q a d ∧ S.Steady d) w :=
  ((hmay.and hdoes).with h fun _ _ hd hc => hd.apply hinside hc.1 hc.2).mono
    (fun _ _ hc => ⟨hc.1.apply hinside hc.2.1 hc.2.2, hc.2.2⟩) fun _ _ hd => ⟨hd.2.2, hd.1⟩

section Assets

variable {a : Asset} {source : Path} {count : Nat} {w' : Workspace}

/-- Copying a directory leaves everything steady, even if it was not before because the place of the
target had been cleared. -/
theorem Undisturbed.copyTree_does (h : S.Undisturbed (.asset a) w.disk) (hcwd : w.cwd = S.cwd)
    (ha : Config.Contained a.target) (hsource : S.source <+: source.place S.cwd)
    (hdocs : S.docs.way S.cwd ⊆ source.way S.cwd) :
    (CopiedAsset.copyTree source ((Deed.asset a).target c)).Does
      (Copies (fun r e => S.src.get? (source.place S.cwd ++ r) = some e)
        (((Deed.asset a).target c).way S.cwd) (((Deed.asset a).target c).place S.cwd))
      (fun count d => (count = S.src.filesWithin pathLimit (source.place S.cwd) ∧ S.Steady d) ∧
        Addresses ((Deed.asset a).target c) ((Deed.asset a).target c).names ∧
        (∀ m ∈ ((Deed.asset a).target c).way S.cwd, d.get? m = some .directory) ∧
        ∀ l, (copying S.cwd ((Deed.asset a).target c) S.src (source.place S.cwd) l).Met (d.get? l)) w := by
  have hbelow (r : Location) : S.source <+: source.place S.cwd ++ r :=
    hsource.trans (List.prefix_append _ r)
  have hkeep : ∀ d change, S.Undisturbed (.asset a) d →
      d.Copies (fun r e => S.src.get? (source.place S.cwd ++ r) = some e)
        (((Deed.asset a).target c).way S.cwd) (((Deed.asset a).target c).place S.cwd) change →
      S.Undisturbed (.asset a) (d.apply change) :=
    fun d change hd hc => hd.apply d ha.2 (Deed.may_of_copies hc)
  have hcopy : (CopiedAsset.copyTree source ((Deed.asset a).target c)).Does _ _ w :=
    CopiedAsset.copyTreeWithin_does (I := S.Undisturbed (.asset a)) (fun _ hd => hd.plain) h (hcwd ▸ hkeep)
      (fun d hd r e hr => by rwa [hd.agrees _ (hcwd ▸ hbelow r)] at hr) (Path.join_text_ne_nil ha.ne_nil)
  rw [hcwd] at hcopy
  refine (hcopy.with h hkeep).mono (fun _ _ hc => hc.2) ?_
  rintro count d ⟨hd, haddr, hway, hsource', hfinished⟩
  have hne : source.place S.cwd ≠ ((Deed.asset a).target c).place S.cwd := fun heq =>
    (S.apart_target (.asset a) ha.2).1 (heq ▸ hsource)
  obtain ⟨hcount, hcopied⟩ := hfinished S.src ⟨S.plain, fun d hd r => hd.agrees _ (hbelow r), hne⟩
  refine ⟨⟨hcount, hd.toUntouched, fun m hm => hsource' m (hdocs hm), fun b hb => ?_⟩, haddr, hway,
    met_copying hway hcopied⟩
  exact hway b (Path.way_subset_join ha.2 (Path.detours_subset_way hb))

/-- If a directory was copied to a path that led nowhere, then nothing was at the place of the path. -/
theorem Steady.vacant_of_copyTree (h : S.Steady w.disk) (hcwd : w.cwd = S.cwd)
    (ha : Config.Contained a.target) (hsource : S.source <+: source.place S.cwd)
    (hdocs : S.docs.way S.cwd ⊆ source.way S.cwd)
    (hdir : S.src.get? (source.place S.cwd) = some .directory)
    (hmissing : w.disk.pathExists S.cwd ((Deed.asset a).target c) = false)
    (hout : (CopiedAsset.copyTree source ((Deed.asset a).target c)).outcome w = (.ok count, w'))
    {l : Location} (hl : ((Deed.asset a).target c).place S.cwd <+: l) : w.disk.get? l = none := by
  obtain ⟨cs, hw, hcs, hdone⟩ := (h.undisturbed (.asset a) ha.2).copyTree_does hcwd ha hsource hdocs
  rw [hout] at hw hdone
  obtain ⟨-, haddr, hway, -⟩ := hdone count rfl
  have hplace : w.disk.get? (((Deed.asset a).target c).place S.cwd) = none := by
    cases hfound : w.disk.get? (((Deed.asset a).target c).place S.cwd) with
    | none => rfl
    | some e =>
      cases e with
      | link target => exact absurd hfound (h.plain.linkless _ target)
      | directory =>
        have hleads : w.disk.Leads S.cwd ((Deed.asset a).target c) :=
          h.plain.leads_of_directory ha.2 h.detours haddr hfound
        have hexists := h.plain.pathExists_iff.2 ⟨hleads, by simp [hfound]⟩
        simp [hmissing] at hexists
      | file content =>
        -- the copy has a directory there, so the file would still be there
        have hstill := hcs.keeps (I := fun d =>
            d.get? (((Deed.asset a).target c).place S.cwd) = some (.file content)) hfound ?_
        · have hnow := hway _ Location.along_mem_visited
          exact absurd (hstill.symm.trans hnow) (by simp)
        · intro d change hd hc
          cases hc with
          | opens ho | directory ho => exact ho.get?_apply_of_some hd
          | @file r shown _ hr hc =>
            obtain ⟨content', rfl⟩ := hc
            rw [get?_apply_of_ne, hd]
            intro heq
            obtain rfl : r = [] := by simpa [Change.location] using heq
            simp [hdir] at hr
  by_contra hsome
  by_cases heq : ((Deed.asset a).target c).place S.cwd = l
  · exact hsome (heq ▸ hplace)
  · have hdirectory := h.plain.get?_of_prefix hsome hl heq
    simp [hplace] at hdirectory

theorem Steady.replace_achieves (h : S.Steady w.disk) (hcwd : w.cwd = S.cwd)
    (ha : Config.Contained a.target) (hsource : S.source <+: source.place S.cwd)
    (hdocs : S.docs.way S.cwd ⊆ source.way S.cwd)
    (hdir : S.src.get? (source.place S.cwd) = some .directory) :
    (CopiedAsset.makeRoom ((Deed.asset a).target c) a.replace >>= fun _ =>
      CopiedAsset.copyTree source ((Deed.asset a).target c)).Achieves
        (fun l => (clearing S.cwd ((Deed.asset a).target c) a.replace l).followedBy
          (copying S.cwd ((Deed.asset a).target c) S.src (source.place S.cwd) l)) []
        (fun count d => count = S.src.filesWithin pathLimit (source.place S.cwd) ∧ S.Steady d) w := by
  have hundisturbed := h.undisturbed (.asset a) ha.2
  have hcopy {w' : Workspace} (hcwd' : w'.cwd = S.cwd) (h' : S.Undisturbed (.asset a) w'.disk) :
      (CopiedAsset.copyTree source ((Deed.asset a).target c)).Achieves
        (copying S.cwd ((Deed.asset a).target c) S.src (source.place S.cwd)) []
        (fun count d => count = S.src.filesWithin pathLimit (source.place S.cwd) ∧ S.Steady d) w' :=
    achieves_of_does ((h'.copyTree_does hcwd' ha hsource hdocs).mono (fun _ _ => permits_copying)
      fun _ _ hd => ⟨hd.2.2.2, hd.1⟩)
  rw [CopiedAsset.makeRoom, bind_assoc]
  refine achieves_ask_bind ?_
  rw [hcwd]
  by_cases hclear : a.replace && w.disk.pathExists S.cwd ((Deed.asset a).target c)
  · have hreplace : a.replace = true := (Bool.and_eq_true_iff.1 hclear).1
    rw [if_pos hclear, hreplace]
    have hremove := removeTree_does (p := (Deed.asset a).target c) h.plain
    rw [hcwd] at hremove
    have hcleared : (removeTree ((Deed.asset a).target c)).Does
        (Permits (clearing S.cwd ((Deed.asset a).target c) true))
        (fun _ d => (∀ l, (clearing S.cwd ((Deed.asset a).target c) true l).Met (d.get? l)) ∧
          S.Undisturbed (.asset a) d) w :=
      (hremove.with hundisturbed fun d change hd hc => hd.apply d ha.2 (Deed.may_of_clears hc)).mono
        (fun _ _ hc => permits_clearing hc.2) fun _ _ hd => ⟨met_clearing hd.2.1, hd.1⟩
    exact achieves_bind (achieves_of_does (does_reportedAt hcleared)) fun _ cs hd => hcopy hcwd hd
  · rw [if_neg hclear]
    change (CopiedAsset.copyTree source ((Deed.asset a).target c)).Achieves _ _ _ _
    intro count w' hout
    obtain ⟨cs, hw, hcs, hdone⟩ := hcopy hcwd hundisturbed count w' hout
    refine ⟨cs, hw, hcs.cleared fun l => ?_, hdone⟩
    unfold clearing
    split_ifs with hl
    · have hmissing : w.disk.pathExists S.cwd ((Deed.asset a).target c) = false := by
        simpa [hl.1] using hclear
      exact .inr ⟨rfl, h.vacant_of_copyTree hcwd ha hsource hdocs hdir hmissing hout hl.2⟩
    · exact .inl rfl

def sourceOf (S : ApartSource c) (a : Asset) : Path := S.docs.join ⟨a.source⟩

/-- The effects of copying an asset: they depend on what the source is. -/
def assetEffect (S : ApartSource c) (a : Asset) (l : Location) : Effect :=
  match S.src.entry? S.cwd (S.sourceOf a) with
  | some .directory => (clearing S.cwd ((Deed.asset a).target c) a.replace l).followedBy
      (copying S.cwd ((Deed.asset a).target c) S.src ((S.sourceOf a).place S.cwd) l)
  | some (.file content) => writing S.cwd ((Deed.asset a).target c) content l
  | _ => .keep

def copiedAsset (S : ApartSource c) (a : Asset) : Option CopiedAsset :=
  match S.src.entry? S.cwd (S.sourceOf a) with
  | some .directory =>
    some ⟨⟨a.target⟩, S.src.filesWithin pathLimit ((S.sourceOf a).place S.cwd)⟩
  | some (.file _) => some ⟨⟨a.target⟩, 1⟩
  | _ => none

theorem source_prefix (S : ApartSource c) (ha : Config.Contained a.source) :
    S.source <+: (S.sourceOf a).place S.cwd :=
  S.holds.trans (Path.place_prefix_join ha.2)

theorem Steady.single_achieves {content : Content} (h : S.Steady w.disk) (hcwd : w.cwd = S.cwd)
    (ha : Config.Contained a.source ∧ Config.Contained a.target)
    (hshown : S.src.entry? S.cwd (S.sourceOf a) = some (.file content)) :
    (CopiedAsset.copyFile (S.sourceOf a) ((Deed.asset a).target c)).Achieves
      (writing S.cwd ((Deed.asset a).target c) content) [] (fun _ d => S.Steady d) w := by
  have hsource := S.source_prefix ha.1
  have hcontent : w.disk.get? ((S.sourceOf a).place S.cwd) = some (.file content) := by
    rw [h.agrees _ hsource]
    exact (S.plain.entry?_eq_some.1 hshown).2
  have hne : (S.sourceOf a).place S.cwd ≠ ((Deed.asset a).target c).place S.cwd := fun heq =>
    (S.apart_target (.asset a) ha.2.2).1 (heq ▸ hsource)
  have hcopy := copySingle_does (S.sourceOf a) ((Deed.asset a).target c) h.plain
  rw [hcwd] at hcopy
  have hmay : (CopiedAsset.copyFile (S.sourceOf a) ((Deed.asset a).target c)).Does
      ((Deed.asset a).May c S.cwd w.disk) (fun _ _ => True) w :=
    hcopy.mono (fun _ _ hc => Deed.may_of_puts hc False.elim) fun _ _ _ => trivial
  exact achieves_of_does ((h.does (.asset a) ha.2.2 hmay hcopy).mono (fun _ _ hc => permits_writing hc.2)
    fun _ _ hd => ⟨met_writing (hd.1 content hcontent hne), hd.2⟩)

/-- Copying an asset has the effects that the source tells, and reports what is found there. -/
theorem Steady.asset_achieves (h : S.Steady w.disk) (hcwd : w.cwd = S.cwd)
    (ha : Config.Contained a.source ∧ Config.Contained a.target) :
    (CopiedAsset.copy S.docs c.site.root a).Achieves (S.assetEffect a) []
      (fun copied d => copied = S.copiedAsset a ∧ S.Steady d) w := by
  have hsource := S.source_prefix ha.1
  have hentry : w.disk.entry? S.cwd (S.docs.join ⟨a.source⟩) = S.src.entry? S.cwd (S.sourceOf a) :=
    h.entry?_eq (reads_join ha.1.2)
  rw [CopiedAsset.copy_eq]
  refine achieves_ask_bind ?_
  rw [isDirectory, hcwd, hentry]
  unfold assetEffect copiedAsset
  by_cases hdir : S.src.entry? S.cwd (S.sourceOf a) = some .directory
  · rw [hdir, if_pos (by rfl)]
    have hplace := (S.plain.entry?_eq_some.1 hdir).2
    have hreplace := h.replace_achieves hcwd ha.2 hsource (Path.way_subset_join ha.1.2) hplace
    rw [← bind_assoc]
    refine (achieves_bind hreplace fun count cs hd => achieves_pure ?_).congr fun l => followedBy_keep
    exact ⟨by rw [hd.1], hd.2⟩
  · rw [if_neg (by simpa using hdir)]
    refine achieves_ask_bind ?_
    rw [isFile, hcwd, hentry]
    cases hshown : S.src.entry? S.cwd (S.sourceOf a) with
    | none => exact achieves_pure ⟨rfl, h⟩
    | some e =>
      cases e with
      | directory => exact absurd hshown hdir
      | link => exact achieves_pure ⟨rfl, h⟩
      | file content =>
        have hsingle := h.single_achieves hcwd ha hshown
        exact (achieves_bind hsingle fun _ cs hd => achieves_pure ⟨rfl, hd⟩).congr fun l => followedBy_keep

theorem Steady.asset_untouched (h : S.Steady w.disk) (hcwd : w.cwd = S.cwd)
    (ha : Config.Contained a.source ∧ Config.Contained a.target) :
    (CopiedAsset.copy S.docs c.site.root a).Does (fun d change => S.Untouched (d.apply change))
      (fun _ d => S.Steady d) w := by
  have hmay := (copyAsset_does (c := c) S.docs h.plain ha).mono (fun _ _ hc => hc.2) fun _ _ => id
  rw [hcwd] at hmay
  have hdoes := (h.untouched_does (.asset a) ha.2.2 hmay).and_achieves (h.asset_achieves hcwd ha)
  exact hdoes.mono (fun _ _ => id) fun _ _ hd => hd.2.2

end Assets

section Pages

variable {n : Navigation} {doc : Document}

def pageEffect (S : ApartSource c) (n : Navigation) (doc : Document) (l : Location) : Effect :=
  match S.src.readText S.cwd doc.path with
  | .ok s => writing S.cwd ((Deed.page doc).target c) (.text (Migration.pageText c n doc s)) l
  | .error _ => .keep

theorem fills_pageEffect (S : ApartSource c) (l : Location) : (S.pageEffect n doc l).Fills .directory := by
  unfold pageEffect
  split
  · unfold writing wayEntry
    split_ifs <;> trivial
  · trivial

theorem Steady.writes_page (h : S.Steady w.disk) (hcwd : w.cwd = S.cwd)
    (hinside : Config.isInside ((Deed.page doc).path c)) :
    (Migration.migratePage c n doc).Does (fun d change => S.Steady (d.apply change) ∧
      d.Puts S.cwd ((Deed.page doc).target c) change) (fun _ d => S.Steady d) w := by
  have hpage := migratePage_does (c := c) n doc h.plain
  have hmay := migratePage_may (c := c) n doc h.plain
  rw [hcwd] at hpage hmay
  exact (h.does (.page doc) hinside hmay hpage).mono (fun _ _ => id) fun _ _ hd => hd.2

/-- Wherever the task of a page is stopped, the ground is steady and the page is underway. -/
theorem Steady.page_stopped (h : S.Steady w.disk) (hcwd : w.cwd = S.cwd) (hreads : S.Reads doc.path)
    (hinside : Config.isInside ((Deed.page doc).path c)) {ps : List Change}
    (hps : ps <+: (Migration.migratePage c n doc).steps w) : S.Steady (w.disk.after ps) ∧
      ∀ l, (S.pageEffect n doc l).Underway (w.disk.get? l) ((w.disk.after ps).get? l) := by
  have hwrites := h.writes_page (n := n) hcwd hinside
  refine ⟨(hwrites.mono (fun _ _ hc => hc.1) fun _ _ => id).holds h hps, fun l => ?_⟩
  unfold pageEffect
  split
  · obtain ⟨cs, hw, hcs, -⟩ := hwrites
    rw [steps_eq hw] at hps
    exact underway_of_permits ((hcs.initial hps).mono fun _ _ hc => permits_writing hc.2) l
  · rename_i e hs
    -- a document that cannot be read is not written
    have hread : w.disk.readText w.cwd doc.path = .error e := by rw [hcwd, h.readText_eq hreads, hs]
    have hout : ((Migration.migratePage c n doc).outcome w).2 = w.after [] := by
      rw [Migration.migratePage, outcome_bind, outcome_reportedAt, outcome_inspect, hread]
      simp [Except.mapError]
    rw [steps_eq hout, List.prefix_nil] at hps
    rw [hps]
    exact underway_self

theorem Steady.page_achieves (h : S.Steady w.disk) (hcwd : w.cwd = S.cwd) (hreads : S.Reads doc.path)
    (hinside : Config.isInside ((Deed.page doc).path c)) :
    (Migration.migratePage c n doc).Achieves (S.pageEffect n doc) []
      (fun page d => page = Migration.pageOf c n doc ∧ S.Steady d) w := by
  have htext := h.readText_eq hreads
  have hsteady := h.writes_page (n := n) hcwd hinside
  cases hs : S.src.readText S.cwd doc.path with
  | error e =>
    intro page w' hout
    obtain ⟨cs, hw, -, hdone⟩ := migratePage_does (c := c) n doc h.plain
    rw [hout] at hdone
    obtain ⟨-, -, s, hs', -⟩ := hdone page rfl
    simp [hcwd, htext, hs] at hs'
  | ok s =>
    have hread : w.disk.readText w.cwd doc.path = .ok s := by rw [hcwd, htext, hs]
    have hachieves := (migratePage_achieves (c := c) (n := n) h.plain hread).and_does hsteady
    rw [hcwd] at hachieves
    exact hachieves.congr fun l => by rw [pageEffect, hs]

end Pages

section Scaffold

variable {s : Text}

theorem Steady.missing_untouched (h : S.Steady w.disk) (deed : Deed) (hcwd : w.cwd = S.cwd)
    (hinside : Config.isInside (deed.path c)) :
    (Scaffold.writeMissing (deed.target c) s).Does (fun d change => S.Untouched (d.apply change))
      (fun _ d => S.Steady d) w := by
  have hmissing := writeMissing_does (p := deed.target c) (s := s) h.plain
  have hmay := spares_does deed (s := s) h.plain hinside
  rw [hcwd] at hmissing hmay
  exact (h.does deed hinside hmay (hmissing.mono (fun _ _ hc => hc.2) fun _ _ => id)).mono
    (fun _ _ hc => hc.1.toUntouched) fun _ _ hd => hd.2

theorem Steady.missing_achieves (h : S.Steady w.disk) (deed : Deed) (hcwd : w.cwd = S.cwd)
    (hinside : Config.isInside (deed.path c)) :
    (Scaffold.writeMissing (deed.target c) s).Achieves (filling S.cwd (deed.target c) (.text s))
      [(deed.target c).place S.cwd] (fun _ d => S.Steady d) w := by
  have hfills := writeMissing_achieves (s := s) h.plain hinside (hcwd ▸ h.detours)
  rw [hcwd] at hfills
  exact (hfills.and_does (h.missing_untouched deed hcwd hinside)).mono fun _ _ hd => hd.2

end Scaffold

end Deeds

end ApartSource

end DocsMigration
