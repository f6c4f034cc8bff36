import DocsMigration.Proofs.PageTasks
/-! Runs whose pages are written in some order. The tasks of the pages can be executed in any order, and the
pages are reported in the order of their documents. When the tasks have their turn, the directories exist
that lead to the docs directory and to the root of the site, and nothing but directories has come to the
source. So what the tasks read was there when the run started, and a run that succeeds with one schedule
succeeds with every other, reports the same and leaves the same tree. -/

namespace DocsMigration

open Disk Work Effect

section Ground

variable {c : Config} {docs : Path} {cwd source : Location} {found : List Document} {start d d' : Disk}
  {deed : Deed} {change : Change} {h : History}

/-- A deed brings nothing but directories to what is apart from the site. -/
theorem Deed.May.grown (hmay : deed.May c cwd start d' change)
    (hinside : ∀ l, deed.Owns c cwd l → c.site.root.place cwd <+: l)
    (hapart : source.Apart (c.site.root.place cwd)) (h : Document.GrownBelow source d d') :
    Document.GrownBelow source d (d'.apply change) := by
  intro r
  by_cases heq : source ++ r = change.location
  · rcases hmay with hopens | ⟨-, howns, -⟩
    · rw [heq, hopens.get?_self, ← heq]
      refine .inr ⟨?_, rfl⟩
      rcases h r with hsame | ⟨hnone, -⟩
      · rw [← hsame, heq]
        exact hopens.2.1
      · exact hnone
    · have hsite := hinside _ howns
      exact absurd (List.prefix_append source r) (heq ▸ hapart.not_above (.inr hsite))
  · rw [get?_apply_of_ne heq]
    exact h r

theorem Happens.grown (hh : Happens c docs cwd found d h)
    (hinside : ∀ x ∈ h, ∀ l, x.1.Owns c cwd l → c.site.root.place cwd <+: l)
    (hapart : source.Apart (c.site.root.place cwd)) (hstart : Document.GrownBelow source start d) :
    Document.GrownBelow source start (d.after h.steps) := by
  induction h generalizing d with
  | nil => exact hstart
  | cons x rest ih =>
    obtain ⟨deed, cs⟩ := x
    obtain ⟨hx, hrest⟩ := List.forall_mem_cons.1 hinside
    rw [History.steps_cons, after_append]
    refine ih hh.2.2 hrest ?_
    exact hh.2.1.keeps (I := Document.GrownBelow source start) hstart
      fun _ _ hd hmay => hmay.grown hx hapart hd

end Ground

namespace Migration

section Before

variable {c : Config} {docs : Path} {w w' : Workspace} {before : List CopiedAsset × Bool}

/-- What is done before the scan leaves the docs directory where it is, and makes the root of the site one
that can be found. -/
theorem beforeScan_does (hsound : c.Sound) (hd : w.disk.Plain)
    (hdocs : ∀ m ∈ docs.way w.cwd, w.disk.get? m = some .directory) :
    (beforeScan c docs).Does Fits (fun _ d => (∀ m ∈ docs.way w.cwd, d.get? m = some .directory) ∧
      ∀ m ∈ c.site.root.way w.cwd, d.get? m = some .directory) w := by
  have hassets : (CopiedAsset.copyAll docs c.site.root c.assets).Does Fits
      (fun _ d => d.Plain ∧ ∀ m ∈ docs.way w.cwd, d.get? m = some .directory) w := by
    refine does_bind (does_mapM (J := fun d => d.Plain ∧ ∀ m ∈ docs.way w.cwd, d.get? m = some .directory)
      ⟨hd, hdocs⟩ fun a ha w' hcwd hJ => ?_) (fun _ _ => id) fun _ _ _ hJ => does_pure hJ
    obtain ⟨hd', hdocs'⟩ := hJ
    have hcopy := copyAsset_does (c := c) docs hd' (hsound.assets a ha)
    rw [hcwd] at hcopy
    exact (hcopy.with hd' fun _ _ hd hc => hd.apply_fits hc.2.fits).mono (fun _ _ hc => hc.2.2.fits)
      fun _ _ hd => ⟨hd.1, hd.2 hdocs'⟩
  refine does_bind hassets (fun _ _ => id) fun _ cs _ hJ => ?_
  obtain ⟨hd', hdocs'⟩ := hJ
  have hhead := writeMissing_does (w := w.after cs) (p := Deed.headPartial.target c)
    (s := Scaffold.headPartial) hd'
  refine does_bind ((hhead.with (I := fun d => ∀ m ∈ docs.way w.cwd, d.get? m = some .directory) hdocs'
    fun _ _ hd hc m hm => hc.2.keeps_directory (hd m hm)).mono (fun _ _ hc => hc.2.2.fits) fun _ _ => id)
    (fun _ _ => id) fun _ _ _ hdone => does_pure ⟨hdone.1, fun m hm => hdone.2.passed m ?_⟩
  exact Path.way_subset_passed_join isInside_headPartialPath (by decide) hm

/-- What the tasks of the pages find: the tree is as it was in the source, but for new directories, and the
docs directory and the root of the site can be found. -/
theorem found_beforeScan {source : Location} (hsound : c.Sound) (hd : w.disk.Plain)
    (hopened : w.disk.isDirectory w.cwd docs) (hapart : source.Apart (c.site.root.place w.cwd))
    (hbefore : (beforeScan c docs).outcome w = (.ok before, w')) :
    w'.cwd = w.cwd ∧ w'.disk.Plain ∧ w'.disk.isDirectory w.cwd docs ∧
      (∀ m ∈ c.site.root.way w.cwd, w'.disk.get? m = some .directory) ∧
        Document.GrownBelow source w.disk w'.disk := by
  have hdocs := hd.isDirectory_iff.1 hopened
  obtain ⟨cs, hw, hcs, hdone⟩ := beforeScan_does hsound hd hdocs.2
  obtain ⟨h, hw', hh⟩ := beforeScan_acts hsound docs hd
  rw [hbefore] at hw hw' hdone
  obtain rfl : w' = w.after h.steps := hw'
  have hplain := hh.plain hd
  obtain ⟨hdocs', hsite⟩ := hdone before rfl
  have hsame : w.disk.after cs = w.disk.after h.steps := congrArg Workspace.disk hw.symm
  rw [hsame] at hdocs' hsite
  refine ⟨rfl, hplain, hplain.isDirectory_iff.2 ⟨hdocs.1, hdocs'⟩, hsite, ?_⟩
  exact hh.grown (owns_inside hsound (by simp) hh) hapart fun r => .inl rfl

end Before

section Orders

open Checkout

variable {env : Environment} {v w w' : Workspace} {file : Option Path} {overrides : Overrides}
  {c : Config} {report : Report}

/-- Every document is migrated once, and none overwrites another. A run that succeeds, with the tasks of the
pages executed in whatever order, reports exactly the documents that are in the docs directory when it
starts, in strictly increasing order of their relative paths. They go to different places, and at the end
of the run each place has what the text of its document is converted to. Executed in any other order, the
tasks succeed too, and the run reports the same and leaves the same tree. The source is apart from the
site, and there are no links. -/
theorem pages_in_any_order (repositories : Repositories) (schedule : Schedule)
    (hload : Config.load env v file overrides = .ok c)
    (hplain : (opened repositories (chosen c.source w) w.disk).Plain)
    (hapart : ((chosen c.source w).root.place w.cwd).Apart (c.site.root.place w.cwd))
    (hrun : (runBy schedule repositories c).outcome w = (.ok report, w')) :
    ∃ n found,
      navigationOf c (chosen c.source w) (opened repositories (chosen c.source w) w.disk) w.cwd = .ok n ∧
      Document.scan (opened repositories (chosen c.source w) w.disk) w.cwd (docsOf c (chosen c.source w)) =
        .ok found ∧
      Document.Lists (docsOf c (chosen c.source w)) []
        (Document.Lies (opened repositories (chosen c.source w) w.disk)
          ((docsOf c (chosen c.source w)).place w.cwd)) found ∧
      report.pages = found.map (pageOf c n) ∧
      (report.pages.Pairwise fun a b => a.source < b.source) ∧
      (report.pages.map (·.destination)).Nodup ∧
      (∀ doc ∈ found, ∃ s,
        (opened repositories (chosen c.source w) w.disk).readText w.cwd doc.path = .ok s ∧
        w'.disk.get? ((c.site.root.join (Route.destination doc.relPath c.site.homePage)).place w.cwd) =
          some (.file (.text (c.rewriters.convert s (n.pageMeta doc.relPath c.site.defaultWeight))))) ∧
      ∀ other : Schedule, ∃ w'', (runBy other repositories c).outcome w = (.ok report, w'') ∧
        ∀ l, w''.disk.get? l = w'.disk.get? l := by
  have hsound := Config.sound_of_load hload
  obtain ⟨havailable, v₁, hfrom, rfl⟩ := withCheckout_eq_ok.1 hrun
  obtain ⟨n, before, w₂, found, pages, w₃, sections, hn, hbefore, hfound, hpages, hsections, rfl⟩ :=
    runFrom_eq_ok.1 hfrom
  have hopened := (navigationOf_eq_ok hn).1
  obtain ⟨hcwd, hplain₂, hopened₂, hground, hgrown⟩ := found_beforeScan hsound hplain hopened hapart hbefore
  let S : ApartSource c := .ofCheckout hsound hplain₂ hopened₂ hapart
  have hsteady : S.Steady w₂.disk := ⟨⟨hplain₂, fun _ _ => rfl⟩, (hplain₂.isDirectory_iff.1 hopened₂).2,
    fun b hb => hground b (Path.detours_subset_way hb)⟩
  have hlisted : Document.scan S.src S.cwd S.docs = .ok found := by
    have hscan := ((Document.outcome_findAll_eq_ok hplain₂).1 hfound).1
    rwa [hcwd] at hscan
  have horder := schedule.perm found
  have hgrown' := hgrown.within S.holds
  have hstart := Document.scan_of_grown hplain hplain₂ hopened hopened₂ hgrown' hlisted
  obtain ⟨hlists, hsorted⟩ := Document.scan_lists hplain hopened hstart
  refine ⟨n, found, hn, hstart, hlists, rfl, ?_, ?_, fun doc hdoc => ?_, fun other => ?_⟩
  · exact List.pairwise_map.2 hsorted
  · rw [reportOf, List.map_map]
    refine hlists.1.map_on fun doc hdoc doc' hdoc' heq => ?_
    exact S.pagePlace_injective hlisted hdoc hdoc' (congrArg (fun p => (c.site.root.join p).place w.cwd) heq)
  · obtain ⟨s, hs, hfile⟩ := hsteady.pages_written hcwd hlisted horder hpages doc hdoc
    obtain ⟨r, hr, rfl⟩ := Document.exists_of_mem_scan hplain hstart hdoc
    refine ⟨s, Document.readText_of_grown hplain hplain₂ hopened hgrown' (hr.proper hplain) hs, ?_⟩
    have hinside := ApartSource.isInside_page hlisted hdoc
    rw [get?_closed_of_outside (outside_of_apart (hapart.below (Path.place_prefix_join hinside)).1)]
    obtain ⟨cs, rfl, -, -, hsteady₃⟩ := hsteady.pages_achieves hcwd hlisted horder.subset _ w₃ hpages
    exact hsteady₃.sections_keep_file hcwd hsound hsections hfile
  · obtain ⟨pages', w₃', hpages', hcwd', halike⟩ :=
      hsteady.pages_reordered hcwd hground hlisted horder hpages (other.perm found)
    obtain ⟨v, hsections', -, hsame⟩ :=
      (observes_mapM fun _ _ => observes_createSectionIndex).outcome_eq hcwd' halike hsections
    have hother : (runFrom other c (chosen c.source w)).outcome _ = _ := runFrom_eq_ok.2
      ⟨n, before, w₂, found, _, _, sections, hn, hbefore, hfound, hpages', hsections', rfl⟩
    exact ⟨_, withCheckout_eq_ok.2 ⟨havailable, v, hother, rfl⟩,
      fun l => get?_closed_congr fun m => (hsame m).symm⟩

def guideSite : Workspace where
  disk := ⟨[
    (located ["repo"], .directory),
    (located ["repo", "docshift.toml"], .file (.text
      ("assets = []\n[[sections]]\npath = \"content/docs\"\ntitle = \"Docs\"\nweight = 1\n".toList))),
    (located ["repo", "mkdocs.yml"], .file (.text "nav: []\n".toList)),
    (located ["repo", "docs"], .directory),
    (located ["repo", "docs", "index.md"], .file (.text "# Hi\n".toList)),
    (located ["repo", "docs", "guides"], .directory),
    (located ["repo", "docs", "guides", "setup.md"], .file (.text "# Setup\n".toList)),
    (located ["site"], .directory)]⟩
  cwd := []
  journal := []

def guideOverrides : Overrides where
  sourcePath := some ⟨"repo".toList⟩
  siteRoot := some ⟨"site".toList⟩

def guideConfig : Config where
  source := ⟨Config.defaultRepositoryUrl, some ⟨"repo".toList⟩, "docs".toList, "mkdocs.yml".toList⟩
  site := ⟨⟨"site".toList⟩, 99, true⟩
  rewriters := {}
  sections := [⟨"content/docs".toList, "Docs".toList, 1⟩]
  assets := []
  file := some ⟨"repo/docshift.toml".toList⟩

/-- The two pages of the guide, the one for the home page and the one in its section, are written in any
order. -/
theorem guide_pages_in_any_order :
    Config.load [] guideSite (some ⟨"repo/docshift.toml".toList⟩) guideOverrides = .ok guideConfig ∧
    guideSite.disk.Plain ∧
    ((chosen guideConfig.source guideSite).root.place []).Apart (guideConfig.site.root.place []) ∧
    ∃ report w', (run [] guideConfig).outcome guideSite = (.ok report, w') ∧
      report.pages.map (·.source) = ["guides/setup.md".toList, "index.md".toList] ∧
      ∃ n found,
        Document.scan guideSite.disk [] ⟨"repo/docs".toList⟩ = .ok found ∧
        report.pages = found.map (pageOf guideConfig n) ∧
        (report.pages.map (·.destination)).Nodup ∧
        ∀ other : Schedule, ∃ w'', (runBy other [] guideConfig).outcome guideSite = (.ok report, w'') ∧
          ∀ l, w''.disk.get? l = w'.disk.get? l := by
  have hload : Config.load [] guideSite (some ⟨"repo/docshift.toml".toList⟩) guideOverrides =
      .ok guideConfig := by decide +kernel
  have hplain : guideSite.disk.Plain := plain_of_isTree (by decide +kernel)
  have hapart : ((chosen guideConfig.source guideSite).root.place []).Apart (guideConfig.site.root.place []) := by
    decide +kernel
  have hsources : ((run [] guideConfig).outcome guideSite).1.map
      (fun report => report.pages.map (·.source)) =
        .ok ["guides/setup.md".toList, "index.md".toList] := by decide +kernel
  rcases hrun : (run [] guideConfig).outcome guideSite with ⟨_ | report, w'⟩
  · simp [hrun, Except.map] at hsources
  · obtain ⟨n, found, -, hscan, -, hpages, -, hdestinations, -, horders⟩ :=
      pages_in_any_order [] .listed hload hplain hapart (by rw [← run]; exact hrun)
    rw [hrun] at hsources
    exact ⟨hload, hplain, hapart, report, w', rfl, Except.ok.inj hsources, n, found, hscan, hpages,
      hdestinations, horders⟩

end Orders

end Migration

end DocsMigration
