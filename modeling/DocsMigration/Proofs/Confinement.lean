import DocsMigration.Proofs.Destinations
import DocsMigration.Proofs.Phases
/-! What a run may change. The steps of a run fall into deeds, whether the run succeeds or fails, and every
deed keeps to its target, which lies inside the site. A file that no deed owns is still there after the
run, so a source that is used where it is loses nothing, as long as the site does not reach into it. -/

namespace DocsMigration

open Disk

/-- The deeds of a run in their order, each with its steps. -/
abbrev History := List (Deed × List Change)

def History.steps (h : History) : List Change := h.flatMap (·.2)

def Deed.Due (c : Config) (docs : Path) (cwd : Location) (found : List Document) (start : Disk) :
    Deed → Prop
  | .asset a => a ∈ c.assets ∧ start.pathExists cwd (docs.join ⟨a.source⟩)
  | .headPartial => True
  | .page doc => doc ∈ found
  | .index s => s ∈ c.sections

/-- Whether deeds are done one after the other: each is due when it is begun, and does nothing that it may
not do. -/
def Happens (c : Config) (docs : Path) (cwd : Location) (found : List Document) : Disk → History → Prop
  | _, [] => True
  | d, (deed, cs) :: rest =>
    deed.Due c docs cwd found d ∧ d.Allows (deed.May c cwd d) cs ∧
      Happens c docs cwd found (d.after cs) rest

section Histories

variable {c : Config} {docs : Path} {cwd : Location} {found : List Document} {d : Disk}
  {h h' : History}

theorem History.steps_cons {x : Deed × List Change} :
    History.steps (x :: h) = x.2 ++ h.steps := List.flatMap_cons

theorem History.steps_append : (h ++ h').steps = h.steps ++ h'.steps := List.flatMap_append

theorem happens_append : Happens c docs cwd found d (h ++ h') ↔
    Happens c docs cwd found d h ∧ Happens c docs cwd found (d.after h.steps) h' := by
  induction h generalizing d with
  | nil => simp [Happens, History.steps]
  | cons x rest ih =>
    obtain ⟨deed, cs⟩ := x
    simp [Happens, ih, History.steps_cons, after_append, and_assoc]

theorem Happens.plain (hh : Happens c docs cwd found d h) (hd : d.Plain) : (d.after h.steps).Plain := by
  induction h generalizing d with
  | nil => exact hd
  | cons x rest ih =>
    obtain ⟨deed, cs⟩ := x
    rw [History.steps_cons, after_append]
    exact ih hh.2.2 (hd.after_fits (fun _ _ => Deed.May.fits) hh.2.1)

/-- A file stays as it is unless a deed owns its place. -/
theorem Deed.May.keeps_file {deed : Deed} {start : Disk} {change : Change} {l : Location}
    {content : Content} (hmay : deed.May c cwd start d change) (hl : ¬ deed.Owns c cwd l)
    (hfile : d.get? l = some (.file content)) : (d.apply change).get? l = some (.file content) := by
  rcases hmay with hopens | ⟨-, howns, -⟩
  · exact hopens.get?_apply_of_some hfile
  · rw [get?_apply_of_ne, hfile]
    rintro rfl
    exact hl howns

theorem Happens.keeps_file {l : Location} {content : Content} (hh : Happens c docs cwd found d h)
    (hl : ∀ x ∈ h, ¬ x.1.Owns c cwd l) (hfile : d.get? l = some (.file content)) :
    (d.after h.steps).get? l = some (.file content) := by
  induction h generalizing d with
  | nil => exact hfile
  | cons x rest ih =>
    obtain ⟨deed, cs⟩ := x
    rw [History.steps_cons, after_append]
    refine ih hh.2.2 (fun x hx => hl x (List.mem_cons_of_mem _ hx)) ?_
    exact hh.2.1.keeps (I := fun d => d.get? l = some (.file content)) hfile
      fun d change hd hmay => hmay.keeps_file (hl _ List.mem_cons_self) hd

end Histories

namespace Work

variable {ε α β : Type} {c : Config} {docs : Path} {found : List Document} {w : Workspace}

def Acts (c : Config) (docs : Path) (found : List Document) (work : Work ε α) (w : Workspace) : Prop :=
  ∃ h : History, (work.outcome w).2 = w.after h.steps ∧ Happens c docs w.cwd found w.disk h

theorem acts_pure {a : α} : (pure a : Work ε α).Acts c docs found w :=
  ⟨[], by simp [outcome_pure, History.steps], trivial⟩

theorem acts_of_does {work : Work ε α} (deed : Deed) {Q : α → Disk → Prop}
    (h : work.Does (fun d change => deed.Due c docs w.cwd found w.disk ∧
      deed.May c w.cwd w.disk d change) Q w) : work.Acts c docs found w := by
  obtain ⟨cs, hw, hcs, -⟩ := h
  by_cases hne : cs = []
  · exact ⟨[], by rw [hw, hne]; rfl, trivial⟩
  · obtain ⟨change, rest, rfl⟩ := List.exists_cons_of_ne_nil hne
    exact ⟨[(deed, change :: rest)], by simp [hw, History.steps], hcs.1.1,
      hcs.mono fun _ _ => And.right, trivial⟩

theorem acts_bind {x : Work ε β} {f : β → Work ε α} (hx : x.Acts c docs found w)
    (hf : ∀ b h, x.outcome w = (.ok b, w.after h.steps) → Happens c docs w.cwd found w.disk h →
      (f b).Acts c docs found (w.after h.steps)) : (x >>= f).Acts c docs found w := by
  obtain ⟨h, hw, hh⟩ := hx
  rcases hout : x.outcome w with ⟨r, w'⟩
  rw [hout] at hw
  obtain rfl : w' = w.after h.steps := hw
  cases r with
  | error e => exact ⟨h, by simp [outcome_bind, hout], hh⟩
  | ok b =>
    obtain ⟨h', hw', hh'⟩ := hf b h hout hh
    refine ⟨h ++ h', ?_, happens_append.2 ⟨hh, hh'⟩⟩
    simp [outcome_bind, hout, hw', History.steps_append, Workspace.after_append]

theorem acts_throw {e : ε} : (throw e : Work ε α).Acts c docs found w :=
  ⟨[], by simp [outcome_throw, History.steps], trivial⟩

theorem acts_attempt {work : Work ε α} (h : work.Acts c docs found w) : work.attempt.Acts c docs found w := h

theorem acts_mapM {f : β → Work ε α} {xs : List β} (hd : w.disk.Plain)
    (hf : ∀ x ∈ xs, ∀ w' : Workspace, w'.cwd = w.cwd → w'.disk.Plain → (f x).Acts c docs found w') :
    (xs.mapM f).Acts c docs found w := by
  induction xs generalizing w with
  | nil => exact acts_pure
  | cons x rest ih =>
    rw [List.mapM_cons]
    refine acts_bind (hf x (by simp) w rfl hd) fun b h _ hh => acts_bind ?_ fun _ _ _ _ => acts_pure
    exact ih (hh.plain hd) fun y hy => hf y (List.mem_cons_of_mem x hy)

theorem acts_forM {f : β → Work ε Unit} {xs : List β} (hd : w.disk.Plain)
    (hf : ∀ x ∈ xs, ∀ w' : Workspace, w'.cwd = w.cwd → w'.disk.Plain → (f x).Acts c docs found w') :
    (xs.forM f).Acts c docs found w := by
  induction xs generalizing w with
  | nil => exact acts_pure
  | cons x rest ih =>
    refine acts_bind (x := f x) (hf x (by simp) w rfl hd) fun b h _ hh => ?_
    exact ih (hh.plain hd) fun y hy => hf y (List.mem_cons_of_mem x hy)

/-- Tasks that are executed on a schedule do nothing but what each of them does, even when one fails. -/
theorem acts_executeAll {task : Document → MigrationWork MigratedPage} {late : Nat} {order : List Document}
    (hd : w.disk.Plain) (hf : ∀ doc ∈ order, ∀ w' : Workspace, w'.cwd = w.cwd → w'.disk.Plain →
      (task doc).Acts c docs found w') : (Migration.executeAll task late order).Acts c docs found w := by
  induction order generalizing w with
  | nil => exact acts_pure
  | cons doc rest ih =>
    rw [Migration.executeAll]
    refine acts_bind (acts_attempt (hf doc (by simp) w rfl hd)) fun result h _ hh => ?_
    have hrest : ∀ doc ∈ rest, ∀ w' : Workspace, w'.cwd = w.cwd → w'.disk.Plain →
        (task doc).Acts c docs found w' := fun doc hdoc => hf doc (List.mem_cons_of_mem _ hdoc)
    cases result with
    | ok page => exact acts_bind (ih (hh.plain hd) hrest) fun _ _ _ _ => acts_pure
    | error e =>
      refine acts_bind (acts_forM (hh.plain hd) fun doc hdoc w' hcwd hd' => ?_) fun _ _ _ _ => acts_throw
      exact acts_bind (acts_attempt (hrest doc (List.mem_of_mem_take hdoc) w' hcwd hd')) fun _ _ _ _ => acts_pure

end Work

namespace Migration

open Work

variable {schedule : Schedule} {c : Config} {checkout : Checkout} {cwd : Location} {start : Disk} {found : List Document}
  {opening closing : History} {w : Workspace}

/-- What accounts for the steps of a run: the deeds before the scan, of which none is a page, and the deeds
after it. All places that they own are at or below the root of the site. -/
structure Account (c : Config) (checkout : Checkout) (cwd : Location) (start : Disk)
    (found : List Document) (opening closing : History) : Prop where
  opens : Happens c (docsOf c checkout) cwd [] start opening
  scanned : closing ≠ [] →
    Document.scan (start.after opening.steps) cwd (docsOf c checkout) = .ok found
  closes : Happens c (docsOf c checkout) cwd found (start.after opening.steps) closing
  inside : ∀ x ∈ opening ++ closing, ∀ l, x.1.Owns c cwd l → c.site.root.place cwd <+: l

theorem isInside_headPartialPath : Config.isInside Scaffold.headPartialPath := by decide

theorem isInside_sectionIndex {s : Section} (hs : Config.Contained s.path) :
    Config.isInside ((⟨s.path⟩ : Path).join Scaffold.sectionIndexName) :=
  Config.isInside_join hs.2 (by decide)

theorem isInside_of_due (hsound : c.Sound) {docs : Path} {d : Disk} {deed : Deed}
    (hfound : ∀ doc ∈ found, Config.isInside (Route.destination doc.relPath c.site.homePage))
    (hdue : deed.Due c docs cwd found d) : Config.isInside (deed.path c) := by
  cases deed with
  | asset a => exact (hsound.assets a hdue.1).2.2
  | headPartial => exact isInside_headPartialPath
  | page doc => exact hfound doc hdue
  | index s => exact isInside_sectionIndex (hsound.sections s hdue)

theorem owns_inside (hsound : c.Sound) {docs : Path} {d : Disk} {h : History}
    (hfound : ∀ doc ∈ found, Config.isInside (Route.destination doc.relPath c.site.homePage))
    (hh : Happens c docs cwd found d h) :
    ∀ x ∈ h, ∀ l, x.1.Owns c cwd l → c.site.root.place cwd <+: l := by
  induction h generalizing d with
  | nil => simp
  | cons x rest ih =>
    obtain ⟨deed, cs⟩ := x
    refine List.forall_mem_cons.2 ⟨fun l hl => ?_, ih hh.2.2⟩
    have hplace : c.site.root.place cwd <+: (deed.target c).place cwd :=
      Path.place_prefix_join (isInside_of_due hsound hfound hh.1)
    cases deed with
    | asset a => exact hplace.trans hl
    | headPartial | page | index => exact hl ▸ hplace

theorem copyAll_acts (hsound : c.Sound) {docs : Path} (hd : w.disk.Plain) :
    (CopiedAsset.copyAll docs c.site.root c.assets).Acts c docs [] w := by
  refine acts_bind (acts_mapM hd fun a ha w' hcwd hd' => ?_) fun _ _ _ _ => acts_pure
  exact acts_of_does (.asset a) ((copyAsset_does docs hd' (hsound.assets a ha)).mono
    (fun d change h => ⟨⟨ha, h.1⟩, h.2⟩) fun _ _ => id)

theorem createHeadPartial_acts {docs : Path} (hd : w.disk.Plain) :
    (Scaffold.createHeadPartial c.site.root).Acts c docs [] w :=
  acts_of_does .headPartial
    ((spares_does .headPartial hd isInside_headPartialPath).mono
    (fun _ _ h => ⟨trivial, h⟩) fun _ _ => id)

theorem beforeScan_acts (hsound : c.Sound) (docs : Path) (hd : w.disk.Plain) :
    (beforeScan c docs).Acts c docs [] w :=
  acts_bind (copyAll_acts hsound hd) fun _ _ _ hh =>
    acts_bind (createHeadPartial_acts (hh.plain hd)) fun _ _ _ _ => acts_pure

theorem afterScan_acts (hsound : c.Sound) (docs : Path) (n : Navigation) (found : List Document) (hd : w.disk.Plain) :
    (afterScan schedule c n found).Acts c docs found w := by
  refine acts_bind (acts_executeAll hd fun doc hdoc w' hcwd hd' => ?_) fun _ h _ hh =>
    acts_bind (acts_mapM (hh.plain hd) fun s hs w' hcwd hd' => ?_) fun _ _ _ _ => acts_pure
  · have hdue := (schedule.perm found).mem_iff.1 hdoc
    exact acts_of_does (.page doc) ((migratePage_may n doc hd').mono (fun _ _ h => ⟨hdue, h⟩) fun _ _ => id)
  · exact acts_bind (acts_of_does (.index s) ((spares_does (.index s) hd'
      (isInside_sectionIndex (hsound.sections s hs))).mono (fun _ _ h => ⟨hs, h⟩) fun _ _ => id))
        fun _ _ _ _ => acts_pure

theorem runFrom_account (schedule : Schedule) (checkout : Checkout) (hsound : c.Sound) (hd : w.disk.Plain) :
    ∃ opening closing found,
      ((runFrom schedule c checkout).outcome w).2 = w.after (History.steps (opening ++ closing)) ∧
        Account c checkout w.cwd w.disk found opening closing := by
  have hstopped {opening : History} (hopens : Happens c (docsOf c checkout) w.cwd [] w.disk opening) :
      Account c checkout w.cwd w.disk [] opening [] :=
    ⟨hopens, fun h => absurd rfl h, trivial, by simpa using owns_inside hsound (by simp) hopens⟩
  rw [runFrom_eq, outcome_bind, outcome_inspect]
  cases hnavigation : navigationOf c checkout w.disk w.cwd with
  | error e => exact ⟨[], [], [], by simp [History.steps], hstopped trivial⟩
  | ok navigation =>
    obtain ⟨opening, hw, hopens⟩ := beforeScan_acts hsound (docsOf c checkout) hd
    simp only [outcome_bind]
    rcases hout : (beforeScan c (docsOf c checkout)).outcome w with ⟨result, w'⟩
    rw [hout] at hw
    obtain rfl : w' = w.after opening.steps := hw
    cases result with
    | error e => exact ⟨opening, [], [], by simp, hstopped hopens⟩
    | ok before =>
      have hopened : (w.after opening.steps).disk.Plain := hopens.plain hd
      rcases hfound : (Document.findAll (docsOf c checkout)).outcome (w.after opening.steps) with ⟨e | found, v⟩
      · obtain rfl : w.after opening.steps = v := by
          rw [Document.outcome_findAll] at hfound
          exact (Prod.mk.inj hfound).2
        exact ⟨opening, [], [], by simp [hfound], hstopped hopens⟩
      · obtain ⟨hscan, rfl⟩ := (Document.outcome_findAll_eq_ok hopened).1 hfound
        have hafter : (afterScan schedule c navigation found).Acts c (docsOf c checkout) found _ :=
          afterScan_acts hsound (docsOf c checkout) navigation found hopened
        obtain ⟨closing, hw', hcloses⟩ := hafter
        refine ⟨opening, closing, found, ?_, hopens, fun _ => hscan, hcloses, fun x hx => ?_⟩
        · rw [History.steps_append, Workspace.after_append, ← hw']
          dsimp only
          rw [hfound]
          dsimp only
          rcases (afterScan schedule c navigation found).outcome (w.after opening.steps) with ⟨result, w'⟩
          cases result <;> rfl
        · rcases List.mem_append.1 hx with hx | hx
          · exact owns_inside hsound (by simp) hopens x hx
          · exact owns_inside hsound (fun doc hdoc => Route.isInside_of_mem_scan hopened hscan hdoc)
              hcloses x hx

/-- What is left of a run when its checkout is closed. -/
theorem run_account (schedule : Schedule) (repositories : Repositories) (hsound : c.Sound)
    (hplain : ((Checkout.chosen c.source w).opened repositories w.disk).Plain) :
    ∃ opening closing found, ((runBy schedule repositories c).outcome w).2 =
      { w with
        disk := (Checkout.chosen c.source w).closed repositories
          (((Checkout.chosen c.source w).opened repositories w.disk).after
            (History.steps (opening ++ closing)))
        journal := w.journal ++ History.steps (opening ++ closing) } ∧
      Account c (Checkout.chosen c.source w) w.cwd
        ((Checkout.chosen c.source w).opened repositories w.disk) found opening closing := by
  by_cases havailable : (Checkout.chosen c.source w).Available repositories
  · obtain ⟨opening, closing, found, hw, haccount⟩ := runFrom_account schedule
      (Checkout.chosen c.source w) hsound
      (w := { w with disk := (Checkout.chosen c.source w).opened repositories w.disk }) hplain
    refine ⟨opening, closing, found, ?_, haccount⟩
    rw [runBy, Checkout.withCheckout_outcome _ _ _ havailable]
    dsimp only
    rw [hw]
    rfl
  · refine ⟨[], [], [], ?_, trivial, fun h => absurd rfl h, trivial, by simp⟩
    rw [runBy, Checkout.withCheckout_outcome_of_not _ _ _ havailable]
    have hstays : (Checkout.chosen c.source w).closed repositories
        ((Checkout.chosen c.source w).opened repositories w.disk) = w.disk := by
      cases hchosen : Checkout.chosen c.source w with
      | existing p => rfl
      | cloned url place =>
        have hlookup : repositories.lookup url = none := by
          rw [hchosen] at havailable
          exact not_not.1 havailable
        simp only [Checkout.closed, Checkout.opened, hlookup]
    simp [History.steps, hstays]

theorem run_account_existing (schedule : Schedule) (repositories : Repositories) {source : Path} (hsound : c.Sound)
    (hpath : c.source.path = some source) (hplain : w.disk.Plain) : ∃ opening closing found,
    ((runBy schedule repositories c).outcome w).2 = w.after (History.steps (opening ++ closing)) ∧
      Account c (.existing source) w.cwd w.disk found opening closing := by
  have hchosen : Checkout.chosen c.source w = .existing source := by simp [Checkout.chosen, hpath]
  obtain ⟨opening, closing, found, hw, haccount⟩ :=
    run_account schedule repositories (w := w) hsound (by rw [hchosen]; exact hplain)
  rw [hchosen] at hw haccount
  exact ⟨opening, closing, found, hw, haccount⟩

section Loaded

variable {env : Environment} {v : Workspace} {file : Option Path} {overrides : Overrides}

/-- A run changes only what it owns, inside the site. Its steps fall into deeds, and whatever differs
outside of a clone afterwards was changed by one of them. The deeds before the scan are copies of assets
that exist and the head partial; those after it are pages of documents that the scan has found and index
pages of sections. Every place that a deed owns is at or below the root of the site; for the rest a deed
only makes missing directories on the way to its target. The head partial and the index pages are written
only where their path leads to nothing, and then nothing is at their place, provided that all directories
exist that the path of the site backs out of. -/
theorem run_confined (schedule : Schedule) (repositories : Repositories)
    (hload : Config.load env v file overrides = .ok c)
    (hplain : ((Checkout.chosen c.source w).opened repositories w.disk).Plain) :
    ∃ opening closing found,
      ((runBy schedule repositories c).outcome w).2.journal =
        w.journal ++ History.steps (opening ++ closing) ∧
      (∀ l, (Checkout.chosen c.source w).Outside l →
        ((runBy schedule repositories c).outcome w).2.disk.get? l ≠ w.disk.get? l →
          ∃ change ∈ History.steps (opening ++ closing), change.location = l) ∧
      Account c (Checkout.chosen c.source w) w.cwd
        ((Checkout.chosen c.source w).opened repositories w.disk) found opening closing := by
  obtain ⟨opening, closing, found, hw, haccount⟩ :=
    run_account schedule repositories (Config.sound_of_load hload) hplain
  refine ⟨opening, closing, found, by rw [hw], fun l hl hne => ?_, haccount⟩
  by_contra hno
  refine hne ?_
  rw [hw, Checkout.get?_closed_of_outside hl,
    get?_after_of_ne fun change hc heq => hno ⟨change, hc, heq.symm⟩, Checkout.get?_opened hl]

def located (names : List String) : Location := names.map String.toList

/-- A repository without documents next to a site whose head partial was edited. -/
def editedSite : Workspace where
  disk := ⟨[
    (located ["repo"], .directory),
    (located ["repo", "docs"], .directory),
    (located ["repo", "docshift.toml"], .file (.text "sections = []\nassets = []\n".toList)),
    (located ["repo", "mkdocs.yml"], .file (.text "nav: []\n".toList)),
    (located ["site"], .directory),
    (located ["site", "layouts"], .directory),
    (located ["site", "layouts", "_partials"], .directory),
    (located ["site", "layouts", "_partials", "custom"], .directory),
    (located ["site", "layouts", "_partials", "custom", "head.html"], .file (.text "edited".toList))]⟩
  cwd := []
  journal := []

def detouredOverrides : Overrides where
  sourcePath := some ⟨"repo".toList⟩
  siteRoot := some ⟨"fresh/../site".toList⟩

def detouredConfig : Config where
  source := ⟨Config.defaultRepositoryUrl, some ⟨"repo".toList⟩, "docs".toList, "mkdocs.yml".toList⟩
  site := ⟨⟨"fresh/../site".toList⟩, 99, true⟩
  rewriters := {}
  sections := []
  assets := []
  file := some ⟨"repo/docshift.toml".toList⟩

/-- Behind a directory that is missing the head partial is not seen, so it is overwritten, although it
was there before the run and nothing but the head partial is configured. -/
theorem edited_head_partial_overwritten :
    Config.load [] editedSite (some ⟨"repo/docshift.toml".toList⟩) detouredOverrides = .ok detouredConfig ∧
    editedSite.disk.Plain ∧
    Document.scan editedSite.disk [] ⟨"repo/docs".toList⟩ = .ok [] ∧
    editedSite.disk.get? ((Deed.headPartial.target detouredConfig).place []) =
      some (.file (.text "edited".toList)) ∧
    ((run [] detouredConfig).outcome editedSite).1.isOk = true ∧
    ((run [] detouredConfig).outcome editedSite).2.disk.get?
      ((Deed.headPartial.target detouredConfig).place []) = some (.file (.text Scaffold.headPartial)) :=
  ⟨by decide +kernel, plain_of_isTree (by decide +kernel), by decide +kernel, by decide +kernel,
    by decide +kernel, by decide +kernel⟩

theorem run_confined_behind_detour :
    Config.load [] editedSite (some ⟨"repo/docshift.toml".toList⟩) detouredOverrides = .ok detouredConfig ∧
    editedSite.disk.Plain ∧ ∃ opening closing found,
      ((run [] detouredConfig).outcome editedSite).2.journal = History.steps (opening ++ closing) ∧
      (∀ l, ((run [] detouredConfig).outcome editedSite).2.disk.get? l ≠ editedSite.disk.get? l →
        ∃ change ∈ History.steps (opening ++ closing), change.location = l) ∧
      Account detouredConfig (.existing ⟨"repo".toList⟩) [] editedSite.disk found opening closing := by
  have hload : Config.load [] editedSite (some ⟨"repo/docshift.toml".toList⟩) detouredOverrides =
      .ok detouredConfig := by decide +kernel
  have hplain : editedSite.disk.Plain := plain_of_isTree (by decide +kernel)
  obtain ⟨opening, closing, found, hjournal, hchanged, haccount⟩ :=
    run_confined .listed [] (w := editedSite) hload hplain
  rw [← run] at hjournal hchanged
  exact ⟨hload, hplain, opening, closing, found, hjournal, fun l => hchanged l trivial, haccount⟩

/-- A file of a local checkout is kept, unless a deed of the run owns its place, which is then at or below
the root of the site. -/
theorem checkout_kept (schedule : Schedule) (repositories : Repositories) {source : Path}
    (hload : Config.load env v file overrides = .ok c) (hpath : c.source.path = some source) (hplain : w.disk.Plain) :
    ∃ opening closing found, Account c (.existing source) w.cwd w.disk found opening closing ∧
      ∀ l content, source.place w.cwd <+: l → w.disk.get? l = some (.file content) →
        ((runBy schedule repositories c).outcome w).2.disk.get? l = some (.file content) ∨
          c.site.root.place w.cwd <+: l ∧ ∃ x ∈ opening ++ closing, x.1.Owns c w.cwd l := by
  obtain ⟨opening, closing, found, hw, haccount⟩ :=
    run_account_existing schedule repositories (Config.sound_of_load hload) hpath hplain
  refine ⟨opening, closing, found, haccount, fun l content _ hfile => ?_⟩
  by_cases hfree : ∀ x ∈ opening ++ closing, ¬ x.1.Owns c w.cwd l
  · left
    rw [hw, Workspace.disk_after, History.steps_append, after_append]
    refine haccount.closes.keeps_file (fun x hx => hfree x (List.mem_append_right _ hx)) ?_
    exact haccount.opens.keeps_file (fun x hx => hfree x (List.mem_append_left _ hx)) hfile
  · right
    push Not at hfree
    obtain ⟨x, hx, howns⟩ := hfree
    exact ⟨haccount.inside x hx l howns, x, hx, howns⟩

/-- A repository that is its own site: the asset is copied from the docs directory to where it is. -/
def nestedSite : Workspace where
  disk := ⟨[
    (located ["repo"], .directory),
    (located ["repo", "docshift.toml"], .file (.text ("sections = []\n".toList ++
      "assets = [\x7b from = \"logo.png\", to = \"docs/logo.png\" \x7d]\n".toList ++
      "[source]\npath = \".\"\n".toList))),
    (located ["repo", "mkdocs.yml"], .file (.text "nav: []\n".toList)),
    (located ["repo", "docs"], .directory),
    (located ["repo", "docs", "logo.png"], .file (.text "png".toList))]⟩
  cwd := []
  journal := []

def nestedConfig : Config where
  source := ⟨Config.defaultRepositoryUrl, some ⟨"repo/.".toList⟩, "docs".toList, "mkdocs.yml".toList⟩
  site := ⟨⟨"repo".toList⟩, 99, true⟩
  rewriters := {}
  sections := []
  assets := [⟨"logo.png".toList, "docs/logo.png".toList, false⟩]
  file := some ⟨"repo/docshift.toml".toList⟩

/-- A file that is copied onto itself in the checkout is emptied. -/
theorem logo_emptied :
    Config.load [] nestedSite (some ⟨"repo/docshift.toml".toList⟩) {} = .ok nestedConfig ∧
    nestedSite.disk.Plain ∧
    (⟨"repo/.".toList⟩ : Path).place [] <+: located ["repo", "docs", "logo.png"] ∧
    nestedSite.disk.get? (located ["repo", "docs", "logo.png"]) = some (.file (.text "png".toList)) ∧
    ((run [] nestedConfig).outcome nestedSite).1.isOk = true ∧
    ((run [] nestedConfig).outcome nestedSite).2.disk.get? (located ["repo", "docs", "logo.png"]) =
      some (.file (.text [])) :=
  ⟨by decide +kernel, plain_of_isTree (by decide +kernel), by decide +kernel, by decide +kernel,
    by decide +kernel, by decide +kernel⟩

/-- The settings of the nested site are kept: no deed owns their place. -/
theorem nested_settings_kept :
    Config.load [] nestedSite (some ⟨"repo/docshift.toml".toList⟩) {} = .ok nestedConfig ∧
    nestedConfig.source.path = some ⟨"repo/.".toList⟩ ∧ nestedSite.disk.Plain ∧
    ∃ opening closing found,
      Account nestedConfig (.existing ⟨"repo/.".toList⟩) [] nestedSite.disk found opening closing ∧
      ∀ l content, (⟨"repo/.".toList⟩ : Path).place [] <+: l →
        nestedSite.disk.get? l = some (.file content) →
          ((run [] nestedConfig).outcome nestedSite).2.disk.get? l = some (.file content) ∨
            nestedConfig.site.root.place [] <+: l ∧
              ∃ x ∈ opening ++ closing, x.1.Owns nestedConfig [] l := by
  have hload : Config.load [] nestedSite (some ⟨"repo/docshift.toml".toList⟩) {} = .ok nestedConfig := by
    decide +kernel
  have hplain : nestedSite.disk.Plain := plain_of_isTree (by decide +kernel)
  have hkept := checkout_kept .listed [] (w := nestedSite) hload rfl hplain
  rw [← run] at hkept
  exact ⟨hload, rfl, hplain, hkept⟩

end Loaded

end Migration

end DocsMigration
