import DocsMigration.Proofs.PageTasks
import DocsMigration.Proofs.Relocation
/-! Runs that are stopped, and the runs after them. Wherever a run is stopped, each place is underway to
what the whole run makes of it, so a run that starts from there ends where the whole run ends. Two stops
are left out: a file that is written only where it is missing must not be left empty, and a run has to
find the directories that the path of the site backs out of, since behind a missing one it sees nothing
of what is there. In which order a run meets entries and executes the tasks of its pages, and where it keeps
a clone, may be different each time. -/

namespace DocsMigration

open Disk Work Effect

namespace Migration

variable (settled : List Change → Prop) (schedule : Schedule) (c : Config) (checkout : Checkout)
  (n : Navigation) (found : List Document) (w : Workspace)

/-- What the tasks of pages can have left. A task may be begun at any time, before or after any other, and
stopped after any number of its steps. -/
inductive PagesUnderway : Workspace → Prop
  | none : PagesUnderway w
  | task {w' : Workspace} {doc : Document} {ps : List Change} : PagesUnderway w' → doc ∈ found →
      ps <+: (migratePage c n doc).steps w' → PagesUnderway (w'.after ps)

/-- What a run can leave when it is stopped: after any number of steps of its assets, of the head partial
or of the sections, or after any steps of its pages. Where the head partial or an index page is written,
the steps it is stopped after are to be `settled`. -/
inductive Stopped : Disk → Prop
  | assets {n : Navigation} {ps : List Change} : navigationOf c checkout w.disk w.cwd = .ok n →
      ps <+: (CopiedAsset.copyAll (docsOf c checkout) c.site.root c.assets).steps w →
      Stopped (w.disk.after ps)
  | headPartial {n : Navigation} {copied : List CopiedAsset} {w₁ : Workspace} {ps : List Change} :
      navigationOf c checkout w.disk w.cwd = .ok n →
      (CopiedAsset.copyAll (docsOf c checkout) c.site.root c.assets).outcome w = (.ok copied, w₁) →
      ps <+: (Scaffold.createHeadPartial c.site.root).steps w₁ → settled ps →
      Stopped (w₁.disk.after ps)
  | pages {n : Navigation} {before : List CopiedAsset × Bool} {w₁ w₂ : Workspace}
      {found : List Document} : navigationOf c checkout w.disk w.cwd = .ok n →
      (beforeScan c (docsOf c checkout)).outcome w = (.ok before, w₁) →
      (Document.findAll (docsOf c checkout)).outcome w₁ = (.ok found, w₁) →
      PagesUnderway c n found w₁ w₂ → Stopped w₂.disk
  | sections {n : Navigation} {before : List CopiedAsset × Bool} {w₁ w₂ : Workspace}
      {found : List Document} {pages : List MigratedPage} {ps : List Change} :
      navigationOf c checkout w.disk w.cwd = .ok n →
      (beforeScan c (docsOf c checkout)).outcome w = (.ok before, w₁) →
      (Document.findAll (docsOf c checkout)).outcome w₁ = (.ok found, w₁) →
      ((schedule.order found).mapM (migratePage c n)).outcome w₁ = (.ok pages, w₂) →
      ps <+: (c.sections.mapM (Scaffold.createSectionIndex c.site.root)).steps w₂ → settled ps →
      Stopped (w₂.disk.after ps)

/-- Whether no file has just been emptied or made empty. -/
def Untorn (ps : List Change) : Prop := ∀ l, ps.getLast? ≠ some (.write l (.text []))

end Migration

namespace ApartSource

open Migration

variable {c : Config} {S : ApartSource c} {schedule : Schedule} {checkout : Checkout} {n : Navigation}
  {found : List Document} {w w' : Workspace} {d : Disk} {report : Report}

/-- How a run ends that succeeds on steady ground: what it reports, and what it leaves at each place. -/
structure Ends (S : ApartSource c) (checkout : Checkout) (w w' : Workspace) (report : Report)
    (n : Navigation) (found : List Document) : Prop where
  navigation : navigationOf c checkout w.disk w.cwd = .ok n
  scanned : Document.scan S.src S.cwd S.docs = .ok found
  readable : ∀ doc ∈ found, ∃ s, S.src.readText S.cwd doc.path = .ok s
  steady : S.Steady w'.disk
  pages : report.pages = found.map (pageOf c n)
  assets : report.assets = (c.assets.map S.copiedAsset).filterMap id
  reached : ∀ l, w'.disk.get? l = (S.runEffect n found l).on (w.disk.get? l)

theorem Steady.run_ends (h : S.Steady w.disk) (hcwd : w.cwd = S.cwd) (hsound : c.Sound)
    (hdocs : docsOf c checkout = S.docs) (hrun : (runFrom schedule c checkout).outcome w = (.ok report, w')) :
    ∃ n found, S.Ends checkout w w' report n found := by
  obtain ⟨n, before, w₂, found, pages, w₃, sections, hn, hbefore, hfound, hpages, hsections, rfl⟩ :=
    runFrom_eq_ok.1 hrun
  rw [hdocs] at hbefore hfound
  obtain ⟨as, rfl, has, hassets, hsteady₁⟩ := h.beforeScan_achieves hcwd hsound before w₂ hbefore
  have hscan := hsteady₁.found_src hcwd hfound
  have horder := schedule.perm found
  have hlead := hsteady₁.pages_lead hcwd hscan horder.subset hpages
  obtain ⟨bs, rfl, hbs, -, hsteady₂⟩ := hsteady₁.pages_achieves hcwd hscan horder.subset pages w₃ hpages
  obtain ⟨cs, rfl, hcs, hsteady₃⟩ := hsteady₂.sections_achieves hcwd hsound sections _ hsections
  refine ⟨n, found, hn, hscan, fun doc hdoc => (hlead doc (horder.mem_iff.2 hdoc)).2.2, hsteady₃, rfl, hassets,
    fun l => ?_⟩
  simp only [Workspace.disk_after] at hbs hcs ⊢
  rw [runEffect, on_followedBy, on_followedBy, ← has.reached, ← pagesEffect_perm hscan horder,
    ← hbs.reached, ← hcs.reached]

theorem Steady.pagesUnderway (h : S.Steady w.disk) (hcwd : w.cwd = S.cwd)
    (hscan : Document.scan S.src S.cwd S.docs = .ok found) (hpages : PagesUnderway c n found w w') :
    w'.cwd = w.cwd ∧ S.Steady w'.disk ∧
      ∀ l, (S.pagesEffect n found l).Underway (w.disk.get? l) (w'.disk.get? l) := by
  induction hpages with
  | none => exact ⟨rfl, h, fun l => underway_self⟩
  | task _ hdoc hps ih =>
    obtain ⟨hcwd', hsteady, hunderway⟩ := ih
    obtain ⟨hsteady', hpage⟩ := hsteady.page_stopped (hcwd'.trans hcwd) (reads_of_mem_scan hscan hdoc)
      (isInside_page hscan hdoc) hps
    refine ⟨hcwd', hsteady', fun l => (hunderway l).trans_within ?_ (hpage l)⟩
    have hfills : ∀ e ∈ found.map fun doc => S.pageEffect n doc l, e.Fills .directory := by
      intro e he
      obtain ⟨doc, -, rfl⟩ := List.mem_map.1 he
      exact S.fills_pageEffect l
    exact within_row hfills (List.mem_map_of_mem hdoc)

/-- Wherever a run that succeeds is stopped, the source is as it was, and each place is underway. -/
theorem Steady.stopped (h : S.Steady w.disk) (hcwd : w.cwd = S.cwd) (hsound : c.Sound)
    (hdocs : docsOf c checkout = S.docs)
    (hrun : (runFrom schedule c checkout).outcome w = (.ok report, w'))
    (hends : S.Ends checkout w w' report n found) (hstopped : Stopped Untorn schedule c checkout w d) :
    S.Untouched d ∧ ∀ l, (S.runEffect n found l).Underway (w.disk.get? l) (d.get? l) := by
  have hn := hends.navigation
  have hfound := hends.scanned
  obtain ⟨n', before, w₂, found', pages, w₃, sections, hn', hbefore, hfound', hpages, hsections, -⟩ :=
    runFrom_eq_ok.1 hrun
  rw [hdocs] at hbefore hfound'
  obtain ⟨as, rfl, has, -, hsteady₁⟩ := h.beforeScan_achieves hcwd hsound before w₂ hbefore
  obtain rfl : n = n' := by simpa [hn] using hn'
  obtain rfl : found = found' := by simpa [hfound] using hsteady₁.found_src hcwd hfound'
  -- Whatever the run is stopped in after its scan, it has reached the same workspace with the same pages.
  have hreached {n' : Navigation} {found' : List Document} {done : List CopiedAsset × Bool}
      {w₂ : Workspace} (hn' : navigationOf c checkout w.disk w.cwd = .ok n')
      (hbefore' : (beforeScan c S.docs).outcome w = (.ok done, w₂))
      (hfound' : (Document.findAll S.docs).outcome w₂ = (.ok found', w₂)) :
      n = n' ∧ w.after as = w₂ ∧ found = found' := by
    rw [hbefore] at hbefore'
    obtain ⟨-, rfl⟩ := Prod.mk.inj hbefore'
    exact ⟨by simpa [hn] using hn', rfl, by simpa [hfound] using hsteady₁.found_src hcwd hfound'⟩
  cases hstopped with
  | assets _ hps =>
    rw [hdocs] at hps
    obtain ⟨w₁, hcopied, -⟩ := beforeScan_eq_ok.1 hbefore
    refine ⟨(h.copyAll_untouched hcwd hsound).holds h.toUntouched hps, fun l => ?_⟩
    exact ((h.copyAll_achieves hcwd hsound).underway hcopied hps (by simp [Settled]) l).followedBy.followedBy
  | headPartial _ hcopied hps hsettled =>
    rw [hdocs] at hcopied
    obtain ⟨w₁, hcopied', hcreated⟩ := beforeScan_eq_ok.1 hbefore
    rw [hcopied] at hcopied'
    obtain ⟨-, rfl⟩ := Prod.mk.inj hcopied'
    obtain ⟨bs, rfl, hbs, -, hsteady⟩ := h.copyAll_achieves hcwd hsound _ _ hcopied
    refine ⟨(hsteady.headPartial_untouched hcwd).holds hsteady.toUntouched hps, fun l => ?_⟩
    refine (Underway.after ?_).followedBy
    rw [← hbs.reached]
    exact (hsteady.headPartial_achieves hcwd).underway hcreated hps (fun m _ => hsettled m) l
  | pages hn' hbefore' hfound' hpages' =>
    rw [hdocs] at hbefore' hfound'
    obtain ⟨rfl, rfl, rfl⟩ := hreached hn' hbefore' hfound'
    obtain ⟨-, hsteady, hunderway⟩ := hsteady₁.pagesUnderway hcwd hfound hpages'
    refine ⟨hsteady.toUntouched, fun l => Underway.after ?_⟩
    rw [← has.reached]
    exact (hunderway l).followedBy
  | sections hn' hbefore' hfound' hpages' hps hsettled =>
    rw [hdocs] at hbefore' hfound'
    obtain ⟨rfl, rfl, rfl⟩ := hreached hn' hbefore' hfound'
    rw [hpages] at hpages'
    obtain ⟨-, rfl⟩ := Prod.mk.inj hpages'
    have horder := schedule.perm found
    obtain ⟨bs, rfl, hbs, -, hsteady₂⟩ := hsteady₁.pages_achieves hcwd hfound horder.subset pages _ hpages
    refine ⟨(hsteady₂.sections_untouched hcwd hsound).holds hsteady₂.toUntouched hps, fun l => ?_⟩
    refine Underway.after (Underway.after ?_)
    rw [Workspace.disk_after] at hbs
    rw [← has.reached, ← pagesEffect_perm hfound horder, ← hbs.reached]
    exact (hsteady₂.sections_achieves hcwd hsound).underway hsections hps (fun m _ => hsettled m) l

end ApartSource

namespace Migration

open Checkout

variable {c : Config} {env : Environment} {v u u' w w' : Workspace} {file : Option Path}
  {overrides : Overrides} {report report' : Report} {repositories : Repositories} {d : Disk}
  {schedule schedule' : Schedule}

/-- What a run needs of the workspace in which it starts: there are no links, neither the source nor the site
lies inside the other, and the directories exist that the path of the site backs out of. -/
structure Prepared (repositories : Repositories) (c : Config) (w : Workspace) : Prop where
  plain : (opened repositories (chosen c.source w) w.disk).Plain
  apart : ((chosen c.source w).root.place w.cwd).Apart (c.site.root.place w.cwd)
  detours : ∀ b ∈ c.site.root.detours w.cwd, w.disk.get? b = some .directory

/-- Whether a run is started in `u` where one from `w` left the disk `d`. Clones of the source are kept at
paths of one length, since a path that is too long leads nowhere; what is left of the first is of no
matter. -/
structure Resumes (repositories : Repositories) (c : Config) (w : Workspace) (d : Disk) (u : Workspace) :
    Prop where
  prepared : Prepared repositories c u
  cwd : u.cwd = w.cwd
  disk : ∀ l, (chosen c.source w).Outside l → u.disk.get? l = d.get? l
  size : Text.utf8Size (chosen c.source u).root.text = Text.utf8Size (chosen c.source w).root.text

section Sources

def apartSource (hsound : c.Sound) (h : Prepared repositories c w)
    (hopened : (opened repositories (chosen c.source w) w.disk).isDirectory w.cwd
      (docsOf c (chosen c.source w))) : ApartSource c :=
  .ofCheckout hsound h.plain hopened h.apart

variable {hsound : c.Sound} {hw : Prepared repositories c w} {hu : Prepared repositories c u}
  {hopened : (opened repositories (chosen c.source w) w.disk).isDirectory w.cwd (docsOf c (chosen c.source w))}
  {hreopened : (opened repositories (chosen c.source u) u.disk).isDirectory u.cwd
    (docsOf c (chosen c.source u))}

theorem steady_apartSource :
    (apartSource hsound hw hopened).Steady (opened repositories (chosen c.source w) w.disk) := by
  refine ⟨⟨hw.plain, fun _ _ => rfl⟩, (hw.plain.isDirectory_iff.1 hopened).2, fun b hb => ?_⟩
  rw [get?_opened (outside_of_some (hw.detours b hb)), hw.detours b hb]

/-- A run that succeeds has its checkout at hand and starts from a source apart from the site. -/
theorem ends_of_run (hsound : c.Sound) (hw : Prepared repositories c w)
    (hrun : (runBy schedule repositories c).outcome w = (.ok report, w')) :
    (chosen c.source w).Available repositories ∧ ∃ hopened n found v,
      (runFrom schedule c (chosen c.source w)).outcome
        { w with disk := opened repositories (chosen c.source w) w.disk } = (.ok report, v) ∧
      (apartSource hsound hw hopened).Ends (chosen c.source w)
        { w with disk := opened repositories (chosen c.source w) w.disk } v report n found ∧
      w' = { v with disk := closed repositories (chosen c.source w) v.disk } := by
  obtain ⟨havailable, v, hfirst, rfl⟩ := withCheckout_eq_ok.1 hrun
  obtain ⟨n, -, -, -, -, -, -, hn, -⟩ := runFrom_eq_ok.1 hfirst
  have hopened := (navigationOf_eq_ok hn).1
  have hsteady : (apartSource hsound hw hopened).Steady _ := steady_apartSource
  obtain ⟨n, found, hends⟩ := hsteady.run_ends rfl hsound rfl hfirst
  exact ⟨havailable, hopened, n, found, v, hfirst, hends, rfl⟩

/-- What a clone holds does not depend on when and where it is made. -/
theorem get?_reopened (havailable : (chosen c.source w).Available repositories)
    (hresumes : Resumes repositories c w d u)
    (hkept : ∀ p, c.source.path = some p → ∀ l, p.place w.cwd <+: l → d.get? l = w.disk.get? l) (r : Location) :
    (opened repositories (chosen c.source w) w.disk).get? ((chosen c.source w).root.place w.cwd ++ r) =
      (opened repositories (chosen c.source u) u.disk).get? ((chosen c.source u).root.place u.cwd ++ r) := by
  have hdisk := hresumes.disk
  cases hpath : c.source.path with
  | some p =>
    have hchosen (w : Workspace) : chosen c.source w = .existing p := by rw [chosen, hpath]
    rw [hchosen] at hdisk
    rw [hchosen, hchosen, hresumes.cwd]
    change w.disk.get? (p.place w.cwd ++ r) = u.disk.get? (p.place w.cwd ++ r)
    rw [hdisk _ trivial, hkept p hpath _ (List.prefix_append _ r)]
  | none =>
    have hchosen (w : Workspace) : chosen c.source w = .cloned c.source.repositoryUrl (w.host.temporary w.disk) := by
      rw [chosen, hpath]
    rw [hchosen] at havailable
    obtain ⟨files, hfiles⟩ := Option.ne_none_iff_exists'.1 havailable
    simp only [hchosen, root, opened, hfiles, Path.place_toPath (w.host.proper w.disk),
      Path.place_toPath (u.host.proper u.disk)]
    refine get?_addClone_append temporary_ne_nil temporary_ne_nil fun r => ?_
    rw [w.host.free w.disk _ (List.prefix_append _ r), u.host.free u.disk _ (List.prefix_append _ r)]

/-- The root of a checkout is the same each time, or it is that of a clone. -/
theorem root_chosen_cases (s : SourceSettings) : (∀ w u, (chosen s w).root = (chosen s u).root) ∨
    ∀ w, (chosen s w).root.text ≠ [] ∧ (chosen s w).root.text.getLast? ≠ some '/' := by
  cases hpath : s.path with
  | some p => exact .inl fun w u => by rw [chosen, chosen, hpath]
  | none =>
    refine .inr fun w => ?_
    rw [chosen, hpath]
    exact ⟨List.cons_ne_nil _ _, Path.getLast?_toPath (w.host.proper w.disk) temporary_ne_nil⟩

theorem twins_apartSource (havailable : (chosen c.source w).Available repositories)
    (hresumes : Resumes repositories c w d u)
    (hkept : ∀ p, c.source.path = some p → ∀ l, p.place w.cwd <+: l → d.get? l = w.disk.get? l) :
    (apartSource hsound hw hopened).Twins (apartSource hsound hu hreopened) := by
  have hsame := get?_reopened havailable hresumes hkept
  have hplace (r : Location) :
      (opened repositories (chosen c.source w) w.disk).get? ((docsOf c (chosen c.source w)).place w.cwd ++ r) =
        (opened repositories (chosen c.source u) u.disk).get? ((docsOf c (chosen c.source u)).place u.cwd ++ r) := by
    simp only [docsOf, Path.place_join_inside hsound.docs.2, List.append_assoc, hsame]
  rcases root_chosen_cases c.source with hroot | hroot
  · have hdocs : docsOf c (chosen c.source w) = docsOf c (chosen c.source u) := by
      rw [docsOf, docsOf, hroot w u]
    exact ⟨hresumes.cwd.symm, hplace, congrArg (Text.utf8Size ·.text) hdocs, congrArg (·.text.getLast?) hdocs⟩
  · obtain ⟨hrel, -⟩ := Config.isInside_iff.1 hsound.docs.2
    have hends (w : Workspace) : (docsOf c (chosen c.source w)).text.getLast? = c.source.docsDirectory.getLast? :=
      Path.getLast?_join (hroot w).1 hsound.docs.ne_nil hrel
    exact ⟨hresumes.cwd.symm, hplace, Path.size_join (hroot w).1 (hroot u).1 hrel hresumes.size.symm
      (iff_of_false (hroot w).2 (hroot u).2), (hends w).trans (hends u).symm⟩

theorem navigationOf_reopened (hsound : c.Sound) (hw : Prepared repositories c w)
    (havailable : (chosen c.source w).Available repositories) (hresumes : Resumes repositories c w d u)
    (hkept : ∀ p, c.source.path = some p → ∀ l, p.place w.cwd <+: l → d.get? l = w.disk.get? l)
    {n n' : Navigation}
    (hn : navigationOf c (chosen c.source w) (opened repositories (chosen c.source w) w.disk) w.cwd = .ok n)
    (hn' : navigationOf c (chosen c.source u) (opened repositories (chosen c.source u) u.disk) u.cwd = .ok n') :
    n = n' := by
  obtain ⟨-, s, hs, hparse⟩ := navigationOf_eq_ok hn
  obtain ⟨-, s', hs', hparse'⟩ := navigationOf_eq_ok hn'
  have hfile := (hw.plain.readText_eq_ok.1 hs).2
  have hfile' := (hresumes.prepared.plain.readText_eq_ok.1 hs').2
  rw [navigationFileOf, Path.place_join_inside hsound.navigation.2] at hfile hfile'
  rw [get?_reopened havailable hresumes hkept, hfile'] at hfile
  obtain rfl : s' = s := by simpa using hfile
  simpa [hparse] using hparse'

end Sources

/-- Runs converge. Wherever a run that succeeds is stopped, and when it has ended as well, a run that is
started there and succeeds ends in the same tree, with the same pages and assets. Both runs may meet entries
and execute tasks in any order, and each keeps a clone where nothing is; the tree is what is outside of the
clones. Neither the source nor the site lies inside the other; whenever a run starts, the directories exist
that the path of the site backs out of; and the stop is not between the making and the filling of the head
partial or of an index page. -/
theorem rerun_converges (schedule : Schedule) (repositories : Repositories)
    (hload : Config.load env v file overrides = .ok c) (hprepared : Prepared repositories c w)
    (hrun : (runBy schedule repositories c).outcome w = (.ok report, w')) :
    ∀ d, Stopped Untorn schedule c (chosen c.source w)
        { w with disk := opened repositories (chosen c.source w) w.disk } d ∨ d = w'.disk →
      ∀ u, Resumes repositories c w d u → ∀ schedule' report' u',
        (runBy schedule' repositories c).outcome u = (.ok report', u') →
          (∀ l, (chosen c.source w).Outside l → (chosen c.source u).Outside l →
            u'.disk.get? l = w'.disk.get? l) ∧
          report'.pages = report.pages ∧ report'.assets = report.assets := by
  have hsound := Config.sound_of_load hload
  obtain ⟨havailable, hopened, n, found, v, hfirst, hends, rfl⟩ := ends_of_run hsound hprepared hrun
  let S : ApartSource c := apartSource hsound hprepared hopened
  have hsteady : S.Steady S.src := steady_apartSource
  intro d hd u hresumes schedule' report' u' hrerun
  obtain ⟨-, hreopened, n', found', v', -, hends', rfl⟩ := ends_of_run hsound hresumes.prepared hrerun
  let S' : ApartSource c := apartSource hsound hresumes.prepared hreopened
  have hleft : ∀ l, (chosen c.source w).Outside l → (S.source <+: l → d.get? l = S.src.get? l) ∧
      (S.runEffect n found l).Underway (S.src.get? l) (d.get? l) := by
    intro l hl
    rcases hd with hstopped | rfl
    · obtain ⟨huntouched, hunderway⟩ := hsteady.stopped rfl hsound rfl hfirst hends hstopped
      exact ⟨huntouched.agrees l, hunderway l⟩
    · rw [get?_closed_of_outside hl, hends.reached]
      refine ⟨fun hsource => ?_, underway_on⟩
      rw [← hends.reached]
      exact hends.steady.agrees l hsource
  have hkept : ∀ p, c.source.path = some p → ∀ l, p.place w.cwd <+: l → d.get? l = w.disk.get? l := by
    intro p hpath l hl
    have hchosen : chosen c.source w = .existing p := by rw [chosen, hpath]
    have hsource : S.source = p.place w.cwd := by simp only [S, apartSource, ApartSource.ofCheckout, hchosen, root]
    have hsrc : S.src = w.disk := by simp only [S, apartSource, ApartSource.ofCheckout, hchosen, opened]
    rw [(hleft l (by rw [hchosen]; trivial)).1 (hsource ▸ hl), hsrc]
  have htwins : S.Twins S' := twins_apartSource havailable hresumes hkept
  obtain rfl := navigationOf_reopened hsound hprepared havailable hresumes hkept hends.navigation hends'.navigation
  refine ⟨fun l hl hl' => ?_, ?_, ?_⟩
  · have hstart : S'.src.get? l = d.get? l := (get?_opened hl').trans (hresumes.disk l hl)
    have hsame := htwins.runEffect_eq (n := n) (l := l) hsound hends.scanned hends'.scanned hends.readable
      hends'.readable
    rw [get?_closed_of_outside hl, get?_closed_of_outside hl', hends.reached, hends'.reached, hsame]
    exact (congrArg _ hstart).trans (hleft l hl).2.on_eq
  · rw [hends.pages, hends'.pages, htwins.pages_eq hends.scanned hends'.scanned]
  · rw [hends.assets, hends'.assets, htwins.assets_eq hsound]

/-- A repository with a page and an asset next to a site with an asset that has become stale. -/
def staleSite : Workspace where
  disk := ⟨[
    (located ["repo"], .directory),
    (located ["repo", "docshift.toml"], .file (.text
      ("[[sections]]\npath = \"content/docs\"\ntitle = \"Docs\"\nweight = 1\n".toList ++
        "[[assets]]\nfrom = \"assets\"\nto = \"static/assets\"\nreplace = true\n".toList))),
    (located ["repo", "mkdocs.yml"], .file (.text "nav: []\n".toList)),
    (located ["repo", "docs"], .directory),
    (located ["repo", "docs", "index.md"], .file (.text "# Hi\n".toList)),
    (located ["repo", "docs", "assets"], .directory),
    (located ["repo", "docs", "assets", "new.png"], .file (.text "new".toList)),
    (located ["site"], .directory),
    (located ["site", "static"], .directory),
    (located ["site", "static", "assets"], .directory),
    (located ["site", "static", "assets", "stale.png"], .file (.text "old".toList))]⟩
  cwd := []
  journal := []

def staleConfig (site : String) : Config where
  source := ⟨Config.defaultRepositoryUrl, some ⟨"repo".toList⟩, "docs".toList, "mkdocs.yml".toList⟩
  site := ⟨⟨site.toList⟩, 99, true⟩
  rewriters := {}
  sections := [⟨"content/docs".toList, "Docs".toList, 1⟩]
  assets := [⟨"assets".toList, "static/assets".toList, true⟩]
  file := some ⟨"repo/docshift.toml".toList⟩

def staleOverrides (site : String) : Overrides where
  sourcePath := some ⟨"repo".toList⟩
  siteRoot := some ⟨site.toList⟩

def staleCheckout : Checkout := .existing ⟨"repo".toList⟩

/-- What is left of a run on the stale site when the head partial was made and not yet filled. -/
def tornDisk : Disk :=
  let w₁ := ((CopiedAsset.copyAll ⟨"repo/docs".toList⟩ ⟨"site".toList⟩ (staleConfig "site").assets).outcome
    staleSite).2
  w₁.disk.after ((Scaffold.createHeadPartial ⟨"site".toList⟩).steps w₁).dropLast

theorem loaded_staleConfig : ∀ site ∈ ["site", "fresh/../site"],
    Config.load [] staleSite (some ⟨"repo/docshift.toml".toList⟩) (staleOverrides site) =
      .ok (staleConfig site) := by decide +kernel

theorem plain_staleSite : staleSite.disk.Plain := plain_of_isTree (by decide +kernel)

theorem navigation_staleSite :
    navigationOf (staleConfig "site") staleCheckout staleSite.disk [] = .ok .empty := by decide +kernel

@[reducible] def backwards : Host := { Host.plain with enumeration := fun _ => ⟨fun _ => List.reverse, fun _ => List.reverse_perm⟩ }

/-- The stale site with a second stale asset, on that host. -/
def wornSite : Workspace where
  disk := staleSite.disk.apply (.write (located ["site", "static", "assets", "worn.png"]) (.text "worn".toList))
  cwd := []
  journal := []
  host := backwards

def clearedDisk : Disk :=
  wornSite.disk.after (((CopiedAsset.copyAll ⟨"repo/docs".toList⟩ ⟨"site".toList⟩
    (staleConfig "site").assets).steps wornSite).take 1)

theorem prepared_staleConfig (w : Workspace) (hd : w.disk.Plain) (hcwd : w.cwd = []) :
    Prepared [] (staleConfig "site") w := by
  have hdetours : (staleConfig "site").site.root.detours [] = [] := by decide +kernel
  refine ⟨hd, ?_, ?_⟩ <;> rw [hcwd]
  · exact (by decide +kernel : (staleCheckout.root.place []).Apart ((staleConfig "site").site.root.place []))
  · simp [hdetours]

theorem resumes_staleConfig {d : Disk} (hd : d.Plain) :
    Resumes [] (staleConfig "site") wornSite d { staleSite with disk := d } :=
  ⟨prepared_staleConfig _ hd rfl, rfl, fun _ _ => rfl, rfl⟩

/-- The run that comes after a stop in the middle of replacing an asset, and the run that comes after a run,
end as the run does that was not stopped, although the first run meets entries in another order. -/
theorem replacement_resumed :
    Config.load [] wornSite (some ⟨"repo/docshift.toml".toList⟩) (staleOverrides "site") =
      .ok (staleConfig "site") ∧
    Prepared [] (staleConfig "site") wornSite ∧
    Stopped Untorn .listed (staleConfig "site") staleCheckout wornSite clearedDisk ∧
    clearedDisk.get? (located ["site", "static", "assets", "worn.png"]) = none ∧
    clearedDisk.get? (located ["site", "static", "assets", "stale.png"]) = some (.file (.text "old".toList)) ∧
    Resumes [] (staleConfig "site") wornSite clearedDisk { staleSite with disk := clearedDisk } ∧
    ∃ report w' report' u' report₂ w₂,
      (runBy .listed [] (staleConfig "site")).outcome wornSite = (.ok report, w') ∧
      (runBy .listed [] (staleConfig "site")).outcome { staleSite with disk := clearedDisk } = (.ok report', u') ∧
      (runBy .listed [] (staleConfig "site")).outcome { staleSite with disk := w'.disk } = (.ok report₂, w₂) ∧
      (∀ l, u'.disk.get? l = w'.disk.get? l) ∧ report'.pages = report.pages ∧
      report'.assets = report.assets ∧
      (∀ l, w₂.disk.get? l = w'.disk.get? l) ∧ report₂.pages = report.pages ∧
      report₂.assets = report.assets := by
  have hload : Config.load [] wornSite (some ⟨"repo/docshift.toml".toList⟩) (staleOverrides "site") =
      .ok (staleConfig "site") := by decide +kernel
  have hprepared := prepared_staleConfig wornSite (plain_of_isTree (by decide +kernel)) rfl
  have hstopped : Stopped Untorn .listed (staleConfig "site") staleCheckout wornSite clearedDisk :=
    .assets (n := .empty) (by decide +kernel) (List.take_prefix 1 _)
  have hresumes := resumes_staleConfig (d := clearedDisk) (plain_of_isTree (by decide +kernel))
  obtain ⟨report, hrun⟩ := exists_of_isOk (runBy .listed [] (staleConfig "site")) wornSite (by decide +kernel)
  obtain ⟨report', hresumed⟩ := exists_of_isOk (runBy .listed [] (staleConfig "site"))
    { staleSite with disk := clearedDisk } (by decide +kernel)
  have hagain := resumes_staleConfig (d := ((runBy .listed [] (staleConfig "site")).outcome wornSite).2.disk)
    (plain_of_isTree (by decide +kernel))
  obtain ⟨report₂, hrerun⟩ := exists_of_isOk (runBy .listed [] (staleConfig "site"))
    { staleSite with disk := ((runBy .listed [] (staleConfig "site")).outcome wornSite).2.disk } (by decide +kernel)
  have hconverges := rerun_converges .listed [] hload hprepared hrun
  obtain ⟨hends, hpages, hassets⟩ := hconverges _ (.inl hstopped) _ hresumes _ _ _ hresumed
  obtain ⟨hends₂, hpages₂, hassets₂⟩ := hconverges _ (.inr rfl) _ hagain _ _ _ hrerun
  exact ⟨hload, hprepared, hstopped, by decide +kernel, by decide +kernel, hresumes, report, _, report', _, report₂,
    _, hrun, hresumed, hrerun, fun l => hends l trivial trivial, hpages, hassets,
    fun l => hends₂ l trivial trivial, hpages₂, hassets₂⟩

theorem isOk_staleSite : ∀ start ∈ [staleSite, { staleSite with disk := tornDisk }],
    ((run [] (staleConfig "site")).outcome start).1.isOk := by decide +kernel

/-- Without the two provisos runs diverge. Behind a directory that is missing the first run does not see that
there is something to clear, and the second run does. And after a stop when the head partial was made and
not yet filled, the next run takes it for one that was changed by hand. -/
theorem reruns_diverge :
    (Config.load [] staleSite (some ⟨"repo/docshift.toml".toList⟩) (staleOverrides "fresh/../site") =
        .ok (staleConfig "fresh/../site") ∧
      staleSite.disk.Plain ∧
      (staleCheckout.root.place []).Apart ((staleConfig "fresh/../site").site.root.place []) ∧
      ∃ report w' report' w'',
        (run [] (staleConfig "fresh/../site")).outcome staleSite = (.ok report, w') ∧
        (run [] (staleConfig "fresh/../site")).outcome w' = (.ok report', w'') ∧
        w''.disk.get? (located ["site", "static", "assets", "stale.png"]) ≠
          w'.disk.get? (located ["site", "static", "assets", "stale.png"])) ∧
    Config.load [] staleSite (some ⟨"repo/docshift.toml".toList⟩) (staleOverrides "site") =
      .ok (staleConfig "site") ∧
    Stopped (fun _ => True) .listed (staleConfig "site") staleCheckout staleSite tornDisk ∧
    ∃ report w' report' w'',
      (run [] (staleConfig "site")).outcome staleSite = (.ok report, w') ∧
      (run [] (staleConfig "site")).outcome { staleSite with disk := tornDisk } = (.ok report', w'') ∧
      w''.disk.get? ((Deed.headPartial.target (staleConfig "site")).place []) ≠
        w'.disk.get? ((Deed.headPartial.target (staleConfig "site")).place []) := by
  have hdetoured : ((run [] (staleConfig "fresh/../site")).outcome staleSite).1.isOk ∧
      ((run [] (staleConfig "fresh/../site")).outcome
        ((run [] (staleConfig "fresh/../site")).outcome staleSite).2).1.isOk ∧
      ((run [] (staleConfig "fresh/../site")).outcome
        ((run [] (staleConfig "fresh/../site")).outcome staleSite).2).2.disk.get?
          (located ["site", "static", "assets", "stale.png"]) ≠
        ((run [] (staleConfig "fresh/../site")).outcome staleSite).2.disk.get?
          (located ["site", "static", "assets", "stale.png"]) := by decide +kernel
  obtain ⟨report, hrun⟩ := exists_of_isOk _ _ hdetoured.1
  obtain ⟨report', hrerun⟩ := exists_of_isOk _ _ hdetoured.2.1
  obtain ⟨copied, hcopied⟩ := exists_of_isOk (CopiedAsset.copyAll ⟨"repo/docs".toList⟩
    ⟨"site".toList⟩ (staleConfig "site").assets) staleSite (by decide +kernel)
  obtain ⟨report₁, hrun₁⟩ := exists_of_isOk _ _ (isOk_staleSite staleSite (by simp))
  obtain ⟨report₂, hrun₂⟩ := exists_of_isOk _ _
    (isOk_staleSite { staleSite with disk := tornDisk } (by simp))
  exact ⟨⟨loaded_staleConfig "fresh/../site" (by simp), plain_staleSite, by decide +kernel, report, _, report', _,
    hrun, hrerun, hdetoured.2.2⟩, loaded_staleConfig "site" (by simp),
    .headPartial navigation_staleSite hcopied (List.dropLast_prefix _) trivial, report₁, _, report₂, _, hrun₁,
    hrun₂, by decide +kernel⟩

end Migration

end DocsMigration
