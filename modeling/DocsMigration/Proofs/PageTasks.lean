import DocsMigration.Proofs.Alike
import DocsMigration.Proofs.Ancestors
import DocsMigration.Proofs.SteadyRuns
/-! The tasks of the pages, in any order. No two documents go to the same place, so the effects of the tasks
commute. And a task that succeeds in one order succeeds in any other: what it needs is that its document can
be read, that no file is in the way to its place and no directory at it, and no other task brings one
there. -/

namespace DocsMigration

open Disk Work Effect Migration

namespace ApartSource

variable {c : Config} (S : ApartSource c) (n : Navigation) {found order : List Document}
  {doc doc' : Document} {l : Location} {x : Entry} {s : Text}

section Effects

def pagePlace (doc : Document) : Location := ((Deed.page doc).target c).place S.cwd

def pagePassed (doc : Document) : List Location :=
  (((Deed.page doc).target c).origin S.cwd).passed ((Deed.page doc).target c).names

def pageEntry (doc : Document) (l : Location) : Option Entry :=
  match S.src.readText S.cwd doc.path with
  | .ok s =>
    if l = S.pagePlace doc then some (.file (.text (pageText c n doc s)))
    else wayEntry S.cwd ((Deed.page doc).target c) l
  | .error _ => none

variable {S n}

theorem pageEffect_eq_putting : S.pageEffect n doc l = putting (S.pageEntry n doc l) := by
  unfold pageEffect pageEntry
  cases S.src.readText S.cwd doc.path with
  | error e => rfl
  | ok s =>
    change writing S.cwd ((Deed.page doc).target c) (.text (pageText c n doc s)) l =
      putting (if l = S.pagePlace doc then _ else _)
    unfold writing pagePlace
    split_ifs <;> rfl

theorem pageEntry_cases (h : S.pageEntry n doc l = some x) : x = .directory ∨ l = S.pagePlace doc := by
  unfold pageEntry at h
  split at h
  · split_ifs at h with hplace
    · exact .inr hplace
    · unfold wayEntry at h
      split_ifs at h
      exact .inl (Option.some.inj h).symm
  · simp at h

theorem pageEntry_place (hs : S.src.readText S.cwd doc.path = .ok s) :
    S.pageEntry n doc (S.pagePlace doc) = some (.file (.text (pageText c n doc s))) := by
  simp [pageEntry, hs]

/-- No two documents go to the same place. -/
theorem pagePlace_injective (hscan : Document.scan S.src S.cwd S.docs = .ok found) (hdoc : doc ∈ found)
    (hdoc' : doc' ∈ found) (h : S.pagePlace doc = S.pagePlace doc') : doc = doc' := by
  obtain ⟨r, hr, rfl⟩ := Document.exists_of_mem_scan S.plain hscan hdoc
  obtain ⟨r', hr', rfl⟩ := Document.exists_of_mem_scan S.plain hscan hdoc'
  simp only [pagePlace, Deed.target, Deed.path, Document.relPath_reached (hr.proper S.plain) hr.nonempty,
    Document.relPath_reached (hr'.proper S.plain) hr'.nonempty] at h
  rw [Route.place_destination (hr.proper S.plain) hr.nonempty,
    Route.place_destination (hr'.proper S.plain) hr'.nonempty] at h
  rw [Route.trail_injective (List.append_cancel_left h)]

theorem commutes_pageEffect (hscan : Document.scan S.src S.cwd S.docs = .ok found) (hdoc : doc ∈ found)
    (hdoc' : doc' ∈ found) : (S.pageEffect n doc l).Commutes (S.pageEffect n doc' l) := by
  rw [pageEffect_eq_putting, pageEffect_eq_putting]
  refine commutes_putting fun x hx y hy => ?_
  rcases pageEntry_cases hx with rfl | hl
  · exact .inl rfl
  rcases pageEntry_cases hy with rfl | hl'
  · exact .inr (.inl rfl)
  obtain rfl := pagePlace_injective hscan hdoc hdoc' (hl.symm.trans hl')
  exact .inr (.inr (Option.mem_unique hx hy))

theorem commutes_of_mem_pages (hscan : Document.scan S.src S.cwd S.docs = .ok found)
    (horder : order ⊆ found) :
    ∀ e ∈ order.map (fun doc => S.pageEffect n doc l),
      ∀ e' ∈ order.map (fun doc => S.pageEffect n doc l), e.Commutes e' := by
  simp only [List.forall_mem_map]
  exact fun doc hdoc doc' hdoc' => commutes_pageEffect hscan (horder hdoc) (horder hdoc')

/-- The pages have the same effect in any order. -/
theorem pagesEffect_perm (hscan : Document.scan S.src S.cwd S.docs = .ok found) (horder : order.Perm found) :
    S.pagesEffect n order l = S.pagesEffect n found l :=
  row_perm (horder.map _) (commutes_of_mem_pages hscan horder.subset)

/-- At its place each page is written, whatever the others do. -/
theorem pagesEffect_place (hscan : Document.scan S.src S.cwd S.docs = .ok found) (hdoc : doc ∈ found)
    (hs : S.src.readText S.cwd doc.path = .ok s) :
    S.pagesEffect n found (S.pagePlace doc) = .set (some (.file (.text (pageText c n doc s)))) := by
  refine row_of_mem_set (List.mem_map.2 ⟨doc, hdoc, ?_⟩) (commutes_of_mem_pages hscan (List.Subset.refl _))
  rw [pageEffect_eq_putting, pageEntry_place hs]
  rfl

/-- Elsewhere directories are all that a page brings. -/
theorem adds_pageEffect (hl : l ≠ S.pagePlace doc) : (S.pageEffect n doc l).Adds := by
  rw [pageEffect_eq_putting]
  cases hentry : S.pageEntry n doc l with
  | none => trivial
  | some x =>
    obtain rfl := (pageEntry_cases hentry).resolve_right hl
    trivial

theorem adds_pagesEffect (hl : ∀ doc ∈ order, l ≠ S.pagePlace doc) : (S.pagesEffect n order l).Adds :=
  adds_row (List.forall_mem_map.2 fun doc hdoc => adds_pageEffect (hl doc hdoc))

theorem fills_pagesEffect : (S.pagesEffect n order l).Fills .directory :=
  fills_row (List.forall_mem_map.2 fun _ _ => S.fills_pageEffect l)

theorem adds_sectionsEffect : (S.sectionsEffect l).Adds :=
  adds_row (List.forall_mem_map.2 fun _ _ => adds_filling)

end Effects

section Tasks

variable (found)

/-- What the tasks rely on of the source and of each other: every document can be read, and goes to the place
of a file that no document goes through. -/
structure Writable : Prop where
  readable : ∀ doc ∈ found, ∃ s, S.src.readText S.cwd doc.path = .ok s
  address : ∀ doc ∈ found,
    Addresses ((Deed.page doc).target c) ((Deed.page doc).target c).names
  named : ∀ doc ∈ found, ((Deed.page doc).target c).endsAsDirectory = false
  clear : ∀ doc ∈ found, ∀ doc' ∈ found, S.pagePlace doc ∉ S.pagePassed doc'

/-- What the tasks rely on of the disk: the root of the site can be found, no file is in the way to a page
and no directory at its place. -/
structure Ready (d : Disk) : Prop extends S.Steady d where
  ground : ∀ m ∈ c.site.root.way S.cwd, d.get? m = some .directory
  passable : ∀ doc ∈ found, d.Passable (S.pagePassed doc)
  free : ∀ doc ∈ found, d.get? (S.pagePlace doc) ≠ some .directory

variable {S n found} {d d' : Disk} {w w' : Workspace} {pages : List MigratedPage}

theorem pageEffect_of_ne (hl : l ≠ S.pagePlace doc) (hl' : l ∉ S.pagePassed doc) :
    S.pageEffect n doc l = keep := by
  have hway : l ∉ ((Deed.page doc).target c).way S.cwd := fun hmem =>
    (List.mem_append.1 hmem).elim hl' fun h => hl (List.mem_singleton.1 h)
  rw [pageEffect_eq_putting, pageEntry]
  cases S.src.readText S.cwd doc.path with
  | error e => rfl
  | ok s => simp [hl, wayEntry, hway, putting]

/-- What the tasks rely on still holds when one of them has come to its effects. -/
theorem Ready.page (h : S.Ready found d) (hwritable : S.Writable found) (hdoc : doc ∈ found)
    (hsteady : S.Steady d') (hd' : ∀ l, d'.get? l = (S.pageEffect n doc l).on (d.get? l)) :
    S.Ready found d' := by
  refine ⟨hsteady, fun m hm => ?_, fun doc' hdoc' m hm => ?_, fun doc' hdoc' => ?_⟩
  · have hdir := h.ground m hm
    have hne : m ≠ S.pagePlace doc := by
      rintro rfl
      exact h.free doc hdoc hdir
    rw [hd', hdir, (adds_pageEffect hne).on_some]
  · have hne : m ≠ S.pagePlace doc := by
      rintro rfl
      exact hwritable.clear doc hdoc doc' hdoc' hm
    rw [hd']
    exact (adds_pageEffect hne).on_cases (S.fills_pageEffect m) (h.passable doc' hdoc' m hm)
  · rw [hd']
    by_cases hplace : S.pagePlace doc' = S.pagePlace doc
    · obtain ⟨s, hs⟩ := hwritable.readable doc hdoc
      rw [hplace, pageEffect_eq_putting, pageEntry_place hs]
      simp [putting, Effect.on]
    · rw [pageEffect_of_ne hplace (hwritable.clear doc' hdoc' doc hdoc)]
      exact h.free doc' hdoc'

theorem grounded_page (hscan : Document.scan S.src S.cwd S.docs = .ok found) (hdoc : doc ∈ found)
    (hground : ∀ m ∈ c.site.root.way S.cwd, d.get? m = some .directory) :
    d.Grounded S.cwd ((Deed.page doc).target c) := by
  obtain ⟨r, hr, rfl⟩ := Document.exists_of_mem_scan S.plain hscan hdoc
  have hproper := hr.proper S.plain
  obtain ⟨hnames, habs⟩ := Route.destination_trail c.site.homePage hproper hr.nonempty
  have hrel : (Document.reached S.docs [] r).relPath = List.intercalate ['/'] r :=
    Document.relPath_reached hproper hr.nonempty
  rw [← hrel] at hnames habs
  refine ⟨c.site.root.names, Route.trail c.site.homePage r, ?_, Route.proper_trail hproper, ?_⟩
  · rw [Deed.target, Deed.path, Path.names_join habs, hnames]
  · rw [Deed.target, Deed.path, Path.origin_join habs]
    exact hground

theorem Ready.task_succeeds (h : S.Ready found w.disk) (hcwd : w.cwd = S.cwd)
    (hscan : Document.scan S.src S.cwd S.docs = .ok found) (hwritable : S.Writable found)
    (hdoc : doc ∈ found) : (migratePage c n doc).Succeeds w := by
  obtain ⟨s, hs⟩ := hwritable.readable doc hdoc
  have hread : w.disk.readText w.cwd doc.path = .ok s := by
    rw [hcwd, h.readText_eq (reads_of_mem_scan hscan hdoc), hs]
  refine succeeds_bind ⟨s, w, outcome_reportedAt_eq_ok.2 (outcome_inspect_eq_ok.2 ⟨hread, rfl⟩)⟩ ?_
  intro s' w' hout
  obtain ⟨-, rfl⟩ := outcome_inspect_eq_ok.1 (outcome_reportedAt_eq_ok.1 hout)
  rw [← bind_assoc]
  refine succeeds_bind ?_ fun _ _ _ => succeeds_pure _
  refine placeText_succeeds h.plain (hwritable.address doc hdoc) (hwritable.named doc hdoc) ?_ ?_ ?_ ?_ <;>
    rw [hcwd]
  · exact h.passable doc hdoc
  · exact grounded_page hscan hdoc h.ground
  · exact hwritable.clear doc hdoc doc hdoc
  · exact h.free doc hdoc

/-- The tasks succeed in any order. -/
theorem Ready.pages_succeed (h : S.Ready found w.disk) (hcwd : w.cwd = S.cwd)
    (hscan : Document.scan S.src S.cwd S.docs = .ok found) (hwritable : S.Writable found)
    (horder : order ⊆ found) : (order.mapM (migratePage c n)).Succeeds w := by
  refine succeeds_mapM (I := S.Ready found) h fun doc hdoc w' hcwd' h' => ?_
  refine ⟨h'.task_succeeds (hcwd'.trans hcwd) hscan hwritable (horder hdoc), fun page w'' hout => ?_⟩
  obtain ⟨cs, rfl, hcs, -, hsteady⟩ := h'.toSteady.page_achieves (hcwd'.trans hcwd)
    (reads_of_mem_scan hscan (horder hdoc)) (isInside_page hscan (horder hdoc)) page _ hout
  exact ⟨rfl, h'.page hwritable (horder hdoc) hsteady hcs.reached⟩

theorem Steady.pages_puts (h : S.Steady w.disk) (hcwd : w.cwd = S.cwd)
    (hscan : Document.scan S.src S.cwd S.docs = .ok found) (horder : order ⊆ found) :
    (order.mapM (migratePage c n)).Does
      (fun d change => ∃ doc, d.Puts S.cwd ((Deed.page doc).target c) change) (fun _ d => S.Steady d) w :=
  does_mapM h fun doc hdoc _ hcwd' h' => (h'.writes_page (hcwd'.trans hcwd)
    (isInside_page hscan (horder hdoc))).mono (fun _ _ hc => ⟨doc, hc.2⟩) fun _ _ => id

theorem Steady.pages_keep_directory (h : S.Steady w.disk) (hcwd : w.cwd = S.cwd)
    (hscan : Document.scan S.src S.cwd S.docs = .ok found) (horder : order ⊆ found)
    (hout : (order.mapM (migratePage c n)).outcome w = (.ok pages, w'))
    (hl : w.disk.get? l = some .directory) : w'.disk.get? l = some .directory := by
  obtain ⟨cs, hw, hcs, -⟩ := h.pages_puts (n := n) hcwd hscan horder
  rw [hout] at hw
  obtain rfl : w' = w.after cs := hw
  refine hcs.keeps (I := fun d => d.get? l = some .directory) hl fun d change hd hc => ?_
  obtain ⟨doc, hc⟩ := hc
  exact hc.keeps_directory hd

/-- When all tasks have succeeded, each document was readable, and each page can be found. -/
theorem Steady.pages_lead (h : S.Steady w.disk) (hcwd : w.cwd = S.cwd)
    (hscan : Document.scan S.src S.cwd S.docs = .ok found) (horder : order ⊆ found)
    (hout : (order.mapM (migratePage c n)).outcome w = (.ok pages, w')) :
    ∀ doc ∈ order, w'.disk.Leads S.cwd ((Deed.page doc).target c) ∧
      ((Deed.page doc).target c).endsAsDirectory = false ∧
        ∃ s, S.src.readText S.cwd doc.path = .ok s := by
  induction order generalizing w pages with
  | nil => simp
  | cons doc order ih =>
    obtain ⟨hdoc, hrest⟩ := List.cons_subset.1 horder
    rw [List.mapM_cons] at hout
    obtain ⟨page, w₁, hpage, hout⟩ := outcome_bind_eq_ok.1 hout
    obtain ⟨others, w₂, hothers, hout⟩ := outcome_bind_eq_ok.1 hout
    obtain ⟨-, rfl⟩ := outcome_pure_eq_ok.1 hout
    obtain ⟨cs, hw, -, hdone⟩ := (migratePage_does (c := c) n doc h.plain).and
      (h.writes_page (n := n) hcwd (isInside_page hscan hdoc))
    rw [hpage] at hw hdone
    obtain rfl : w₁ = w.after cs := hw
    obtain ⟨⟨-, hends, s, hs, hstands⟩, hsteady⟩ := hdone page rfl
    rw [hcwd] at hs hstands
    have hcwd₁ : (w.after cs).cwd = S.cwd := hcwd
    refine List.forall_mem_cons.2
      ⟨⟨⟨hstands.1.1, fun m hm => ?_⟩, hends, s, ?_⟩, ih hsteady hcwd₁ hrest hothers⟩
    · exact hsteady.pages_keep_directory hcwd₁ hscan hrest hothers (hstands.1.2 m hm)
    · rw [← h.readText_eq (reads_of_mem_scan hscan hdoc), hs]

theorem Steady.pages_written (h : S.Steady w.disk) (hcwd : w.cwd = S.cwd)
    (hscan : Document.scan S.src S.cwd S.docs = .ok found) (horder : order.Perm found)
    (hout : (order.mapM (migratePage c n)).outcome w = (.ok pages, w')) :
    ∀ doc ∈ found, ∃ s, S.src.readText S.cwd doc.path = .ok s ∧
      w'.disk.get? (S.pagePlace doc) = some (.file (.text (pageText c n doc s))) := by
  intro doc hdoc
  obtain ⟨-, -, s, hs⟩ := h.pages_lead hcwd hscan horder.subset hout doc (horder.mem_iff.2 hdoc)
  obtain ⟨cs, rfl, hcs, -, -⟩ := h.pages_achieves hcwd hscan horder.subset pages w' hout
  refine ⟨s, hs, (hcs.reached _).trans ?_⟩
  rw [pagesEffect_perm hscan horder, pagesEffect_place hscan hdoc hs]
  rfl

/-- Where the tasks have succeeded in one order, everything was as they need it. -/
theorem Steady.ready (h : S.Steady w.disk) (hcwd : w.cwd = S.cwd)
    (hground : ∀ m ∈ c.site.root.way S.cwd, w.disk.get? m = some .directory)
    (hscan : Document.scan S.src S.cwd S.docs = .ok found) (horder : order.Perm found)
    (hout : (order.mapM (migratePage c n)).outcome w = (.ok pages, w')) :
    S.Writable found ∧ S.Ready found w.disk := by
  have hlead := fun doc hdoc => h.pages_lead hcwd hscan horder.subset hout doc (horder.mem_iff.2 hdoc)
  have hwritten := h.pages_written hcwd hscan horder hout
  have hclear : ∀ doc ∈ found, ∀ doc' ∈ found, S.pagePlace doc ∉ S.pagePassed doc' := by
    intro doc hdoc doc' hdoc' hmem
    obtain ⟨s, -, hfile⟩ := hwritten doc hdoc
    have hdir := (hlead doc' hdoc').1.passed _ hmem
    simp [hfile] at hdir
  refine ⟨⟨fun doc hdoc => (hlead doc hdoc).2.2, fun doc hdoc => (hlead doc hdoc).1.1,
    fun doc hdoc => (hlead doc hdoc).2.1, hclear⟩, h, hground, fun doc hdoc m hm => ?_, fun doc hdoc hdir => ?_⟩
  · obtain ⟨cs, rfl, hcs, -, -⟩ := h.pages_achieves hcwd hscan horder.subset pages w' hout
    have hne : ∀ doc' ∈ order, m ≠ S.pagePlace doc' := by
      rintro doc' hdoc' rfl
      exact hclear doc' (horder.mem_iff.1 hdoc') doc hdoc hm
    refine (adds_pagesEffect (n := n) hne).of_on_eq fills_pagesEffect ?_
    rw [← hcs.reached]
    exact (hlead doc hdoc).1.passed m hm
  · obtain ⟨s, -, hfile⟩ := hwritten doc hdoc
    have hstill := h.pages_keep_directory hcwd hscan horder.subset hout hdir
    simp [hfile] at hstill

/-- Tasks that succeed in one order succeed in any other, and leave disks that look alike. -/
theorem Steady.pages_reordered {order' : List Document} (h : S.Steady w.disk) (hcwd : w.cwd = S.cwd)
    (hground : ∀ m ∈ c.site.root.way S.cwd, w.disk.get? m = some .directory)
    (hscan : Document.scan S.src S.cwd S.docs = .ok found) (horder : order.Perm found)
    (hout : (order.mapM (migratePage c n)).outcome w = (.ok pages, w')) (horder' : order'.Perm found) :
    ∃ pages' w'', (order'.mapM (migratePage c n)).outcome w = (.ok pages', w'') ∧
      w'.cwd = w''.cwd ∧ w'.disk.Alike w''.disk := by
  obtain ⟨hwritable, hready⟩ := h.ready hcwd hground hscan horder hout
  obtain ⟨pages', w'', hout'⟩ := hready.pages_succeed (n := n) hcwd hscan hwritable horder'.subset
  obtain ⟨cs, rfl, hcs, -⟩ := h.pages_achieves hcwd hscan horder.subset pages w' hout
  obtain ⟨cs', rfl, hcs', -⟩ := h.pages_achieves hcwd hscan horder'.subset pages' w'' hout'
  refine ⟨pages', _, hout', rfl, fun l => ?_⟩
  rw [Workspace.disk_after, Workspace.disk_after, hcs.reached, hcs'.reached, pagesEffect_perm hscan horder,
    pagesEffect_perm hscan horder']

/-- The index pages of the sections leave files alone. -/
theorem Steady.sections_keep_file {sections : List (Option Path)} {content : Content}
    (h : S.Steady w.disk) (hcwd : w.cwd = S.cwd) (hsound : c.Sound)
    (hout : (c.sections.mapM (Scaffold.createSectionIndex c.site.root)).outcome w = (.ok sections, w'))
    (hl : w.disk.get? l = some (.file content)) : w'.disk.get? l = some (.file content) := by
  obtain ⟨cs, rfl, hcs, -⟩ := h.sections_achieves hcwd hsound sections w' hout
  refine (hcs.reached l).trans ?_
  rw [hl]
  exact adds_sectionsEffect.on_some

end Tasks

end ApartSource

end DocsMigration
