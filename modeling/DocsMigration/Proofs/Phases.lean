import DocsMigration.Proofs.Deeds
/-! The phases of a run. The checkout is opened; the source is looked at; assets, head partial, pages and
sections follow one after the other; the checkout is closed. A clone stands at a place of its own, and
opening and closing it change nothing elsewhere. -/

namespace DocsMigration

open Disk

namespace Checkout

variable {repositories : Repositories} {checkout : Checkout} {d d' : Disk} {l : Location} {w : Workspace}

/-- The checkout that the settings ask for; a clone stands where nothing is. -/
def chosen (s : SourceSettings) (w : Workspace) : Checkout :=
  match s.path with
  | some p => .existing p
  | none => .cloned s.repositoryUrl (w.host.temporary w.disk)

/-- The disk on which the work starts: with the clone, if one is made. -/
def opened (repositories : Repositories) (checkout : Checkout) (d : Disk) : Disk :=
  match checkout with
  | .existing _ => d
  | .cloned url place =>
    match repositories.lookup url with
    | some files => addClone place files d
    | none => d

/-- The disk when the work is over: without the clone, if one was made. -/
def closed (repositories : Repositories) (checkout : Checkout) (d : Disk) : Disk :=
  match checkout with
  | .existing _ => d
  | .cloned url place =>
    match repositories.lookup url with
    | some _ => dropClone place d
    | none => d

/-- Whether a checkout is there, or can be cloned. -/
def Available (repositories : Repositories) : Checkout → Prop
  | .existing _ => True
  | .cloned url _ => repositories.lookup url ≠ none

theorem withCheckout_outcome {α : Type} (s : SourceSettings) (work : Checkout → MigrationWork α)
    (w : Workspace) (h : (chosen s w).Available repositories) :
    (withCheckout repositories s work).outcome w =
      let result := (work (chosen s w)).outcome { w with disk := opened repositories (chosen s w) w.disk }
      (result.1, { result.2 with disk := closed repositories (chosen s w) result.2.disk }) := by
  cases hs : s.path with
  | some p =>
    have hchosen : chosen s w = .existing p := by rw [chosen, hs]
    rw [hchosen, withCheckout, hs]
    rfl
  | none =>
    have hchosen : chosen s w = .cloned s.repositoryUrl (w.host.temporary w.disk) := by rw [chosen, hs]
    rw [hchosen] at h ⊢
    cases hlookup : repositories.lookup s.repositoryUrl with
    | none => exact absurd hlookup h
    | some files =>
      have hopened : opened repositories (.cloned s.repositoryUrl (w.host.temporary w.disk)) w.disk =
          addClone (w.host.temporary w.disk) files w.disk := by simp only [opened, hlookup]
      have hclosed (d : Disk) : closed repositories (.cloned s.repositoryUrl (w.host.temporary w.disk)) d =
          dropClone (w.host.temporary w.disk) d := by simp only [closed, hlookup]
      rw [hopened, withCheckout, hs]
      simp only [hclosed, hlookup, Work.outcome_bind, Work.outcome_get, Work.outcome_modify,
        Work.outcome_attempt]
      generalize (work _).outcome _ = result
      rcases result with ⟨_ | _, v⟩ <;> rfl

theorem withCheckout_outcome_of_not {α : Type} (s : SourceSettings) (work : Checkout → MigrationWork α)
    (w : Workspace) (h : ¬ (chosen s w).Available repositories) :
    (withCheckout repositories s work).outcome w = (.error (.notCloned s.repositoryUrl), w) := by
  unfold withCheckout
  cases hs : s.path with
  | some p => simp [chosen, hs, Available] at h
  | none =>
    have hlookup : repositories.lookup s.repositoryUrl = none := by
      rw [chosen, hs] at h
      exact not_not.1 h
    simp only [hlookup]
    rfl

/-- Work on a checkout succeeds if the checkout is at hand and the work succeeds on it. -/
theorem withCheckout_eq_ok {α : Type} {s : SourceSettings} {work : Checkout → MigrationWork α}
    {w w' : Workspace} {a : α} : (withCheckout repositories s work).outcome w = (.ok a, w') ↔
      (chosen s w).Available repositories ∧ ∃ v,
        (work (chosen s w)).outcome { w with disk := opened repositories (chosen s w) w.disk } = (.ok a, v) ∧
          w' = { v with disk := closed repositories (chosen s w) v.disk } := by
  by_cases h : (chosen s w).Available repositories
  · rw [withCheckout_outcome s work w h]
    rcases (work (chosen s w)).outcome { w with disk := opened repositories (chosen s w) w.disk } with ⟨r, v⟩
    simp [h, eq_comm]
  · rw [withCheckout_outcome_of_not s work w h]
    simp [h]

section Clones

variable {place : Location} {files : RepositoryFiles}

theorem get?_addClone_of_not (hl : ¬ place <+: l) : (addClone place files d).get? l = d.get? l := by
  have hne : place ≠ [] := fun h => hl (h ▸ List.nil_prefix)
  have hfold (d : Disk) : (files.foldl (fun d x => d.put (place ++ x.1) x.2) d).get? l = d.get? l := by
    induction files generalizing d with
    | nil => rfl
    | cons x rest ih =>
      rw [List.foldl_cons, ih, get?_put (by simp [hne]), if_neg]
      rintro rfl
      exact hl (List.prefix_append _ _)
  rw [addClone, hfold, get?_put hne, if_neg]
  rintro rfl
  exact hl List.prefix_rfl

/-- What is found in a clone depends on its files alone. -/
theorem get?_addClone_append {place' r : Location} (hne : place ≠ []) (hne' : place' ≠ [])
    (heq : ∀ r, d.get? (place ++ r) = d'.get? (place' ++ r)) :
    (addClone place files d).get? (place ++ r) = (addClone place' files d').get? (place' ++ r) := by
  have hput {d d' : Disk} {m : Location} {e : Entry} (heq : ∀ r, d.get? (place ++ r) = d'.get? (place' ++ r)) :
      ∀ r, (d.put (place ++ m) e).get? (place ++ r) = (d'.put (place' ++ m) e).get? (place' ++ r) := fun r => by
    rw [get?_put (by simp [hne]), get?_put (by simp [hne']), heq]
    simp only [List.append_cancel_left_eq]
  have hfold (d d' : Disk) (heq : ∀ r, d.get? (place ++ r) = d'.get? (place' ++ r)) :
      (files.foldl (fun d x => d.put (place ++ x.1) x.2) d).get? (place ++ r) =
        (files.foldl (fun d x => d.put (place' ++ x.1) x.2) d').get? (place' ++ r) := by
    induction files generalizing d d' with
    | nil => exact heq r
    | cons x rest ih => exact ih _ _ (hput heq)
  refine hfold _ _ ?_
  simpa using hput (m := []) (e := .directory) heq

theorem get?_dropClone (hl : l ≠ []) :
    (dropClone place d).get? l = if place <+: l then none else d.get? l := by
  rw [get?_of_ne_nil hl, get?_of_ne_nil hl, dropClone, lookup_filter fun k => !place.isPrefixOf k]
  by_cases h : place <+: l <;> simp [h, List.isPrefixOf_iff_prefix]

end Clones

/-- Whether a place is not in the clone that a checkout is, if it is one. -/
def Outside : Checkout → Location → Prop
  | .existing _, _ => True
  | .cloned _ place, l => ¬ place <+: l

theorem get?_opened (hl : checkout.Outside l) :
    (opened repositories checkout d).get? l = d.get? l := by
  unfold opened
  split
  · rfl
  · split
    · exact get?_addClone_of_not hl
    · rfl

/-- What is left when a checkout is closed. -/
theorem get?_closed : (closed repositories checkout d).get? l = d.get? l ∨
    l ≠ [] ∧ ¬ checkout.Outside l ∧ (closed repositories checkout d).get? l = none := by
  by_cases hnil : l = []
  · exact .inl (by rw [hnil]; rfl)
  unfold closed
  split
  · exact .inl rfl
  · split
    · rw [get?_dropClone hnil]
      split_ifs with hplace
      · exact .inr ⟨hnil, not_not.2 hplace, rfl⟩
      · exact .inl rfl
    · exact .inl rfl

theorem get?_closed_of_outside (hl : checkout.Outside l) :
    (closed repositories checkout d).get? l = d.get? l :=
  get?_closed.resolve_right fun h => h.2.1 hl

theorem get?_closed_congr (h : ∀ l, d.get? l = d'.get? l) :
    (closed repositories checkout d).get? l = (closed repositories checkout d').get? l := by
  by_cases hnil : l = []
  · rw [hnil]
    rfl
  unfold closed
  split
  · exact h l
  · split
    · rw [get?_dropClone hnil, get?_dropClone hnil, h l]
    · exact h l

theorem temporary_ne_nil : w.host.temporary w.disk ≠ [] := fun hnil => by
  have hfree := w.host.free w.disk [] (by rw [hnil])
  contradiction

theorem outside_of_some {s : SourceSettings} {e : Entry} (h : w.disk.get? l = some e) :
    (chosen s w).Outside l := by
  unfold chosen
  split
  · trivial
  · intro hl
    rw [w.host.free w.disk l hl] at h
    contradiction

theorem place_root_chosen {s : SourceSettings} {cwd : Location} (hl : ¬ (chosen s w).Outside l) :
    (chosen s w).root.place cwd <+: l := by
  unfold chosen at hl ⊢
  split at hl
  · exact absurd trivial hl
  · rw [root, Path.place_toPath (w.host.proper w.disk)]
    exact not_not.1 hl

theorem outside_of_apart {s : SourceSettings} {cwd m : Location}
    (h : ¬ (chosen s w).root.place cwd <+: m) : (chosen s w).Outside m := by
  by_contra hm
  exact h (place_root_chosen hm)

end Checkout

namespace Document

open Work

variable {docs : Path} {found : List Document} {w w' : Workspace}

theorem outcome_findAll {w : Workspace} : (findAll docs).outcome w =
    (scanBy (w.host.enumeration w.journal) w.disk w.cwd docs, w) := by
  rw [findAll, outcome_bind, outcome_enumeration]
  exact outcome_inspect _

/-- On a disk without links, the documents are those of a scan in the order of the names. -/
theorem outcome_findAll_eq_ok {w w' : Workspace} (hd : w.disk.Plain) :
    (findAll docs).outcome w = (.ok found, w') ↔ scan w.disk w.cwd docs = .ok found ∧ w' = w := by
  rw [outcome_findAll, Prod.mk.injEq, eq_comm (a := w), scan, scanBy_eq_ok_iff hd _ .byName]

end Document

namespace Migration

open Work

variable {schedule : Schedule} {c : Config} {checkout : Checkout} {w w' : Workspace}

def docsOf (c : Config) (checkout : Checkout) : Path := checkout.root.join ⟨c.source.docsDirectory⟩

def navigationFileOf (c : Config) (checkout : Checkout) : Path :=
  checkout.root.join ⟨c.source.navigationFile⟩

def navigationOf (c : Config) (checkout : Checkout) (d : Disk) (cwd : Location) :
    Except MigrationError Navigation :=
  if !d.isDirectory cwd (docsOf c checkout) then .error (.missingDocs (docsOf c checkout))
  else if !d.isFile cwd (navigationFileOf c checkout) then
    .error (.missingNavigation (navigationFileOf c checkout))
  else loadNavigation (navigationFileOf c checkout) d cwd

def beforeScan (c : Config) (docs : Path) : MigrationWork (List CopiedAsset × Bool) := do
  let assets ← CopiedAsset.copyAll docs c.site.root c.assets
  let headPartialCreated ← Scaffold.createHeadPartial c.site.root
  return (assets, headPartialCreated)

def afterScan (schedule : Schedule) (c : Config) (n : Navigation) (documents : List Document) :
    MigrationWork (List MigratedPage × List (Option Path)) := do
  let pages ← executeAll (migratePage c n) schedule.late (schedule.order documents)
  let sections ← c.sections.mapM (Scaffold.createSectionIndex c.site.root)
  return (collect documents pages, sections)

def reportOf (c : Config) (checkout : Checkout) (n : Navigation) (before : List CopiedAsset × Bool)
    (after : List MigratedPage × List (Option Path)) : Report :=
  ⟨c.site.root, checkout.url?, n.size, after.1, before.1, after.2.filterMap id, before.2⟩

theorem runFrom_eq : runFrom schedule c checkout = do
    let navigation ← Work.inspect (navigationOf c checkout)
    let before ← beforeScan c (docsOf c checkout)
    let documents ← Document.findAll (docsOf c checkout)
    let after ← afterScan schedule c navigation documents
    return reportOf c checkout navigation before after := by
  have hlook {α : Type} (k : Navigation → MigrationWork α) : (do
      if !(← Work.ask (·.isDirectory · (docsOf c checkout))) then
        throw (MigrationError.missingDocs (docsOf c checkout))
      if !(← Work.ask (·.isFile · (navigationFileOf c checkout))) then
        throw (MigrationError.missingNavigation (navigationFileOf c checkout))
      let navigation ← Work.inspect (loadNavigation (navigationFileOf c checkout))
      k navigation) = Work.inspect (navigationOf c checkout) >>= k := by
    refine Work.ext fun w => ?_
    simp only [outcome_bind, outcome_ask, outcome_inspect, navigationOf]
    by_cases hdocs : w.disk.isDirectory w.cwd (docsOf c checkout)
    · by_cases hfile : w.disk.isFile w.cwd (navigationFileOf c checkout)
      · simp [hdocs, hfile, outcome_bind, outcome_ask, outcome_inspect]
      · simp [hdocs, hfile, outcome_bind, outcome_ask, outcome_throw]
    · simp [hdocs, outcome_throw]
  simp only [beforeScan, afterScan, bind_assoc, pure_bind, reportOf]
  exact hlook _

section Tasks

variable {task : Document → MigrationWork MigratedPage} {late : Nat} {found order : List Document}
  {pages : List MigratedPage}

theorem executeAll_cons_outcome {doc : Document} : (executeAll task late (doc :: order)).outcome w =
    match (task doc).outcome w with
    | (.ok page, w') => (do return page :: (← executeAll task late order)).outcome w'
    | (.error e, w') => (do
      (order.take late).forM fun doc => do let _ ← Work.attempt (task doc)
      throw e).outcome w' := by
  rw [executeAll, outcome_bind, outcome_attempt]
  rcases (task doc).outcome w with ⟨_ | _, w'⟩ <;> rfl

theorem executeAll_eq_ok : (executeAll task late order).outcome w = (.ok pages, w') ↔
    (order.mapM task).outcome w = (.ok pages, w') := by
  induction order generalizing w w' pages with
  | nil => rfl
  | cons doc order ih =>
    rw [executeAll_cons_outcome, List.mapM_cons, outcome_bind]
    rcases (task doc).outcome w with ⟨e | page, w₁⟩
    · simp [outcome_bind_throw_ne_ok]
    · simp only [outcome_bind_eq_ok, ih]

theorem collect_map {n : Navigation} (horder : order.Perm found) :
    collect found (order.map (pageOf c n)) = found.map (pageOf c n) := by
  have hfind : ∀ doc ∈ found, (order.map (pageOf c n)).find? (·.source == doc.relPath) =
      some (pageOf c n doc) := by
    intro doc hdoc
    cases hpage : (order.map (pageOf c n)).find? (·.source == doc.relPath) with
    | none =>
      have hno := List.find?_eq_none.1 hpage _ (List.mem_map_of_mem (horder.mem_iff.2 hdoc))
      exact absurd (beq_self_eq_true doc.relPath) hno
    | some page =>
      obtain ⟨doc', -, rfl⟩ := List.mem_map.1 (List.mem_of_find?_eq_some hpage)
      have hmatch := List.find?_some hpage
      have hsource : doc'.relPath = doc.relPath := beq_iff_eq.1 hmatch
      simp only [pageOf, hsource]
  rw [collect, List.filterMap_congr hfind, List.filterMap_eq_map']

theorem outcome_migratePages {n : Navigation}
    (h : (order.mapM (migratePage c n)).outcome w = (.ok pages, w')) : pages = order.map (pageOf c n) := by
  induction order generalizing w pages with
  | nil => exact (outcome_pure_eq_ok.1 h).1
  | cons doc order ih =>
    rw [List.mapM_cons] at h
    obtain ⟨page, w₁, hpage, h⟩ := outcome_bind_eq_ok.1 h
    obtain ⟨others, w₂, hothers, h⟩ := outcome_bind_eq_ok.1 h
    obtain ⟨rfl, rfl⟩ := outcome_pure_eq_ok.1 h
    obtain ⟨_, _, -, hpage⟩ := outcome_bind_eq_ok.1 hpage
    obtain ⟨_, _, -, hpage⟩ := outcome_bind_eq_ok.1 hpage
    obtain ⟨_, _, -, hpage⟩ := outcome_bind_eq_ok.1 hpage
    rw [ih hothers, (outcome_pure_eq_ok.1 hpage).1]
    rfl

end Tasks

theorem beforeScan_eq_ok {docs : Path} {before : List CopiedAsset × Bool} :
    (beforeScan c docs).outcome w = (.ok before, w') ↔ ∃ w₁,
      (CopiedAsset.copyAll docs c.site.root c.assets).outcome w = (.ok before.1, w₁) ∧
        (Scaffold.createHeadPartial c.site.root).outcome w₁ = (.ok before.2, w') := by
  obtain ⟨copied, created⟩ := before
  simp only [beforeScan, outcome_bind_eq_ok, outcome_pure_eq_ok, Prod.mk.injEq]
  constructor
  · rintro ⟨_, w₁, hcopied, _, _, hcreated, ⟨rfl, rfl⟩, rfl⟩
    exact ⟨w₁, hcopied, hcreated⟩
  · rintro ⟨w₁, hcopied, hcreated⟩
    exact ⟨copied, w₁, hcopied, created, w', hcreated, ⟨rfl, rfl⟩, rfl⟩

/-- How a run succeeds: each of its phases does. -/
theorem runFrom_eq_ok {report : Report} : (runFrom schedule c checkout).outcome w = (.ok report, w') ↔
    ∃ n before w₂ found pages w₃ sections,
      navigationOf c checkout w.disk w.cwd = .ok n ∧
      (beforeScan c (docsOf c checkout)).outcome w = (.ok before, w₂) ∧
      (Document.findAll (docsOf c checkout)).outcome w₂ = (.ok found, w₂) ∧
      ((schedule.order found).mapM (migratePage c n)).outcome w₂ = (.ok pages, w₃) ∧
      (c.sections.mapM (Scaffold.createSectionIndex c.site.root)).outcome w₃ = (.ok sections, w') ∧
      report = reportOf c checkout n before (found.map (pageOf c n), sections) := by
  simp only [runFrom_eq, afterScan, outcome_bind_eq_ok, outcome_inspect_eq_ok, outcome_pure_eq_ok,
    executeAll_eq_ok]
  constructor
  · rintro ⟨n, _, ⟨hn, rfl⟩, before, w₂, hbefore, found, w₃, hfound, _, _,
      ⟨pages, w₄, hpages, sections, _, hsections, rfl, rfl⟩, hreport, rfl⟩
    obtain rfl : w₃ = w₂ := by
      rw [Document.outcome_findAll] at hfound
      exact (Prod.mk.inj hfound).2.symm
    obtain rfl := outcome_migratePages hpages
    rw [collect_map (schedule.perm found)] at hreport
    exact ⟨n, before, w₃, found, _, w₄, sections, hn, hbefore, hfound, hpages, hsections, hreport⟩
  · rintro ⟨n, before, w₂, found, pages, w₃, sections, hn, hbefore, hfound, hpages, hsections, rfl⟩
    obtain rfl := outcome_migratePages hpages
    refine ⟨n, w, ⟨hn, rfl⟩, before, w₂, hbefore, found, w₂, hfound, _, w',
      ⟨_, w₃, hpages, sections, w', hsections, rfl, rfl⟩, ?_, rfl⟩
    rw [collect_map (schedule.perm found)]

theorem navigationOf_eq_ok_iff {n : Navigation} {d : Disk} {cwd : Location} :
    navigationOf c checkout d cwd = .ok n ↔
    d.isDirectory cwd (docsOf c checkout) ∧ d.isFile cwd (navigationFileOf c checkout) ∧
      ∃ s, d.readText cwd (navigationFileOf c checkout) = .ok s ∧ Navigation.parse? s = some n := by
  unfold navigationOf
  split_ifs with hdocs hfile
  · simp_all
  · simp_all
  · have hload : loadNavigation (navigationFileOf c checkout) d cwd = .ok n ↔
        ∃ s, d.readText cwd (navigationFileOf c checkout) = .ok s ∧ Navigation.parse? s = some n := by
      rw [loadNavigation, bind_eq_ok]
      refine exists_congr fun s => ?_
      rw [mapError_eq_ok]
      cases Navigation.parse? s <;> simp
    simp_all

theorem navigationOf_eq_ok {n : Navigation} {d : Disk} {cwd : Location}
    (h : navigationOf c checkout d cwd = .ok n) : d.isDirectory cwd (docsOf c checkout) ∧
      ∃ s, d.readText cwd (navigationFileOf c checkout) = .ok s ∧ Navigation.parse? s = some n := by
  obtain ⟨hdocs, -, hread⟩ := navigationOf_eq_ok_iff.1 h
  exact ⟨hdocs, hread⟩

end Migration

end DocsMigration
