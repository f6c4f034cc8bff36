import DocsMigration.Proofs.Confinement
import DocsMigration.Proofs.SteadyDeeds
/-! Runs on steady ground. The deeds of a run that succeeds come one after the other, each leaving the
ground steady for the next, so the effects of the whole run are those of its deeds in a row. They depend
on the source, its navigation and the settings, and not on the site. -/

namespace DocsMigration

open Disk Work Effect Migration

namespace ApartSource

variable {c : Config} (S : ApartSource c) (n : Navigation) (found : List Document)

def assetsEffect (l : Location) : Effect := row (c.assets.map fun a => S.assetEffect a l)

def headPartialEffect (l : Location) : Effect :=
  filling S.cwd (Deed.headPartial.target c) (.text Scaffold.headPartial) l

def pagesEffect (l : Location) : Effect := row (found.map fun doc => S.pageEffect n doc l)

def sectionEffect (s : Section) (l : Location) : Effect :=
  filling S.cwd ((Deed.index s).target c) (.text (Scaffold.sectionIndex s.title s.weight)) l

def sectionsEffect (l : Location) : Effect := row (c.sections.map fun s => S.sectionEffect s l)

def runEffect (l : Location) : Effect :=
  ((S.assetsEffect l).followedBy (S.headPartialEffect l)).followedBy
    ((S.pagesEffect n found l).followedBy (S.sectionsEffect l))

variable {S n found} {d : Disk} {w : Workspace}

def ofCheckout (hsound : c.Sound) {checkout : Checkout} {cwd : Location} (hplain : d.Plain)
    (hopened : d.isDirectory cwd (docsOf c checkout))
    (hapart : (checkout.root.place cwd).Apart (c.site.root.place cwd)) : ApartSource c where
  docs := docsOf c checkout
  cwd := cwd
  source := checkout.root.place cwd
  src := d
  plain := hplain
  opened := hopened
  holds := Path.place_prefix_join hsound.docs.2
  apart := hapart

theorem Steady.isDirectory_docs (h : S.Steady d) : d.isDirectory S.cwd S.docs :=
  h.plain.isDirectory_iff.2 ⟨(S.plain.isDirectory_iff.1 S.opened).1, h.docs⟩

/-- A scan on steady ground finds what the source holds. -/
theorem Steady.scan_src (h : S.Steady d) (hscan : Document.scan d S.cwd S.docs = .ok found) :
    Document.scan S.src S.cwd S.docs = .ok found :=
  Document.scan_of_grown S.plain h.plain S.opened h.isDirectory_docs
    (fun r => .inl (h.agrees _ (S.holds.trans (List.prefix_append _ r)))) hscan

theorem reads_of_mem_scan (hscan : Document.scan S.src S.cwd S.docs = .ok found) {doc : Document}
    (hdoc : doc ∈ found) : S.Reads doc.path := by
  obtain ⟨r, hr, rfl⟩ := Document.exists_of_mem_scan S.plain hscan hdoc
  exact reads_descend (hr.proper S.plain)

theorem isInside_page (hscan : Document.scan S.src S.cwd S.docs = .ok found) {doc : Document}
    (hdoc : doc ∈ found) : Config.isInside (Route.destination doc.relPath c.site.homePage) :=
  Route.isInside_of_mem_scan S.plain hscan hdoc

section Phases

theorem Steady.copyAll_achieves (h : S.Steady w.disk) (hcwd : w.cwd = S.cwd) (hsound : c.Sound) :
    (CopiedAsset.copyAll S.docs c.site.root c.assets).Achieves S.assetsEffect []
      (fun copied d => copied = (c.assets.map S.copiedAsset).filterMap id ∧ S.Steady d) w := by
  have hall := achieves_mapM (S := fun a copied => copied = S.copiedAsset a) (I := S.Steady) h
    fun a ha w' hcwd' h' => h'.asset_achieves (hcwd'.trans hcwd) (hsound.assets a ha)
  have hcopied : (CopiedAsset.copyAll S.docs c.site.root c.assets).Achieves _ _
      (fun copied d => copied = (c.assets.map S.copiedAsset).filterMap id ∧ S.Steady d) w :=
    achieves_bind hall fun copied cs hd => achieves_pure ⟨by rw [eq_map_of_forall₂ hd.1], hd.2⟩
  exact (hcopied.settling (by simp)).congr fun l => followedBy_keep

theorem Steady.headPartial_achieves (h : S.Steady w.disk) (hcwd : w.cwd = S.cwd) :
    (Scaffold.createHeadPartial c.site.root).Achieves S.headPartialEffect
      [(Deed.headPartial.target c).place S.cwd] (fun _ d => S.Steady d) w :=
  h.missing_achieves .headPartial hcwd isInside_headPartialPath

theorem Steady.beforeScan_achieves (h : S.Steady w.disk) (hcwd : w.cwd = S.cwd) (hsound : c.Sound) :
    (beforeScan c S.docs).Achieves (fun l => (S.assetsEffect l).followedBy (S.headPartialEffect l))
      [(Deed.headPartial.target c).place S.cwd]
      (fun before d => before.1 = (c.assets.map S.copiedAsset).filterMap id ∧ S.Steady d) w := by
  have hbefore : (beforeScan c S.docs).Achieves _ _ (fun before d =>
      before.1 = (c.assets.map S.copiedAsset).filterMap id ∧ S.Steady d) w :=
    achieves_bind (h.copyAll_achieves hcwd hsound) fun _ _ hd =>
      achieves_bind (hd.2.headPartial_achieves hcwd) fun _ _ hd' => achieves_pure ⟨hd.1, hd'⟩
  exact (hbefore.settling (by simp)).congr fun l => by rw [followedBy_keep]

/-- The documents found on steady ground are those of the source. -/
theorem Steady.found_src {w' : Workspace} (h : S.Steady w.disk) (hcwd : w.cwd = S.cwd)
    (hfound : (Document.findAll S.docs).outcome w = (.ok found, w')) :
    Document.scan S.src S.cwd S.docs = .ok found := by
  have hscan := ((Document.outcome_findAll_eq_ok h.plain).1 hfound).1
  rw [hcwd] at hscan
  exact h.scan_src hscan

theorem Steady.pages_achieves {order : List Document} (h : S.Steady w.disk) (hcwd : w.cwd = S.cwd)
    (hscan : Document.scan S.src S.cwd S.docs = .ok found) (horder : order ⊆ found) :
    (order.mapM (migratePage c n)).Achieves (S.pagesEffect n order) []
      (fun pages d => pages = order.map (pageOf c n) ∧ S.Steady d) w := by
  have hall := achieves_mapM (S := fun doc page => page = pageOf c n doc) (I := S.Steady) h
    fun doc hdoc w' hcwd' h' => h'.page_achieves (hcwd'.trans hcwd)
      (reads_of_mem_scan hscan (horder hdoc)) (isInside_page hscan (horder hdoc))
  exact (hall.mono fun pages d hd => ⟨eq_map_of_forall₂ hd.1, hd.2⟩).settling (by simp)

theorem Steady.section_achieves {s : Section} (h : S.Steady w.disk) (hcwd : w.cwd = S.cwd)
    (hs : Config.Contained s.path) :
    (Scaffold.createSectionIndex c.site.root s).Achieves (S.sectionEffect s)
      [((Deed.index s).target c).place S.cwd] (fun _ d => S.Steady d) w := by
  have hfilled : (Scaffold.createSectionIndex c.site.root s).Achieves _ _ (fun _ d => S.Steady d) w :=
    achieves_bind (h.missing_achieves (.index s) (s := Scaffold.sectionIndex s.title s.weight) hcwd
      (isInside_sectionIndex hs)) fun _ _ hd => achieves_pure hd
  exact (hfilled.settling (by simp)).congr fun l => followedBy_keep

theorem Steady.sections_achieves (h : S.Steady w.disk) (hcwd : w.cwd = S.cwd) (hsound : c.Sound) :
    (c.sections.mapM (Scaffold.createSectionIndex c.site.root)).Achieves S.sectionsEffect
      (c.sections.map fun s => ((Deed.index s).target c).place S.cwd) (fun _ d => S.Steady d) w := by
  have hall := achieves_mapM (S := fun _ _ => True) (I := S.Steady) h fun s hs w' hcwd' h' =>
    (h'.section_achieves (hcwd'.trans hcwd) (hsound.sections s hs)).mono fun _ _ hd => ⟨trivial, hd⟩
  exact (hall.mono fun _ _ hd => hd.2).settling fun l hl => by simpa [eq_comm] using hl

theorem Steady.copyAll_untouched (h : S.Steady w.disk) (hcwd : w.cwd = S.cwd) (hsound : c.Sound) :
    (CopiedAsset.copyAll S.docs c.site.root c.assets).Does (fun d change => S.Untouched (d.apply change))
      (fun _ d => S.Steady d) w :=
  does_bind (does_mapM h fun a ha _ hcwd' h' => h'.asset_untouched (hcwd'.trans hcwd) (hsound.assets a ha))
    (fun _ _ => id) fun _ _ _ hd => does_pure hd

theorem Steady.headPartial_untouched (h : S.Steady w.disk) (hcwd : w.cwd = S.cwd) :
    (Scaffold.createHeadPartial c.site.root).Does (fun d change => S.Untouched (d.apply change))
      (fun _ d => S.Steady d) w :=
  h.missing_untouched .headPartial hcwd isInside_headPartialPath

theorem Steady.sections_untouched (h : S.Steady w.disk) (hcwd : w.cwd = S.cwd) (hsound : c.Sound) :
    (c.sections.mapM (Scaffold.createSectionIndex c.site.root)).Does
      (fun d change => S.Untouched (d.apply change)) (fun _ d => S.Steady d) w :=
  does_mapM h fun s hs _ hcwd' h' => does_bind
    (h'.missing_untouched (.index s) (s := Scaffold.sectionIndex s.title s.weight)
      (hcwd'.trans hcwd) (isInside_sectionIndex (hsound.sections s hs)))
    (fun _ _ => id) fun _ _ _ hd => does_pure hd

end Phases

end ApartSource

end DocsMigration
