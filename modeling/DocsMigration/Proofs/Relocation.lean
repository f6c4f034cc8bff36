import DocsMigration.Proofs.SteadyRuns
/-! A source at another place. A repository that is cloned again stands where the first clone did not, and
everything in it stands there with it. What a run does with a source depends on what is below its docs
directory and not on where that is, as long as the paths into both places are equally long, so that neither
is too long for the system where the other is not. -/

namespace DocsMigration

open Disk Work Effect Migration

section Paths

variable {p q : Path} {cwd : Location}

theorem Path.place_join_inside (hq : Config.isInside q) :
    (p.join q).place cwd = p.place cwd ++ Location.along [] q.names := by
  obtain ⟨hrel, hpar⟩ := Config.isInside_iff.1 hq
  have halong := Location.along_append_left (l := p.place cwd) (m := []) hpar
  rw [List.append_nil] at halong
  rw [Path.place_join hrel, halong]

theorem Path.getLast?_join (hp : p.text ≠ []) (hq : q.text ≠ []) (hrel : q.isAbsolute = false) :
    (p.join q).text.getLast? = q.text.getLast? := by
  obtain ⟨c, rest, hcons⟩ := List.exists_cons_of_ne_nil hq
  have hempty : ¬ (q.isAbsolute || p.text.isEmpty) := by simp [hrel, hp]
  rw [Path.join, if_neg hempty]
  split_ifs
  · rw [hcons, List.getLast?_append_of_ne_nil _ (by simp)]
  · rw [hcons, List.getLast?_append_of_ne_nil _ (by simp), List.getLast?_cons_cons]

/-- Paths go on equally long from paths that are equally long, if both or none of these end in a slash. -/
theorem Path.size_join {p' : Path} (hp : p.text ≠ []) (hp' : p'.text ≠ []) (hrel : q.isAbsolute = false)
    (hsize : Text.utf8Size p.text = Text.utf8Size p'.text)
    (hends : p.text.getLast? = some '/' ↔ p'.text.getLast? = some '/') :
    Text.utf8Size (p.join q).text = Text.utf8Size (p'.join q).text := by
  simp only [Path.join, hrel, Bool.false_or, List.isEmpty_iff, hp, hp', if_false, beq_iff_eq, hends]
  split_ifs <;> simp only [Text.utf8Size_append, hsize]

theorem Disk.stepsOf_join (hp : p.text ≠ []) (hq : q.text ≠ []) (hrel : q.isAbsolute = false) :
    stepsOf (p.join q) = p.names ++ stepsOf q := by
  rw [stepsOf, stepsOf, Path.getLast?_join hp hq hrel, Path.names_join hrel, List.append_assoc]

theorem Disk.parentName_notMem_stepsOf (h : Path.parentName ∉ q.names) : Path.parentName ∉ stepsOf q := by
  rcases stepsOf_cases q with hq | hq <;> rw [hq]
  · exact h
  · rw [List.mem_append, not_or]
    exact ⟨h, by decide⟩

end Paths

theorem Disk.Plain.filesWithin_congr {d d' : Disk} {l l' : Location} {depth : Nat} (hd : d.Plain) (hd' : d'.Plain)
    (heq : ∀ r, d.get? (l ++ r) = d'.get? (l' ++ r)) : d.filesWithin depth l = d'.filesWithin depth l' := by
  induction depth generalizing l l' with
  | zero => rfl
  | succ depth ih =>
    rw [filesWithin, filesWithin, hd.children_congr hd' fun n => heq [n]]
    congr 2
    funext x
    rw [filesOf, filesOf]
    split
    · exact ih fun r => by simpa using heq (x.1 :: r)
    · rfl
    · rfl

namespace ApartSource

variable {c : Config} {S S' : ApartSource c} {q : Path} {e : Entry} {found found' : List Document}
  {doc : Document} {n : Navigation} {l : Location} {a : Asset}

/-- Whether two sources have the same below their docs directories, with paths there that are equally long. -/
structure Twins (S S' : ApartSource c) : Prop where
  cwd : S.cwd = S'.cwd
  same : ∀ r, S.src.get? (S.docs.place S.cwd ++ r) = S'.src.get? (S'.docs.place S'.cwd ++ r)
  size : Text.utf8Size S.docs.text = Text.utf8Size S'.docs.text
  ends : S.docs.text.getLast? = S'.docs.text.getLast?

theorem Twins.symm (h : S.Twins S') : S'.Twins S :=
  ⟨h.cwd.symm, fun r => (h.same r).symm, h.size.symm, h.ends.symm⟩

theorem addresses_docs (S : ApartSource c) : Addresses S.docs S.docs.names :=
  (S.plain.isDirectory_iff.1 S.opened).1

theorem Twins.same_join (h : S.Twins S') (hq : Config.isInside q) (r : Location) :
    S.src.get? ((S.docs.join q).place S.cwd ++ r) = S'.src.get? ((S'.docs.join q).place S'.cwd ++ r) := by
  rw [Path.place_join_inside hq, Path.place_join_inside hq, List.append_assoc, List.append_assoc, h.same]

theorem mem_text_join (S : ApartSource c) (hrel : q.isAbsolute = false) :
    '\x00' ∈ (S.docs.join q).text ↔ '\x00' ∈ q.text := by
  have hempty : ¬ (q.isAbsolute || S.docs.text.isEmpty) := by simp [hrel, S.addresses_docs.1]
  have hzero := S.addresses_docs.2.1
  rw [Path.join, if_neg hempty]
  split_ifs <;> simp [hzero]

theorem Twins.addresses_join (h : S.Twins S') (hq : q.text ≠ []) (hrel : q.isAbsolute = false)
    (haddr : Addresses (S.docs.join q) (S.docs.join q).names) :
    Addresses (S'.docs.join q) (S'.docs.join q).names := by
  obtain ⟨-, hzero, hsize, hnames⟩ := haddr
  have hsame := Path.size_join S.addresses_docs.1 S'.addresses_docs.1 hrel h.size (by rw [h.ends])
  refine ⟨Path.join_text_ne_nil hq, ?_, hsame ▸ hsize, ?_⟩
  · rwa [mem_text_join S' hrel, ← mem_text_join S hrel]
  · rw [Path.names_join hrel] at hnames ⊢
    intro m hm
    rcases List.mem_append.1 hm with hm | hm
    · exact S'.addresses_docs.2.2.2 m hm
    · exact hnames m (List.mem_append_right _ hm)

theorem Twins.leads_join (h : S.Twins S') (hq : q.text ≠ []) (hinside : Config.isInside q)
    (hleads : S.src.Leads S.cwd (S.docs.join q)) : S'.src.Leads S'.cwd (S'.docs.join q) := by
  obtain ⟨hrel, hpar⟩ := Config.isInside_iff.1 hinside
  obtain ⟨haddr, hpassed⟩ := hleads
  refine ⟨h.addresses_join hq hrel haddr, fun m hm => ?_⟩
  rw [Path.origin_join hrel, stepsOf_join S'.addresses_docs.1 hq hrel, Location.passed_append,
    List.mem_append] at hm
  rcases hm with hm | hm
  · exact (S'.plain.isDirectory_iff.1 S'.opened).2 m (List.mem_append_left _ hm)
  -- what is passed below the one docs directory is passed below the other
  have hbelow (T : ApartSource c) : (T.docs.place T.cwd).passed (stepsOf q) =
      (Location.passed [] (stepsOf q)).map (T.docs.place T.cwd ++ ·) := by
    rw [← Location.passed_append_left (parentName_notMem_stepsOf hpar), List.append_nil]
  change m ∈ (S'.docs.place S'.cwd).passed (stepsOf q) at hm
  rw [hbelow, List.mem_map] at hm
  obtain ⟨r, hr, rfl⟩ := hm
  rw [← h.same]
  refine hpassed _ ?_
  rw [Path.origin_join hrel, stepsOf_join S.addresses_docs.1 hq hrel, Location.passed_append]
  refine List.mem_append_right _ ?_
  change _ ∈ (S.docs.place S.cwd).passed (stepsOf q)
  rw [hbelow]
  exact List.mem_map_of_mem hr

theorem Twins.entry?_join (h : S.Twins S') (hq : q.text ≠ []) (hinside : Config.isInside q) :
    S.src.entry? S.cwd (S.docs.join q) = S'.src.entry? S'.cwd (S'.docs.join q) := by
  have hsame := h.same_join hinside []
  rw [List.append_nil, List.append_nil] at hsame
  refine Option.ext fun e => ?_
  rw [S.plain.entry?_eq_some, S'.plain.entry?_eq_some, hsame]
  exact and_congr_left fun _ => ⟨h.leads_join hq hinside, h.symm.leads_join hq hinside⟩

theorem Twins.assetEffect_eq (h : S.Twins S') (ha : Config.Contained a.source) :
    S.assetEffect a l = S'.assetEffect a l := by
  have hentry : S.src.entry? S.cwd (S.sourceOf a) = S'.src.entry? S'.cwd (S'.sourceOf a) :=
    h.entry?_join ha.ne_nil ha.2
  have hcopy : copying S.cwd ((Deed.asset a).target c) S.src ((S.sourceOf a).place S.cwd) l =
      copying S.cwd ((Deed.asset a).target c) S'.src ((S'.sourceOf a).place S'.cwd) l := by
    simp only [copying, copyEntry, sourceOf, h.same_join ha.2]
  rw [assetEffect, assetEffect, hentry, hcopy, h.cwd]

theorem Twins.copiedAsset_eq (h : S.Twins S') (ha : Config.Contained a.source) :
    S.copiedAsset a = S'.copiedAsset a := by
  have hentry : S.src.entry? S.cwd (S.sourceOf a) = S'.src.entry? S'.cwd (S'.sourceOf a) :=
    h.entry?_join ha.ne_nil ha.2
  have hcount : S.src.filesWithin pathLimit ((S.sourceOf a).place S.cwd) =
      S'.src.filesWithin pathLimit ((S'.sourceOf a).place S'.cwd) :=
    S.plain.filesWithin_congr S'.plain (h.same_join ha.2)
  rw [copiedAsset, copiedAsset, hentry, hcount]

def moved (S' : ApartSource c) (doc : Document) : Document :=
  Document.reached S'.docs [] (Text.splitAt '/' doc.relPath)

theorem moved_reached (S S' : ApartSource c) {r : List Name} (hr : ∀ n ∈ r, n.Proper) (hne : r ≠ []) :
    S'.moved (Document.reached S.docs [] r) = Document.reached S'.docs [] r := by
  have hsplit : Text.splitAt '/' (Document.reached S.docs [] r).relPath = r := Document.splitAt_relPath hr hne
  rw [moved, hsplit]

theorem relPath_moved (hscan : Document.scan S.src S.cwd S.docs = .ok found) (hdoc : doc ∈ found)
    (S' : ApartSource c) : (S'.moved doc).relPath = doc.relPath := by
  obtain ⟨r, hr, rfl⟩ := Document.exists_of_mem_scan S.plain hscan hdoc
  rw [moved_reached S S' (hr.proper S.plain) hr.nonempty]
  rfl

/-- The documents of both sources are the same, each at its place. -/
theorem Twins.scan_eq (h : S.Twins S') (hscan : Document.scan S.src S.cwd S.docs = .ok found)
    (hscan' : Document.scan S'.src S'.cwd S'.docs = .ok found') : found' = found.map S'.moved := by
  obtain ⟨⟨hnodup, hmem⟩, hsorted⟩ := Document.scan_lists S.plain S.opened hscan
  obtain ⟨hlists', hsorted'⟩ := Document.scan_lists S'.plain S'.opened hscan'
  have hlies (r : List Name) : Document.Lies S'.src (S'.docs.place S'.cwd) r ↔
      Document.Lies S.src (S.docs.place S.cwd) r := by
    constructor
    · exact fun hr => ⟨hr.1, hr.2, hr.3, by rw [h.same]; exact hr.4⟩
    · exact fun hr => ⟨hr.1, hr.2, hr.3, by rw [← h.same]; exact hr.4⟩
  have hrel : ∀ doc ∈ found, (S'.moved doc).relPath = doc.relPath := fun doc hdoc => relPath_moved hscan hdoc S'
  have hmoved : (found.map S'.moved).Pairwise fun a b => a.relPath < b.relPath :=
    List.pairwise_map.2 (hsorted.imp_of_mem fun ha hb hab => by rwa [hrel _ ha, hrel _ hb])
  refine hlists'.unique ⟨hmoved.imp fun hab heq => (heq ▸ hab).false, fun doc => ?_⟩ hsorted' hmoved
  rw [List.mem_map]
  constructor
  · rintro ⟨doc, hdoc, rfl⟩
    obtain ⟨r, hr, rfl⟩ := (hmem doc).1 hdoc
    exact ⟨r, (hlies r).2 hr, moved_reached S S' (hr.proper S.plain) hr.nonempty⟩
  · rintro ⟨r, hr, rfl⟩
    have hr' := (hlies r).1 hr
    exact ⟨_, (hmem _).2 ⟨r, hr', rfl⟩, moved_reached S S' (hr'.proper S.plain) hr'.nonempty⟩

theorem Twins.pageEffect_moved (h : S.Twins S') (hscan : Document.scan S.src S.cwd S.docs = .ok found)
    (hdoc : doc ∈ found) {s s' : Text} (hs : S.src.readText S.cwd doc.path = .ok s)
    (hs' : S'.src.readText S'.cwd (S'.moved doc).path = .ok s') :
    S'.pageEffect n (S'.moved doc) l = S.pageEffect n doc l := by
  have hrel := relPath_moved hscan hdoc S'
  obtain ⟨r, hr, rfl⟩ := Document.exists_of_mem_scan S.plain hscan hdoc
  have hproper := hr.proper S.plain
  rw [pageEffect, pageEffect, hs, hs']
  rw [moved_reached S S' hproper hr.nonempty] at hs'
  -- both texts are what stands at the same names below the two docs directories
  have hfile := (S.plain.readText_eq_ok.1 hs).2
  have hfile' := (S'.plain.readText_eq_ok.1 hs').2
  rw [Document.reached, Path.place_descend hproper] at hfile hfile'
  rw [h.same, hfile'] at hfile
  obtain rfl : s' = s := by simpa using hfile
  simp only [h.cwd, Deed.target, Deed.path, pageText, hrel]

/-- A run from either source has the same effects, if all documents can be read. -/
theorem Twins.runEffect_eq (h : S.Twins S') (hsound : c.Sound)
    (hscan : Document.scan S.src S.cwd S.docs = .ok found)
    (hscan' : Document.scan S'.src S'.cwd S'.docs = .ok found')
    (hread : ∀ doc ∈ found, ∃ s, S.src.readText S.cwd doc.path = .ok s)
    (hread' : ∀ doc ∈ found', ∃ s, S'.src.readText S'.cwd doc.path = .ok s) :
    S'.runEffect n found' l = S.runEffect n found l := by
  have hassets : S'.assetsEffect l = S.assetsEffect l := by
    rw [assetsEffect, assetsEffect]
    exact congrArg row (List.map_congr_left fun a ha => (h.assetEffect_eq (hsound.assets a ha).1).symm)
  obtain rfl := h.scan_eq hscan hscan'
  have hpages : S'.pagesEffect n (found.map S'.moved) l = S.pagesEffect n found l := by
    rw [pagesEffect, pagesEffect, List.map_map]
    refine congrArg row (List.map_congr_left fun doc hdoc => ?_)
    obtain ⟨s, hs⟩ := hread doc hdoc
    obtain ⟨s', hs'⟩ := hread' _ (List.mem_map_of_mem hdoc)
    exact h.pageEffect_moved hscan hdoc hs hs'
  rw [runEffect, runEffect, hassets, hpages]
  simp only [headPartialEffect, sectionsEffect, sectionEffect, h.cwd]

theorem Twins.pages_eq (h : S.Twins S') (hscan : Document.scan S.src S.cwd S.docs = .ok found)
    (hscan' : Document.scan S'.src S'.cwd S'.docs = .ok found') :
    found'.map (pageOf c n) = found.map (pageOf c n) := by
  rw [h.scan_eq hscan hscan', List.map_map]
  refine List.map_congr_left fun doc hdoc => ?_
  simp only [Function.comp, pageOf, relPath_moved hscan hdoc S']

theorem Twins.assets_eq (h : S.Twins S') (hsound : c.Sound) :
    c.assets.map S.copiedAsset = c.assets.map S'.copiedAsset :=
  List.map_congr_left fun a ha => h.copiedAsset_eq (hsound.assets a ha).1

end ApartSource

end DocsMigration
