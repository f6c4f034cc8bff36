import DocsMigration.Migration.Documents
import DocsMigration.Proofs.Walking
/-! What a scan finds. The documents of a directory are the Markdown files below it whose names are all
visible, each of them once and in strictly increasing order of their relative paths. So the result of a
scan can be read off the files that are there, and directories that come to them change nothing. -/

namespace DocsMigration

namespace Document

open Disk

def reached (directory : Path) (above : Text) (r : List Name) : Document :=
  ⟨r.foldl below above, directory.descend r⟩

/-- Whether names lead from a place to a document: a Markdown file, with no hidden name on the way. -/
structure Lies (d : Disk) (l : Location) (r : List Name) : Prop where
  nonempty : r ≠ []
  visible : ∀ n ∈ r, Name.isHidden n = false
  markdown : ∀ last ∈ r.getLast?, Name.extension? last = some extension
  file : ∃ c, d.get? (l ++ r) = some (.file c)

/-- The documents found are those at the end of the names with a property, each of them once. -/
def Lists (directory : Path) (above : Text) (P : List Name → Prop) (found : List Document) : Prop :=
  found.Nodup ∧ ∀ doc, doc ∈ found ↔ ∃ r, P r ∧ doc = reached directory above r

section Names

variable {d : Disk} {l : Location} {r r' : List Name} {n : Name} {directory : Path} {above : Text}

theorem Lies.proper (h : Lies d l r) (hd : d.Plain) : ∀ n ∈ r, n.Proper := by
  obtain ⟨c, hc⟩ := h.file
  exact fun n hn => hd.proper (l ++ r) (by simp [hc]) n (List.mem_append_right l hn)

theorem lies_singleton : Lies d l [n] ↔
    Name.isHidden n = false ∧ Name.extension? n = some extension ∧
      ∃ c, d.get? (l ++ [n]) = some (.file c) :=
  ⟨fun h => ⟨h.visible n (by simp), h.markdown n (by simp), h.file⟩,
    fun h => ⟨by simp, by simpa using h.1, by simpa using h.2.1, h.2.2⟩⟩

theorem lies_cons (hr : r ≠ []) :
    Lies d l (n :: r) ↔ Name.isHidden n = false ∧ Lies d (l ++ [n]) r := by
  obtain ⟨k, r, rfl⟩ := List.exists_cons_of_ne_nil hr
  constructor
  · intro h
    refine ⟨h.visible n (by simp), hr, fun m hm => h.visible m (List.mem_cons_of_mem n hm), ?_, ?_⟩
    · simpa using h.markdown
    · simpa using h.file
  · rintro ⟨hn, h⟩
    refine ⟨by simp, fun m hm => ?_, ?_, ?_⟩
    · rcases List.mem_cons.1 hm with rfl | hm
      · exact hn
      · exact h.visible m hm
    · simpa using h.markdown
    · simpa using h.file

theorem reached_injective (hr : ∀ n ∈ r, n.Proper) (hr' : ∀ n ∈ r', n.Proper)
    (heq : reached directory above r = reached directory above r') : r = r' := by
  have hpath : directory.descend r = directory.descend r' := congrArg Document.path heq
  have hnames := congrArg Path.names hpath
  rwa [(Path.descend_names hr).1, (Path.descend_names hr').1, List.append_cancel_left_eq] at hnames

theorem foldl_below (habove : above ≠ []) :
    r.foldl below above = List.intercalate ['/'] (above :: r) := by
  induction r generalizing above with
  | nil => simp [List.intercalate]
  | cons n r ih =>
    have hbelow : below above n = above ++ '/' :: n := by simp [below, habove]
    rw [List.foldl_cons, hbelow, ih (by simp)]
    cases r <;> simp [List.intercalate]

theorem relPath_reached (hr : ∀ n ∈ r, n.Proper) (hne : r ≠ []) :
    (reached directory [] r).relPath = List.intercalate ['/'] r := by
  obtain ⟨n, r, rfl⟩ := List.exists_cons_of_ne_nil hne
  rw [reached, List.foldl_cons]
  exact foldl_below (hr n (by simp)).1

theorem splitAt_relPath (hr : ∀ n ∈ r, n.Proper) (hne : r ≠ []) :
    Text.splitAt '/' (reached directory [] r).relPath = r := by
  rw [relPath_reached hr hne]
  exact Text.splitAt_intercalate hne fun n hn => (hr n hn).2.1

end Names

section Scans

variable {d : Disk} {cwd : Location} {directory : Path} {above : Text} {found : List Document}
  {scanInner : Path → Text → Except MigrationError (List Document)} {n : Name} {e : Entry}
  {entries : List (Name × Entry)}

theorem Lists.congr {P P' : List Name → Prop} (h : Lists directory above P found) (heq : ∀ r, P' r ↔ P r) :
    Lists directory above P' found :=
  ⟨h.1, fun doc => (h.2 doc).trans (exists_congr fun r => and_congr_left fun _ => (heq r).symm)⟩

theorem Lists.append {P P' : List Name → Prop} {found' : List Document}
    (h : Lists directory above P found) (h' : Lists directory above P' found')
    (hproper : ∀ r, P r ∨ P' r → ∀ n ∈ r, n.Proper) (hdisjoint : ∀ r, P r → ¬ P' r) :
    Lists directory above (fun r => P r ∨ P' r) (found ++ found') := by
  refine ⟨List.nodup_append.2 ⟨h.1, h'.1, ?_⟩, fun doc => ?_⟩
  · rintro doc hdoc _ hdoc' rfl
    obtain ⟨r, hr, rfl⟩ := (h.2 doc).1 hdoc
    obtain ⟨r', hr', heq⟩ := (h'.2 _).1 hdoc'
    obtain rfl := reached_injective (hproper r (.inl hr)) (hproper r' (.inr hr')) heq
    exact hdisjoint r hr hr'
  · rw [List.mem_append, h.2, h'.2]
    simp only [or_and_right, exists_or]

def scanEntry (scanInner : Path → Text → Except MigrationError (List Document)) (directory : Path)
    (above : Text) (x : Name × Entry) : Except MigrationError (List Document) :=
  if Name.isHidden x.1 then pure []
  else match x.2 with
    | .directory => scanInner (directory.join ⟨x.1⟩) (below above x.1)
    | _ =>
      if Name.extension? x.1 = some extension then pure [⟨below above x.1, directory.join ⟨x.1⟩⟩]
      else pure []

theorem scanEntries_cons (x : Name × Entry) (rest : List (Name × Entry)) :
    scanEntries scanInner directory above (x :: rest) = do
      let found ← scanEntry scanInner directory above x
      let more ← scanEntries scanInner directory above rest
      return found ++ more := by
  obtain ⟨n, e⟩ := x
  unfold scanEntry
  cases e <;> simp only [scanEntries] <;> split_ifs <;> rfl

theorem scanEntry_lists {l : Location} (hd : d.Plain) (he : d.get? (l ++ [n]) = some e)
    (hinner : ∀ found, e = .directory →
      scanInner (directory.join ⟨n⟩) (below above n) = .ok found →
        Lists (directory.join ⟨n⟩) (below above n) (Lies d (l ++ [n])) found)
    (h : scanEntry scanInner directory above (n, e) = .ok found) :
    Lists directory above (fun r => Lies d l r ∧ r.head? = some n) found := by
  have hnone (hno : ∀ r, ¬ Lies d l (n :: r)) :
      Lists directory above (fun r => Lies d l r ∧ r.head? = some n) [] := by
    refine ⟨.nil, fun doc => ⟨by simp, ?_⟩⟩
    rintro ⟨r, ⟨hr, hhead⟩, -⟩
    obtain ⟨r, rfl⟩ := List.head?_eq_some_iff.1 hhead
    exact absurd hr (hno r)
  rw [scanEntry] at h
  by_cases hhidden : Name.isHidden n
  · rw [if_pos hhidden] at h
    obtain rfl : [] = found := by simpa [pure, Except.pure] using h
    exact hnone fun r hr => by simpa [hhidden] using hr.visible n (by simp)
  · rw [if_neg hhidden] at h
    cases e with
    | directory =>
      obtain ⟨hnodup, hmem⟩ := hinner found rfl h
      refine ⟨hnodup, fun doc => (hmem doc).trans ⟨?_, ?_⟩⟩
      · rintro ⟨r, hr, rfl⟩
        exact ⟨n :: r, ⟨(lies_cons hr.nonempty).2 ⟨by simpa using hhidden, hr⟩, rfl⟩, rfl⟩
      · rintro ⟨r, ⟨hr, hhead⟩, rfl⟩
        obtain ⟨r, rfl⟩ := List.head?_eq_some_iff.1 hhead
        have hne : r ≠ [] := by
          rintro rfl
          obtain ⟨c, hc⟩ := hr.file
          simp [he] at hc
        exact ⟨r, ((lies_cons hne).1 hr).2, rfl⟩
    | link target => exact absurd he (hd.linkless _ target)
    | file c =>
      have hend : ∀ r, Lies d l (n :: r) → r = [] := by
        intro r hr
        obtain ⟨c', hc'⟩ := hr.file
        exact hd.eq_nil_of_file he (by simp [hc'])
      by_cases hext : Name.extension? n = some extension
      · obtain rfl : [⟨below above n, directory.join ⟨n⟩⟩] = found := by
          simpa [hext, pure, Except.pure] using h
        refine ⟨List.nodup_singleton _, fun doc => ⟨fun hdoc => ⟨[n], ⟨?_, rfl⟩, ?_⟩, ?_⟩⟩
        · exact lies_singleton.2 ⟨by simpa using hhidden, hext, c, he⟩
        · exact List.mem_singleton.1 hdoc
        · rintro ⟨r, ⟨hr, hhead⟩, rfl⟩
          obtain ⟨r, rfl⟩ := List.head?_eq_some_iff.1 hhead
          rw [hend r hr]
          exact List.mem_singleton.2 rfl
      · obtain rfl : [] = found := by simpa [hext, pure, Except.pure] using h
        refine hnone fun r hr => ?_
        obtain rfl := hend r hr
        exact hext (lies_singleton.1 hr).2.1

theorem scanEntries_lists {l : Location} (hd : d.Plain) (hnames : (entries.map (·.1)).Nodup)
    (hentries : ∀ x ∈ entries, d.get? (l ++ [x.1]) = some x.2)
    (hinner : ∀ n, (n, Entry.directory) ∈ entries → ∀ found,
      scanInner (directory.join ⟨n⟩) (below above n) = .ok found →
        Lists (directory.join ⟨n⟩) (below above n) (Lies d (l ++ [n])) found)
    (h : scanEntries scanInner directory above entries = .ok found) :
    Lists directory above (fun r => Lies d l r ∧ ∃ x ∈ entries, r.head? = some x.1) found := by
  induction entries generalizing found with
  | nil =>
    obtain rfl : [] = found := by simpa [scanEntries] using h
    exact ⟨.nil, by simp⟩
  | cons x rest ih =>
    obtain ⟨n, e⟩ := x
    obtain ⟨hfresh, hnames⟩ := List.nodup_cons.1 hnames
    rw [scanEntries_cons] at h
    obtain ⟨first, hfirst, h⟩ := bind_eq_ok.1 h
    obtain ⟨more, hmore, h⟩ := bind_eq_ok.1 h
    obtain rfl : first ++ more = found := by simpa [pure, Except.pure] using h
    have hfirst := scanEntry_lists hd (hentries _ List.mem_cons_self)
      (fun found he => hinner n (he ▸ List.mem_cons_self) found) hfirst
    have hmore := ih hnames (fun x hx => hentries x (List.mem_cons_of_mem _ hx))
      (fun n hn => hinner n (List.mem_cons_of_mem _ hn)) hmore
    have hall := hfirst.append hmore (fun r hr => hr.elim (·.1.proper hd) (·.1.proper hd)) ?_
    · refine ⟨hall.1, fun doc => (hall.2 doc).trans (exists_congr fun r => and_congr_left fun _ => ?_)⟩
      simp [and_or_left]
    · rintro r ⟨-, hhead⟩ ⟨-, x, hx, hhead'⟩
      have hname : n = x.1 := Option.some.inj (hhead.symm.trans hhead')
      exact hfresh (List.mem_map.2 ⟨x, hx, hname.symm⟩)

theorem scanWithin_lists {o : Enumeration} {depth : Nat} (hd : d.Plain)
    (h : scanWithin o d cwd depth directory above = .ok found) :
    Lists directory above (Lies d (directory.place cwd)) found := by
  induction depth generalizing directory above found with
  | zero => simp [scanWithin] at h
  | succ depth ih =>
    rw [scanWithin] at h
    obtain ⟨entries, hentries, h⟩ := bind_eq_ok.1 h
    obtain ⟨-, rfl⟩ := hd.readDirectory_eq_ok.1 (mapError_eq_ok.1 hentries)
    have hperm := o.perm directory (d.children (directory.place cwd))
    have hfound := scanEntries_lists hd ((hperm.map _).nodup_iff.2 (hd.nodup_children _))
      (fun x hx => hd.mem_children.1 (hperm.mem_iff.1 hx)) (fun n hn found hfound => ?_) h
    · refine hfound.congr fun r => ⟨fun hr => ⟨hr, ?_⟩, (·.1)⟩
      obtain ⟨n, r, rfl⟩ := List.exists_cons_of_ne_nil hr.nonempty
      obtain ⟨c, hc⟩ := hr.file
      obtain ⟨e, he⟩ := Option.ne_none_iff_exists'.1 (hd.get?_child (by rw [hc]; simp))
      exact ⟨(n, e), hperm.mem_iff.2 (hd.mem_children.2 he), rfl⟩
    · rw [← Path.place_join_name (hd.proper_of_mem_children (hperm.mem_iff.1 hn))]
      exact ih hfound

end Scans

section Sorted

variable {d d' : Disk} {cwd : Location} {docs : Path} {found found' : List Document}

/-- A scan of a directory finds all its documents, in strictly increasing order, whatever the order in which
it meets the entries. -/
theorem scanBy_lists {o : Enumeration} (hd : d.Plain) (hdocs : d.isDirectory cwd docs)
    (h : scanBy o d cwd docs = .ok found) :
    Lists docs [] (Lies d (docs.place cwd)) found ∧
      found.Pairwise fun a b => a.relPath < b.relPath := by
  rw [scanBy, if_pos hdocs] at h
  obtain ⟨all, hall, h⟩ := bind_eq_ok.1 h
  obtain rfl : Text.sortBy (fun a b => Text.le a.relPath b.relPath) all = found := by
    simpa [pure, Except.pure] using h
  obtain ⟨hnodup, hmem⟩ := scanWithin_lists hd hall
  have hlists : Lists docs [] (Lies d (docs.place cwd))
      (Text.sortBy (fun a b => Text.le a.relPath b.relPath) all) :=
    ⟨Text.sortBy_perm.nodup_iff.2 hnodup, fun doc => by rw [Text.sortBy_perm.mem_iff, hmem]⟩
  refine ⟨hlists, ?_⟩
  have hsorted : (Text.sortBy (fun a b => Text.le a.relPath b.relPath) all).Pairwise
      fun a b => Text.le a.relPath b.relPath :=
    Text.pairwise_sortBy (fun a b => Text.le_or_le a.relPath b.relPath)
      fun a b c => Text.le_of_le_of_le a.relPath b.relPath c.relPath
  refine (hsorted.and hlists.1).imp_of_mem fun {a b} ha hb hab => ?_
  refine lt_of_le_of_ne (Text.le_iff.1 hab.1) fun heq => hab.2 ?_
  obtain ⟨r, hr, rfl⟩ := (hlists.2 a).1 ha
  obtain ⟨r', hr', rfl⟩ := (hlists.2 b).1 hb
  have hsplit : Text.splitAt '/' (reached docs [] r).relPath = r :=
    splitAt_relPath (hr.proper hd) hr.nonempty
  rw [← hsplit, heq, splitAt_relPath (hr'.proper hd) hr'.nonempty]

theorem scan_lists (hd : d.Plain) (hdocs : d.isDirectory cwd docs) (h : scan d cwd docs = .ok found) :
    Lists docs [] (Lies d (docs.place cwd)) found ∧
      found.Pairwise fun a b => a.relPath < b.relPath :=
  scanBy_lists hd hdocs h

/-- The same documents can be listed in strictly increasing order in one way only. -/
theorem Lists.unique {above : Text} {P : List Name → Prop} (h : Lists docs above P found)
    (h' : Lists docs above P found') (hsorted : found.Pairwise fun a b => a.relPath < b.relPath)
    (hsorted' : found'.Pairwise fun a b => a.relPath < b.relPath) : found = found' := by
  have hperm : found.Perm found' :=
    (List.perm_ext_iff_of_nodup h.1 h'.1).2 fun doc => by rw [h.2, h'.2]
  exact hperm.eq_of_pairwise (fun a b _ _ hab hba => absurd hba (not_lt_of_gt hab)) hsorted hsorted'

theorem exists_of_mem_scan (hd : d.Plain) (h : scan d cwd docs = .ok found) {doc : Document}
    (hdoc : doc ∈ found) : ∃ r, Lies d (docs.place cwd) r ∧ doc = reached docs [] r := by
  by_cases hdocs : d.isDirectory cwd docs
  · exact ((scan_lists hd hdocs h).1.2 doc).1 hdoc
  · obtain rfl : [] = found := by simpa [scan, scanBy, hdocs, pure, Except.pure] using h
    simp at hdoc

/-- Below a place, directories may have come to a disk, and nothing else has changed. -/
def GrownBelow (l : Location) (d d' : Disk) : Prop :=
  ∀ r, d'.get? (l ++ r) = d.get? (l ++ r) ∨
    d.get? (l ++ r) = none ∧ d'.get? (l ++ r) = some .directory

theorem GrownBelow.below {l : Location} (h : GrownBelow l d d') (n : Name) :
    GrownBelow (l ++ [n]) d d' := fun r => by simpa using h (n :: r)

theorem GrownBelow.of_some {l r : Location} {e : Entry} (h : GrownBelow l d d')
    (he : d.get? (l ++ r) = some e) : d'.get? (l ++ r) = some e := by
  rcases h r with heq | ⟨hnone, -⟩
  · rw [heq, he]
  · simp [hnone] at he

theorem GrownBelow.file_iff {l r : Location} {c : Content} (h : GrownBelow l d d') :
    d'.get? (l ++ r) = some (.file c) ↔ d.get? (l ++ r) = some (.file c) := by
  rcases h r with heq | ⟨hnone, hdir⟩
  · rw [heq]
  · simp [hnone, hdir]

theorem GrownBelow.within {l m : Location} (h : GrownBelow l d d') (hm : l <+: m) : GrownBelow m d d' := by
  obtain ⟨tail, rfl⟩ := hm
  intro r
  rw [List.append_assoc]
  exact h (tail ++ r)

/-- A document that can be read after directories have come could be read before. -/
theorem readText_of_grown {r : List Name} {s : Text} (hd : d.Plain) (hd' : d'.Plain)
    (hdocs : d.isDirectory cwd docs) (hgrown : GrownBelow (docs.place cwd) d d') (hr : ∀ n ∈ r, n.Proper)
    (h : d'.readText cwd (docs.descend r) = .ok s) : d.readText cwd (docs.descend r) = .ok s := by
  obtain ⟨hleads, hfile'⟩ := hd'.readText_eq_ok.1 h
  have hplace : (docs.descend r).place cwd = docs.place cwd ++ r := Path.place_descend hr
  have hfile : d.get? ((docs.descend r).place cwd) = some (.file (.text s)) := by
    rw [hplace] at hfile' ⊢
    exact hgrown.file_iff.1 hfile'
  refine hd.readText_eq_ok.2 ⟨⟨hleads.1, fun m hm => ?_⟩, hfile⟩
  rcases (Path.mem_way_descend hr).1 (passed_stepsOf_subset hm) with hway | ⟨-, hprefix⟩
  · exact (hd.isDirectory_iff.1 hdocs).2 m hway
  · refine hd.get?_of_prefix (by simp [hfile]) (hplace ▸ hprefix) ?_
    rintro rfl
    have hdir := hleads.2 _ hm
    simp [hfile'] at hdir

theorem scanEntries_ok_iff {directory : Path} {above : Text} {entries : List (Name × Entry)}
    {scanInner : Path → Text → Except MigrationError (List Document)} :
    (∃ found, scanEntries scanInner directory above entries = .ok found) ↔
      ∀ n, (n, Entry.directory) ∈ entries → Name.isHidden n = false →
        ∃ found, scanInner (directory.join ⟨n⟩) (below above n) = .ok found := by
  induction entries with
  | nil => simp [scanEntries]
  | cons x rest ih =>
    obtain ⟨n, e⟩ := x
    have hentry : (∃ found, scanEntry scanInner directory above (n, e) = .ok found) ↔
        (e = .directory → Name.isHidden n = false →
          ∃ found, scanInner (directory.join ⟨n⟩) (below above n) = .ok found) := by
      unfold scanEntry
      cases hhidden : Name.isHidden n
      · cases e with
        | directory => simp
        | file | link => by_cases hext : Name.extension? n = some extension <;>
            simp [hext, pure, Except.pure]
      · simp [pure, Except.pure]
    have hcons : (∃ found, scanEntries scanInner directory above ((n, e) :: rest) = .ok found) ↔
        (∃ found, scanEntry scanInner directory above (n, e) = .ok found) ∧
          ∃ found, scanEntries scanInner directory above rest = .ok found := by
      simp only [scanEntries_cons, bind_eq_ok]
      simp [pure, Except.pure]
    rw [hcons, hentry, ih]
    constructor
    · rintro ⟨hn, hrest⟩ m hm
      rcases List.mem_cons.1 hm with heq | hm
      · obtain ⟨rfl, rfl⟩ := Prod.mk.inj heq
        exact hn rfl
      · exact hrest m hm
    · intro hall
      exact ⟨fun he => hall n (he ▸ List.mem_cons_self), fun m hm => hall m (List.mem_cons_of_mem _ hm)⟩

theorem scanWithin_of_grown {o o' : Enumeration} {depth : Nat} {directory : Path} {above : Text} (hd : d.Plain)
    (hd' : d'.Plain) (hdir : d.isDirectory cwd directory) (hgrown : GrownBelow (directory.place cwd) d d')
    (h : ∃ found, scanWithin o' d' cwd depth directory above = .ok found) :
    ∃ found, scanWithin o d cwd depth directory above = .ok found := by
  induction depth generalizing directory above with
  | zero => simp [scanWithin] at h
  | succ depth ih =>
    obtain ⟨found, h⟩ := h
    rw [scanWithin] at h
    obtain ⟨entries, hentries, h⟩ := bind_eq_ok.1 h
    obtain ⟨-, rfl⟩ := hd'.readDirectory_eq_ok.1 (mapError_eq_ok.1 hentries)
    have hread := mapError_eq_ok (f := MigrationError.file directory).2
      (hd.readDirectory_eq_ok.2 ⟨hdir, rfl⟩)
    have hinner := scanEntries_ok_iff.1 ⟨found, h⟩
    have hscan : ∃ found, scanEntries (scanWithin o d cwd depth) directory above
        (o.order directory (d.children (directory.place cwd))) = .ok found := by
      refine scanEntries_ok_iff.2 fun n hn hvisible => ?_
      replace hn := (o.perm _ _).mem_iff.1 hn
      have hproper := hd.proper_of_mem_children hn
      have hplace : (directory.join ⟨n⟩).place cwd = directory.place cwd ++ [n] :=
        Path.place_join_name hproper
      have hchild := hd.mem_children.1 hn
      have hchild' := hd'.mem_children.2 (hgrown.of_some hchild)
      obtain ⟨inner, hn'⟩ := hinner n ((o'.perm _ _).mem_iff.2 hchild') hvisible
      refine ih (hd.isDirectory_iff.2 ⟨?_, fun m hm => ?_⟩) (by rw [hplace]; exact hgrown.below n)
        ⟨inner, hn'⟩
      · cases depth with
        | zero => simp [scanWithin] at hn'
        | succ depth =>
          rw [scanWithin] at hn'
          obtain ⟨_, hentries, -⟩ := bind_eq_ok.1 hn'
          exact (hd'.isDirectory_iff.1 (hd'.readDirectory_eq_ok.1 (mapError_eq_ok.1 hentries)).1).1
      · rcases (Path.mem_way_join_name hproper).1 hm with hm | rfl
        · exact (hd.isDirectory_iff.1 hdir).2 m hm
        · exact hchild
    obtain ⟨found, hscan⟩ := hscan
    exact ⟨found, by rw [scanWithin]; exact bind_eq_ok.2 ⟨_, hread, hscan⟩⟩

/-- Directories that come to the docs directory hold no documents, so a scan finds what it would have
found without them, in whatever orders the entries are met. -/
theorem scanBy_of_grown {o o' : Enumeration} (hd : d.Plain) (hd' : d'.Plain) (hdocs : d.isDirectory cwd docs)
    (hdocs' : d'.isDirectory cwd docs) (hgrown : GrownBelow (docs.place cwd) d d')
    (h : scanBy o' d' cwd docs = .ok found) : scanBy o d cwd docs = .ok found := by
  obtain ⟨hlists', hsorted'⟩ := scanBy_lists hd' hdocs' h
  have hok : ∃ found, scanBy o d cwd docs = .ok found := by
    rw [scanBy, if_pos hdocs'] at h
    obtain ⟨all', hall', -⟩ := bind_eq_ok.1 h
    obtain ⟨all, hall⟩ := scanWithin_of_grown (o := o) hd hd' hdocs hgrown ⟨all', hall'⟩
    rw [scanBy, if_pos hdocs, hall]
    exact ⟨_, rfl⟩
  obtain ⟨found', hfound'⟩ := hok
  obtain ⟨hlists, hsorted⟩ := scanBy_lists hd hdocs hfound'
  have hlies : ∀ r, Lies d (docs.place cwd) r ↔ Lies d' (docs.place cwd) r := fun r =>
    ⟨fun hr => ⟨hr.1, hr.2, hr.3, hr.4.imp fun c => hgrown.file_iff.2⟩,
      fun hr => ⟨hr.1, hr.2, hr.3, hr.4.imp fun c => hgrown.file_iff.1⟩⟩
  rw [hfound', hlists.unique (hlists'.congr hlies) hsorted hsorted']

theorem scan_of_grown (hd : d.Plain) (hd' : d'.Plain) (hdocs : d.isDirectory cwd docs)
    (hdocs' : d'.isDirectory cwd docs) (hgrown : GrownBelow (docs.place cwd) d d')
    (h : scan d' cwd docs = .ok found) : scan d cwd docs = .ok found :=
  scanBy_of_grown hd hd' hdocs hdocs' hgrown h

/-- In which order the entries are met makes no difference to the documents that are found. -/
theorem scanBy_eq_ok_iff (hd : d.Plain) (o o' : Enumeration) :
    scanBy o d cwd docs = .ok found ↔ scanBy o' d cwd docs = .ok found := by
  by_cases hdocs : d.isDirectory cwd docs
  · have hgrown : GrownBelow (docs.place cwd) d d := fun r => .inl rfl
    exact ⟨scanBy_of_grown hd hd hdocs hdocs hgrown, scanBy_of_grown hd hd hdocs hdocs hgrown⟩
  · simp [scanBy, hdocs]

end Sorted

end Document

end DocsMigration
