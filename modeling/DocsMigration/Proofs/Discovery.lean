import DocsMigration.Proofs.Scanning
/-! No document is missed. If every directory that a scan enters can be read, the scan succeeds: a path grows
with every directory it goes down, so that the limit on the length of paths is met before the limit on the
depth. It then finds each Markdown file that is visible once, in the order of the relative paths, and the
order in which a directory lists its entries leaves no trace. -/

namespace DocsMigration

namespace Document

open Disk

variable {d : Disk} {cwd : Location} {docs directory : Path} {above : Text} {o : Enumeration}

/-- Every directory to which visible names lead down from a path can be read. -/
def Readable (d : Disk) (cwd : Location) (docs : Path) : Prop :=
  ∀ r : List Name, (∀ n ∈ r, Name.isHidden n = false) →
    d.get? (docs.place cwd ++ r) = some .directory →
      ∃ entries, d.readDirectory cwd (docs.descend r) = .ok entries

theorem Readable.child {n : Name} (h : Readable d cwd directory) (hn : n.Proper)
    (hvisible : Name.isHidden n = false) : Readable d cwd (directory.join ⟨n⟩) := by
  intro r hr hdir
  rw [Path.place_join_name hn, List.append_assoc, List.singleton_append] at hdir
  exact h (n :: r) (List.forall_mem_cons.2 ⟨hvisible, hr⟩) hdir

theorem Readable.isDirectory (h : Readable d cwd docs) (hd : d.Plain)
    (hdir : d.get? (docs.place cwd) = some .directory) : d.isDirectory cwd docs := by
  obtain ⟨entries, hentries⟩ := h [] (by simp) (by simpa using hdir)
  exact (hd.readDirectory_eq_ok.1 hentries).1

theorem length_lt_join (directory : Path) {n : Name} (hn : n.Proper) :
    directory.text.length < (directory.join ⟨n⟩).text.length := by
  have hpos := List.length_pos_iff.2 hn.1
  have habs := Path.isAbsolute_name hn.2.1
  unfold Path.join
  split_ifs with hstart
  · have hempty : directory.text = [] := by simpa [habs] using hstart
    simpa [hempty] using hpos
  · simpa using hpos
  · simp

/-- A scan does not run out of depth as long as depth and path together exceed the longest path. -/
theorem scanWithin_succeeds {depth : Nat} (hd : d.Plain) (hread : Readable d cwd directory)
    (hdir : d.isDirectory cwd directory) (hdeep : pathLimit ≤ directory.text.length + depth) :
    ∃ found, scanWithin o d cwd depth directory above = .ok found := by
  induction depth generalizing directory above with
  | zero =>
    have hsize := (hd.isDirectory_iff.1 hdir).1.2.2.1
    have hlength := Text.length_le_utf8Size directory.text
    omega
  | succ depth ih =>
    have hentries := mapError_eq_ok (f := MigrationError.file directory).2
      (hd.readDirectory_eq_ok.2 ⟨hdir, rfl⟩)
    have hinner : ∃ found, scanEntries (scanWithin o d cwd depth) directory above
        (o.order directory (d.children (directory.place cwd))) = .ok found := by
      refine scanEntries_ok_iff.2 fun n hn hvisible => ?_
      have hchild := (o.perm _ _).mem_iff.1 hn
      have hproper := hd.proper_of_mem_children hchild
      have hread := hread.child hproper hvisible
      have hlonger := length_lt_join directory hproper
      refine ih hread (hread.isDirectory hd ?_) (by omega)
      rw [Path.place_join_name hproper]
      exact hd.mem_children.1 hchild
    obtain ⟨found, hfound⟩ := hinner
    exact ⟨found, by rw [scanWithin]; exact bind_eq_ok.2 ⟨_, hentries, hfound⟩⟩

theorem scanBy_succeeds (o : Enumeration) (hd : d.Plain) (hread : Readable d cwd docs)
    (hdocs : d.isDirectory cwd docs) : ∃ found, scanBy o d cwd docs = .ok found := by
  obtain ⟨all, hall⟩ : ∃ all, scanWithin o d cwd pathLimit docs [] = .ok all :=
    scanWithin_succeeds hd hread hdocs (Nat.le_add_left _ _)
  exact ⟨_, by rw [scanBy, if_pos hdocs, hall]; rfl⟩

theorem not_lies_of_not_isDirectory (hd : d.Plain) (hread : Readable d cwd docs)
    (hdocs : ¬ d.isDirectory cwd docs) (r : List Name) : ¬ Lies d (docs.place cwd) r := by
  intro hr
  obtain ⟨c, hc⟩ := hr.file
  refine hdocs (hread.isDirectory hd ?_)
  refine hd.get?_of_prefix (by rw [hc]; simp) (List.prefix_append _ r) fun heq => hr.nonempty ?_
  simpa using heq

/-- A scan of which every directory can be read finds each visible Markdown file once, in strictly increasing
order of the relative paths, in whatever order the entries of a directory are met. -/
theorem scan_finds_visible (hd : d.Plain) (hread : Readable d cwd docs) : ∃ found,
    scan d cwd docs = .ok found ∧ (∀ o : Enumeration, scanBy o d cwd docs = .ok found) ∧
      (∀ doc, doc ∈ found ↔ ∃ r, Lies d (docs.place cwd) r ∧
        doc = ⟨List.intercalate ['/'] r, docs.descend r⟩) ∧
      found.Pairwise fun a b => a.relPath < b.relPath := by
  have hreached : ∀ r, Lies d (docs.place cwd) r →
      reached docs [] r = ⟨List.intercalate ['/'] r, docs.descend r⟩ := by
    intro r hr
    have hrel : (reached docs [] r).relPath = _ := relPath_reached (hr.proper hd) hr.nonempty
    rw [← hrel]
    rfl
  by_cases hdocs : d.isDirectory cwd docs
  · obtain ⟨found, hfound⟩ := scanBy_succeeds .byName hd hread hdocs
    obtain ⟨hlists, hsorted⟩ := scanBy_lists hd hdocs hfound
    refine ⟨found, hfound, fun o => ?_, fun doc => (hlists.2 doc).trans ?_, hsorted⟩
    · obtain ⟨found', hfound'⟩ := scanBy_succeeds o hd hread hdocs
      obtain ⟨hlists', hsorted'⟩ := scanBy_lists hd hdocs hfound'
      rw [hfound', hlists'.unique hlists hsorted' hsorted]
    · exact exists_congr fun r => and_congr_right fun hr => by rw [hreached r hr]
  · have hnone := not_lies_of_not_isDirectory hd hread hdocs
    refine ⟨[], ?_, fun o => ?_, by simp [hnone], .nil⟩
    · simp [scan, scanBy, hdocs, pure, Except.pure]
    · simp [scanBy, hdocs, pure, Except.pure]

/-- Documents at two depths, one of them in a directory that is named like a document, beside hidden ones and a
file with another extension. -/
def manual : Disk where
  entries := [(["docs"], .directory), (["docs", "index.md"], .file (.text [])), (["docs", "lab"], .directory),
    (["docs", "lab", "network.md"], .file (.text [])), (["docs", "lab", ".draft.md"], .file (.text [])),
    (["docs", ".git"], .directory), (["docs", ".git", "notes.md"], .file (.text [])),
    (["docs", "old.md"], .directory), (["docs", "old.md", "v1.0.md"], .file (.text [])),
    (["docs", "old.md", "readme.markdown"], .file (.text []))].map fun (l, e) => (l.map String.toList, e)

def manualDocs : Path := ⟨"docs".toList⟩

def manualPages : List Document :=
  ["index.md", "lab/network.md", "old.md/v1.0.md"].map fun name =>
    ⟨name.toList, ⟨"docs/".toList ++ name.toList⟩⟩

theorem readable_manual (hd : manual.Plain) : Readable manual [] manualDocs := by
  intro r hr hdir
  have hplace : manualDocs.place [] = ["docs".toList] := by decide
  rw [hplace, hd.get?_eq_some_iff (by simp)] at hdir
  have hcases : r = [] ∨ r = ["lab".toList] ∨ r = [".git".toList] ∨ r = ["old.md".toList] := by
    simpa [manual] using hdir
  rcases hcases with rfl | rfl | rfl | rfl
  · exact ⟨_, hd.readDirectory_eq_ok.2 ⟨by decide +kernel, rfl⟩⟩
  · exact ⟨_, hd.readDirectory_eq_ok.2 ⟨by decide +kernel, rfl⟩⟩
  · exact absurd (hr ".git".toList (by simp)) (by decide)
  · exact ⟨_, hd.readDirectory_eq_ok.2 ⟨by decide +kernel, rfl⟩⟩

/-- The manual is scanned in any order with the same result. -/
theorem manual_scanned : manual.Plain ∧ Readable manual [] manualDocs ∧
    ∀ o : Enumeration, scanBy o manual [] manualDocs = .ok manualPages := by
  have hd : manual.Plain := plain_of_isTree (by decide +kernel)
  have hread := readable_manual hd
  obtain ⟨found, hfound, hall, -⟩ := scan_finds_visible hd hread
  have hpages : scan manual [] manualDocs = .ok manualPages := by decide +kernel
  obtain rfl : found = manualPages := Except.ok.inj (hfound.symm.trans hpages)
  exact ⟨hd, hread, hall⟩

end Document

end DocsMigration
