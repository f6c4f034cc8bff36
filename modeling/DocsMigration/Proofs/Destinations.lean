import DocsMigration.Migration.Route
import DocsMigration.Proofs.Scanning
import DocsMigration.Proofs.Settings
/-! Where documents go. The destination of a document is made up of the docs section and the names that
lead to the document, except for the top page, which can go to the home page of the site. So it lies
inside the site, and two documents never have the same one. -/

namespace DocsMigration

namespace Route

open Document Disk

variable {d : Disk} {l : Location} {r r' : List Name} {rel rel' : Text} {home : Bool}

def trail (home : Bool) (r : List Name) : List Name :=
  if home && r == [topPage] then ["content".toList, "_index.md".toList]
  else "content".toList :: "docs".toList :: r

theorem names_docsSection : (contentDirectory.join docsSection).names =
    ["content".toList, "docs".toList] := by decide

theorem names_homePage : (contentDirectory.join homePage).names =
    ["content".toList, "_index.md".toList] := by decide

theorem destination_eq_descend (h : (home && rel == topPage) = false) :
    destination rel home = (contentDirectory.join docsSection).descend (Text.splitAt '/' rel) := by
  rw [destination, if_neg (by simp [h])]
  rfl

theorem topPage_iff (hr : ∀ n ∈ r, n.Proper) (hne : r ≠ []) :
    List.intercalate ['/'] r = topPage ↔ r = [topPage] := by
  constructor
  · intro h
    rw [← Text.splitAt_intercalate hne fun n hn => (hr n hn).2.1, h]
    decide
  · rintro rfl
    decide

theorem destination_trail (home : Bool) (hr : ∀ n ∈ r, n.Proper) (hne : r ≠ []) :
    (destination (List.intercalate ['/'] r) home).names = trail home r ∧
      (destination (List.intercalate ['/'] r) home).isAbsolute = false := by
  by_cases htop : home && r == [topPage]
  · obtain ⟨hhome, hr⟩ : home = true ∧ r = [topPage] := by simpa using htop
    subst hhome hr
    have heq : destination (List.intercalate ['/'] [topPage]) true = contentDirectory.join homePage := by
      decide
    rw [heq, trail, if_pos htop]
    exact ⟨names_homePage, by decide⟩
  · have hno : (home && List.intercalate ['/'] r == topPage) = false := by
      rw [Bool.eq_false_iff]
      intro h
      obtain ⟨hhome, heq⟩ : home = true ∧ List.intercalate ['/'] r = topPage := by simpa using h
      exact htop (by simp [hhome, (topPage_iff hr hne).1 heq])
    have hslash : ∀ n ∈ r, '/' ∉ n := fun n hn => (hr n hn).2.1
    rw [destination_eq_descend hno, Text.splitAt_intercalate hne hslash, trail, if_neg htop]
    obtain ⟨hnames, habs⟩ := Path.descend_names (p := contentDirectory.join docsSection) hr
    exact ⟨by rw [hnames, names_docsSection]; rfl, by rw [habs]; decide⟩

theorem proper_trail (hr : ∀ n ∈ r, n.Proper) : ∀ n ∈ trail home r, n.Proper := by
  have hproper : Name.Proper "content".toList ∧ Name.Proper "docs".toList ∧
      Name.Proper "_index.md".toList := by
    refine ⟨?_, ?_, ?_⟩ <;> exact ⟨by decide, by decide, by decide, by decide⟩
  intro n hn
  rw [trail] at hn
  split_ifs at hn
  · simp only [List.mem_cons, List.not_mem_nil, or_false] at hn
    rcases hn with rfl | rfl
    · exact hproper.1
    · exact hproper.2.2
  · simp only [List.mem_cons] at hn
    rcases hn with rfl | rfl | hn
    · exact hproper.1
    · exact hproper.2.1
    · exact hr n hn

theorem trail_injective (h : trail home r = trail home r') : r = r' := by
  unfold trail at h
  split_ifs at h with hr hr' hr'
  · simp_all
  · simp at h
  · simp at h
  · simpa using h

theorem isInside_destination (hr : ∀ n ∈ r, n.Proper) (hne : r ≠ []) :
    Config.isInside (destination (List.intercalate ['/'] r) home) := by
  obtain ⟨hnames, habs⟩ := destination_trail home hr hne
  refine Config.isInside_iff.2 ⟨habs, fun hpar => ?_⟩
  rw [hnames] at hpar
  exact (proper_trail hr _ hpar).2.2.2 rfl

theorem place_destination {site : Path} {cwd : Location} (hr : ∀ n ∈ r, n.Proper) (hne : r ≠ []) :
    (site.join (destination (List.intercalate ['/'] r) home)).place cwd =
      site.place cwd ++ trail home r := by
  obtain ⟨hnames, habs⟩ := destination_trail home hr hne
  rw [Path.place_join habs, hnames, Location.along_proper (proper_trail hr)]

theorem isInside_of_mem_scan {cwd : Location} {docs : Path} {found : List Document} {doc : Document}
    (hd : d.Plain) (h : scan d cwd docs = .ok found) (hdoc : doc ∈ found) :
    Config.isInside (destination doc.relPath home) := by
  obtain ⟨r, hr, rfl⟩ := exists_of_mem_scan hd h hdoc
  rw [relPath_reached (hr.proper hd) hr.nonempty]
  exact isInside_destination (hr.proper hd) hr.nonempty

end Route

end DocsMigration
