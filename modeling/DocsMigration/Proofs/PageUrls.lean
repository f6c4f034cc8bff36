import DocsMigration.Proofs.Destinations
import DocsMigration.Proofs.Targets
import DocsMigration.Proofs.Trees
import Mathlib.Data.List.TakeWhile
/-! The URLs of pages, and where links between pages lead. Every page is served as a directory, an index
page as the directory it stands in. A link between two documents is retargeted by its text alone, and what
comes of it is resolved against the URL of the page it stands on, which for any page but an index page is
one level deeper than the directory of the document. So a retargeted link leads to the page of its
document exactly from index pages; only a link to the index page beside it makes up for the level, and
leads there exactly from the other pages. -/

namespace DocsMigration

namespace Markdown

namespace Url

/-- Whether a character belongs to the path of a reference, which a query or a fragment ends. -/
def isPathChar (c : Char) : Bool := !(c == '?' || c == '#')

def segments (path : Text) : List Text := (Text.splitAt '/' path).tail

def ofSegments (segs : List Text) : Text := '/' :: List.intercalate ['/'] segs

/-- Carries out the single and double dots among segments; dots at the end leave a slash there. -/
def removeDots (segs : List Text) : List Text :=
  Location.along [] segs ++
    if segs.getLast? = some Path.currentName ∨ segs.getLast? = some Path.parentName then [[]] else []

/-- Resolves a reference that has neither a scheme nor a host against a path. -/
def resolve (base ref : Text) : Text :=
  let path := ref.takeWhile isPathChar
  if path.isEmpty then base ++ ref
  else
    let segs :=
      if path.head? = some '/' then segments path
      else (segments base).dropLast ++ Text.splitAt '/' path
    ofSegments (removeDots segs) ++ ref.dropWhile isPathChar

end Url

end Markdown

namespace Route

open Markdown

def indexStem : Text := "index".toList

def pageSegment (file : Name) : List Text :=
  if Name.stem file = indexStem then [] else [Name.stem file]

/-- The URL of the page at a destination. What is served lies below the content directory. -/
def pageUrl (destination : Path) : Text :=
  let names := destination.names.tail
  Url.ofSegments (names.dropLast ++ pageSegment (names.getLast?.getD []) ++ [[]])

end Route

namespace Location

variable {l l' : Location} {n : Name} {ns : List Name}

theorem step_parent : l.step Path.parentName = l.dropLast := by
  simp [step, Path.currentName, Path.parentName]

/-- Names that lead from a place below `l`, and never up from `l` itself, lead to a place below `l`. From
below any other place they lead in the same way, and from deeper places to deeper ones. -/
theorem exists_along_below {m : List Name} (h : l ∉ (l ++ m).backedOut ns) :
    ∃ m', (∀ l' : Location, along (l' ++ m) ns = l' ++ m') ∧
      ∀ k : Location, m.length ≤ k.length → (k.along ns).length + m.length = k.length + m'.length := by
  induction ns generalizing m with
  | nil => exact ⟨m, fun _ => rfl, fun _ _ => rfl⟩
  | cons n ns ih =>
    rw [backedOut, List.mem_append, not_or] at h
    obtain ⟨hhere, hrest⟩ := h
    by_cases hcur : n = Path.currentName
    · have hstep (k : Location) : k.step n = k := by simp [step, hcur]
      rw [hstep] at hrest
      obtain ⟨m', hsame, hlength⟩ := ih hrest
      refine ⟨m', fun l' => ?_, fun k hk => ?_⟩
      · rw [along_cons, hstep, hsame]
      · rw [along_cons, hstep, hlength k hk]
    · by_cases hpar : n = Path.parentName
      · subst hpar
        -- the place is not `l`, so there is a name to go back from
        rcases List.eq_nil_or_concat m with rfl | ⟨before, last, rfl⟩
        · simp at hhere
        · rw [List.concat_eq_append] at *
          have hstep (k : Location) : step (k ++ (before ++ [last])) Path.parentName = k ++ before := by
            rw [step_parent, ← List.append_assoc, List.dropLast_concat]
          rw [hstep] at hrest
          obtain ⟨m', hsame, hlength⟩ := ih hrest
          refine ⟨m', fun l' => ?_, fun k hk => ?_⟩
          · rw [along_cons, hstep, hsame]
          · rw [List.length_append, List.length_singleton] at hk ⊢
            have hshorter : k.dropLast.length = k.length - 1 := List.length_dropLast
            have hrest := hlength k.dropLast (by omega)
            rw [along_cons, step_parent]
            omega
      · have hstep (k : Location) : k.step n = k ++ [n] := by simp [step, hcur, hpar]
        rw [hstep, List.append_assoc] at hrest
        obtain ⟨m', hsame, hlength⟩ := ih hrest
        refine ⟨m', fun l' => ?_, fun k hk => ?_⟩
        · rw [along_cons, hstep, List.append_assoc, hsame]
        · have hrest := hlength (k ++ [n]) (by simpa using hk)
          rw [List.length_append, List.length_append, List.length_singleton] at hrest
          rw [along_cons, hstep]
          omega

theorem mem_along {k : Name} (h : k ∈ l.along ns) : k ∈ l ∨ k ∈ ns := by
  induction ns generalizing l with
  | nil => exact .inl h
  | cons n ns ih =>
    rcases ih h with h | h
    · unfold step at h
      split_ifs at h
      · exact .inl h
      · exact .inl (List.mem_of_mem_dropLast h)
      · rcases List.mem_append.1 h with h | h
        · exact .inl h
        · exact .inr (by simp [List.mem_singleton.1 h])
    · exact .inr (List.mem_cons_of_mem n h)

end Location

namespace Markdown

namespace Url

variable {segs B S : List Text} {v : Text}

theorem segments_ofSegments (hne : segs ≠ []) (hslash : ∀ s ∈ segs, '/' ∉ s) :
    segments (ofSegments segs) = segs := by
  rw [segments, ofSegments, Text.splitAt, if_pos rfl, Text.splitAt_intercalate hne hslash]
  rfl

theorem ofSegments_inj {segs' : List Text} (hslash : ∀ s ∈ segs, '/' ∉ s) (hslash' : ∀ s ∈ segs', '/' ∉ s) :
    ofSegments (segs ++ [[]]) = ofSegments (segs' ++ [[]]) ↔ segs = segs' := by
  have hfree {segs : List Text} (h : ∀ s ∈ segs, '/' ∉ s) : ∀ s ∈ segs ++ [[]], '/' ∉ s := by
    simpa [or_imp, forall_and] using h
  constructor
  · intro h
    have hsegs := segments_ofSegments (by simp) (hfree hslash)
    rw [h, segments_ofSegments (by simp) (hfree hslash')] at hsegs
    exact (List.append_cancel_right hsegs).symm
  · rintro rfl
    rfl

theorem resolve_directory (hB : ∀ n ∈ B, Name.Proper n) (hv : Text.splitAt '/' v = S ++ [[]])
    (hS : S ≠ []) (hparts : ∀ s ∈ S, s ≠ []) (hchars : ∀ c ∈ v, isPathChar c) :
    resolve (ofSegments (B ++ [[]])) v = ofSegments (Location.along B S ++ [[]]) := by
  have hpath : v.takeWhile isPathChar = v := List.takeWhile_eq_self_iff.2 hchars
  have hrest : v.dropWhile isPathChar = [] := List.dropWhile_eq_nil_iff.2 hchars
  have hne : v.isEmpty = false := by
    rw [List.isEmpty_eq_false_iff]
    rintro rfl
    simp [Text.splitAt, hS] at hv
  have hfirst : v.head? ≠ some '/' := by
    intro hslash
    obtain ⟨rest, rfl⟩ := List.head?_eq_some_iff.1 hslash
    obtain ⟨first, S, rfl⟩ := List.exists_cons_of_ne_nil hS
    rw [Text.splitAt, if_pos rfl] at hv
    exact hparts first (by simp) (List.cons.inj hv).1.symm
  have hbase : segments (ofSegments (B ++ [[]])) = B ++ [[]] := by
    refine segments_ofSegments (by simp) ?_
    simpa [or_imp, forall_and] using fun n hn => (hB n hn).2.1
  have hends : (B ++ (S ++ [[]])).getLast? = some [] := by simp
  have halong : Location.along [] (B ++ (S ++ [[]])) = Location.along B S ++ [[]] := by
    rw [Location.along_append, Location.along_append, Location.along_proper hB]
    rfl
  rw [resolve]
  simp only [hpath, hne, hrest, hbase, hv, if_neg hfirst, List.append_nil, removeDots, hends, halong,
    List.dropLast_concat, Bool.false_eq_true, if_false]
  simp [Path.currentName, Path.parentName]

theorem resolve_directory_eq_iff {C : List Text} (hB : ∀ n ∈ B, Name.Proper n)
    (hC : ∀ n ∈ C, Name.Proper n) (hv : Text.splitAt '/' v = S ++ [[]]) (hS : S ≠ [])
    (hparts : ∀ s ∈ S, s ≠ []) (hchars : ∀ c ∈ v, isPathChar c) :
    resolve (ofSegments (B ++ [[]])) v = ofSegments (C ++ [[]]) ↔ Location.along B S = C := by
  rw [resolve_directory hB hv hS hparts hchars]
  refine ofSegments_inj (fun s hs => ?_) fun s hs => (hC s hs).2.1
  rcases Location.mem_along hs with hs | hs
  · exact (hB s hs).2.1
  · exact Text.not_mem_of_mem_splitAt (s := v) (hv ▸ List.mem_append_left _ hs)

end Url

end Markdown

namespace Route

open Markdown

section Files

variable {n : Name} {d : Disk} {l : Location} {r : List Name}

theorem splitLast?_eq_some {sep : Char} {s a b : Text} (h : Text.splitLast? sep s = some (a, b)) :
    s = a ++ sep :: b := by
  obtain ⟨⟨after, before⟩, hsplit, heq⟩ := Option.map_eq_some_iff.1 h
  obtain ⟨rfl, rfl⟩ := Prod.mk.inj heq
  have hs := (Text.splitOnce?_eq_some.1 hsplit).1
  rw [← List.reverse_reverse s, hs]
  simp

theorem eq_of_extension {ext : Text} (h : Name.extension? n = some ext) :
    n = Name.stem n ++ '.' :: ext ∧ Name.stem n ≠ [] := by
  unfold Name.extension? at h
  unfold Name.stem
  unfold Name.splitExtension at h ⊢
  cases hsplit : Text.splitLast? '.' n with
  | none => simp [hsplit] at h
  | some x =>
    obtain ⟨stem, extension⟩ := x
    rw [hsplit] at h
    dsimp only at h ⊢
    split_ifs at h ⊢ with hempty
    obtain rfl : extension = ext := by simpa using h
    exact ⟨splitLast?_eq_some hsplit, by simpa using hempty⟩

theorem proper_stem (hn : n.Proper) (hvisible : Name.isHidden n = false)
    (hmarkdown : Name.extension? n = some Document.extension) : Name.Proper (Name.stem n) := by
  obtain ⟨heq, hne⟩ := eq_of_extension hmarkdown
  have hhead : (Name.stem n).head? ≠ some '.' := by
    obtain ⟨c, s, hstem⟩ := List.exists_cons_of_ne_nil hne
    rw [hstem] at heq ⊢
    rw [heq] at hvisible
    simpa [Name.isHidden] using hvisible
  refine ⟨hne, fun hslash => hn.2.1 ?_, ?_, ?_⟩
  · rw [heq]
    exact List.mem_append_left _ hslash
  · intro h
    simp [h, Path.currentName] at hhead
  · intro h
    simp [h, Path.parentName] at hhead

theorem proper_pageSegment (hstem : Name.Proper (Name.stem n)) : ∀ s ∈ pageSegment n, Name.Proper s := by
  unfold pageSegment
  split_ifs
  · simp
  · simpa using hstem

theorem pageSegment_eq_nil_or (n : Name) : pageSegment n = [] ∨ pageSegment n = [Name.stem n] := by
  unfold pageSegment
  split_ifs
  · exact .inl rfl
  · exact .inr rfl

theorem pageSegment_eq_nil (hmarkdown : Name.extension? n = some Document.extension) :
    pageSegment n = [] ↔ n = topPage := by
  obtain ⟨heq, -⟩ := eq_of_extension hmarkdown
  have hpage : topPage = indexStem ++ '.' :: Document.extension := rfl
  unfold pageSegment
  constructor
  · intro h
    split_ifs at h with hindex
    rw [heq, hindex, hpage]
  · intro h
    rw [heq, hpage, List.append_cancel_right_eq] at h
    rw [if_pos h]

end Files

section Urls

variable {dir dir' dirs : List Name} {file file' : Name}

def servedAt (dir : List Name) (file : Name) : Text :=
  Url.ofSegments ("docs".toList :: dir ++ pageSegment file ++ [[]])

theorem proper_served (hdir : ∀ n ∈ dir, Name.Proper n) (hstem : Name.Proper (Name.stem file)) :
    ∀ n ∈ "docs".toList :: dir ++ pageSegment file, Name.Proper n := by
  have hdocs : Name.Proper "docs".toList := ⟨by decide, by decide, by decide, by decide⟩
  simpa [or_imp, forall_and] using ⟨hdocs, hdir, proper_pageSegment hstem⟩

/-- One level up leads to the index page beside a page, unless the page is the index page itself. -/
theorem resolve_parent_iff (hdir : ∀ n ∈ dir, Name.Proper n) (hstem : Name.Proper (Name.stem file))
    (hstem' : Name.Proper (Name.stem file')) (hindex : pageSegment file' = []) :
    Url.resolve (servedAt dir file) "../".toList = servedAt dir file' ↔ pageSegment file ≠ [] := by
  have hiff := Url.resolve_directory_eq_iff (proper_served hdir hstem) (proper_served hdir hstem')
    (v := "../".toList) (S := [Path.parentName]) (by decide) (by simp) (by decide)
    (Text.forall_mem_of_all (by decide))
  rw [servedAt, servedAt, hiff, hindex, List.append_nil, Location.along_cons, Location.along_nil,
    Location.step_parent]
  rcases pageSegment_eq_nil_or file with hsegment | hsegment
  · have hshorter : ("docs".toList :: dir).dropLast ≠ "docs".toList :: dir := fun h => by
      simpa using congrArg List.length h
    simpa only [hsegment, List.append_nil, ne_eq, not_true, iff_false] using hshorter
  · simp only [hsegment, List.dropLast_concat, ne_eq, List.cons_ne_nil, not_false_eq_true]

/-- The names that lead from the directory of one file to that of another lead from the page of the one to
the page of the other exactly if the one is served as its directory. -/
theorem resolve_along_iff (hdir : ∀ n ∈ dir, Name.Proper n) (hdir' : ∀ n ∈ dir', Name.Proper n)
    (hstem : Name.Proper (Name.stem file)) (hstem' : Name.Proper (Name.stem file'))
    (hsame : ∀ l : Location, (l ++ dir).along dirs = l ++ dir')
    (hlength : ∀ k : Location, dir.length ≤ k.length →
      (k.along dirs).length + dir.length = k.length + dir'.length)
    (hdirs : ∀ s ∈ dirs, s ≠ [] ∧ '/' ∉ s) (hne : dirs ++ pageSegment file' ≠ [])
    (hchars : ∀ c ∈ List.intercalate ['/'] (dirs ++ pageSegment file' ++ [[]]), Url.isPathChar c) :
    Url.resolve (servedAt dir file) (List.intercalate ['/'] (dirs ++ pageSegment file' ++ [[]])) =
      servedAt dir' file' ↔ pageSegment file = [] := by
  have hown := proper_pageSegment hstem'
  have hparts : ∀ s ∈ dirs ++ pageSegment file', s ≠ [] ∧ '/' ∉ s := by
    intro s hs
    rcases List.mem_append.1 hs with hs | hs
    · exact hdirs s hs
    · exact ⟨(hown s hs).1, (hown s hs).2.1⟩
  have hsplit : Text.splitAt '/' (List.intercalate ['/'] (dirs ++ pageSegment file' ++ [[]])) =
      dirs ++ pageSegment file' ++ [[]] :=
    Text.splitAt_intercalate (by simp) (by simpa [or_imp, forall_and] using fun s hs => (hparts s hs).2)
  rw [servedAt, servedAt, Url.resolve_directory_eq_iff (proper_served hdir hstem) (proper_served hdir' hstem')
    hsplit hne (fun s hs => (hparts s hs).1) hchars, Location.along_append, Location.along_proper hown,
    List.append_left_inj]
  rcases pageSegment_eq_nil_or file with hsegment | hsegment
  · rw [hsegment, List.append_nil]
    exact iff_of_true (hsame ["docs".toList]) rfl
  · -- the names lead one level too deep
    have hdeeper := hlength ("docs".toList :: dir ++ [Name.stem file]) (by simp; omega)
    rw [hsegment]
    refine iff_of_false (fun h => ?_) (by simp)
    rw [h] at hdeeper
    simp at hdeeper
    omega

end Urls

section Links

variable {u y : Text} {dirs : List Text}

/-- Whether a reference is nothing but a relative path, in which no part is empty. -/
structure Tidy (u : Text) : Prop where
  parts : ∀ part ∈ Text.splitAt '/' u, part ≠ []
  path : ∀ c ∈ u, Url.isPathChar c
  scheme : Url.hasScheme u = false

theorem Tidy.head?_ne (h : Tidy u) : u.head? ≠ some '/' ∧ u.head? ≠ some '#' := by
  refine ⟨fun hslash => ?_, fun hhash => ?_⟩
  · obtain ⟨rest, rfl⟩ := List.head?_eq_some_iff.1 hslash
    exact h.parts [] (by simp [Text.splitAt]) rfl
  · exact absurd (h.path '#' (List.mem_of_mem_head? hhash)) (by decide)

theorem Tidy.names_eq (h : Tidy u) : (⟨u⟩ : Path).names = Text.splitAt '/' u := by
  rw [Path.names, List.filter_eq_self]
  simpa using h.parts

/-- Where a tidy link leads, its last part is the name of the file there, and the parts before lead to the
directory of the file. -/
theorem Tidy.exists_directories {start target : Location} {file : Name} (h : Tidy u)
    (hmarkdown : ".md".toList <:+ u) (hleads : start.along (⟨u⟩ : Path).names = target ++ [file]) :
    ∃ dirs, (⟨u⟩ : Path).names = dirs ++ [file] ∧ start.along dirs = target := by
  have hjoin : List.intercalate ['/'] (Text.splitAt '/' u) = u := Text.intercalate_splitAt
  rw [h.names_eq] at hleads ⊢
  rcases List.eq_nil_or_concat (Text.splitAt '/' u) with hnone | ⟨dirs, last, hparts⟩
  · exact absurd hnone (Text.splitAt_ne_nil _ _)
  rw [List.concat_eq_append] at hparts
  have hne : last ≠ [] := h.parts last (by rw [hparts]; simp)
  have hsuffix : last <:+ u := by
    rw [← hjoin, hparts]
    by_cases hdirs : dirs = []
    · simp [hdirs, List.intercalate]
    · rw [Path.intercalate_append hdirs (by simp)]
      exact ⟨List.intercalate ['/'] dirs ++ ['/'], by simp [List.intercalate]⟩
  -- the last part ends like the link, which tells it from a single and a double dot
  have hend : last.getLast? = some 'd' :=
    (Text.getLast?_of_suffix hsuffix hne).trans (Text.getLast?_of_suffix hmarkdown (by decide)).symm
  have hstep (l : Location) : l.step last = l ++ [last] := by
    rw [Location.step, if_neg, if_neg]
    all_goals
      rintro rfl
      exact absurd hend (by decide)
  rw [hparts, Location.along_append, Location.along_cons, hstep] at hleads
  obtain ⟨hplace, hlast⟩ := List.append_inj' hleads rfl
  exact ⟨dirs, by rw [hparts, hlast], hplace⟩

theorem retarget_of_stem (hu : Tidy u) {stem : Text} (hstem : stem ++ ".md".toList = u) :
    Link.retarget u = some (if stem = indexStem then "../".toList
      else match Text.stripSuffix? "/index".toList stem with
        | some [] => "./".toList
        | some dir => dir ++ ['/']
        | none => stem ++ ['/']) := by
  have hlocal : ¬ (Text.startsWith u ['#'] || Url.isExternal u) := by
    obtain ⟨hslash, hhash⟩ := hu.head?_ne
    cases u with
    | nil => decide
    | cons c rest =>
      have hc : c ≠ '/' ∧ c ≠ '#' := by simpa using And.intro hslash hhash
      simp [Text.startsWith, Url.isExternal, hu.scheme, List.isPrefixOf, hc.1.symm, hc.2.symm]
  rw [Link.retarget, if_neg hlocal, Text.stripSuffix?_eq_some.2 hstem]
  dsimp only
  unfold indexStem
  split_ifs
  · rfl
  · cases Text.stripSuffix? "/index".toList stem with
    | none => rfl
    | some dir => cases dir <;> rfl

theorem stripIndex_eq_none {a : Text} (hy : '/' ∉ y) (hindex : y ≠ indexStem) :
    Text.stripSuffix? "/index".toList (a ++ '/' :: y) = none := by
  rw [Option.eq_none_iff_forall_ne_some]
  intro dir hdir
  have heq : dir ++ '/' :: indexStem = a ++ '/' :: y := Text.stripSuffix?_eq_some.1 hdir
  have hsplit := congrArg (Text.splitAt '/') heq
  rw [Text.splitAt_append_cons, Text.splitAt_append_cons, Text.splitAt_of_not_mem hy,
    Text.splitAt_of_not_mem (s := indexStem) (by decide)] at hsplit
  exact hindex (by simpa using (List.append_inj' hsplit rfl).2.symm)

theorem retarget_beside (hu : Tidy (y ++ ".md".toList)) (hy : '/' ∉ y) :
    Link.retarget (y ++ ".md".toList) = some (if y = indexStem then "../".toList else y ++ ['/']) := by
  have hno : Text.stripSuffix? "/index".toList y = none := by
    rw [Option.eq_none_iff_forall_ne_some]
    intro dir hdir
    rw [← Text.stripSuffix?_eq_some.1 hdir] at hy
    simp at hy
  rw [retarget_of_stem hu rfl, hno]

theorem retarget_below {a : Text} (hu : Tidy (a ++ '/' :: y ++ ".md".toList)) (ha : a ≠ []) (hy : '/' ∉ y) :
    Link.retarget (a ++ '/' :: y ++ ".md".toList) =
      some (if y = indexStem then a ++ ['/'] else a ++ '/' :: y ++ ['/']) := by
  have hbare : a ++ '/' :: y ≠ indexStem := fun h => by
    have hslash : '/' ∈ indexStem := h ▸ List.mem_append_right a List.mem_cons_self
    exact absurd hslash (by decide)
  rw [retarget_of_stem hu rfl, if_neg hbare]
  by_cases hindex : y = indexStem
  · have hsuffix : Text.stripSuffix? "/index".toList (a ++ '/' :: y) = some a :=
      Text.stripSuffix?_eq_some.2 (by rw [hindex]; rfl)
    obtain ⟨c, s, rfl⟩ := List.exists_cons_of_ne_nil ha
    rw [hsuffix, if_pos hindex]
  · rw [stripIndex_eq_none hy hindex, if_neg hindex]

/-- What a tidy link is retargeted to: the directory of its page, along the same parts. -/
theorem retarget_of_parts (hu : Tidy u) (hparts : Text.splitAt '/' u = dirs ++ [y ++ ".md".toList])
    (hy : '/' ∉ y) :
    Link.retarget u = some (if u = topPage then "../".toList
      else List.intercalate ['/'] (dirs ++ (if y = indexStem then [] else [y]) ++ [[]])) := by
  have hjoin : List.intercalate ['/'] (Text.splitAt '/' u) = u := Text.intercalate_splitAt
  rw [hparts] at hjoin
  by_cases hdirs : dirs = []
  · subst hdirs
    obtain rfl : y ++ ".md".toList = u := by simpa [List.intercalate] using hjoin
    have htop : y ++ ".md".toList = topPage ↔ y = indexStem :=
      @List.append_left_inj _ y indexStem ".md".toList
    rw [retarget_beside hu hy]
    simp only [htop]
    split_ifs <;> simp [List.intercalate]
  · rw [Path.intercalate_append hdirs (by simp)] at hjoin
    generalize ha : List.intercalate ['/'] dirs = a at hjoin
    obtain rfl : a ++ '/' :: y ++ ".md".toList = u := by simpa [List.intercalate] using hjoin
    have hne : a ≠ [] := by
      obtain ⟨first, rest, rfl⟩ := List.exists_cons_of_ne_nil hdirs
      have hfirst := hu.parts first (by rw [hparts]; simp)
      rw [← ha]
      cases rest <;> simp [List.intercalate, hfirst]
    have htop : a ++ '/' :: y ++ ".md".toList ≠ topPage := fun h => by
      have hslash : '/' ∈ topPage := h ▸ by simp
      exact absurd hslash (by decide)
    have hjoined (own : List Text) : List.intercalate ['/'] (dirs ++ own ++ [[]]) =
        a ++ '/' :: List.intercalate ['/'] (own ++ [[]]) := by
      rw [List.append_assoc, Path.intercalate_append hdirs (by simp), ha]
    rw [retarget_below hu hne hy, if_neg htop, hjoined]
    split_ifs <;> simp [List.intercalate]

end Links

section Pages

variable {d : Disk} {cwd : Location} {docs : Path} {found : List Document} {dir : List Name} {file : Name}

def IsIndex (doc : Document) : Prop := (Text.splitAt '/' doc.relPath).getLast? = some topPage

theorem pageUrl_destination (hr : ∀ n ∈ dir ++ [file], Name.Proper n) :
    pageUrl (destination (List.intercalate ['/'] (dir ++ [file])) false) = servedAt dir file := by
  have hnames := (destination_trail false hr (by simp)).1
  have hrest : (trail false (dir ++ [file])).tail = "docs".toList :: dir ++ [file] := rfl
  rw [pageUrl, hnames, hrest, List.dropLast_concat, List.getLast?_concat]
  rfl

/-- A document that a scan finds: its directory, its file, and what is known of both. -/
theorem exists_file_of_mem_scan {doc : Document} (hd : d.Plain) (hscan : Document.scan d cwd docs = .ok found)
    (hdoc : doc ∈ found) : ∃ dir file, (∀ n ∈ dir, Name.Proper n) ∧ Name.Proper (Name.stem file) ∧
      Name.extension? file = some Document.extension ∧ doc.path.place cwd = docs.place cwd ++ (dir ++ [file]) ∧
      pageUrl (destination doc.relPath false) = servedAt dir file ∧
      (IsIndex doc ↔ pageSegment file = []) := by
  obtain ⟨r, hr, rfl⟩ := Document.exists_of_mem_scan hd hscan hdoc
  rcases List.eq_nil_or_concat r with rfl | ⟨dir, file, rfl⟩
  · exact absurd rfl hr.nonempty
  rw [List.concat_eq_append] at hr ⊢
  have hproper := hr.proper hd
  have hmarkdown := hr.markdown file (by simp)
  refine ⟨dir, file, fun n hn => hproper n (by simp [hn]),
    proper_stem (hproper file (by simp)) (hr.visible file (by simp)) hmarkdown, hmarkdown,
    Path.place_descend hproper, ?_, ?_⟩
  · rw [Document.relPath_reached hproper hr.nonempty, pageUrl_destination hproper]
  · rw [IsIndex, Document.splitAt_relPath hproper hr.nonempty, pageSegment_eq_nil hmarkdown]
    simp

/-- Where a retargeted link leads from the URL of a page, and whether it leads to the page of the document
that the link names: exactly if it stands on an index page, or names the index page beside the page that it
stands on, and not both. -/
theorem retarget_agrees_iff {p q : Document} {u : Text} (hd : d.Plain)
    (hscan : Document.scan d cwd docs = .ok found) (hp : p ∈ found) (hq : q ∈ found)
    (hu : Tidy u) (hmarkdown : ".md".toList <:+ u)
    (hleads : Location.along (p.path.place cwd).dropLast (⟨u⟩ : Path).names = q.path.place cwd)
    (hstays : docs.place cwd ∉ Location.backedOut (p.path.place cwd).dropLast (⟨u⟩ : Path).names) :
    ∃ v, Link.retarget u = some v ∧
      (Url.resolve (pageUrl (destination p.relPath false)) v = pageUrl (destination q.relPath false) ↔
        (IsIndex p ↔ u ≠ topPage)) := by
  obtain ⟨dirP, fileP, hdirP, hstemP, hmdP, hplaceP, hurlP, hindexP⟩ := exists_file_of_mem_scan hd hscan hp
  obtain ⟨dirQ, fileQ, hdirQ, hstemQ, hmdQ, hplaceQ, hurlQ, -⟩ := exists_file_of_mem_scan hd hscan hq
  rw [hplaceP, ← List.append_assoc, List.dropLast_concat] at hleads hstays
  rw [hplaceQ, ← List.append_assoc] at hleads
  obtain ⟨dirs, hnames, hdirs⟩ := hu.exists_directories hmarkdown hleads
  rw [hnames, Location.backedOut_append, List.mem_append, not_or] at hstays
  obtain ⟨below, hsame, hlength⟩ := Location.exists_along_below hstays.1
  obtain rfl : below = dirQ := List.append_cancel_left ((hsame _).symm.trans hdirs)
  obtain ⟨hfileQ, -⟩ := eq_of_extension hmdQ
  have hparts : Text.splitAt '/' u = dirs ++ [Name.stem fileQ ++ ".md".toList] :=
    hu.names_eq.symm.trans (hnames.trans (congrArg (dirs ++ [·]) hfileQ))
  have hretarget := retarget_of_parts hu hparts hstemQ.2.1
  refine ⟨_, hretarget, ?_⟩
  rw [hurlP, hurlQ, hindexP]
  by_cases htop : u = topPage
  · have hone : (⟨topPage⟩ : Path).names = [] ++ [topPage] := by decide
    rw [htop, hone] at hnames
    obtain ⟨rfl, hfile⟩ := List.append_inj' hnames rfl
    obtain rfl : topPage = fileQ := by simpa using hfile
    obtain rfl : dirP = below := hsame []
    rw [if_pos htop, resolve_parent_iff hdirP hstemP hstemQ ((pageSegment_eq_nil hmdQ).2 rfl)]
    simp [htop]
  · have hown : (if Name.stem fileQ = indexStem then [] else [Name.stem fileQ]) = pageSegment fileQ := rfl
    have hne : dirs ++ pageSegment fileQ ≠ [] := fun h => htop <| by
      obtain ⟨rfl, hindex⟩ := List.append_eq_nil_iff.1 h
      have hjoin : List.intercalate ['/'] (Text.splitAt '/' u) = u := Text.intercalate_splitAt
      rwa [← hu.names_eq, hnames, (pageSegment_eq_nil hmdQ).1 hindex, eq_comm] at hjoin
    rw [if_neg htop, hown] at hretarget ⊢
    rw [resolve_along_iff hdirP hdirQ hstemP hstemQ hsame hlength (fun s hs => ?_) hne fun c hc => ?_]
    · simp [htop]
    · have hpart : s ∈ Text.splitAt '/' u := by simp [hparts, hs]
      exact ⟨hu.parts s hpart, Text.not_mem_of_mem_splitAt hpart⟩
    · rcases tame_retarget.mem hretarget c hc with hc | rfl | rfl
      · exact hu.path c hc
      · rfl
      · rfl

def linkedDocs : Disk where
  entries := [
    (["docs".toList], .directory),
    (["docs".toList, "index.md".toList], .file (.text "[Questions](faq.md)\n".toList)),
    (["docs".toList, "guide.md".toList], .file (.text "[Questions](faq.md)\n".toList)),
    (["docs".toList, "faq.md".toList], .file (.text "# Questions\n".toList))]

def linkedPage (name : String) : Document := ⟨name.toList, ⟨("docs/" ++ name).toList⟩⟩

theorem scan_linkedDocs :
    Document.scan linkedDocs [] ⟨"docs".toList⟩ = .ok (["faq.md", "guide.md", "index.md"].map linkedPage) := by
  decide +kernel

theorem plain_linkedDocs : linkedDocs.Plain := Disk.plain_of_isTree (by decide +kernel)

theorem tidy_faq : Tidy "faq.md".toList := ⟨by decide, Text.forall_mem_of_all (by decide), by decide⟩

/-- The link of the index page leads to the page that it names. -/
theorem retarget_agrees_from_index :
    Location.along ((linkedPage "index.md").path.place []).dropLast (⟨"faq.md".toList⟩ : Path).names =
      (linkedPage "faq.md").path.place [] ∧
    IsIndex (linkedPage "index.md") ∧
    ∃ v, Link.retarget "faq.md".toList = some v ∧
      Url.resolve (pageUrl (destination (linkedPage "index.md").relPath false)) v =
        pageUrl (destination (linkedPage "faq.md").relPath false) := by
  have hleads : Location.along ((linkedPage "index.md").path.place []).dropLast
      (⟨"faq.md".toList⟩ : Path).names = (linkedPage "faq.md").path.place [] := by decide +kernel
  have hindex : IsIndex (linkedPage "index.md") := by
    show _ = _
    decide +kernel
  obtain ⟨v, hv, hiff⟩ := retarget_agrees_iff plain_linkedDocs scan_linkedDocs (by simp) (by simp) tidy_faq
    (by decide) hleads (by decide +kernel)
  exact ⟨hleads, hindex, v, hv, hiff.2 (iff_of_true hindex (by decide))⟩

/-- The same link on the other page leads below that page, where nothing is served. -/
theorem link_to_sibling_misses :
    linkedDocs.Plain ∧
    Document.scan linkedDocs [] ⟨"docs".toList⟩ = .ok (["faq.md", "guide.md", "index.md"].map linkedPage) ∧
    Location.along ((linkedPage "guide.md").path.place []).dropLast (⟨"faq.md".toList⟩ : Path).names =
      (linkedPage "faq.md").path.place [] ∧
    pageUrl (destination (linkedPage "faq.md").relPath false) = "/docs/faq/".toList ∧
    pageUrl (destination (linkedPage "guide.md").relPath false) = "/docs/guide/".toList ∧
    Link.retarget "faq.md".toList = some "faq/".toList ∧
    Url.resolve "/docs/guide/".toList "faq/".toList = "/docs/guide/faq/".toList :=
  ⟨plain_linkedDocs, scan_linkedDocs, by decide +kernel, by decide +kernel, by decide +kernel,
    by decide +kernel, by decide +kernel⟩

end Pages

end Route

end DocsMigration
