import DocsMigration.Files.Disk
import DocsMigration.Proofs.Cuts
/-! Where a path leads on a disk without links. Its names are followed one by one from where it starts,
so the place it means, and every place on the way there, can be read off the path alone. Joining two
paths puts their names in a row, and the parent of a path has fewer names, in the same order. -/

namespace DocsMigration

namespace Text

section Separators

variable {sep : Char} {s t part : Text}

theorem splitAt_append_cons : splitAt sep (s ++ sep :: t) = splitAt sep s ++ splitAt sep t := by
  simp only [splitAt_eq_splitOn]
  exact List.splitOn_append_cons_self s t

theorem splitAt_of_not_mem (h : sep ∉ s) : splitAt sep s = [s] := by
  induction s with
  | nil => rfl
  | cons c s ih =>
    rw [List.mem_cons, not_or] at h
    simp [splitAt, Ne.symm h.1, ih h.2]

theorem not_mem_of_mem_splitAt (h : part ∈ splitAt sep s) : sep ∉ part := by
  induction s generalizing part with
  | nil => simp_all [splitAt]
  | cons c s ih =>
    rw [splitAt] at h
    split_ifs at h with hc
    · rcases List.mem_cons.1 h with rfl | h
      · simp
      · exact ih h
    · cases hs : splitAt sep s with
      | nil => exact absurd hs (splitAt_ne_nil sep s)
      | cons first rest =>
        rw [hs] at h
        rcases List.mem_cons.1 h with rfl | h
        · have hfirst : sep ∉ first := ih (hs ▸ List.mem_cons_self)
          simpa [Ne.symm hc] using hfirst
        · exact ih (hs ▸ List.mem_cons_of_mem first h)

theorem splitAt_intercalate {parts : List Text} (hne : parts ≠ []) (h : ∀ part ∈ parts, sep ∉ part) :
    splitAt sep (List.intercalate [sep] parts) = parts := by
  rw [splitAt_eq_splitOn]
  exact List.splitOn_intercalate sep h hne

theorem intercalate_splitAt : List.intercalate [sep] (splitAt sep s) = s := by
  rw [splitAt_eq_splitOn]
  exact List.intercalate_splitOn sep

end Separators

end Text

namespace Path

variable {p q : Path} {n : Name}

theorem mem_names (h : n ∈ p.names) : n ≠ [] ∧ '/' ∉ n := by
  rw [names, List.mem_filter] at h
  exact ⟨by simpa using h.2, Text.not_mem_of_mem_splitAt h.1⟩

theorem names_name (hn : n ≠ []) (hslash : '/' ∉ n) : (⟨n⟩ : Path).names = [n] := by
  simp [names, Text.splitAt_of_not_mem hslash, hn]

theorem names_slash (s t : Text) : (⟨s ++ '/' :: t⟩ : Path).names = (⟨s⟩ : Path).names ++ (⟨t⟩ : Path).names := by
  simp [names, Text.splitAt_append_cons]

theorem names_nil : (⟨[]⟩ : Path).names = [] := by simp [names, Text.splitAt]

theorem names_join (hq : q.isAbsolute = false) : (p.join q).names = p.names ++ q.names := by
  obtain ⟨s⟩ := p
  obtain ⟨t⟩ := q
  unfold join
  split_ifs with hstart hend
  · have hs : s = [] := by simpa [hq] using hstart
    simp [hs, names_nil]
  · obtain ⟨s', rfl⟩ := List.getLast?_eq_some_iff.1 (beq_iff_eq.1 hend)
    rw [List.append_assoc, List.singleton_append, names_slash, names_slash, names_nil,
      List.append_nil]
  · exact names_slash s t

theorem isAbsolute_join (hq : q.isAbsolute = false) : (p.join q).isAbsolute = p.isAbsolute := by
  obtain ⟨s⟩ := p
  obtain ⟨t⟩ := q
  cases s with
  | nil => simpa [join, isAbsolute] using hq
  | cons c s =>
    unfold join
    simp only [hq, Bool.false_or, List.isEmpty_cons, Bool.false_eq_true, if_false]
    split_ifs <;> rfl

theorem isAbsolute_name (hslash : '/' ∉ n) : (⟨n⟩ : Path).isAbsolute = false := by
  cases n with
  | nil => rfl
  | cons c n =>
    have hc : '/' ≠ c := fun h => hslash (h ▸ List.mem_cons_self)
    simpa [isAbsolute] using Ne.symm hc

theorem join_text_ne_nil (hq : q.text ≠ []) : (p.join q).text ≠ [] := by
  unfold join
  split_ifs <;> simp [hq]

section Parents

theorem exists_dropIdleEnd_append (parts : List Text) :
    ∃ idle, parts = dropIdleEnd parts ++ idle ∧ ∀ part ∈ idle, isIdle part := by
  refine ⟨(parts.reverse.takeWhile isIdle).reverse, ?_, fun part hpart => ?_⟩
  · rw [dropIdleEnd, ← List.reverse_append, List.takeWhile_append_dropWhile, List.reverse_reverse]
  · exact List.all_eq_true.1 List.all_takeWhile part (List.mem_reverse.1 hpart)

theorem head?_of_head?_dropIdleEnd {parts : List Text} {part : Text}
    (h : (dropIdleEnd parts).head? = some part) : parts.head? = some part := by
  obtain ⟨idle, hparts, -⟩ := exists_dropIdleEnd_append parts
  rw [hparts, List.head?_append, h]
  rfl

theorem not_isIdle_of_dropIdleEnd {parts : List Text} :
    ∀ last ∈ (dropIdleEnd parts).getLast?, ¬ isIdle last := by
  intro last hlast
  have hhead := List.head?_dropWhile_not isIdle parts.reverse
  rw [dropIdleEnd, List.getLast?_reverse] at hlast
  rw [Option.mem_def.1 hlast] at hhead
  simpa using hhead

def filled (parts : List Text) : List Name := parts.filter (!·.isEmpty)

theorem names_eq_filled (p : Path) : p.names = filled (Text.splitAt '/' p.text) := rfl

theorem filled_append (as bs : List Text) : filled (as ++ bs) = filled as ++ filled bs :=
  List.filter_append as bs

theorem eq_currentName_of_filled {parts : List Text} (h : ∀ part ∈ parts, isIdle part) :
    ∀ n ∈ filled parts, n = currentName := by
  intro n hn
  obtain ⟨hmem, hne⟩ := List.mem_filter.1 hn
  have hidle := h n hmem
  simp_all [isIdle]

theorem names_intercalate {parts : List Text} (h : ∀ part ∈ parts, '/' ∉ part) :
    (⟨List.intercalate ['/'] parts⟩ : Path).names = filled parts := by
  cases parts with
  | nil => rfl
  | cons part parts => rw [names, Text.splitAt_intercalate (by simp) h]; rfl

/-- A path starts with a slash exactly if its first part is empty and not the only one. -/
theorem isAbsolute_intercalate {first : Text} {rest : List Text} (hslash : '/' ∉ first) :
    (⟨List.intercalate ['/'] (first :: rest)⟩ : Path).isAbsolute =
      (first.isEmpty && !rest.isEmpty) := by
  have hfirst := isAbsolute_name hslash
  unfold isAbsolute at hfirst ⊢
  cases rest with
  | nil => simpa [List.intercalate] using hfirst
  | cons next rest => cases first <;> simp_all [List.intercalate]

/-- How a path and its parent hang together: they start alike, the text of the path begins with that of its
parent, and the path goes on by one name, with nothing but single dots around it. There is no single dot
at the end of a parent, unless it is all there is. -/
structure IsParent (q p : Path) : Prop where
  start : q.isAbsolute = p.isAbsolute
  text : q.text <+: p.text
  names : ∃ dots last dots', p.names = q.names ++ (dots ++ last :: dots') ∧
    ∀ n ∈ dots ++ dots', n = currentName
  trimmed : q.names = [currentName] ∨ q.names.getLast? ≠ some currentName

theorem exists_parts_eq (p : Path) (hne : p.text ≠ []) : ∃ idle,
    Text.splitAt '/' p.text = p.parts.start.toList ++ p.parts.rest ++ idle ∧
      (∀ part ∈ idle, isIdle part) ∧ (p.isAbsolute ↔ p.parts.start = some []) ∧
        (∀ first ∈ p.parts.start, isIdle first) ∧
          (p.parts.start = none → p.parts.rest.head? ≠ some []) ∧
            ∀ last ∈ p.parts.rest.getLast?, ¬ isIdle last := by
  obtain ⟨s⟩ := p
  cases hs : Text.splitAt '/' s with
  | nil => exact absurd hs (Text.splitAt_ne_nil '/' s)
  | cons first rest =>
    have hslash : '/' ∉ first := Text.not_mem_of_mem_splitAt (hs ▸ List.mem_cons_self)
    have hjoined : List.intercalate ['/'] (first :: rest) = s := by
      rw [← hs]
      exact Text.intercalate_splitAt
    have habs : (⟨s⟩ : Path).isAbsolute = first.isEmpty := by
      rw [← hjoined, isAbsolute_intercalate hslash]
      cases rest with
      | nil =>
        have hfirst : first ≠ [] := by
          rintro rfl
          exact hne (by rw [← hjoined]; rfl)
        simpa using hfirst
      | cons next rest => simp
    have hempty : s.isEmpty = false := by simpa using hne
    by_cases hidle : isIdle first
    · obtain ⟨idle, hrest, hdots⟩ := exists_dropIdleEnd_append rest
      have hparts : (⟨s⟩ : Path).parts = ⟨some first, dropIdleEnd rest⟩ := by
        unfold parts
        simp only [hs, hempty, hidle, if_true, if_false, Bool.false_eq_true]
      rw [hparts, habs]
      refine ⟨idle, ?_, hdots, by simp, by simpa using hidle, by simp, not_isIdle_of_dropIdleEnd⟩
      simpa using hrest
    · obtain ⟨idle, hrest, hdots⟩ := exists_dropIdleEnd_append (first :: rest)
      have hparts : (⟨s⟩ : Path).parts = ⟨none, dropIdleEnd (first :: rest)⟩ := by
        unfold parts
        simp only [hs, hempty, hidle, if_false, Bool.false_eq_true]
      have hfirst : first ≠ [] := by
        rintro rfl
        exact hidle rfl
      rw [hparts, habs]
      refine ⟨idle, by simpa using hrest, hdots, by simpa using hfirst, by simp, fun _ hhead => ?_,
        not_isIdle_of_dropIdleEnd⟩
      exact hfirst (Option.some.inj (head?_of_head?_dropIdleEnd hhead))

theorem toPath_eq {start : Option Text} {rest : List Text}
    (hslash : ∀ part ∈ start.toList ++ rest, '/' ∉ part) (hstart : ∀ first ∈ start, isIdle first)
    (hrest : start = none → rest.head? ≠ some []) :
    (Parts.toPath ⟨start, rest⟩).names = filled (start.toList ++ rest) ∧
      ((Parts.toPath ⟨start, rest⟩).isAbsolute ↔ start = some []) := by
  unfold Parts.toPath
  split
  · rename_i hs hr
    obtain rfl : start = some [] := hs
    obtain rfl : rest = [] := hr
    exact ⟨rfl, by simp [isAbsolute]⟩
  · rename_i hroot
    refine ⟨names_intercalate hslash, ?_⟩
    cases start with
    | none =>
      cases rest with
      | nil => simp [isAbsolute, List.intercalate]
      | cons first rest =>
        rw [Option.toList_none, List.nil_append, isAbsolute_intercalate (hslash first (by simp))]
        have hfirst : first ≠ [] := by simpa using hrest rfl
        simp [hfirst]
    | some first =>
      rw [Option.toList_some, List.singleton_append, isAbsolute_intercalate (hslash first (by simp))]
      cases first with
      | nil =>
        have hne : rest ≠ [] := fun hr => hroot rfl hr
        simp [hne]
      | cons c first => simp

theorem intercalate_append {as bs : List Text} (has : as ≠ []) (hbs : bs ≠ []) :
    List.intercalate ['/'] (as ++ bs) = List.intercalate ['/'] as ++ '/' :: List.intercalate ['/'] bs := by
  induction as with
  | nil => exact absurd rfl has
  | cons part as ih =>
    by_cases hnil : as = []
    · simp [hnil, List.intercalate_cons_of_ne_nil hbs]
    · rw [List.cons_append, List.intercalate_cons_of_ne_nil (by simp [hnil]), ih hnil,
        List.intercalate_cons_of_ne_nil hnil]
      simp

theorem toPath_prefix {start : Option Text} {kept tail : List Text} (htail : tail ≠ []) :
    (Parts.toPath ⟨start, kept⟩).text <+: List.intercalate ['/'] (start.toList ++ kept ++ tail) := by
  by_cases hnil : start.toList ++ kept = []
  · obtain ⟨hstart, rfl⟩ := List.append_eq_nil_iff.1 hnil
    obtain rfl : start = none := by simpa using hstart
    exact List.nil_prefix
  · rw [intercalate_append hnil htail]
    unfold Parts.toPath
    split
    · rename_i hs hr
      obtain rfl : start = some [] := hs
      obtain rfl : kept = [] := hr
      exact ⟨List.intercalate ['/'] tail, rfl⟩
    · exact List.prefix_append _ _

theorem trimmed_filled {start : Option Text} {kept : List Text} (hstart : ∀ first ∈ start, isIdle first)
    (hkept : ∀ last ∈ kept.getLast?, ¬ isIdle last) :
    filled (start.toList ++ kept) = [currentName] ∨
      (filled (start.toList ++ kept)).getLast? ≠ some currentName := by
  rcases List.eq_nil_or_concat kept with rfl | ⟨inner, last, rfl⟩
  · cases start with
    | none => exact .inr (by simp [filled])
    | some first =>
      have hfirst : first = [] ∨ first = currentName := by simpa [isIdle] using hstart
      rcases hfirst with rfl | rfl
      · exact .inr (by simp [filled])
      · exact .inl (by simp [filled, currentName])
  · right
    have hlast : ¬ (last = [] ∨ last = currentName) := by simpa [isIdle] using hkept
    rw [not_or] at hlast
    have hfull : filled [last] = [last] := by simp [filled, hlast.1]
    rw [List.concat_eq_append, ← List.append_assoc, filled_append, hfull, List.getLast?_concat]
    simpa using hlast.2

theorem isParent_of_parent? (h : p.parent? = some q) : q.IsParent p := by
  by_cases hne : p.text = []
  · simp [parent?, parts, hne, Text.splitAt] at h
  obtain ⟨idle, hsplit, hidle, habs, hstart, hrest, hlast⟩ := exists_parts_eq p hne
  have hslash : ∀ part ∈ p.parts.start.toList ++ p.parts.rest, '/' ∉ part := fun part hpart =>
    Text.not_mem_of_mem_splitAt (hsplit ▸ List.mem_append_left idle hpart)
  have hnames := names_eq_filled p
  have htext : p.text = List.intercalate ['/'] (Text.splitAt '/' p.text) := Text.intercalate_splitAt.symm
  rw [hsplit] at hnames htext
  generalize hparts : p.parts = ps at *
  obtain ⟨start, rest⟩ := ps
  rcases List.eq_nil_or_concat rest with rfl | ⟨inner, last, rfl⟩
  · rcases start with _ | _ | ⟨c, first⟩
    · simp [parent?, hparts] at h
    · simp [parent?, hparts] at h
    · obtain rfl : (⟨[]⟩ : Path) = q := by simpa [parent?, hparts] using h
      have hp : p.isAbsolute = false := by simpa using habs
      refine ⟨by rw [hp]; rfl, List.nil_prefix, ⟨[], c :: first, filled idle, ?_, ?_⟩, .inr ?_⟩
      · rw [hnames, names_nil]
        rfl
      · simpa using eq_currentName_of_filled hidle
      · simp [names_nil]
  · obtain ⟨idle', hinner, hidle'⟩ := exists_dropIdleEnd_append inner
    obtain rfl : Parts.toPath ⟨start, dropIdleEnd inner⟩ = q := by simpa [parent?, hparts] using h
    have hsub : ∀ part ∈ start.toList ++ dropIdleEnd inner, '/' ∉ part := by
      intro part hpart
      refine hslash part ?_
      simp only [List.concat_eq_append, List.mem_append] at hpart ⊢
      rw [hinner, List.mem_append]
      tauto
    have hhead : start = none → (dropIdleEnd inner).head? ≠ some [] := fun hnone hkept =>
      hrest hnone (by simp [head?_of_head?_dropIdleEnd hkept])
    obtain ⟨hnames', habs'⟩ := toPath_eq hsub hstart hhead
    have hfull : last ≠ [] := by
      rintro rfl
      exact hlast [] (by simp) rfl
    have hall : start.toList ++ inner.concat last ++ idle =
        start.toList ++ dropIdleEnd inner ++ (idle' ++ last :: idle) := by
      nth_rewrite 1 [hinner]
      simp
    refine ⟨by rw [Bool.eq_iff_iff, habs', habs], ?_, ⟨filled idle', last, filled idle, ?_, ?_⟩, ?_⟩
    · rw [htext, hall]
      exact toPath_prefix (by simp)
    · rw [hnames, hall, hnames', filled_append _ (idle' ++ last :: idle), filled_append idle']
      simp [filled, hfull]
    · intro n hn
      rcases List.mem_append.1 hn with hn | hn
      · exact eq_currentName_of_filled hidle' n hn
      · exact eq_currentName_of_filled hidle n hn
    · rw [hnames']
      exact trimmed_filled hstart not_isIdle_of_dropIdleEnd

theorem eq_currentName_of_parent?_eq_none (h : p.parent? = none) : ∀ n ∈ p.names, n = currentName := by
  by_cases hne : p.text = []
  · simp [names, hne, Text.splitAt]
  obtain ⟨idle, hsplit, hidle, -, hstart, -, -⟩ := exists_parts_eq p hne
  rw [names_eq_filled, hsplit]
  generalize hparts : p.parts = ps at *
  obtain ⟨start, rest⟩ := ps
  rcases List.eq_nil_or_concat rest with rfl | ⟨inner, last, rfl⟩
  · refine eq_currentName_of_filled fun part hpart => ?_
    rcases List.mem_append.1 hpart with hpart | hpart
    · exact hstart part (by simpa using hpart)
    · exact hidle part hpart
  · simp [parent?, hparts] at h

end Parents

def origin (cwd : Location) (p : Path) : Location := if p.isAbsolute then [] else cwd

end Path

namespace Location

def step (l : Location) (n : Name) : Location :=
  if n = Path.currentName then l else if n = Path.parentName then l.dropLast else l ++ [n]

/-- Where names lead, one after the other. -/
def along (l : Location) (ns : List Name) : Location := ns.foldl step l

/-- The places from which names lead on, in their order. -/
def passed (l : Location) : List Name → List Location
  | [] => []
  | n :: ns => l :: passed (l.step n) ns

/-- All places on the way along names, with the first and the last. -/
def visited (l : Location) (ns : List Name) : List Location := passed l ns ++ [l.along ns]

/-- The places from which names lead back to the directory above. -/
def backedOut (l : Location) : List Name → List Location
  | [] => []
  | n :: ns => (if n = Path.parentName then [l] else []) ++ backedOut (l.step n) ns

variable {l m : Location} {n : Name} {ns ms : List Name}

@[simp] theorem along_nil : l.along [] = l := rfl

@[simp] theorem along_cons : l.along (n :: ns) = (l.step n).along ns := rfl

theorem along_append : l.along (ns ++ ms) = (l.along ns).along ms := List.foldl_append

theorem step_proper (h : n.Proper) : l.step n = l ++ [n] := by
  simp [step, h.2.2.1, h.2.2.2]

theorem along_proper (h : ∀ n ∈ ns, n.Proper) : l.along ns = l ++ ns := by
  induction ns generalizing l with
  | nil => simp
  | cons n ns ih =>
    rw [along_cons, step_proper (h n (by simp)), ih fun n' hn' => h n' (List.mem_cons_of_mem n hn')]
    simp

theorem visited_cons : l.visited (n :: ns) = l :: (l.step n).visited ns := rfl

theorem mem_visited_self : l ∈ l.visited ns := by cases ns <;> simp [visited, passed]

theorem along_mem_visited : l.along ns ∈ l.visited ns := by simp [visited]

theorem step_append (h : n ≠ Path.parentName) : (l ++ m).step n = l ++ m.step n := by
  unfold step
  split_ifs
  · rfl
  · rw [List.append_assoc]

/-- Names that do not lead back lead from each place to the same places below it. -/
theorem along_append_left (h : Path.parentName ∉ ns) : (l ++ m).along ns = l ++ m.along ns := by
  induction ns generalizing m with
  | nil => rfl
  | cons n ns ih =>
    rw [List.mem_cons, not_or] at h
    rw [along_cons, along_cons, step_append (Ne.symm h.1), ih h.2]

theorem passed_append_left (h : Path.parentName ∉ ns) :
    (l ++ m).passed ns = (m.passed ns).map (l ++ ·) := by
  induction ns generalizing m with
  | nil => rfl
  | cons n ns ih =>
    rw [List.mem_cons, not_or] at h
    rw [passed, passed, step_append (Ne.symm h.1), ih h.2, List.map_cons]

theorem passed_append : l.passed (ns ++ ms) = l.passed ns ++ (l.along ns).passed ms := by
  induction ns generalizing l with
  | nil => rfl
  | cons n ns ih => simp [passed, ih]

theorem mem_visited_append :
    m ∈ l.visited (ns ++ ms) ↔ m ∈ l.visited ns ∨ m ∈ (l.along ns).visited ms := by
  have hself : l.along ns ∈ (l.along ns).visited ms := mem_visited_self
  rw [visited, visited, passed_append, along_append, List.append_assoc, ← visited, List.mem_append,
    List.mem_append, List.mem_singleton]
  constructor
  · rintro (h | h)
    · exact .inl (.inl h)
    · exact .inr h
  · rintro ((h | rfl) | h)
    · exact .inl h
    · exact .inr hself
    · exact .inr h

theorem visited_subset (h : ms <+: ns) : l.visited ms ⊆ l.visited ns := by
  obtain ⟨tail, rfl⟩ := h
  exact fun m hm => mem_visited_append.2 (.inl hm)

theorem visited_subset_passed (hne : ms ≠ []) : l.visited ns ⊆ l.passed (ns ++ ms) := by
  obtain ⟨n, ms, rfl⟩ := List.exists_cons_of_ne_nil hne
  intro m hm
  rw [passed_append]
  rcases List.mem_append.1 hm with hm | hm
  · exact List.mem_append_left _ hm
  · rw [List.mem_singleton.1 hm]
    exact List.mem_append_right _ List.mem_cons_self

theorem backedOut_append : l.backedOut (ns ++ ms) = l.backedOut ns ++ (l.along ns).backedOut ms := by
  induction ns generalizing l with
  | nil => rfl
  | cons n ns ih => simp [backedOut, ih]

theorem backedOut_subset_visited : l.backedOut ns ⊆ l.visited ns := by
  induction ns generalizing l with
  | nil => simp [backedOut]
  | cons n ns ih =>
    intro m hm
    rw [backedOut, List.mem_append] at hm
    rw [visited_cons]
    rcases hm with hm | hm
    · split_ifs at hm
      · exact List.mem_singleton.1 hm ▸ List.mem_cons_self
      · simp at hm
    · exact List.mem_cons_of_mem l (ih hm)

/-- A place from which no later name leads back stays above the place reached, and so does each place
on the way there. -/
theorem prefix_along (h : Path.parentName ∉ ns) (hm : m ∈ l.visited ns) :
    l <+: m ∧ m <+: l.along ns := by
  induction ns generalizing l m with
  | nil =>
    obtain rfl : m = l := by simpa [visited, passed] using hm
    exact ⟨List.prefix_rfl, List.prefix_rfl⟩
  | cons n ns ih =>
    rw [List.mem_cons, not_or] at h
    have hstep : l <+: l.step n := by
      unfold step
      split_ifs with hcur hpar
      · exact List.prefix_rfl
      · exact absurd hpar.symm h.1
      · exact List.prefix_append l [n]
    rw [visited_cons, List.mem_cons] at hm
    rcases hm with rfl | hm
    · exact ⟨List.prefix_rfl, hstep.trans (ih h.2 mem_visited_self).2⟩
    · obtain ⟨hl, hr⟩ := ih h.2 hm
      exact ⟨hstep.trans hl, hr⟩

/-- Along any names, what is passed lies on the way down to the end, or above a place from which the
names lead back. -/
theorem visited_cases (hm : m ∈ l.visited ns) :
    m <+: l.along ns ∨ ∃ b ∈ l.backedOut ns, m <+: b := by
  induction ns generalizing l m with
  | nil =>
    obtain rfl : m = l := by simpa [visited, passed] using hm
    exact .inl List.prefix_rfl
  | cons n ns ih =>
    have hnext {k : Location} (hk : k ∈ (l.step n).visited ns) :
        k <+: l.along (n :: ns) ∨ ∃ b ∈ l.backedOut (n :: ns), k <+: b := by
      rcases ih hk with h | ⟨b, hb, h⟩
      · exact .inl h
      · exact .inr ⟨b, List.mem_append_right _ hb, h⟩
    rw [visited_cons, List.mem_cons] at hm
    rcases hm with rfl | hm
    · by_cases hpar : n = Path.parentName
      · exact .inr ⟨m, by simp [backedOut, hpar], List.prefix_rfl⟩
      · have hstep : m <+: m.step n := by
          unfold step
          split_ifs
          · exact List.prefix_rfl
          · exact List.prefix_append m [n]
        rcases hnext mem_visited_self with h | ⟨b, hb, h⟩
        · exact .inl (hstep.trans h)
        · exact .inr ⟨b, hb, hstep.trans h⟩
    · exact hnext hm

end Location

namespace Path

def place (cwd : Location) (p : Path) : Location := (p.origin cwd).along p.names

/-- The places on the way to what a path means, with its start and its end. -/
def way (cwd : Location) (p : Path) : List Location := (p.origin cwd).visited p.names

variable {p q : Path} {cwd : Location}

theorem origin_join (hq : q.isAbsolute = false) : (p.join q).origin cwd = p.origin cwd := by
  simp [origin, isAbsolute_join hq]

theorem place_join (hq : q.isAbsolute = false) :
    (p.join q).place cwd = (p.place cwd).along q.names := by
  rw [place, place, origin_join hq, names_join hq, Location.along_append]

theorem mem_way_join (hq : q.isAbsolute = false) {m : Location} :
    m ∈ (p.join q).way cwd ↔ m ∈ p.way cwd ∨ m ∈ (p.place cwd).visited q.names := by
  rw [way, way, origin_join hq, names_join hq, Location.mem_visited_append, place]

theorem place_join_name {n : Name} (hn : n.Proper) :
    (p.join ⟨n⟩).place cwd = p.place cwd ++ [n] := by
  rw [place_join (isAbsolute_name hn.2.1), names_name hn.1 hn.2.1, Location.along_cons,
    Location.along_nil, Location.step_proper hn]

theorem mem_way_join_name {n : Name} (hn : n.Proper) {m : Location} :
    m ∈ (p.join ⟨n⟩).way cwd ↔ m ∈ p.way cwd ∨ m = p.place cwd ++ [n] := by
  rw [mem_way_join (isAbsolute_name hn.2.1), names_name hn.1 hn.2.1]
  have hself : p.place cwd ∈ p.way cwd := Location.along_mem_visited
  simp only [Location.visited, Location.passed, Location.along_cons, Location.along_nil,
    Location.step_proper hn, List.mem_append, List.mem_cons, List.not_mem_nil, or_false]
  constructor
  · rintro (h | rfl | rfl)
    · exact .inl h
    · exact .inl hself
    · exact .inr rfl
  · rintro (h | rfl)
    · exact .inl h
    · exact .inr (.inr rfl)

theorem place_toPath {l : Location} (hl : ∀ n ∈ l, n.Proper) : l.toPath.place cwd = l := by
  have hnames : l.toPath.names = l := by
    change (⟨[] ++ '/' :: List.intercalate ['/'] l⟩ : Path).names = l
    rw [names_slash, names_nil, names_intercalate fun n hn => (hl n hn).2.1, List.nil_append, filled,
      List.filter_eq_self]
    simpa using fun n hn => (hl n hn).1
  have horigin : l.toPath.origin cwd = [] := rfl
  rw [place, hnames, horigin, Location.along_proper hl, List.nil_append]

theorem getLast?_toPath {l : Location} (hl : ∀ n ∈ l, n.Proper) (hne : l ≠ []) :
    l.toPath.text.getLast? ≠ some '/' := by
  obtain ⟨before, last, rfl⟩ := (List.eq_nil_or_concat l).resolve_left hne
  rw [List.concat_eq_append] at hl ⊢
  have hproper := hl last (by simp)
  have hends : (Location.toPath (before ++ [last])).text.getLast? = last.getLast? := by
    rw [Location.toPath]
    by_cases hbefore : before = []
    · rw [hbefore, List.nil_append, List.intercalate_singleton, ← List.singleton_append,
        List.getLast?_append_of_ne_nil _ hproper.1]
    · rw [intercalate_append hbefore (by simp), List.intercalate_singleton, ← List.cons_append,
        List.append_cons, List.getLast?_append_of_ne_nil _ hproper.1]
  rw [hends]
  exact fun h => hproper.2.1 (List.mem_of_getLast? h)

section Descent

variable {r : List Name}

def descend (p : Path) (r : List Name) : Path := r.foldl (fun p n => p.join ⟨n⟩) p

theorem descend_names (hr : ∀ n ∈ r, n.Proper) :
    (p.descend r).names = p.names ++ r ∧ (p.descend r).isAbsolute = p.isAbsolute := by
  induction r generalizing p with
  | nil => simp [descend]
  | cons n r ih =>
    have hn := hr n (by simp)
    obtain ⟨hnames, habs⟩ := ih (p := p.join ⟨n⟩) fun m hm => hr m (List.mem_cons_of_mem n hm)
    refine ⟨?_, habs.trans (isAbsolute_join (isAbsolute_name hn.2.1))⟩
    rw [descend, List.foldl_cons, ← descend, hnames, names_join (isAbsolute_name hn.2.1),
      names_name hn.1 hn.2.1, List.append_assoc]
    rfl

theorem place_descend (hr : ∀ n ∈ r, n.Proper) : (p.descend r).place cwd = p.place cwd ++ r := by
  obtain ⟨hnames, habs⟩ := descend_names (p := p) hr
  rw [place, place, origin, origin, habs, hnames, Location.along_append, Location.along_proper hr]

theorem mem_way_descend (hr : ∀ n ∈ r, n.Proper) {m : Location} :
    m ∈ (p.descend r).way cwd ↔ m ∈ p.way cwd ∨ p.place cwd <+: m ∧ m <+: p.place cwd ++ r := by
  induction r generalizing p with
  | nil =>
    have hself : p.place cwd ∈ p.way cwd := Location.along_mem_visited
    rw [descend, List.foldl_nil, List.append_nil]
    refine ⟨.inl, Or.rec id fun h => ?_⟩
    rwa [List.IsPrefix.eq_of_length_le h.2 h.1.length_le]
  | cons n r ih =>
    have hn := hr n (by simp)
    have hself : p.place cwd ∈ p.way cwd := Location.along_mem_visited
    rw [descend, List.foldl_cons, ← descend, ih fun m hm => hr m (List.mem_cons_of_mem n hm),
      mem_way_join_name hn, place_join_name hn]
    constructor
    · rintro ((h | rfl) | h)
      · exact .inl h
      · exact .inr ⟨List.prefix_append _ _, r, by simp⟩
      · exact .inr ⟨(List.prefix_append _ _).trans h.1, by simpa using h.2⟩
    · rintro (h | ⟨hp, tail, htail⟩)
      · exact .inl (.inl h)
      · obtain ⟨between, rfl⟩ := hp
        cases between with
        | nil => exact .inl (.inl (by simpa using hself))
        | cons k between =>
          obtain rfl : k = n := by simp_all
          exact .inr ⟨⟨between, by simp⟩, tail, by simpa using htail⟩

end Descent

theorem way_parent? (h : p.parent? = some q) : q.way cwd ⊆ p.way cwd := by
  obtain ⟨habs, -, ⟨dots, last, dots', hnames, -⟩, -⟩ := isParent_of_parent? h
  rw [way, way, origin, habs, hnames]
  exact Location.visited_subset (List.prefix_append _ _)

theorem way_of_mem_ancestorsWithin {count : Nat} (h : q ∈ ancestorsWithin count p) :
    q.way cwd ⊆ p.way cwd := by
  induction count generalizing p with
  | zero =>
    obtain rfl : q = p := by simpa [ancestorsWithin] using h
    exact List.Subset.refl _
  | succ count ih =>
    rw [ancestorsWithin, List.mem_cons] at h
    rcases h with rfl | h
    · exact List.Subset.refl _
    · cases hp : p.parent? with
      | none => simp [hp] at h
      | some r =>
        rw [hp] at h
        exact fun m hm => way_parent? hp (ih h hm)

end Path

end DocsMigration
