import DocsMigration.Proofs.Operations
/-! When directories can be made and texts can be written. A path whose way is free of files can be made a
directory with all its ancestors: what is missing for a path is there once its parent was made, because a
path goes on from its parent by a single name. A text can be written to a path whose holder can be made. -/

namespace DocsMigration

namespace Path

variable {p q : Path} {cwd : Location} {l : Location} {ns dots : List Name}

theorem visited_dots (hdots : ∀ n ∈ dots, n = currentName) : l.visited (ns ++ dots) ⊆ l.visited ns := by
  have hstay (l : Location) : ∀ m ∈ l.visited dots, m = l := by
    induction dots with
    | nil => simp [Location.visited, Location.passed]
    | cons n dots ih =>
      obtain ⟨rfl, hrest⟩ := List.forall_mem_cons.1 hdots
      intro m hm
      rw [Location.visited_cons, List.mem_cons] at hm
      exact hm.elim id (ih hrest m)
  intro m hm
  rcases Location.mem_visited_append.1 hm with hm | hm
  · exact hm
  · exact hstay _ m hm ▸ Location.along_mem_visited

theorem exists_parent {n : Name} (hlast : p.names.getLast? = some n) (hn : n ≠ currentName) :
    ∃ q, p.parent? = some q := by
  rw [← Option.ne_none_iff_exists']
  intro hnone
  exact hn (eq_currentName_of_parent?_eq_none hnone n (List.mem_of_getLast? hlast))

theorem IsParent.shorter (hq : q.IsParent p) : q.text.length < p.text.length := by
  refine lt_of_le_of_ne hq.text.length_le fun hlength => ?_
  obtain ⟨dots, last, dots', hnames, -⟩ := hq.names
  have hsame : q = p := congrArg Path.mk (hq.text.eq_of_length hlength)
  simp [hsame] at hnames

theorem IsParent.way_subset_passed (hq : q.IsParent p) : q.way cwd ⊆ (p.origin cwd).passed p.names := by
  obtain ⟨dots, last, dots', heq, -⟩ := hq.names
  rw [way, origin, hq.start, ← origin, heq]
  exact Location.visited_subset_passed (by simp)

theorem IsParent.visited_dropLast (hq : q.IsParent p) {n : Name} (hlast : p.names.getLast? = some n)
    (hn : n ≠ currentName) : (p.origin cwd).visited p.names.dropLast ⊆ q.way cwd := by
  obtain ⟨dots, last, dots', heq, hdots⟩ := hq.names
  obtain rfl : dots' = [] := by
    rcases List.eq_nil_or_concat dots' with rfl | ⟨before, n', rfl⟩
    · rfl
    · rw [heq] at hlast
      have hlast' : n' = n := by
        simpa [List.getLast?_append, List.getLast?_cons] using hlast
      exact absurd (hlast' ▸ hdots n' (by simp)) hn
  have hdrop : p.names.dropLast = q.names ++ dots := by
    rw [heq, ← List.append_assoc, List.dropLast_concat]
  rw [hdrop, way, origin, ← hq.start]
  exact visited_dots fun n hn => hdots n (List.mem_append_left _ hn)

end Path

namespace Work

variable {ε α β : Type} {w : Workspace}

def Succeeds (work : Work ε α) (w : Workspace) : Prop := ∃ a w', work.outcome w = (.ok a, w')

theorem succeeds_pure (a : α) : (pure a : Work ε α).Succeeds w := ⟨a, w, rfl⟩

theorem succeeds_bind {x : Work ε β} {f : β → Work ε α} (hx : x.Succeeds w)
    (hf : ∀ b w', x.outcome w = (.ok b, w') → (f b).Succeeds w') : (x >>= f).Succeeds w := by
  obtain ⟨b, w', hout⟩ := hx
  obtain ⟨a, w'', hout'⟩ := hf b w' hout
  exact ⟨a, w'', outcome_bind_eq_ok.2 ⟨b, w', hout, hout'⟩⟩

theorem succeeds_tryCatch {x : Work ε α} {h : ε → Work ε α} {e : ε}
    (hx : x.outcome w = (.error e, w)) (hh : (h e).Succeeds w) : (tryCatch x h).Succeeds w := by
  obtain ⟨a, w', hout⟩ := hh
  refine ⟨a, w', ?_⟩
  rw [outcome_tryCatch, hx]
  exact hout

theorem succeeds_mapM {f : β → Work ε α} {xs : List β} {I : Disk → Prop} (hw : I w.disk)
    (hf : ∀ x ∈ xs, ∀ w' : Workspace, w'.cwd = w.cwd → I w'.disk →
      (f x).Succeeds w' ∧ ∀ a w'', (f x).outcome w' = (.ok a, w'') → w''.cwd = w'.cwd ∧ I w''.disk) :
    (xs.mapM f).Succeeds w := by
  induction xs generalizing w with
  | nil => exact succeeds_pure _
  | cons x xs ih =>
    rw [List.mapM_cons]
    obtain ⟨hx, hkeeps⟩ := hf x (by simp) w rfl hw
    refine succeeds_bind hx fun a w' hout => ?_
    obtain ⟨hcwd, hI⟩ := hkeeps a w' hout
    refine succeeds_bind (ih hI fun y hy w'' hcwd' => ?_) fun _ _ _ => succeeds_pure _
    exact hf y (List.mem_cons_of_mem x hy) w'' (hcwd'.trans hcwd)

theorem succeeds_reportedAt {work : Work FileError α} {p : Path} (h : work.Succeeds w) :
    (MigrationWork.reportedAt p work).Succeeds w := by
  obtain ⟨a, w', hout⟩ := h
  exact ⟨a, w', outcome_reportedAt_eq_ok.2 hout⟩

end Work

namespace Disk

variable {d : Disk} {here cwd : Location} {ns : List Name} {p q : Path} {ways ways' : List Location}
  {followLast : Bool} {follow : Location → List Name → Except FileError Location}

/-- Whether no file is in the way: at each of some places there is a directory or nothing. -/
def Passable (d : Disk) (ways : List Location) : Prop :=
  ∀ m ∈ ways, d.get? m = none ∨ d.get? m = some .directory

theorem Passable.mono (h : d.Passable ways) (hways : ways' ⊆ ways) : d.Passable ways' :=
  fun m hm => h m (hways hm)

theorem Opens.passable {c : Change} (h : d.Passable ways) (hc : d.Opens ways' c) :
    (d.apply c).Passable ways := by
  intro m hm
  by_cases heq : m = c.location
  · exact .inr (heq ▸ hc.get?_self)
  · rw [get?_apply_of_ne heq]
    exact h m hm

theorem get?_after_opens {cs : List Change} {l : Location} (hcs : d.Allows (Opens ways) cs) (hl : l ∉ ways) :
    (d.after cs).get? l = d.get? l :=
  hcs.keeps (I := fun d' => d'.get? l = d.get? l) rfl fun d' c hd hc => by
    obtain ⟨-, -, m, hm, rfl⟩ := hc
    rw [get?_apply_of_ne, hd]
    rintro rfl
    exact hl hm

theorem Plain.walk_of_passable (h : d.Plain) (hsize : ∀ n ∈ ns, Text.utf8Size n ≤ nameLimit)
    (hpass : d.Passable (here.passed ns)) :
    d.walk followLast follow here ns = .ok (here.along ns) ∨
      d.walk followLast follow here ns = .error .notFound := by
  induction ns generalizing here with
  | nil => exact .inl rfl
  | cons n ns ih =>
    obtain ⟨hhere, hrest⟩ := List.forall_mem_cons.1 hpass
    obtain ⟨hn, hns⟩ := List.forall_mem_cons.1 hsize
    rcases hhere with hnone | hdir
    · right
      rw [walk_cons_of_ne (by simp [hnone]), if_pos hnone]
    · rw [h.walk_cons hdir, if_neg (Nat.not_lt.2 hn)]
      exact ih hns hrest

theorem Plain.findHolder_of_passable (h : d.Plain) (hp : Addresses p p.names.dropLast)
    (hpass : d.Passable ((p.origin cwd).visited p.names.dropLast)) :
    (∃ l, d.findHolder cwd p = .ok l) ∨ d.findHolder cwd p = .error .notFound := by
  obtain ⟨hne, hzero, hsize, hnames⟩ := hp
  unfold findHolder
  rw [travel_eq, if_neg (by simpa using hne), if_neg (by simpa using hzero), if_neg (Nat.not_le.2 hsize)]
  rcases h.walk_of_passable hnames (hpass.mono (List.subset_append_left _ _)) with hwalk | hwalk
  · rw [hwalk]
    rcases hpass _ Location.along_mem_visited with hend | hend
    · exact .inr (by simp [bind, Except.bind, hend])
    · exact .inl ⟨(p.origin cwd).along p.names.dropLast, by simp [bind, Except.bind, hend]⟩
  · rw [hwalk]
    exact .inr rfl

theorem Plain.get?_step_dots {l : Location} {n : Name} (h : d.Plain) (hl : d.get? l = some .directory)
    (hn : n = Path.currentName ∨ n = Path.parentName) : d.get? (l.step n) = some .directory := by
  rcases hn with rfl | rfl
  · rwa [Location.step, if_pos rfl]
  · rw [Location.step, if_neg (by decide), if_pos rfl]
    rcases List.eq_nil_or_concat l with rfl | ⟨above, n, rfl⟩
    · rfl
    · rw [List.concat_eq_append] at hl ⊢
      rw [List.dropLast_concat]
      exact h.held above n (by simp [hl])

/-- Where a directory is not made although no file is in the way, there is one already, or the way to it
is not there yet. -/
theorem Plain.newDirectory_of_passable (h : d.Plain) (hp : Addresses p p.names)
    (hpass : d.Passable (p.way cwd)) (horigin : d.get? (p.origin cwd) = some .directory) :
    (∃ l, d.newDirectory cwd p = .ok l) ∨
      d.newDirectory cwd p = .error .alreadyExists ∧ d.isDirectory cwd p ∨
        d.newDirectory cwd p = .error .notFound ∧
          ∃ m ∈ (p.origin cwd).visited p.names.dropLast, d.get? m ≠ some .directory := by
  unfold newDirectory
  split
  · rename_i hlast
    have hnames : p.names = [] := List.getLast?_eq_none_iff.1 hlast
    have hway : p.way cwd = [p.origin cwd] := by rw [Path.way, hnames]; rfl
    rw [if_neg (by simpa using hp.1)]
    exact .inr (.inl ⟨rfl, h.isDirectory_iff.2 ⟨hp, by simpa [hway] using horigin⟩⟩)
  · rename_i n hlast
    have hholder : Addresses p p.names.dropLast :=
      ⟨hp.1, hp.2.1, hp.2.2.1, fun n hn => hp.2.2.2 n (List.dropLast_subset _ hn)⟩
    have hvisited : (p.origin cwd).visited p.names.dropLast ⊆ p.way cwd :=
      Location.visited_subset (List.dropLast_prefix _)
    rcases h.findHolder_of_passable hholder (hpass.mono hvisited) with ⟨l, hfound⟩ | hmissing
    · obtain ⟨-, hdirs, rfl⟩ := h.findHolder_eq_ok.1 hfound
      have hdir := hdirs _ Location.along_mem_visited
      have hisDirectory (hplace : d.get? (p.place cwd) = some .directory) : d.isDirectory cwd p := by
        refine h.isDirectory_iff.2 ⟨hp, fun m hm => ?_⟩
        rcases List.mem_append.1 hm with hm | hm
        · exact hdirs m (passed_of_getLast? hlast ▸ hm)
        · exact List.mem_singleton.1 hm ▸ hplace
      have hplace : p.place cwd = _ := place_of_getLast? hlast
      simp only [hfound, bind, Except.bind]
      split_ifs with hdots hsize hsome
      · exact .inr (.inl ⟨rfl, hisDirectory (hplace ▸ h.get?_step_dots hdir hdots)⟩)
      · exact absurd (hp.2.2.2 n (List.mem_of_getLast? hlast)) (Nat.not_le.2 hsize)
      · refine .inr (.inl ⟨rfl, hisDirectory ?_⟩)
        rw [not_or] at hdots
        rw [Location.step_proper (proper_of_getLast? hlast hdots.1 hdots.2)] at hplace
        have hthere : d.get? (p.place cwd) = none ∨ d.get? (p.place cwd) = some .directory :=
          hpass _ Location.along_mem_visited
        exact hthere.resolve_left fun hnone => by simp [← hplace, hnone] at hsome
      · exact .inl ⟨_, rfl⟩
    · refine .inr (.inr ⟨by simp [hmissing, bind, Except.bind], ?_⟩)
      by_contra hall
      push Not at hall
      have hfound : d.findHolder cwd p = .ok _ := h.findHolder_eq_ok.2 ⟨hholder, hall, rfl⟩
      simp [hmissing] at hfound

theorem Addresses.parent (h : Addresses p p.names) (hq : q.IsParent p) (hne : q.text ≠ []) :
    Addresses q q.names := by
  obtain ⟨-, hzero, hsize, hnames⟩ := h
  refine ⟨hne, fun hmem => hzero (hq.text.subset hmem), ?_, fun n hn => hnames n ?_⟩
  · obtain ⟨rest, hrest⟩ := hq.text
    rw [← hrest, Text.utf8Size_append] at hsize
    omega
  · obtain ⟨dots, last, dots', heq, -⟩ := hq.names
    rw [heq]
    exact List.mem_append_left _ hn

/-- Whether a path goes on from directories that exist by proper names. Behind a missing directory a single
dot would be looked for in vain. -/
def Grounded (d : Disk) (cwd : Location) (p : Path) : Prop :=
  ∃ base r, p.names = base ++ r ∧ (∀ n ∈ r, n.Proper) ∧
    ∀ m ∈ (p.origin cwd).visited base, d.get? m = some .directory

theorem Grounded.origin (h : d.Grounded cwd p) : d.get? (p.origin cwd) = some .directory := by
  obtain ⟨base, r, -, -, hbase⟩ := h
  exact hbase _ Location.mem_visited_self

/-- Names that begin others go on from the same place, or do not go beyond it. -/
theorem exists_ground {base r ns : List Name} (hns : ns <+: base ++ r) (hr : ∀ n ∈ r, n.Proper) :
    ∃ base' r', ns = base' ++ r' ∧ (∀ n ∈ r', n.Proper) ∧ base' <+: base := by
  rcases List.prefix_or_prefix_of_prefix hns (List.prefix_append base r) with h | ⟨r', rfl⟩
  · exact ⟨ns, [], by simp, by simp, h⟩
  · exact ⟨base, r', rfl, fun n hn => hr n (((List.prefix_append_right_inj base).1 hns).subset hn),
      List.prefix_rfl⟩

theorem Grounded.parent (h : d.Grounded cwd p) (hq : q.IsParent p) : d.Grounded cwd q := by
  obtain ⟨base, r, hnames, hr, hbase⟩ := h
  obtain ⟨dots, last, dots', heq, -⟩ := hq.names
  have hprefix : q.names <+: p.names := heq ▸ List.prefix_append _ _
  obtain ⟨base', r', heq', hr', hbase'⟩ := exists_ground (hnames ▸ hprefix) hr
  refine ⟨base', r', heq', hr', fun m hm => hbase m (Location.visited_subset hbase' ?_)⟩
  rwa [Path.origin, ← hq.start]

/-- What it takes to make a path a directory: it has an address and a ground, and no file is in the way. -/
structure Approach (d : Disk) (cwd : Location) (p : Path) : Prop where
  address : p.text ≠ [] → Addresses p p.names
  passable : d.Passable (p.way cwd)
  ground : d.Grounded cwd p

theorem Approach.apply {c : Change} (h : d.Approach cwd p) (hc : d.Opens ways c) :
    (d.apply c).Approach cwd p := by
  obtain ⟨base, r, hnames, hr, hbase⟩ := h.ground
  exact ⟨h.address, hc.passable h.passable, base, r, hnames, hr,
    fun m hm => hc.get?_apply_of_some (hbase m hm)⟩

/-- The holder of a path can be made a directory if no file is in the way to the last name. -/
theorem approach_parent (hq : q.IsParent p) (haddr : p.text ≠ [] → Addresses p p.names)
    (hpass : d.Passable ((p.origin cwd).passed p.names)) (hground : d.Grounded cwd p) :
    d.Approach cwd q := by
  refine ⟨fun hne => (haddr fun hp => hne ?_).parent hq hne, hpass.mono hq.way_subset_passed,
    hground.parent hq⟩
  exact List.prefix_nil.1 (hp ▸ hq.text)

theorem Approach.parent (h : d.Approach cwd p) (hq : q.IsParent p) : d.Approach cwd q :=
  approach_parent hq h.address (h.passable.mono (List.subset_append_left _ _)) h.ground

theorem Approach.directory (h : d.Approach cwd p)
    (hmade : p.text ≠ [] → ∀ m ∈ p.way cwd, d.get? m = some .directory) :
    ∀ m ∈ p.way cwd, d.get? m = some .directory := by
  by_cases hempty : p.text = []
  · have hnames : p.names = [] := by rw [Path.names, hempty]; rfl
    intro m hm
    obtain rfl : m = p.origin cwd := by simpa [Path.way, hnames, Location.visited, Location.passed] using hm
    exact h.ground.origin
  · exact hmade hempty

/-- When the holder of a path was made a directory, the path leads to its place. -/
theorem Approach.leads (h : d.Approach cwd q) (hq : q.IsParent p) (haddr : Addresses p p.names)
    (hends : p.endsAsDirectory = false)
    (hmade : q.text ≠ [] → ∀ m ∈ q.way cwd, d.get? m = some .directory) : d.Leads cwd p := by
  obtain ⟨hsteps, n, hn, hlast⟩ := names_of_endsAsDirectory hends
  refine ⟨haddr, fun m hm => h.directory hmade m ?_⟩
  rw [hsteps, passed_of_getLast? hlast] at hm
  exact hq.visited_dropLast hlast hn.2.2.1 hm

theorem Approach.exists_parent {m : Location} (h : d.Approach cwd p)
    (hm : m ∈ (p.origin cwd).visited p.names.dropLast) (hne : d.get? m ≠ some .directory) :
    ∃ q n, p.parent? = some q ∧ p.names.getLast? = some n ∧ n.Proper := by
  obtain ⟨base, r, hnames, hr, hbase⟩ := h.ground
  rcases List.eq_nil_or_concat r with rfl | ⟨before, n, rfl⟩
  · rw [List.append_nil] at hnames
    exact absurd (hbase m (Location.visited_subset (List.dropLast_prefix _) (hnames ▸ hm))) hne
  have hn : n.Proper := hr n (by simp)
  have hlast : p.names.getLast? = some n := by
    rw [hnames, List.concat_eq_append, ← List.append_assoc, List.getLast?_concat]
  obtain ⟨q, hparent⟩ := Path.exists_parent hlast hn.2.2.1
  exact ⟨q, n, hparent, hlast, hn⟩

end Disk

namespace Work

open Disk

variable {w : Workspace} {p : Path} {ways : List Location}

theorem succeeds_accept {e : FileError} (h : w.disk.isDirectory w.cwd p) :
    (makeDirectoriesOf.accept p e).Succeeds w := by
  refine ⟨(), w, ?_⟩
  rw [makeDirectoriesOf.accept, outcome_bind, outcome_ask]
  simp [h, outcome_pure]

theorem outcome_makeDirectory : (makeDirectory p).outcome w =
    match w.disk.newDirectory w.cwd p with
    | .ok l => (.ok (), w.after [.makeDirectory l])
    | .error e => (.error e, w) := by
  rw [makeDirectory, outcome_bind, outcome_inspect]
  cases w.disk.newDirectory w.cwd p <;> rfl

/-- A path on whose way to its last name all directories exist is made a directory, or is one. -/
theorem makeDirectory_succeeds {h : FileError → Work FileError Unit} (hd : w.disk.Plain)
    (haddr : Addresses p p.names) (hp : w.disk.Approach w.cwd p)
    (hway : ∀ m ∈ (p.origin w.cwd).visited p.names.dropLast, w.disk.get? m = some .directory)
    (hh : w.disk.isDirectory w.cwd p → (h .alreadyExists).Succeeds w) :
    (tryCatch (makeDirectory p) h).Succeeds w := by
  rcases hd.newDirectory_of_passable haddr hp.passable hp.ground.origin with
    ⟨l, hl⟩ | ⟨he, hdir⟩ | ⟨-, m, hm, hne⟩
  · exact ⟨(), _, by rw [outcome_tryCatch, outcome_makeDirectory, hl]⟩
  · exact succeeds_tryCatch (by rw [outcome_makeDirectory, he]) (hh hdir)
  · exact absurd (hway m hm) hne

/-- A path can be made a directory with its ancestors, of which enough have to be tried. -/
theorem makeDirectoriesOf_succeeds {count : Nat} (hd : w.disk.Plain) (hcount : p.text.length ≤ count)
    (hp : w.disk.Approach w.cwd p) : (makeDirectoriesOf (p.ancestorsWithin count)).Succeeds w := by
  induction count generalizing p w with
  | zero =>
    have hempty : p.text = [] := List.length_eq_zero_iff.1 (Nat.le_zero.1 hcount)
    rw [Path.ancestorsWithin, makeDirectoriesOf, if_pos (by simp [hempty])]
    exact succeeds_pure _
  | succ count ih =>
    rw [Path.ancestorsWithin, makeDirectoriesOf]
    split_ifs with hempty
    · exact succeeds_pure _
    have haddr := hp.address (by simpa using hempty)
    rcases hd.newDirectory_of_passable haddr hp.passable hp.ground.origin with
      ⟨l, hl⟩ | ⟨he, hdir⟩ | ⟨he, m, hm, hne⟩
    · exact ⟨(), _, by rw [outcome_tryCatch, outcome_makeDirectory, hl]⟩
    · refine succeeds_tryCatch (by rw [outcome_makeDirectory, he]) ?_
      rw [if_neg (by decide)]
      exact succeeds_accept hdir
    refine succeeds_tryCatch (by rw [outcome_makeDirectory, he]) ?_
    rw [if_pos rfl]
    obtain ⟨q, n, hparent, hlast, hn⟩ := hp.exists_parent hm hne
    have hq := Path.isParent_of_parent? hparent
    rw [hparent]
    have hshort : q.text.length ≤ count := Nat.le_of_lt_succ (lt_of_lt_of_le hq.shorter hcount)
    refine succeeds_bind (ih hd hshort (hp.parent hq)) fun _ w' hout => ?_
    have hways : ∀ q' ∈ q.ancestorsWithin count, q'.way w.cwd ⊆ q.way w.cwd :=
      fun q' hq' => Path.way_of_mem_ancestorsWithin hq'
    obtain ⟨cs, hw, hcs, hmade⟩ := makeDirectoriesOf_does hd hways
    rw [hout] at hw hmade
    obtain rfl : w' = w.after cs := hw
    have hp' : (w.disk.after cs).Approach w.cwd p :=
      hcs.keeps (I := fun d => d.Approach w.cwd p) hp fun _ _ hd hc => hd.apply hc
    refine makeDirectory_succeeds (plain_after_opens hd hcs) haddr hp' (fun m hm => ?_) succeeds_accept
    refine (hp'.parent hq).directory (fun hne => (hmade () rfl q ?_ hne).2) m
      (hq.visited_dropLast hlast hn.2.2.1 hm)
    cases count <;> rfl

theorem makeDirectories_succeeds (hd : w.disk.Plain) (hp : w.disk.Approach w.cwd p) :
    (makeDirectories p).Succeeds w :=
  makeDirectoriesOf_succeeds hd le_rfl hp

/-- A text can be written to a path if no file is in the way to it and no directory is at its place, and
the directories on the way can be made. -/
theorem placeText_succeeds {s : Text} (hd : w.disk.Plain) (haddr : Addresses p p.names)
    (hends : p.endsAsDirectory = false) (hpass : w.disk.Passable ((p.origin w.cwd).passed p.names))
    (hground : w.disk.Grounded w.cwd p) (hplace : p.place w.cwd ∉ (p.origin w.cwd).passed p.names)
    (hfree : w.disk.get? (p.place w.cwd) ≠ some .directory) :
    (MigrationWork.makeHolder p >>= fun _ => MigrationWork.reportedAt p (writeText p s)).Succeeds w := by
  obtain ⟨-, n, hn, hlast⟩ := names_of_endsAsDirectory hends
  obtain ⟨q, hparent⟩ := Path.exists_parent hlast hn.2.2.1
  have hq := Path.isParent_of_parent? hparent
  have happroach := approach_parent hq (fun _ => haddr) hpass hground
  rw [MigrationWork.makeHolder, hparent]
  refine succeeds_bind (succeeds_reportedAt (makeDirectories_succeeds hd happroach)) fun _ w' hout => ?_
  obtain ⟨cs, hw, hcs, hmade⟩ := makeDirectories_does (p := q) hd
  rw [outcome_reportedAt_eq_ok.1 hout] at hw hmade
  obtain rfl : w' = w.after cs := hw
  have happroach' : (w.disk.after cs).Approach w.cwd q :=
    hcs.keeps (I := fun d => d.Approach w.cwd q) happroach fun _ _ hd hc => hd.apply hc
  have hleads := happroach'.leads hq haddr hends fun hne => (hmade () rfl hne).2
  have hfree' : (w.disk.after cs).get? (p.place w.cwd) ≠ some .directory := by
    rwa [get?_after_opens hcs fun hmem => hplace (hq.way_subset_passed hmem)]
  have hwritable := (plain_after_opens hd hcs).writableFile_eq_ok.2 ⟨hends, hleads, rfl, hfree'⟩
  refine succeeds_reportedAt (succeeds_bind ⟨_, _, outcome_inspect_eq_ok.2 ⟨hwritable, rfl⟩⟩ fun _ _ _ => ?_)
  exact ⟨(), _, rfl⟩

end Work

end DocsMigration
