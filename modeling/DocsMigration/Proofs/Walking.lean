import DocsMigration.Proofs.Trees
/-! Finding what a path means in a tree. Without links a walk reaches the place that can be read off the
path, and it gets there exactly if it may leave every place on the way, which has to be a directory. So
what a path means depends on the entries on its way and on nothing else. -/

namespace DocsMigration

section Results

variable {ε ε' α β : Type}

theorem bind_eq_ok {x : Except ε α} {f : α → Except ε β} {b : β} :
    x >>= f = .ok b ↔ ∃ a, x = .ok a ∧ f a = .ok b := by
  cases x <;> simp [bind, Except.bind]

theorem mapError_eq_ok {x : Except ε α} {f : ε → ε'} {a : α} : x.mapError f = .ok a ↔ x = .ok a := by
  cases x <;> simp [Except.mapError]

theorem bind_eq_error {x : Except ε α} {f : α → Except ε β} {e : ε} :
    x >>= f = .error e ↔ x = .error e ∨ ∃ a, x = .ok a ∧ f a = .error e := by
  cases x <;> simp [bind, Except.bind]

theorem mapError_eq_error {x : Except ε α} {f : ε → ε'} {e' : ε'} :
    x.mapError f = .error e' ↔ ∃ e, x = .error e ∧ f e = e' := by
  cases x <;> simp [Except.mapError]

end Results

namespace Disk

variable {d d' : Disk} {here l : Location} {ns : List Name} {followLast : Bool}
  {follow follow' : Location → List Name → Except FileError Location} {cwd : Location} {p : Path}
  {e : Entry} {c : Content}

theorem Plain.walk_cons (h : d.Plain) {n : Name} (hdir : d.get? here = some .directory) :
    d.walk followLast follow here (n :: ns) =
      if nameLimit < Text.utf8Size n then .error .nameTooLong
      else d.walk followLast follow (here.step n) ns := by
  rw [walk]
  simp only [hdir]
  by_cases hcur : n = Path.currentName
  · have hsize : ¬ nameLimit < Text.utf8Size Path.currentName := by decide
    rw [if_pos hcur, hcur, if_neg hsize, Location.step, if_pos rfl]
  by_cases hpar : n = Path.parentName
  · have hsize : ¬ nameLimit < Text.utf8Size Path.parentName := by decide
    have hne : Path.parentName ≠ Path.currentName := by decide
    rw [if_neg hcur, if_pos hpar, hpar, if_neg hsize, Location.step, if_neg hne, if_pos rfl]
  rw [if_neg hcur, if_neg hpar, Location.step, if_neg hcur, if_neg hpar]
  split
  · rfl
  · split
    · exact absurd ‹_› (h.linkless _ _)
    · rfl

theorem walk_cons_of_ne {n : Name} (hdir : d.get? here ≠ some .directory) :
    d.walk followLast follow here (n :: ns) =
      .error (if d.get? here = none then .notFound else .notDirectory) := by
  rw [walk]
  cases hhere : d.get? here with
  | none => rfl
  | some e =>
    cases e with
    | directory => exact absurd hhere hdir
    | file | link => rfl

/-- A walk gets to its end exactly if it passes directories only, and no name is too long. -/
theorem Plain.walk_eq_ok (h : d.Plain) : d.walk followLast follow here ns = .ok l ↔
    (∀ n ∈ ns, Text.utf8Size n ≤ nameLimit) ∧ (∀ m ∈ here.passed ns, d.get? m = some .directory) ∧
      l = here.along ns := by
  induction ns generalizing here with
  | nil => simp [walk, Location.passed, eq_comm]
  | cons n ns ih =>
    by_cases hdir : d.get? here = some .directory
    · rw [h.walk_cons hdir]
      split_ifs with hsize
      · simp [Nat.not_le.2 hsize]
      · rw [ih]
        simp [Location.passed, hdir, Nat.le_of_not_lt hsize]
    · rw [walk_cons_of_ne hdir]
      simp [Location.passed, hdir]

theorem Plain.walk_congr (h : d.Plain) (h' : d'.Plain)
    (heq : ∀ m ∈ here.passed ns, d.get? m = d'.get? m) :
    d.walk followLast follow here ns = d'.walk followLast follow' here ns := by
  induction ns generalizing here with
  | nil => rfl
  | cons n ns ih =>
    obtain ⟨hhere, hrest⟩ := List.forall_mem_cons.1 heq
    by_cases hdir : d.get? here = some .directory
    · rw [h.walk_cons hdir, h'.walk_cons (hhere ▸ hdir), ih hrest]
    · rw [walk_cons_of_ne hdir, walk_cons_of_ne (hhere ▸ hdir), hhere]

section Paths

/-- Whether the system takes a path whose given names it is to follow. -/
def Addresses (p : Path) (ns : List Name) : Prop :=
  p.text ≠ [] ∧ '\x00' ∉ p.text ∧ Text.utf8Size p.text < pathLimit ∧
    ∀ n ∈ ns, Text.utf8Size n ≤ nameLimit

theorem travel_eq (d : Disk) (followLast : Bool) (cwd : Location) (p : Path) (ns : List Name) :
    d.travel followLast cwd p ns =
      if p.text.isEmpty then .error .notFound
      else if p.text.any (· == '\x00') then .error .zeroByte
      else if pathLimit ≤ Text.utf8Size p.text then .error .nameTooLong
      else d.walk followLast (walkWithin d followLast linkLimit) (p.origin cwd) ns := rfl

theorem Plain.travel_eq_ok (h : d.Plain) : d.travel followLast cwd p ns = .ok l ↔
    Addresses p ns ∧ (∀ m ∈ (p.origin cwd).passed ns, d.get? m = some .directory) ∧
      l = (p.origin cwd).along ns := by
  rw [travel_eq, Addresses]
  split_ifs with hempty hzero hlong
  · simp_all
  · simp_all
  · simp [Nat.not_lt.2 hlong]
  · rw [h.walk_eq_ok]
    simp_all

theorem Plain.travel_congr (h : d.Plain) (h' : d'.Plain)
    (heq : ∀ m ∈ (p.origin cwd).passed ns, d.get? m = d'.get? m) :
    d.travel followLast cwd p ns = d'.travel followLast cwd p ns := by
  rw [travel_eq, travel_eq, h.walk_congr h' heq]

theorem stepsOf_cases (p : Path) : stepsOf p = p.names ∨ stepsOf p = p.names ++ [Path.currentName] := by
  unfold stepsOf
  split_ifs <;> simp

theorem along_stepsOf : (p.origin cwd).along (stepsOf p) = p.place cwd := by
  rcases stepsOf_cases p with h | h
  · rw [h, Path.place]
  · rw [h, Location.along_append, Path.place]
    rfl

theorem passed_subset_stepsOf : (p.origin cwd).passed p.names ⊆ (p.origin cwd).passed (stepsOf p) := by
  rcases stepsOf_cases p with h | h
  · rw [h]
    exact List.Subset.refl _
  · rw [h, Location.passed_append]
    exact List.subset_append_left _ _

theorem passed_stepsOf_subset : (p.origin cwd).passed (stepsOf p) ⊆ p.way cwd := by
  rcases stepsOf_cases p with h | h
  · rw [h, Path.way, Location.visited]
    exact List.subset_append_left _ _
  · rw [h, Location.passed_append]
    exact List.Subset.refl _

theorem addresses_stepsOf : Addresses p (stepsOf p) ↔ Addresses p p.names := by
  have hsize : Text.utf8Size Path.currentName ≤ nameLimit := by decide
  rcases stepsOf_cases p with h | h
  · rw [h]
  · simp [h, Addresses, or_imp, forall_and, hsize]

/-- Whether a path leads to its place: every place that it leaves on the way is a directory. -/
def Leads (d : Disk) (cwd : Location) (p : Path) : Prop :=
  Addresses p p.names ∧ ∀ m ∈ (p.origin cwd).passed (stepsOf p), d.get? m = some .directory

theorem Leads.passed (h : d.Leads cwd p) :
    ∀ m ∈ (p.origin cwd).passed p.names, d.get? m = some .directory :=
  fun m hm => h.2 m (passed_subset_stepsOf hm)

theorem leads_of_way (hp : Addresses p p.names) (h : ∀ m ∈ p.way cwd, d.get? m = some .directory) :
    d.Leads cwd p :=
  ⟨hp, fun m hm => h m (passed_stepsOf_subset hm)⟩

theorem Plain.locate_eq_ok (h : d.Plain) :
    d.locate followLast cwd p = .ok l ↔ d.Leads cwd p ∧ l = p.place cwd := by
  rw [locate, h.travel_eq_ok, addresses_stepsOf, along_stepsOf, Leads, and_assoc]

theorem Plain.not_leads_of_locate (h : d.Plain) {e : FileError} (hl : d.locate followLast cwd p = .error e) :
    ¬ d.Leads cwd p := by
  intro hp
  simp [h.locate_eq_ok.2 ⟨hp, rfl⟩] at hl

theorem Plain.find_eq_ok (h : d.Plain) : d.find cwd p = .ok (l, e) ↔
    d.Leads cwd p ∧ l = p.place cwd ∧ d.get? (p.place cwd) = some e := by
  unfold find
  cases hl : d.locate true cwd p with
  | error => simp [h.not_leads_of_locate hl, bind, Except.bind]
  | ok l' =>
    obtain ⟨hp, rfl⟩ := h.locate_eq_ok.1 hl
    simp only [bind, Except.bind]
    cases he : d.get? (p.place cwd) <;> simp [hp, eq_comm]

theorem Plain.not_found_of_find (h : d.Plain) {failure : FileError} (hf : d.find cwd p = .error failure) :
    ¬ (d.Leads cwd p ∧ d.get? (p.place cwd) = some e) := by
  intro hp
  simp [h.find_eq_ok.2 ⟨hp.1, rfl, hp.2⟩] at hf

theorem Plain.find_congr (h : d.Plain) (h' : d'.Plain) (heq : ∀ m ∈ p.way cwd, d.get? m = d'.get? m) :
    d.find cwd p = d'.find cwd p := by
  have hlocate : d.locate true cwd p = d'.locate true cwd p :=
    h.travel_congr h' fun m hm => heq m (passed_stepsOf_subset hm)
  unfold find
  rw [hlocate]
  cases hl : d'.locate true cwd p with
  | error => rfl
  | ok l =>
    obtain ⟨-, rfl⟩ := h'.locate_eq_ok.1 hl
    simp only [bind, Except.bind]
    rw [heq (p.place cwd) Location.along_mem_visited]

theorem Plain.entry?_eq_some (h : d.Plain) :
    d.entry? cwd p = some e ↔ d.Leads cwd p ∧ d.get? (p.place cwd) = some e := by
  have hfind : d.entry? cwd p = some e ↔ ∃ l, d.find cwd p = .ok (l, e) := by
    unfold entry?
    split <;> simp_all
  simp only [hfind, h.find_eq_ok]
  simp

theorem Plain.pathExists_iff (h : d.Plain) :
    d.pathExists cwd p ↔ d.Leads cwd p ∧ d.get? (p.place cwd) ≠ none := by
  simp only [pathExists, Option.isSome_iff_exists, h.entry?_eq_some, exists_and_left,
    Option.ne_none_iff_exists']

theorem Plain.entry?_congr (h : d.Plain) (h' : d'.Plain)
    (heq : ∀ m ∈ p.way cwd, d.get? m = d'.get? m) : d.entry? cwd p = d'.entry? cwd p := by
  rw [ entry?, entry?, h.find_congr h' heq]

theorem pathExists_of_isDirectory (h : d.isDirectory cwd p) : d.pathExists cwd p := by
  simp [pathExists, beq_iff_eq.1 h]

theorem isFile_iff : d.isFile cwd p ↔ ∃ c, d.entry? cwd p = some (.file c) := by
  unfold isFile
  split <;> simp_all

theorem pathExists_of_isFile (h : d.isFile cwd p) : d.pathExists cwd p := by
  obtain ⟨c, hc⟩ := isFile_iff.1 h
  simp [pathExists, hc]

/-- A path that means a directory has directories all along its way. -/
theorem Plain.isDirectory_iff (h : d.Plain) : d.isDirectory cwd p ↔
    Addresses p p.names ∧ ∀ m ∈ p.way cwd, d.get? m = some .directory := by
  rw [isDirectory, beq_iff_eq, h.entry?_eq_some]
  constructor
  · rintro ⟨hp, hplace⟩
    refine ⟨hp.1, fun m hm => ?_⟩
    rcases List.mem_append.1 hm with hm | hm
    · exact hp.passed m hm
    · exact List.mem_singleton.1 hm ▸ hplace
  · rintro ⟨hp, hway⟩
    exact ⟨leads_of_way hp hway, hway _ Location.along_mem_visited⟩

theorem Plain.readDirectory_eq_ok (h : d.Plain) {entries : List (Name × Entry)} :
    d.readDirectory cwd p = .ok entries ↔
      d.isDirectory cwd p ∧ entries = d.children (p.place cwd) := by
  rw [isDirectory, beq_iff_eq, h.entry?_eq_some]
  unfold readDirectory
  cases hf : d.find cwd p with
  | error =>
    simp only [bind, Except.bind, reduceCtorEq, false_iff]
    exact fun hp => h.not_found_of_find hf hp.1
  | ok found =>
    obtain ⟨l, e⟩ := found
    obtain ⟨hp, rfl, he⟩ := h.find_eq_ok.1 hf
    cases e <;> simp [bind, Except.bind, hp, he, eq_comm]

theorem Plain.readText_eq_ok (h : d.Plain) {s : Text} : d.readText cwd p = .ok s ↔
    d.Leads cwd p ∧ d.get? (p.place cwd) = some (.file (.text s)) := by
  unfold readText readFile
  cases hf : d.find cwd p with
  | error => simp [bind, Except.bind, h.not_found_of_find hf]
  | ok found =>
    obtain ⟨l, e⟩ := found
    obtain ⟨hp, rfl, he⟩ := h.find_eq_ok.1 hf
    cases e with
    | file c => cases c <;> simp [bind, Except.bind, hp, he]
    | link | directory => simp [bind, Except.bind, he]

end Paths

section Targets

theorem Plain.findHolder_eq_ok (h : d.Plain) : d.findHolder cwd p = .ok l ↔
    Addresses p p.names.dropLast ∧
      (∀ m ∈ (p.origin cwd).visited p.names.dropLast, d.get? m = some .directory) ∧
        l = (p.origin cwd).along p.names.dropLast := by
  unfold findHolder
  cases ht : d.travel true cwd p p.names.dropLast with
  | error =>
    have hno : ¬ (Addresses p p.names.dropLast ∧
        ∀ m ∈ (p.origin cwd).visited p.names.dropLast, d.get? m = some .directory) :=
      fun hp => by
        have hok : d.travel true cwd p p.names.dropLast = .ok _ := h.travel_eq_ok.2
          ⟨hp.1, fun m hm => hp.2 m (List.mem_append_left _ hm), rfl⟩
        simp [hok] at ht
    simp only [bind, Except.bind, reduceCtorEq, false_iff]
    exact fun hp => hno ⟨hp.1, hp.2.1⟩
  | ok l' =>
    obtain ⟨hp, hdirs, rfl⟩ := h.travel_eq_ok.1 ht
    have hvisited : (∀ m ∈ (p.origin cwd).visited p.names.dropLast, d.get? m = some .directory) ↔
        d.get? ((p.origin cwd).along p.names.dropLast) = some .directory :=
      ⟨fun hall => hall _ Location.along_mem_visited, fun hend m hm =>
        (List.mem_append.1 hm).elim (hdirs m) fun hm => List.mem_singleton.1 hm ▸ hend⟩
    rw [hvisited]
    simp only [bind, Except.bind]
    cases hend : d.get? ((p.origin cwd).along p.names.dropLast) with
    | none => simp
    | some e => cases e <;> simp [hp, eq_comm]

theorem names_of_getLast? {n : Name} (hlast : p.names.getLast? = some n) :
    p.names = p.names.dropLast ++ [n] := by
  obtain ⟨before, hnames⟩ := List.getLast?_eq_some_iff.1 hlast
  rw [hnames, List.dropLast_concat]

theorem passed_of_getLast? {n : Name} (hlast : p.names.getLast? = some n) :
    (p.origin cwd).passed p.names = (p.origin cwd).visited p.names.dropLast := by
  rw [names_of_getLast? hlast, Location.passed_append, List.dropLast_concat]
  rfl

theorem place_of_getLast? {n : Name} (hlast : p.names.getLast? = some n) :
    p.place cwd = ((p.origin cwd).along p.names.dropLast).step n := by
  rw [Path.place]
  nth_rewrite 1 [names_of_getLast? hlast]
  rw [Location.along_append]
  rfl

theorem proper_of_getLast? {n : Name} (hlast : p.names.getLast? = some n)
    (hcur : n ≠ Path.currentName) (hpar : n ≠ Path.parentName) : n.Proper := by
  obtain ⟨hne, hslash⟩ := Path.mem_names (List.mem_of_getLast? hlast)
  exact ⟨hne, hslash, hcur, hpar⟩

theorem Addresses.of_getLast? {n : Name} (hp : Addresses p p.names.dropLast)
    (hlast : p.names.getLast? = some n) (hn : Text.utf8Size n ≤ nameLimit) : Addresses p p.names := by
  refine ⟨hp.1, hp.2.1, hp.2.2.1, fun m hm => ?_⟩
  rw [names_of_getLast? hlast, List.mem_append, List.mem_singleton] at hm
  rcases hm with hm | rfl
  · exact hp.2.2.2 m hm
  · exact hn

theorem Plain.newDirectory_eq_ok (h : d.Plain) (hn : d.newDirectory cwd p = .ok l) :
    l = p.place cwd ∧ d.Fits (.makeDirectory l) ∧ d.get? l = none ∧ Addresses p p.names ∧
      ∀ m ∈ (p.origin cwd).passed p.names, d.get? m = some .directory := by
  unfold newDirectory at hn
  split at hn
  · split_ifs at hn
  · rename_i n hlast
    cases hh : d.findHolder cwd p with
    | error => simp [hh, bind, Except.bind] at hn
    | ok holder =>
      obtain ⟨hp, hdirs, rfl⟩ := h.findHolder_eq_ok.1 hh
      simp only [hh, bind, Except.bind] at hn
      split_ifs at hn with hdots hsize hsome
      rw [not_or] at hdots
      have hproper := proper_of_getLast? hlast hdots.1 hdots.2
      have hnone : d.get? ((p.origin cwd).along p.names.dropLast ++ [n]) = none := by
        simpa using hsome
      obtain rfl : _ = l := by simpa using hn
      rw [place_of_getLast? hlast, Location.step_proper hproper, passed_of_getLast? hlast]
      exact ⟨rfl, .makeDirectory hproper (hdirs _ Location.along_mem_visited) hnone, hnone,
        hp.of_getLast? hlast (Nat.le_of_not_lt hsize), hdirs⟩

theorem Plain.writableFile_eq_ok (h : d.Plain) : d.writableFile cwd p = .ok l ↔
    p.endsAsDirectory = false ∧ d.Leads cwd p ∧ l = p.place cwd ∧
      d.get? (p.place cwd) ≠ some .directory := by
  unfold writableFile
  split_ifs with hends
  · cases hh : d.findHolder cwd p <;> simp [hends, bind, Except.bind]
  · cases hl : d.locate true cwd p with
    | error => simp [h.not_leads_of_locate hl, bind, Except.bind]
    | ok l' =>
      obtain ⟨hp, rfl⟩ := h.locate_eq_ok.1 hl
      by_cases hdir : d.isDirectoryAt (p.place cwd) = true
      · have hdirectory : d.get? (p.place cwd) = some .directory := by
          simpa [isDirectoryAt] using hdir
        simp [bind, Except.bind, hdir, hdirectory]
      · have hdirectory : d.get? (p.place cwd) ≠ some .directory := by
          simpa [isDirectoryAt] using hdir
        simp [bind, Except.bind, hdir, hp, hends, hdirectory, eq_comm]

theorem names_of_endsAsDirectory (hp : p.endsAsDirectory = false) :
    stepsOf p = p.names ∧ ∃ n, n.Proper ∧ p.names.getLast? = some n := by
  cases hlast : p.names.getLast? with
  | none => simp [Path.endsAsDirectory, hlast] at hp
  | some n =>
    simp only [Path.endsAsDirectory, hlast, Bool.or_eq_false_iff, beq_eq_false_iff_ne] at hp
    exact ⟨by simp [stepsOf, hp.1.1], n, proper_of_getLast? hlast hp.1.2 hp.2, rfl⟩

theorem Leads.fits_write (h : d.Leads cwd p) (hends : p.endsAsDirectory = false)
    (hdir : d.get? (p.place cwd) ≠ some .directory) : d.Fits (.write (p.place cwd) c) := by
  obtain ⟨-, n, hproper, hlast⟩ := names_of_endsAsDirectory hends
  have hholder : d.get? ((p.origin cwd).along p.names.dropLast) = some .directory :=
    h.passed _ (passed_of_getLast? hlast ▸ Location.along_mem_visited)
  rw [place_of_getLast? hlast, Location.step_proper hproper] at hdir ⊢
  exact .write hproper hholder hdir

end Targets

end Disk

end DocsMigration
