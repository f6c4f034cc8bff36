import DocsMigration.Proofs.ApartSource
/-! What copying leaves. A directory that was copied is found again at its target, with every directory and
file in it, whatever was there before; the rest of the disk is as it was, but for directories on the way to
the target. The number that is reported is that of the files in the source: it is counted to a depth that is
enough for a copy to succeed, and counting deeper comes to the same. -/

namespace DocsMigration

open Disk Work

theorem Location.Apart.not_below {S T r : Location} (h : S.Apart T) : ¬ T <+: S ++ r :=
  (Apart.below ⟨h.2, h.1⟩ (List.prefix_append S r)).1

namespace Disk

variable {d : Disk} {l : Location} {depth : Nat}

def filesUnder (inner : Name → List Location) (x : Name × Entry) : List Location :=
  match x.2 with
  | .directory => (inner x.1).map (x.1 :: ·)
  | .file _ => [[x.1]]
  | .link _ => []

def filesBelow (d : Disk) : Nat → Location → List Location
  | 0, _ => []
  | depth + 1, l => (d.children l).flatMap (filesUnder fun n => filesBelow d depth (l ++ [n]))

def HasFiles (d : Disk) (l : Location) (count : Nat) : Prop := ∃ rs : List Location, rs.Nodup ∧
  (∀ r, r ∈ rs ↔ ∃ c, d.get? (l ++ r) = some (.file c)) ∧ rs.length = count

theorem length_filesBelow : (d.filesBelow depth l).length = d.filesWithin depth l := by
  induction depth generalizing l with
  | zero => rfl
  | succ depth ih =>
    rw [filesBelow, filesWithin, List.length_flatMap]
    congr 2
    funext x
    obtain ⟨n, e⟩ := x
    cases e <;> simp [filesUnder, filesOf, ih]

theorem exists_of_mem_filesUnder {inner : Name → List Location} {x : Name × Entry} {r : Location}
    (h : r ∈ filesUnder inner x) : ∃ r', r = x.1 :: r' := by
  obtain ⟨n, e⟩ := x
  cases e with
  | directory =>
    obtain ⟨r', -, rfl⟩ := List.mem_map.1 h
    exact ⟨r', rfl⟩
  | file c => exact ⟨[], List.mem_singleton.1 h⟩
  | link t => exact absurd h List.not_mem_nil

theorem Plain.nodup_filesBelow (hd : d.Plain) : (d.filesBelow depth l).Nodup := by
  induction depth generalizing l with
  | zero => exact List.nodup_nil
  | succ depth ih =>
    refine List.nodup_flatMap.2 ⟨fun x hx => ?_, ?_⟩
    · obtain ⟨n, e⟩ := x
      cases e with
      | directory => exact ih.map fun r r' h => (List.cons.inj h).2
      | file c => exact List.nodup_singleton _
      | link t => exact List.nodup_nil
    · refine (List.pairwise_map.1 (hd.nodup_children l)).imp fun {x y} hne r hx hy => ?_
      obtain ⟨r₁, rfl⟩ := exists_of_mem_filesUnder hx
      obtain ⟨r₂, hr⟩ := exists_of_mem_filesUnder hy
      exact hne (List.cons.inj hr).1

theorem Plain.mem_filesBelow (hd : d.Plain) (hl : d.get? l = some .directory)
    (hdeep : ∀ r, d.get? (l ++ r) ≠ none → r.length < depth) (r : Location) :
    r ∈ d.filesBelow depth l ↔ ∃ c, d.get? (l ++ r) = some (.file c) := by
  induction depth generalizing l r with
  | zero => exact absurd (hdeep [] (by simp [hl])) (by simp)
  | succ depth ih =>
    have hbelow {n : Name} (hn : d.get? (l ++ [n]) = some .directory) (r : Location) :
        r ∈ d.filesBelow depth (l ++ [n]) ↔ ∃ c, d.get? (l ++ [n] ++ r) = some (.file c) := by
      refine ih hn (fun r' hr' => ?_) r
      have := hdeep (n :: r') (by simpa using hr')
      rw [List.length_cons] at this
      omega
    rw [filesBelow, List.mem_flatMap]
    constructor
    · rintro ⟨⟨n, e⟩, hx, hr⟩
      have hn := hd.mem_children.1 hx
      cases e with
      | directory =>
        obtain ⟨r', hr', rfl⟩ := List.mem_map.1 hr
        simpa using (hbelow hn r').1 hr'
      | file c => exact ⟨c, by rwa [List.mem_singleton.1 hr]⟩
      | link t => exact absurd hr List.not_mem_nil
    · rintro ⟨c, hc⟩
      cases r with
      | nil => simp [hl] at hc
      | cons n r =>
        obtain ⟨e, he⟩ := Option.ne_none_iff_exists'.1 (hd.get?_child (by rw [hc]; simp))
        refine ⟨(n, e), hd.mem_children.2 he, ?_⟩
        cases e with
        | directory => exact List.mem_map.2 ⟨r, (hbelow he r).2 ⟨c, by simpa using hc⟩, rfl⟩
        | file c' =>
          have hnil : r = [] := hd.eq_nil_of_file he (by simp [hc])
          simp [filesUnder, hnil]
        | link t => exact absurd he (hd.linkless _ t)

theorem Plain.hasFiles (hd : d.Plain) (hl : d.get? l = some .directory)
    (hdeep : ∀ r, d.get? (l ++ r) ≠ none → r.length < depth) : d.HasFiles l (d.filesWithin depth l) :=
  ⟨d.filesBelow depth l, hd.nodup_filesBelow, hd.mem_filesBelow hl hdeep, length_filesBelow⟩

theorem HasFiles.congr {d' : Disk} {count : Nat} (h : d.HasFiles l count)
    (heq : ∀ r c, d'.get? (l ++ r) = some (.file c) ↔ d.get? (l ++ r) = some (.file c)) :
    d'.HasFiles l count := by
  obtain ⟨rs, hnodup, hmem, hlength⟩ := h
  exact ⟨rs, hnodup, fun r => by simp only [hmem, heq], hlength⟩

end Disk

namespace CopiedAsset

variable {inner inner' : Path → Path → MigrationWork Nat} {source target : Path} {w w' : Workspace}
  {count depth depth' : Nat}

/-- Whether work that succeeds is done in the same way by other work. -/
def Repeats (inner inner' : Path → Path → MigrationWork Nat) : Prop := ∀ source target w count w',
  (inner source target).outcome w = (.ok count, w') → (inner' source target).outcome w = (.ok count, w')

theorem Repeats.entry (h : Repeats inner inner') (x : Name × Entry)
    (hout : (copyEntry inner source target x).outcome w = (.ok count, w')) :
    (copyEntry inner' source target x).outcome w = (.ok count, w') := by
  obtain ⟨n, e⟩ := x
  cases e with
  | directory => exact h _ _ _ _ _ hout
  | file | link => exact hout

theorem Repeats.entries (h : Repeats inner inner') {entries : List (Name × Entry)}
    (hout : (copyEntries inner source target entries).outcome w = (.ok count, w')) :
    (copyEntries inner' source target entries).outcome w = (.ok count, w') := by
  induction entries generalizing w w' count with
  | nil => exact hout
  | cons x rest ih =>
    rw [copyEntries_cons] at hout ⊢
    obtain ⟨first, w₁, hfirst, hout⟩ := outcome_bind_eq_ok.1 hout
    obtain ⟨more, w₂, hmore, hout⟩ := outcome_bind_eq_ok.1 hout
    exact outcome_bind_eq_ok.2 ⟨first, w₁, h.entry x hfirst, outcome_bind_eq_ok.2 ⟨more, w₂, ih hmore, hout⟩⟩

theorem Repeats.contents (h : Repeats inner inner') :
    Repeats (copyContents inner) (copyContents inner') := by
  intro source target w count w' hout
  obtain ⟨entries, w₁, hread, hout⟩ := outcome_bind_eq_ok.1 hout
  exact outcome_bind_eq_ok.2 ⟨entries, w₁, hread, h.entries hout⟩

theorem repeats_copyTreeWithin (h : depth ≤ depth') :
    Repeats (copyTreeWithin depth) (copyTreeWithin depth') := by
  induction depth generalizing depth' with
  | zero =>
    intro source target w count w' hout
    exact absurd (Prod.mk.inj hout).1 (by simp)
  | succ depth ih =>
    cases depth' with
    | zero => exact absurd h (by omega)
    | succ depth' =>
      intro source target w count w' hout
      obtain ⟨u, w₁, hmade, hout⟩ := outcome_bind_eq_ok.1 hout
      exact outcome_bind_eq_ok.2 ⟨u, w₁, hmade, (ih (by omega)).contents _ _ _ _ _ hout⟩

section Trees

variable {d : Disk} {c : Change} {T S m : Location} {ways : List Location} {Seen : Location → Entry → Prop}

/-- A step of a copy is on the way, where something is missing, or at the place for an entry of the
source. -/
theorem location_cases (h : d.Copies Seen ways T c) :
    (c.location ∈ ways ∧ d.get? c.location = none) ∨ ∃ r e, Seen r e ∧ c.location = T ++ r := by
  cases h with
  | opens ho =>
    obtain ⟨-, hnone, l, hl, rfl⟩ := ho
    exact .inl ⟨hl, hnone⟩
  | @directory r ho hr =>
    obtain ⟨-, -, l, hl, rfl⟩ := ho
    exact .inr ⟨r, _, hr, List.mem_singleton.1 hl⟩
  | @file r shown _ hr hc =>
    obtain ⟨content, rfl⟩ := hc
    exact .inr ⟨r, _, hr, rfl⟩

theorem get?_after_opens {cs : List Change} {e : Entry} (hcs : d.Allows (Opens ways) cs)
    (hm : d.get? m = some e) : (d.after cs).get? m = some e :=
  hcs.keeps (I := fun d => d.get? m = some e) hm fun _ _ hd ho => ho.get?_apply_of_some hd

theorem missing_or_directory {cs : List Change} (hcs : d.Allows (Opens ways) cs)
    (hm : (d.after cs).get? m = some .directory) : d.get? m = none ∨ d.get? m = some .directory := by
  cases he : d.get? m with
  | none => exact .inl rfl
  | some e => exact .inr ((get?_after_opens hcs he).symm.trans hm)

theorem get?_after_copies {cs : List Change} (hcs : d.Allows (Copies Seen ways T) cs) (hm : m ∉ ways)
    (hno : ∀ r e, Seen r e → m ≠ T ++ r) : (d.after cs).get? m = d.get? m := by
  refine hcs.keeps (I := fun d' => d'.get? m = d.get? m) rfl fun d' c hd hc => ?_
  rw [get?_apply_of_ne, hd]
  rintro rfl
  rcases location_cases hc with ⟨hway, -⟩ | ⟨r, e, hr, hloc⟩
  · exact hm hway
  · exact hno r e hr hloc

theorem get?_after_opens_of_not_mem {cs : List Change} (hcs : d.Allows (Opens ways) cs) (hm : m ∉ ways) :
    (d.after cs).get? m = d.get? m := by
  have hcopies : d.Allows (Copies (fun _ _ => False) ways m) cs := hcs.mono fun _ _ ho => .opens ho
  exact get?_after_copies hcopies hm fun _ _ hseen => hseen.elim

/-- What copying a directory to a place leaves, told by what the source shows in the end. The disk was
`start` before, and `cleared` tells whether the place was cleared first. -/
structure TreeCopied (cwd : Location) (start done : Disk) (source target : Path) (cleared : Bool) : Prop where
  plain : done.Plain
  /-- The directories on the way are there. -/
  made : ∀ m ∈ target.way cwd, done.get? m = some .directory
  /-- They were there before, or nothing was. -/
  opened : ∀ m ∈ target.way cwd, ¬ (cleared ∧ target.place cwd <+: m) →
    start.get? m = none ∨ start.get? m = some .directory
  /-- Everything in the source is found again. -/
  copied : ∀ r e, done.get? (source.place cwd ++ r) = some e → done.get? (target.place cwd ++ r) = some e
  /-- All other places are as they were, or cleared. -/
  kept : ∀ m, m ∉ target.way cwd → (∀ r, m = target.place cwd ++ r → done.get? (source.place cwd ++ r) = none) →
    done.get? m = if cleared ∧ target.place cwd <+: m then none else start.get? m

theorem exists_makeDirectories (hd : w.disk.Plain)
    (hcwd : target.text = [] → w.disk.get? w.cwd = some .directory) {w₁ : Workspace}
    (hout : (MigrationWork.reportedAt target (makeDirectories target)).outcome w = (.ok (), w₁)) :
    ∃ cs, w₁ = w.after cs ∧ w.disk.Allows (Opens (target.way w.cwd)) cs ∧
      (∀ m ∈ target.way w.cwd, w₁.disk.get? m = some .directory) ∧
        (target.text ≠ [] → Addresses target target.names) := by
  obtain ⟨cs, hw, hcs, hdone⟩ := makeDirectories_does (p := target) hd
  rw [outcome_reportedAt_eq_ok.1 hout] at hw hdone
  obtain rfl : w₁ = w.after cs := hw
  by_cases htext : target.text = []
  · obtain ⟨s⟩ := target
    obtain rfl : s = [] := htext
    refine ⟨cs, rfl, hcs, fun m hm => ?_, fun hne => absurd rfl hne⟩
    obtain rfl : m = w.cwd := by
      simpa [Path.way, Path.names_nil, Location.visited, Location.passed, Path.origin, Path.isAbsolute] using hm
    exact get?_after_opens hcs (hcwd rfl)
  · obtain ⟨haddr, hway⟩ := hdone () rfl htext
    exact ⟨cs, rfl, hcs, hway, fun _ => haddr⟩

/-- What has to hold while the contents of a directory are copied: the directories on the way are there,
and the source shows what it showed at first. -/
structure Copying (cwd : Location) (src : Disk) (source target : Path) (d : Disk) : Prop where
  plain : d.Plain
  way : ∀ m ∈ target.way cwd, d.get? m = some .directory
  agrees : ∀ r, d.get? (source.place cwd ++ r) = src.get? (source.place cwd ++ r)

theorem Copying.apply {cwd : Location} {src : Disk} (h : Copying cwd src source target d)
    (hapart : (source.place cwd).Apart (target.place cwd))
    (hc : d.Copies Seen (target.way cwd) (target.place cwd) c) : Copying cwd src source target (d.apply c) := by
  refine ⟨h.plain.apply_fits hc.fits, fun m hm => hc.keeps_directory (h.way m hm), fun r => ?_⟩
  rcases location_cases hc with ⟨hway, hnone⟩ | ⟨r', -, -, hloc⟩
  · exact absurd ((h.way _ hway).symm.trans hnone) (by simp)
  · rw [get?_apply_of_ne, h.agrees]
    exact fun heq => hapart.not_below ((heq.trans hloc) ▸ List.prefix_append _ r')

/-- Copying what a directory holds into another one leaves a copy of what the source shows, and counts its
files. -/
theorem contents_copied (hd : w.disk.Plain) (hapart : (source.place w.cwd).Apart (target.place w.cwd))
    (hway : ∀ m ∈ target.way w.cwd, w.disk.get? m = some .directory)
    (hout : (copyContents (copyTreeWithin depth) source target).outcome w = (.ok count, w')) :
    w'.cwd = w.cwd ∧ w'.disk.HasFiles (source.place w.cwd) count ∧
      TreeCopied w.cwd w.disk w'.disk source target false := by
  -- the files are counted to any depth, so that none is missed
  replace hout := (repeats_copyTreeWithin (Nat.le_add_right depth w.disk.depth)).contents _ _ _ _ _ hout
  let I := Copying w.cwd w.disk source target
  have hplain : ∀ d, I d → d.Plain := fun d h => h.plain
  have hstart : I w.disk := ⟨hd, hway, fun r => rfl⟩
  have hstep {d : Disk} {c : Change} (h : I d)
      (hc : d.Copies (fun r e => w.disk.get? (source.place w.cwd ++ r) = some e) (target.way w.cwd)
        (target.place w.cwd) c) : I (d.apply c) := h.apply hapart hc
  have hcontents := copyContents_does (copiesTrees hplain (depth + w.disk.depth)) hplain hstart
    (fun _ _ => hstep) (fun d h r e hr => (h.agrees r).symm.trans hr) hway
  obtain ⟨cs, hw, hcs, hq⟩ := hcontents.with hstart fun _ _ => hstep
  rw [hout] at hw hq
  obtain rfl : w' = w.after cs := hw
  obtain ⟨hend, hmade, hsource, hfinished⟩ := hq count rfl
  have hne : source.place w.cwd ≠ target.place w.cwd := fun heq => hapart.1 (heq ▸ List.prefix_rfl)
  obtain ⟨hcount, hcopied⟩ := hfinished w.disk ⟨hd, fun d h r => h.agrees r, hne⟩
  have hdir : w.disk.get? (source.place w.cwd) = some .directory := by
    have hself := hend.agrees []
    rw [List.append_nil] at hself
    exact hself.symm.trans (hsource _ Location.along_mem_visited)
  have hfiles : w.disk.HasFiles (source.place w.cwd)
      (w.disk.filesWithin (depth + w.disk.depth + 1) (source.place w.cwd)) :=
    hd.hasFiles hdir fun r hr => by
      have hdepth := length_le_depth hr
      rw [List.length_append] at hdepth
      omega
  replace hfiles : (w.disk.after cs).HasFiles (source.place w.cwd) count :=
    hcount ▸ hfiles.congr fun r c => by rw [hend.agrees]
  refine ⟨rfl, hfiles, hend.plain, hmade, fun m hm _ => .inr (hway m hm),
    fun r e hr => hcopied r e ((hend.agrees r).symm.trans hr), fun m hm hno => ?_⟩
  have hkept : (w.disk.after cs).get? m = w.disk.get? m := by
    refine get?_after_copies (hcs.mono fun _ _ hc => hc.2) hm fun r e hr heq => ?_
    exact absurd ((hno r heq).symm.trans ((hend.agrees r).trans hr)) (by simp)
  simpa using hkept

theorem TreeCopied.of_opens {cwd : Location} {start done : Disk} {cs : List Change}
    (hcs : start.Allows (Opens (target.way cwd)) cs)
    (h : TreeCopied cwd (start.after cs) done source target false) :
    TreeCopied cwd start done source target false := by
  refine ⟨h.plain, h.made, fun m hm hno => ?_, h.copied, fun m hm hno => ?_⟩
  · rcases h.opened m hm hno with hnone | hdir
    · cases he : start.get? m with
      | none => exact .inl rfl
      | some e => exact absurd (hnone.symm.trans (get?_after_opens hcs he)) (by simp)
    · exact missing_or_directory hcs hdir
  · rw [h.kept m hm hno, get?_after_opens_of_not_mem hcs hm]

theorem TreeCopied.of_cleared {cwd : Location} {start cleared done : Disk}
    (h : TreeCopied cwd cleared done source target false)
    (hgone : ∀ m, target.place cwd <+: m → cleared.get? m = none)
    (hframe : ∀ m, ¬ target.place cwd <+: m → cleared.get? m = start.get? m) :
    TreeCopied cwd start done source target true := by
  refine ⟨h.plain, h.made, fun m hm hno => ?_, h.copied, fun m hm hno => ?_⟩
  · rw [← hframe m (by simpa using hno)]
    exact h.opened m hm (by simp)
  · rw [h.kept m hm hno]
    by_cases hbelow : target.place cwd <+: m
    · simp [hbelow, hgone m hbelow]
    · simp [hbelow, hframe m hbelow]

theorem tree_copied (hd : w.disk.Plain) (hapart : (source.place w.cwd).Apart (target.place w.cwd))
    (hcwd : target.text = [] → w.disk.get? w.cwd = some .directory)
    (hout : (copyTree source target).outcome w = (.ok count, w')) :
    w'.cwd = w.cwd ∧ w'.disk.HasFiles (source.place w.cwd) count ∧
      TreeCopied w.cwd w.disk w'.disk source target false ∧
        (target.text ≠ [] → Addresses target target.names) := by
  obtain ⟨limit, hlimit⟩ : ∃ limit, pathLimit = limit + 1 := ⟨4095, rfl⟩
  rw [copyTree, hlimit] at hout
  obtain ⟨_, w₁, hmade, hcontents⟩ := outcome_bind_eq_ok.1 hout
  obtain ⟨cs, rfl, hcs, hway, haddr⟩ := exists_makeDirectories hd hcwd hmade
  obtain ⟨hcwd', hfiles, hcopied⟩ := contents_copied (plain_after_opens hd hcs) hapart hway hcontents
  exact ⟨hcwd', hfiles, hcopied.of_opens hcs, haddr⟩

end Trees

section Files

variable {content : Content}

structure FileCopied (cwd : Location) (start done : Disk) (target : Path) (content : Content) : Prop where
  plain : done.Plain
  written : done.get? (target.place cwd) = some (.file content)
  /-- The directories on the way are there. -/
  made : ∀ m ∈ target.way cwd, m ≠ target.place cwd → done.get? m = some .directory
  /-- They were there before, or nothing was. -/
  opened : ∀ m ∈ target.way cwd, m ≠ target.place cwd →
    start.get? m = none ∨ start.get? m = some .directory
  kept : ∀ m, m ∉ target.way cwd → done.get? m = start.get? m

theorem location_mem_way {cwd : Location} {d : Disk} {c : Change} (h : d.Puts cwd target c) :
    c.location ∈ target.way cwd := by
  rcases h with ⟨-, -, l, hl, rfl⟩ | hwrite
  · exact hl
  · exact hwrite.location_eq ▸ Location.along_mem_visited

theorem get?_after_puts {cwd m : Location} {d : Disk} {cs : List Change} {e : Entry}
    (hcs : d.Allows (Puts cwd target) cs) (hne : m ≠ target.place cwd) (hm : d.get? m = some e) :
    (d.after cs).get? m = some e := by
  refine hcs.keeps (I := fun d => d.get? m = some e) hm fun d c hd hc => ?_
  rcases hc with hopens | hwrite
  · exact hopens.get?_apply_of_some hd
  · rw [get?_apply_of_ne (hwrite.location_eq ▸ hne), hd]

theorem file_copied (hd : w.disk.Plain) (hsource : w.disk.get? (source.place w.cwd) = some (.file content))
    (hne : source.place w.cwd ≠ target.place w.cwd)
    (hout : (copyFile source target).outcome w = (.ok (), w')) :
    w'.cwd = w.cwd ∧ FileCopied w.cwd w.disk w'.disk target content := by
  obtain ⟨cs, hw, hcs, hdone⟩ := copySingle_does source target hd
  rw [hout] at hw hdone
  obtain rfl : w' = w.after cs := hw
  obtain ⟨hleads, hwritten⟩ := hdone () rfl content hsource hne
  have hmade : ∀ m ∈ target.way w.cwd, m ≠ target.place w.cwd →
      (w.disk.after cs).get? m = some .directory := by
    intro m hm hplace
    rcases List.mem_append.1 hm with hm | hm
    · exact hleads.passed m hm
    · exact absurd (List.mem_singleton.1 hm) hplace
  refine ⟨rfl, hd.after_fits (fun _ _ h => h.fits) hcs, hwritten, hmade, fun m hm hplace => ?_,
    fun m hm => get?_after_of_ne ?_⟩
  · cases he : w.disk.get? m with
    | none => exact .inl rfl
    | some e => exact .inr ((get?_after_puts hcs hplace he).symm.trans (hmade m hm hplace))
  · rintro c hc rfl
    obtain ⟨before, behind, rfl⟩ := List.append_of_mem hc
    exact hm (location_mem_way (allows_append.1 hcs).2.1)

end Files

end CopiedAsset

end DocsMigration
