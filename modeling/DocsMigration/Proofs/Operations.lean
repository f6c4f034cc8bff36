import DocsMigration.Proofs.Steps
/-! What the single operations on files do to a tree. Making directories only adds directories that are
missing on the way of the path, writing and copying only change the place of the target, and removing
only takes away what lies at or below the place of the path; each of their steps fits. -/

namespace DocsMigration

namespace Disk

variable {d : Disk} {l m cwd : Location} {p : Path} {c : Change} {ways : List Location}

def Opens (ways : List Location) (d : Disk) (c : Change) : Prop :=
  d.Fits c ∧ d.get? c.location = none ∧ ∃ l ∈ ways, c = .makeDirectory l

def Overwrites (cwd : Location) (p : Path) (d : Disk) (c : Change) : Prop :=
  d.Leads cwd p ∧ p.endsAsDirectory = false ∧ d.get? (p.place cwd) ≠ some .directory ∧
    ∃ content, c = .write (p.place cwd) content

def Puts (cwd : Location) (p : Path) (d : Disk) (c : Change) : Prop :=
  d.Opens (p.way cwd) c ∨ d.Overwrites cwd p c

def Clears (l : Location) (d : Disk) (c : Change) : Prop :=
  d.Fits c ∧ ∃ m, l <+: m ∧ c = .remove m

theorem Opens.get?_apply_of_some {e : Entry} (h : d.Opens ways c) (he : d.get? m = some e) :
    (d.apply c).get? m = some e := by
  rw [get?_apply_of_ne, he]
  rintro rfl
  simp [h.2.1] at he

theorem Opens.get?_self (h : d.Opens ways c) : (d.apply c).get? c.location = some .directory := by
  obtain ⟨hfits, -, l, -, rfl⟩ := h
  exact get?_apply_self hfits.location_ne_nil

theorem Overwrites.fits (h : d.Overwrites cwd p c) : d.Fits c := by
  obtain ⟨hleads, hends, hdir, content, rfl⟩ := h
  exact hleads.fits_write hends hdir

theorem Overwrites.location_eq (h : d.Overwrites cwd p c) : c.location = p.place cwd := by
  obtain ⟨-, -, -, content, rfl⟩ := h
  rfl

theorem Overwrites.again (h : d.Overwrites cwd p c) (content : Content) :
    (d.apply c).Overwrites cwd p (.write (p.place cwd) content) := by
  have hfits := h.fits
  obtain ⟨hleads, hends, hdir, content', rfl⟩ := h
  have hne : p.place cwd ≠ [] := hfits.location_ne_nil
  refine ⟨⟨hleads.1, fun m hm => ?_⟩, hends, ?_, content, rfl⟩
  · have hm' := hleads.2 m hm
    rw [get?_apply_of_ne, hm']
    rintro rfl
    exact hdir hm'
  · rw [get?_write_self hne]
    simp

theorem Puts.fits (h : d.Puts cwd p c) : d.Fits c := h.elim (·.1) (·.fits)

theorem Puts.keeps_directory (h : d.Puts cwd p c) (hm : d.get? m = some .directory) :
    (d.apply c).get? m = some .directory := by
  rcases h with hopens | hwrite
  · exact hopens.get?_apply_of_some hm
  · refine hwrite.fits.keeps_directory (fun l => ?_) hm
    obtain ⟨-, -, -, content, rfl⟩ := hwrite
    simp

def Stands (d : Disk) (cwd : Location) (p : Path) (content : Content) : Prop :=
  d.Leads cwd p ∧ d.get? (p.place cwd) = some (.file content)

theorem Overwrites.stands {d' : Disk} {content : Content} (h : d.Overwrites cwd p c)
    (hplace : d'.get? (p.place cwd) = some (.file content))
    (hframe : ∀ m, m ≠ p.place cwd → d'.get? m = d.get? m) : d'.Stands cwd p content := by
  obtain ⟨hleads, -, hdir, -⟩ := h
  refine ⟨⟨hleads.1, fun m hm => ?_⟩, hplace⟩
  rw [hframe m fun heq => hdir (heq ▸ hleads.2 m hm), hleads.2 m hm]

end Disk

namespace Work

open Disk

variable {w : Workspace} {p : Path} {ways : List Location}

theorem makeDirectory_does (hd : w.disk.Plain) (hp : p.way w.cwd ⊆ ways) :
    (makeDirectory p).Does (Opens ways)
      (fun _ d => Addresses p p.names ∧ ∀ m ∈ p.way w.cwd, d.get? m = some .directory) w := by
  refine does_inspect_bind fun l hl => ?_
  obtain ⟨rfl, hfits, hnone, haddr, hdirs⟩ := hd.newDirectory_eq_ok hl
  have hopens : w.disk.Opens ways (.makeDirectory (p.place w.cwd)) :=
    ⟨hfits, hnone, _, hp Location.along_mem_visited, rfl⟩
  refine does_perform hopens ⟨haddr, fun m hm => ?_⟩
  rcases List.mem_append.1 hm with hm | hm
  · exact hopens.get?_apply_of_some (hdirs m hm)
  · rw [List.mem_singleton.1 hm]
    exact hopens.get?_self

theorem accept_does (hd : w.disk.Plain) (e : FileError) :
    (makeDirectoriesOf.accept p e).Does (Opens ways)
      (fun _ d => Addresses p p.names ∧ ∀ m ∈ p.way w.cwd, d.get? m = some .directory) w := by
  refine does_ask_bind ?_
  split_ifs with h
  · exact does_pure (hd.isDirectory_iff.1 h)
  · exact does_throw e

theorem plain_after_opens {cs : List Change} (hd : w.disk.Plain) (hcs : w.disk.Allows (Opens ways) cs) :
    (w.after cs).disk.Plain :=
  hd.after_fits (fun _ _ h => h.1) hcs

theorem makeDirectoriesOf_does {ps : List Path} (hd : w.disk.Plain)
    (hps : ∀ p ∈ ps, p.way w.cwd ⊆ ways) :
    (makeDirectoriesOf ps).Does (Opens ways) (fun _ d => ∀ p ∈ ps.head?, p.text ≠ [] →
      Addresses p p.names ∧ ∀ m ∈ p.way w.cwd, d.get? m = some .directory) w := by
  induction ps generalizing w with
  | nil => exact does_pure (by simp)
  | cons p ps ih =>
    have hp := hps p (by simp)
    rw [makeDirectoriesOf]
    split_ifs with hempty
    · exact does_pure (by simp_all)
    have hhead {d : Disk}
        (h : Addresses p p.names ∧ ∀ m ∈ p.way w.cwd, d.get? m = some .directory) :
        ∀ q ∈ (p :: ps).head?, q.text ≠ [] →
          Addresses q q.names ∧ ∀ m ∈ q.way w.cwd, d.get? m = some .directory := by
      simpa using fun _ => h
    refine does_tryCatch ((makeDirectory_does hd hp).mono (fun _ _ => id) fun _ _ => hhead) ?_
    intro e cs _ hcs
    have hd' := plain_after_opens hd hcs
    split_ifs
    · refine does_bind (ih hd' fun q hq => hps q (List.mem_cons_of_mem p hq)) (fun _ _ => id)
        fun _ ds hds _ => ?_
      have hd'' := plain_after_opens hd' hds
      refine does_tryCatch ((makeDirectory_does hd'' hp).mono (fun _ _ => id) fun _ _ => hhead) ?_
      intro e' ds' _ hds'
      exact (accept_does (plain_after_opens hd'' hds') e').mono (fun _ _ => id) fun _ _ => hhead
    · exact (accept_does hd' e).mono (fun _ _ => id) fun _ _ => hhead

theorem makeDirectories_does (hd : w.disk.Plain) : (makeDirectories p).Does (Opens (p.way w.cwd))
    (fun _ d => p.text ≠ [] →
      Addresses p p.names ∧ ∀ m ∈ p.way w.cwd, d.get? m = some .directory) w := by
  refine (makeDirectoriesOf_does hd fun q hq => Path.way_of_mem_ancestorsWithin hq).mono
    (fun _ _ => id) fun _ d h => h p ?_
  cases p.text.length <;> simp [Path.ancestorsWithin]

section Files

variable {s : Text}

theorem writeText_does (hd : w.disk.Plain) :
    (writeText p s).Does (Overwrites w.cwd p) (fun _ d =>
      d.Stands w.cwd p (.text s) ∧ p.endsAsDirectory = false) w := by
  refine does_inspect_bind fun l hl => ?_
  obtain ⟨hends, hleads, rfl, hdir⟩ := hd.writableFile_eq_ok.1 hl
  have hfirst : w.disk.Overwrites w.cwd p (.write (p.place w.cwd) (.text [])) :=
    ⟨hleads, hends, hdir, _, rfl⟩
  refine does_perform_bind hfirst (does_perform (hfirst.again (.text s))
    ⟨hfirst.stands (get?_write_self hfirst.fits.location_ne_nil) fun m hm => ?_, hends⟩)
  rw [get?_apply_of_ne hm, Workspace.disk_after, after_cons, after_nil, get?_apply_of_ne hm]

/-- A file is copied as it is, unless it is copied onto itself. -/
theorem copyFile_does {source target : Path} (hd : w.disk.Plain) :
    (copyFile source target).Does (Overwrites w.cwd target) (fun _ d =>
      ∃ c, w.disk.get? (source.place w.cwd) = some (.file c) ∧
        (source.place w.cwd ≠ target.place w.cwd → d.Stands w.cwd target c)) w := by
  refine does_inspect_bind ?_
  rintro ⟨origin, e⟩ hfind
  obtain ⟨-, rfl, hsource⟩ := hd.find_eq_ok.1 hfind
  cases e with
  | link | directory => exact does_throw _
  | file c =>
    refine does_inspect_bind fun l hl => ?_
    obtain ⟨hends, hleads, rfl, hdir⟩ := hd.writableFile_eq_ok.1 hl
    have hfirst : w.disk.Overwrites w.cwd target (.write (target.place w.cwd) (.text [])) :=
      ⟨hleads, hends, hdir, _, rfl⟩
    have hne := hfirst.fits.location_ne_nil
    refine does_perform_bind hfirst (does_ask_bind ?_)
    have hframe : ∀ m, m ≠ target.place w.cwd →
        (w.after [.write (target.place w.cwd) (.text [])]).disk.get? m = w.disk.get? m :=
      fun m hm => get?_apply_of_ne (c := .write _ _) hm
    by_cases hself : source.place w.cwd = target.place w.cwd
    · have hempty : (w.after [.write (target.place w.cwd) (.text [])]).disk.get?
          (source.place w.cwd) = some (.file (.text [])) := by
        rw [hself]
        exact get?_write_self hne
      simp only [hempty]
      exact does_perform (hfirst.again _) ⟨c, hsource, fun h => absurd hself h⟩
    · have hkept := (hframe _ hself).trans hsource
      simp only [hkept]
      refine does_perform (hfirst.again _)
        ⟨c, hsource, fun _ => hfirst.stands (get?_write_self hne) fun m hm => ?_⟩
      rw [get?_apply_of_ne hm, hframe m hm]

end Files

theorem outcome_readDirectory : (readDirectory p).outcome w =
    ((w.disk.readDirectory w.cwd p).map ((w.host.enumeration w.journal).order p), w) := by
  rw [readDirectory, outcome_bind, outcome_inspect]
  cases w.disk.readDirectory w.cwd p <;> rfl

theorem does_readDirectory_bind {α : Type} {P : Disk → Change → Prop} {Q : α → Disk → Prop}
    {g : List (Name × Entry) → MigrationWork α} (hd : w.disk.Plain)
    (h : ∀ entries, w.disk.isDirectory w.cwd p → entries.Perm (w.disk.children (p.place w.cwd)) →
      (g entries).Does P Q w) :
    (MigrationWork.reportedAt p (readDirectory p) >>= g).Does P Q w := by
  refine does_look_bind ?_ fun entries hentries => ?_
  · rw [outcome_reportedAt, outcome_readDirectory]
  · rw [outcome_reportedAt_eq_ok, outcome_readDirectory] at hentries
    cases hread : w.disk.readDirectory w.cwd p with
    | error e => simp [hread, Except.map] at hentries
    | ok listed =>
      obtain ⟨hdir, rfl⟩ := hd.readDirectory_eq_ok.1 hread
      rw [hread] at hentries
      obtain rfl := Except.ok.inj (Prod.mk.inj hentries).1
      exact h _ hdir (Enumeration.perm _ _ _)

section Removal

variable {l m : Location} {n : Name} {e : Entry} {emptyInner : Location → Work FileError Unit} {depth : Nat}

/-- What emptying directories comes to whose entries nest less than `depth` deep. -/
def Empties (emptyInner : Location → Work FileError Unit) (depth : Nat) : Prop :=
  ∀ (l : Location) (w : Workspace), w.disk.Plain → (∀ r, w.disk.get? (l ++ r) ≠ none → r.length < depth) →
    (emptyInner l).Does (Clears l) (fun _ d => (∀ r, r ≠ [] → d.get? (l ++ r) = none) ∧
      ∀ m, (∀ r, r ≠ [] → m ≠ l ++ r) → d.get? m = w.disk.get? m) w

theorem removeEmptied_does {start : Disk} (hl : l ≠ [])
    (hbelow : ∀ r, r ≠ [] → w.disk.get? (l ++ r) = none)
    (hframe : ∀ m, (∀ r, r ≠ [] → m ≠ l ++ r) → w.disk.get? m = start.get? m) :
    (perform (.remove l) : Work FileError Unit).Does (Clears l)
      (fun _ d => (∀ m, l <+: m → d.get? m = none) ∧ ∀ m, ¬ l <+: m → d.get? m = start.get? m) w := by
  refine does_perform ⟨.remove hl fun n => hbelow [n] (by simp), l, List.prefix_rfl, rfl⟩ ⟨?_, fun m hm => ?_⟩
  · rintro m ⟨r, rfl⟩
    by_cases hr : r = []
    · rw [hr, List.append_nil]
      exact get?_apply_self (c := .remove l) hl
    · rw [get?_apply_of_ne (by simpa [Change.location] using hr), hbelow r hr]
  · have hne (r : Location) : m ≠ l ++ r := by
      rintro rfl
      exact hm (List.prefix_append l r)
    rw [get?_apply_of_ne (by simpa [Change.location] using hne []), hframe m fun r _ => hne r]

theorem removeEntry_does (hd : w.disk.Plain) (hl : l ≠ []) (he : w.disk.get? l = some e)
    (hdeep : ∀ r, w.disk.get? (l ++ r) ≠ none → r.length < depth) (hinner : Empties emptyInner depth) :
    (removeEntry emptyInner l e).Does (Clears l) (fun _ d => (∀ m, l <+: m → d.get? m = none) ∧
      ∀ m, ¬ l <+: m → d.get? m = w.disk.get? m) w := by
  unfold removeEntry
  by_cases hdir : e = .directory
  · rw [if_pos hdir]
    exact does_bind (hinner l w hd hdeep) (fun _ _ => id) fun _ _ _ hempty =>
      removeEmptied_does hl hempty.1 hempty.2
  · rw [if_neg hdir]
    refine removeEmptied_does hl (fun r hr => ?_) fun _ _ => rfl
    cases e with
    | directory => exact absurd rfl hdir
    | link target => exact absurd he (hd.linkless l target)
    | file c =>
      by_contra hsome
      exact hr (hd.eq_nil_of_file he hsome)

theorem removeEntries_does {entries : List (Name × Entry)} (hd : w.disk.Plain)
    (hnames : (entries.map (·.1)).Nodup) (hentries : ∀ x ∈ entries, w.disk.get? (l ++ [x.1]) = some x.2)
    (hdeep : ∀ r, w.disk.get? (l ++ r) ≠ none → r.length < depth + 1) (hinner : Empties emptyInner depth) :
    (entries.forM fun x => removeEntry emptyInner (l ++ [x.1]) x.2).Does (Clears l)
      (fun _ d => (∀ x ∈ entries, ∀ m, l ++ [x.1] <+: m → d.get? m = none) ∧
        ∀ m, (∀ x ∈ entries, ¬ l ++ [x.1] <+: m) → d.get? m = w.disk.get? m) w := by
  induction entries generalizing w with
  | nil => exact does_pure (by simp)
  | cons x rest ih =>
    obtain ⟨hfresh, hnames⟩ := List.nodup_cons.1 hnames
    obtain ⟨hx, hrest⟩ := List.forall_mem_cons.1 hentries
    have hfirst : (removeEntry emptyInner (l ++ [x.1]) x.2).Does _ _ w :=
      removeEntry_does hd (by simp) hx (fun r hr => ?_) hinner
    · change (removeEntry emptyInner (l ++ [x.1]) x.2 >>= fun _ => rest.forM fun x => _).Does _ _ _
      refine does_bind hfirst (fun _ _ hc => ⟨hc.1, hc.2.imp fun m hm =>
        ⟨(List.prefix_append l _).trans hm.1, hm.2⟩⟩) fun _ cs hcs hgone => ?_
      obtain ⟨hgone, hframe⟩ := hgone
      have hapart : ∀ y ∈ rest, ∀ m, l ++ [y.1] <+: m → ¬ l ++ [x.1] <+: m := by
        rintro y hy m ⟨r, rfl⟩ hprefix
        refine hfresh (List.mem_map.2 ⟨y, hy, ?_⟩)
        simpa [eq_comm] using hprefix
      have hthere : ∀ m, (w.after cs).disk.get? m ≠ none → w.disk.get? m ≠ none := by
        intro m hm
        by_cases hprefix : l ++ [x.1] <+: m
        · exact absurd (hgone m hprefix) hm
        · exact hframe m hprefix ▸ hm
      refine (ih (w := w.after cs) (hd.after_fits (fun _ _ hc => hc.1) hcs) hnames (fun y hy => ?_)
        fun r hr => hdeep r (hthere _ hr)).mono (fun _ _ => id) fun _ d hdone => ?_
      · exact (hframe _ (hapart y hy _ List.prefix_rfl)).trans (hrest y hy)
      · obtain ⟨hgone', hframe'⟩ := hdone
        refine ⟨List.forall_mem_cons.2 ⟨fun m hm => ?_, hgone'⟩, fun m hm => ?_⟩
        · rw [hframe' m fun y hy hprefix => hapart y hy m hprefix hm]
          exact hgone m hm
        · obtain ⟨hm, hothers⟩ := List.forall_mem_cons.1 hm
          rw [hframe' m hothers]
          exact hframe m hm
    · have := hdeep ([x.1] ++ r) (by simpa using hr)
      simp at this
      omega

theorem empties_emptyDirectory (depth : Nat) : Empties (emptyDirectory depth) depth := by
  induction depth with
  | zero => exact fun _ _ _ _ => does_throw _
  | succ depth ih =>
    intro l w hd hdeep
    refine does_ask_bind (does_enumeration_bind fun o => ?_)
    have hperm := o.perm l.toPath (w.disk.children l)
    refine (removeEntries_does hd ((hperm.map _).nodup_iff.2 (hd.nodup_children l))
      (fun x hx => hd.mem_children.1 (hperm.mem_iff.1 hx)) hdeep ih).mono (fun _ _ => id) fun _ d hdone => ?_
    obtain ⟨hgone, hframe⟩ := hdone
    have hchild {x : Name × Entry} (hx : x ∈ o.order l.toPath (w.disk.children l)) :
        w.disk.get? (l ++ [x.1]) = some x.2 := hd.mem_children.1 (hperm.mem_iff.1 hx)
    refine ⟨fun r hr => ?_, fun m hm => hframe m fun x _ => ?_⟩
    · obtain ⟨n, r, rfl⟩ := List.exists_cons_of_ne_nil hr
      cases hn : w.disk.get? (l ++ [n]) with
      | some e =>
        exact hgone (n, e) (hperm.mem_iff.2 (hd.mem_children.2 hn)) _ ⟨r, by simp⟩
      | none =>
        rw [hframe _ fun x hx hprefix => ?_]
        · by_contra hsome
          exact hd.get?_child hsome hn
        · have hname : x.1 = n := by simpa using hprefix
          simp [← hname, hchild hx] at hn
    · rintro ⟨r, rfl⟩
      exact hm ([x.1] ++ r) (by simp) (by simp)

/-- Only a path that ends in a proper name can be removed, so it does not mean the root. -/
theorem place_ne_nil_of_removalObstacle {d : Disk} {cwd : Location} (h : removalObstacle d cwd p = none) :
    p.place cwd ≠ [] := by
  unfold removalObstacle at h
  split at h
  · rename_i n hlast
    split_ifs at h with hcur hpar
    rw [place_of_getLast? hlast, Location.step_proper (proper_of_getLast? hlast hcur hpar)]
    simp
  · simp at h

/-- The directory that a path means is removed with everything below it. -/
theorem removeTree_does (hd : w.disk.Plain) : (removeTree p).Does (Clears (p.place w.cwd))
    (fun _ d => (∀ m, p.place w.cwd <+: m → d.get? m = none) ∧
      ∀ m, ¬ p.place w.cwd <+: m → d.get? m = w.disk.get? m) w := by
  refine does_inspect_bind fun l hl => ?_
  obtain ⟨-, rfl⟩ := hd.locate_eq_ok.1 hl
  refine does_ask_bind ?_
  split
  · exact does_throw _
  · exact absurd ‹_› (hd.linkless _ _)
  · exact does_throw _
  refine does_ask_bind (does_bind (empties_emptyDirectory _ _ w hd fun r hr => ?_) (fun _ _ => id)
    fun _ cs _ hempty => does_ask_bind ?_)
  · have hdepth := length_le_depth hr
    rw [List.length_append] at hdepth
    omega
  · split
    · exact does_throw _
    exact removeEmptied_does (place_ne_nil_of_removalObstacle ‹_›) hempty.1 hempty.2

end Removal

end Work

end DocsMigration
