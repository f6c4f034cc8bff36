import DocsMigration.Migration.Assets
import DocsMigration.Proofs.Operations
/-! Copying a directory with everything below it. Its steps make directories on the way to the target,
and below the target they put a directory or a file only where the source showed one. When the copy has
come to its end, all that the source holds is found again below the target. -/

namespace DocsMigration

namespace Disk

/-- A step of copying to a place, where `Seen` tells what the source shows, by the names that lead there:
a missing directory is made on a way or where the source has one, or a file is written where the source
has one. -/
inductive Copies (Seen : Location → Entry → Prop) (ways : List Location) (target : Location) (d : Disk)
    (c : Change) : Prop
  | opens : d.Opens ways c → Copies Seen ways target d c
  | directory {r : Location} : d.Opens [target ++ r] c → Seen r .directory → Copies Seen ways target d c
  | file {r : Location} {shown : Content} : d.Fits c → Seen r (.file shown) →
      (∃ content, c = .write (target ++ r) content) → Copies Seen ways target d c

section Steps

variable {d : Disk} {c : Change} {Seen Seen' : Location → Entry → Prop} {ways ways' : List Location}
  {target m : Location} {n : Name} {e : Entry}

theorem Opens.mono (h : d.Opens ways c) (hways : ways ⊆ ways') : d.Opens ways' c :=
  ⟨h.1, h.2.1, h.2.2.imp fun _ hl => ⟨hways hl.1, hl.2⟩⟩

theorem Copies.mono (h : d.Copies Seen ways target c) (hseen : ∀ r e, Seen r e → Seen' r e) :
    d.Copies Seen' ways target c := by
  cases h with
  | opens ho => exact .opens ho
  | directory ho hr => exact .directory ho (hseen _ _ hr)
  | file hf hr hc => exact .file hf (hseen _ _ hr) hc

theorem Copies.below (h : d.Copies (fun r => Seen (n :: r)) ways' (target ++ [n]) c)
    (hways : ∀ m ∈ ways', m ∈ ways ∨ m = target ++ [n]) (hn : Seen [n] .directory) :
    d.Copies Seen ways target c := by
  cases h with
  | opens ho =>
    obtain ⟨hfits, hnone, l, hl, rfl⟩ := ho
    rcases hways l hl with hl | rfl
    · exact .opens ⟨hfits, hnone, l, hl, rfl⟩
    · exact .directory ⟨hfits, hnone, _, by simp, rfl⟩ hn
  | @directory r ho hr => exact .directory (r := n :: r) (by simpa using ho) hr
  | @file r shown hfits hr hc => exact .file (r := n :: r) hfits hr (by simpa using hc)

theorem Copies.fits (h : d.Copies Seen ways target c) : d.Fits c := by
  cases h with
  | opens ho | directory ho => exact ho.1
  | file hfits => exact hfits

theorem Copies.keeps_directory (h : d.Copies Seen ways target c) (hm : d.get? m = some .directory) :
    (d.apply c).get? m = some .directory := by
  refine h.fits.keeps_directory (fun l => ?_) hm
  cases h with
  | opens ho | directory ho =>
    obtain ⟨-, -, m, -, rfl⟩ := ho
    simp
  | file _ _ hc =>
    obtain ⟨content, rfl⟩ := hc
    simp

/-- What has been copied stays, unless the source shows a file for the same place again. -/
theorem Copies.keeps_copied (h : d.Copies Seen ways target c) (hm : d.get? m = some e)
    (hother : ∀ r shown, Seen r (.file shown) → m ≠ target ++ r) : (d.apply c).get? m = some e := by
  cases h with
  | opens ho | directory ho => exact ho.get?_apply_of_some hm
  | file _ hr hc =>
    obtain ⟨content, rfl⟩ := hc
    rw [get?_apply_of_ne (hother _ _ hr), hm]

end Steps

def filesOf (inner : Name → Nat) (x : Name × Entry) : Nat :=
  match x.2 with
  | .directory => inner x.1
  | .file _ => 1
  | .link _ => 0

def filesWithin (d : Disk) : Nat → Location → Nat
  | 0, _ => 0
  | depth + 1, l => ((d.children l).map (filesOf fun n => filesWithin d depth (l ++ [n]))).sum

end Disk

namespace CopiedAsset

open Disk Work

/-- Whether all that a copy reads is found on the disk `src`, as long as `I` holds. -/
structure Shows (I : Disk → Prop) (source target : Location) (src : Disk) : Prop where
  plain : src.Plain
  agrees : ∀ d, I d → ∀ r, d.get? (source ++ r) = src.get? (source ++ r)
  apart : source ≠ target

theorem Shows.below {I : Disk → Prop} {S T : Location} {src : Disk} (h : Shows I S T src) (n : Name) :
    Shows I (S ++ [n]) (T ++ [n]) src := by
  refine ⟨h.plain, fun d hd r => ?_, fun heq => h.apart (List.append_inj_left' heq rfl)⟩
  simpa using h.agrees d hd (n :: r)

def copyEntry (copyInner : Path → Path → MigrationWork Nat) (source target : Path) (x : Name × Entry) :
    MigrationWork Nat :=
  match x.2 with
  | .directory => copyInner (source.join ⟨x.1⟩) (target.join ⟨x.1⟩)
  | .file _ => do
    MigrationWork.reportedAt (source.join ⟨x.1⟩)
      (Work.copyFile (source.join ⟨x.1⟩) (target.join ⟨x.1⟩))
    pure 1
  | .link _ => pure 0

theorem copyEntries_cons (copyInner : Path → Path → MigrationWork Nat) (source target : Path)
    (x : Name × Entry) (rest : List (Name × Entry)) :
    copyEntries copyInner source target (x :: rest) = do
      let count ← copyEntry copyInner source target x
      let more ← copyEntries copyInner source target rest
      return count + more := by
  obtain ⟨n, e⟩ := x
  cases e <;> simp only [copyEntries, copyEntry, bind_assoc, pure_bind]

/-- What has come of copying a place when it is done: the number of its files, and a copy of all that is
found there. -/
def Finished (I : Disk → Prop) (source target : Location) (files : Disk → Nat) (count : Nat) (d : Disk) :
    Prop :=
  ∀ src, Shows I source target src → count = files src ∧
    ∀ r e, src.get? (source ++ r) = some e → d.get? (target ++ r) = some e

section Specification

variable {I : Disk → Prop} {Seen : Location → Entry → Prop} {copyInner : Path → Path → MigrationWork Nat}
  {source target : Path} {n : Name} {e : Entry} {entries : List (Name × Entry)}
  {files : Disk → Name → Nat} {w : Workspace}

theorem copyEntry_does (hd : w.disk.Plain) (hw : I w.disk) (hproper : n.Proper) (hseen : Seen [n] e)
    (hlink : ∀ l, e ≠ .link l)
    (hinner : e = .directory → (copyInner (source.join ⟨n⟩) (target.join ⟨n⟩)).Does
      (Copies (fun r => Seen (n :: r)) ((target.join ⟨n⟩).way w.cwd) (target.place w.cwd ++ [n]))
      (Finished I (source.place w.cwd ++ [n]) (target.place w.cwd ++ [n]) (files · n)) w) :
    (copyEntry copyInner source target (n, e)).Does
      (Copies (fun r e => Seen r e ∧ r.head? = some n) (target.way w.cwd) (target.place w.cwd))
      (Finished I (source.place w.cwd ++ [n]) (target.place w.cwd ++ [n])
        fun src => filesOf (files src) (n, e)) w := by
  cases e with
  | link l => exact absurd rfl (hlink l)
  | directory =>
    refine (hinner rfl).mono (fun d c hc => ?_) fun _ _ => id
    exact Copies.below (n := n) (hc.mono fun r e hr => ⟨hr, rfl⟩)
      (fun m hm => (Path.mem_way_join_name hproper).1 hm) ⟨hseen, rfl⟩
  | file shown =>
    have hfrom : (source.join ⟨n⟩).place w.cwd = source.place w.cwd ++ [n] :=
      Path.place_join_name hproper
    have hto : (target.join ⟨n⟩).place w.cwd = target.place w.cwd ++ [n] :=
      Path.place_join_name hproper
    refine does_bind (does_reportedAt (copyFile_does hd)) (fun d c hc => ?_)
      fun _ cs _ hdone => does_pure fun src hsrc => ⟨rfl, fun r e hr => ?_⟩
    · have hfits := hc.fits
      obtain ⟨-, -, -, hwrite⟩ := hc
      exact .file (r := [n]) hfits ⟨hseen, rfl⟩ (hto ▸ hwrite)
    · obtain ⟨c, hsource, hstands⟩ := hdone
      rw [hfrom] at hsource hstands
      have hcopied := (hstands (hto ▸ hsrc.apart)).2
      rw [hto] at hcopied
      have hshown : src.get? (source.place w.cwd ++ [n]) = some (.file c) := by
        rw [← hsource]
        simpa using (hsrc.agrees _ hw []).symm
      obtain rfl := hsrc.plain.eq_nil_of_file hshown (by rw [hr]; simp)
      obtain rfl : Entry.file c = e := by simpa [hshown] using hr
      simpa using hcopied

theorem copyEntries_does (hplain : ∀ d, I d → d.Plain) (hw : I w.disk)
    (hkeep : ∀ d c, I d → d.Copies Seen (target.way w.cwd) (target.place w.cwd) c → I (d.apply c))
    (hnames : (entries.map (·.1)).Nodup)
    (hentries : ∀ x ∈ entries, x.1.Proper ∧ Seen [x.1] x.2 ∧ ∀ l, x.2 ≠ .link l)
    (hinner : ∀ n, (n, Entry.directory) ∈ entries → ∀ w' : Workspace, w'.cwd = w.cwd → I w'.disk →
      (copyInner (source.join ⟨n⟩) (target.join ⟨n⟩)).Does
        (Copies (fun r => Seen (n :: r)) ((target.join ⟨n⟩).way w.cwd) (target.place w.cwd ++ [n]))
        (Finished I (source.place w.cwd ++ [n]) (target.place w.cwd ++ [n]) (files · n)) w') :
    (copyEntries copyInner source target entries).Does
      (Copies (fun r e => Seen r e ∧ ∃ x ∈ entries, r.head? = some x.1) (target.way w.cwd)
        (target.place w.cwd))
      (fun count d => ∀ src, Shows I (source.place w.cwd) (target.place w.cwd) src →
        count = (entries.map (filesOf (files src))).sum ∧
          ∀ x ∈ entries, ∀ r e, src.get? (source.place w.cwd ++ [x.1] ++ r) = some e →
            d.get? (target.place w.cwd ++ [x.1] ++ r) = some e) w := by
  induction entries generalizing w with
  | nil => exact does_pure (by simp)
  | cons x rest ih =>
    obtain ⟨n, e⟩ := x
    obtain ⟨hproper, hseen, hlink⟩ := hentries (n, e) (by simp)
    obtain ⟨hfresh, hnames⟩ := List.nodup_cons.1 hnames
    rw [copyEntries_cons]
    refine does_bind (copyEntry_does (hplain _ hw) hw hproper hseen hlink fun he =>
      hinner n (by simp [he]) w rfl hw) (fun d c hc => hc.mono fun r e hr => ⟨hr.1, _, List.mem_cons_self, hr.2⟩) ?_
    intro count cs hcs hfirst
    have hw' : I (w.after cs).disk :=
      hcs.keeps hw fun d c hd hc => hkeep d c hd (hc.mono fun r e hr => hr.1)
    have hrest := ih (w := w.after cs) hw' hkeep hnames
      (fun x hx => hentries x (List.mem_cons_of_mem _ hx))
      fun n hn => hinner n (List.mem_cons_of_mem _ hn)
    -- what was copied under the first name stays while the other names are copied
    have hstays := hrest.with (I := Finished I (source.place w.cwd ++ [n]) (target.place w.cwd ++ [n])
      (fun src => filesOf (files src) (n, e)) count) hfirst fun d c hd hc src hsrc =>
        ⟨(hd src hsrc).1, fun r e hr => hc.keeps_copied ((hd src hsrc).2 r e hr) ?_⟩
    · refine does_bind hstays (fun d c hc => hc.2.mono fun r e hr => ⟨hr.1, ?_⟩)
        fun more ds _ hdone => does_pure fun src hsrc => ?_
      · obtain ⟨-, x, hx, hhead⟩ := hr
        exact ⟨x, List.mem_cons_of_mem _ hx, hhead⟩
      · obtain ⟨hfirst, hothers⟩ := hdone
        obtain ⟨hcount, hcopied⟩ := hfirst src (hsrc.below n)
        obtain ⟨hmore, hcopied'⟩ := hothers src hsrc
        refine ⟨by simp [hcount, hmore], fun x hx => ?_⟩
        rcases List.mem_cons.1 hx with rfl | hx
        · exact hcopied
        · exact hcopied' x hx
    · rintro r' shown ⟨-, x, hx, hhead⟩ heq
      have hhead' : r'.head? = some n := by
        rw [Workspace.cwd_after, List.append_assoc, List.append_cancel_left_eq] at heq
        rw [← heq]
        rfl
      have hname : n = x.1 := by simpa [hhead'] using hhead
      exact hfresh (List.mem_map.2 ⟨x, hx, hname.symm⟩)

theorem finished_of_children {S T : Location} {depth count : Nat} {d d' : Disk} (hd : d.Plain) (hI : I d)
    (hlisted : entries.Perm (d.children S))
    (hsource : d.get? S = some .directory) (htarget : d'.get? T = some .directory)
    (hentries : ∀ src, Shows I S T src →
      count = (entries.map (filesOf fun n => src.filesWithin depth (S ++ [n]))).sum ∧
        ∀ x ∈ entries, ∀ r e, src.get? (S ++ [x.1] ++ r) = some e →
          d'.get? (T ++ [x.1] ++ r) = some e) :
    Finished I S T (fun src => src.filesWithin (depth + 1) S) count d' := by
  intro src hsrc
  have hchildren : d.children S = src.children S :=
    hd.children_congr hsrc.plain fun n => hsrc.agrees _ hI [n]
  obtain ⟨hcount, hcopied⟩ := hentries src hsrc
  rw [hchildren] at hlisted
  refine ⟨hcount.trans (hlisted.map _).sum_nat, fun r e hr => ?_⟩
  cases r with
  | nil =>
    have hdir : src.get? (S ++ []) = some .directory := by
      rw [← hsrc.agrees _ hI [], List.append_nil, hsource]
    obtain rfl : Entry.directory = e := Option.some.inj (hdir.symm.trans hr)
    simpa using htarget
  | cons n r =>
    obtain ⟨e', he'⟩ := Option.ne_none_iff_exists'.1 (hsrc.plain.get?_child (by rw [hr]; simp))
    have hmem := hlisted.mem_iff.2 (hsrc.plain.mem_children.2 he')
    simpa using hcopied (n, e') hmem r e (by simpa using hr)

/-- What copying directories comes to whose entries nest at most `depth` deep, as long as `I` holds of the
disk, which the copy has to keep. -/
def CopiesTrees (I : Disk → Prop) (depth : Nat) : Prop :=
  ∀ ⦃source target : Path⦄ ⦃Seen : Location → Entry → Prop⦄ ⦃w : Workspace⦄, I w.disk →
    (∀ d c, I d → d.Copies Seen (target.way w.cwd) (target.place w.cwd) c → I (d.apply c)) →
    (∀ d, I d → ∀ r e, d.get? (source.place w.cwd ++ r) = some e → Seen r e) → target.text ≠ [] →
    (copyTreeWithin depth source target).Does (Copies Seen (target.way w.cwd) (target.place w.cwd))
      (fun count d => Addresses target target.names ∧
        (∀ m ∈ target.way w.cwd, d.get? m = some .directory) ∧
        (∀ m ∈ source.way w.cwd, d.get? m = some .directory) ∧
          Finished I (source.place w.cwd) (target.place w.cwd)
            (fun src => src.filesWithin depth (source.place w.cwd)) count d) w

/-- Copies what a directory holds into another one, which has to be there. -/
def copyContents (copyInner : Path → Path → MigrationWork Nat) (source target : Path) : MigrationWork Nat := do
  copyEntries copyInner source target (← MigrationWork.reportedAt source (Work.readDirectory source))

theorem copyContents_does {depth : Nat} (hinner : CopiesTrees I depth) (hplain : ∀ d, I d → d.Plain)
    (hw : I w.disk)
    (hkeep : ∀ d c, I d → d.Copies Seen (target.way w.cwd) (target.place w.cwd) c → I (d.apply c))
    (hseen : ∀ d, I d → ∀ r e, d.get? (source.place w.cwd ++ r) = some e → Seen r e)
    (hway : ∀ m ∈ target.way w.cwd, w.disk.get? m = some .directory) :
    (copyContents (copyTreeWithin depth) source target).Does
      (Copies Seen (target.way w.cwd) (target.place w.cwd))
      (fun count d => (∀ m ∈ target.way w.cwd, d.get? m = some .directory) ∧
        (∀ m ∈ source.way w.cwd, d.get? m = some .directory) ∧
          Finished I (source.place w.cwd) (target.place w.cwd)
            (fun src => src.filesWithin (depth + 1) (source.place w.cwd)) count d) w := by
  have hd := hplain _ hw
  refine does_readDirectory_bind hd fun entries hdir hlisted => ?_
  have hsource := (hd.isDirectory_iff.1 hdir).2
  have hproper {x : Name × Entry} (hx : x ∈ entries) : x.1.Proper :=
    hd.proper_of_mem_children (hlisted.mem_iff.1 hx)
  have hfound {x : Name × Entry} (hx : x ∈ entries) : w.disk.get? (source.place w.cwd ++ [x.1]) = some x.2 :=
    hd.mem_children.1 (hlisted.mem_iff.1 hx)
  have hshown {x : Name × Entry} (hx : x ∈ entries) : Seen [x.1] x.2 := hseen _ hw [x.1] x.2 (hfound hx)
  have hbelow : ∀ n, (n, Entry.directory) ∈ entries →
      ∀ w' : Workspace, w'.cwd = w.cwd → I w'.disk →
        (copyTreeWithin depth (source.join ⟨n⟩) (target.join ⟨n⟩)).Does
          (Copies (fun r => Seen (n :: r)) ((target.join ⟨n⟩).way w.cwd) (target.place w.cwd ++ [n]))
          (Finished I (source.place w.cwd ++ [n]) (target.place w.cwd ++ [n])
            fun src => src.filesWithin depth (source.place w.cwd ++ [n])) w' := by
    intro n hn w' hcwd hw'
    have hn' := hproper hn
    have hfrom : (source.join ⟨n⟩).place w'.cwd = source.place w.cwd ++ [n] := by
      rw [hcwd, Path.place_join_name hn']
    have hto : (target.join ⟨n⟩).place w'.cwd = target.place w.cwd ++ [n] := by
      rw [hcwd, Path.place_join_name hn']
    have hcopied : (copyTreeWithin depth (source.join ⟨n⟩) (target.join ⟨n⟩)).Does
        (Copies (fun r => Seen (n :: r)) _ _) _ w' := hinner hw' (fun d c hd hc => hkeep d c hd <| by
        rw [hto, hcwd] at hc
        exact Copies.below hc (fun m hm => (Path.mem_way_join_name hn').1 hm) (hshown hn))
      (fun d hd r e hr => hseen d hd (n :: r) e (by simpa [hfrom] using hr))
      (Path.join_text_ne_nil hn'.1)
    rw [hfrom, hto, hcwd] at hcopied
    exact hcopied.mono (fun _ _ => id) fun count d hd => hd.2.2.2
  have hcopied := copyEntries_does (w := w) hplain hw hkeep
    ((hlisted.map _).nodup_iff.2 (hd.nodup_children _))
    (fun x hx => ⟨hproper hx, hshown hx, fun l hl => hd.linkless _ l (hl ▸ hfound hx)⟩)
    hbelow
  refine ((hcopied.mono (fun d c hc => hc.mono fun r e hr => hr.1) fun _ _ => id).with
    (I := fun d => (∀ m ∈ target.way w.cwd, d.get? m = some .directory) ∧
      ∀ m ∈ source.way w.cwd, d.get? m = some .directory) ⟨hway, hsource⟩ fun d c hd hc =>
        ⟨fun m hm => hc.keeps_directory (hd.1 m hm),
          fun m hm => hc.keeps_directory (hd.2 m hm)⟩).mono (fun _ _ h => h.2) ?_
  rintro count d ⟨⟨hway', hsource'⟩, hdone⟩
  exact ⟨hway', hsource', finished_of_children hd hw hlisted (hsource _ Location.along_mem_visited)
    (hway' _ Location.along_mem_visited) hdone⟩

theorem copiesTrees (hplain : ∀ d, I d → d.Plain) (depth : Nat) : CopiesTrees I depth := by
  induction depth with
  | zero => exact fun _ _ _ _ _ _ _ _ => does_throw _
  | succ depth ih =>
    intro source target Seen w hw hkeep hseen htarget
    change (MigrationWork.reportedAt target (makeDirectories target) >>= fun _ =>
      copyContents (copyTreeWithin depth) source target).Does _ _ _
    refine does_bind (does_reportedAt (makeDirectories_does (hplain _ hw))) (fun d c hc => .opens hc) ?_
    intro _ cs hcs hopened
    obtain ⟨haddr, hway⟩ := hopened htarget
    have hw' : I (w.after cs).disk := hcs.keeps hw fun d c hd hc => hkeep d c hd (.opens hc)
    exact (copyContents_does ih hplain hw' hkeep hseen hway).mono (fun _ _ => id)
      fun count d hd => ⟨haddr, hd⟩

/-- Copying a directory, as long as `I` holds of the disk, which the copy has to keep. -/
theorem copyTreeWithin_does {depth : Nat} (hplain : ∀ d, I d → d.Plain) (hw : I w.disk)
    (hkeep : ∀ d c, I d → d.Copies Seen (target.way w.cwd) (target.place w.cwd) c → I (d.apply c))
    (hseen : ∀ d, I d → ∀ r e, d.get? (source.place w.cwd ++ r) = some e → Seen r e)
    (htarget : target.text ≠ []) :
    (copyTreeWithin depth source target).Does (Copies Seen (target.way w.cwd) (target.place w.cwd))
      (fun count d => Addresses target target.names ∧
        (∀ m ∈ target.way w.cwd, d.get? m = some .directory) ∧
        (∀ m ∈ source.way w.cwd, d.get? m = some .directory) ∧
          Finished I (source.place w.cwd) (target.place w.cwd)
            (fun src => src.filesWithin depth (source.place w.cwd)) count d) w :=
  copiesTrees hplain depth hw hkeep hseen htarget

end Specification

end CopiedAsset

end DocsMigration
