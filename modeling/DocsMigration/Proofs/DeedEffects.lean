import DocsMigration.Proofs.Deeds
import DocsMigration.Proofs.Effects
/-! What each deed comes to. As long as the source stays as it is, a deed that succeeds has an effect at each
place that depends on the source and the settings alone: an asset puts a copy, after its place was cleared
or not, a page is written, and the head partial and the index pages fill their places. -/

namespace DocsMigration

open Disk

namespace Effect

variable (cwd : Location) (p : Path)

/-- The effect of putting an entry: a directory is made where nothing is, a file is written anyway. -/
def putting : Option Entry → Effect
  | none => keep
  | some .directory => fill .directory
  | some e => set (some e)

def wayEntry (l : Location) : Option Entry := if l ∈ p.way cwd then some .directory else none

def writing (content : Content) (l : Location) : Effect :=
  if l = p.place cwd then set (some (.file content)) else putting (wayEntry cwd p l)

/-- The effects of writing a file where it is missing, with the directories on the way to it. -/
def filling (content : Content) (l : Location) : Effect :=
  if l = p.place cwd then fill (.file content) else putting (wayEntry cwd p l)

def clearing (replace : Bool) (l : Location) : Effect :=
  if replace ∧ p.place cwd <+: l then set none else keep

/-- What a copy of the place `source` of the disk `src` holds at a place. -/
def copyEntry (src : Disk) (source l : Location) : Option Entry :=
  if p.place cwd <+: l then src.get? (source ++ l.drop (p.place cwd).length) else none

def copying (src : Disk) (source l : Location) : Effect :=
  putting ((copyEntry cwd p src source l).or (wayEntry cwd p l))

variable {cwd p} {d src : Disk} {source r : Location} {change : Change} {content : Content}
  {v : Option Entry}

theorem copyEntry_append :
    copyEntry cwd p src source (p.place cwd ++ r) = src.get? (source ++ r) := by
  simp [copyEntry]

/-- Two entries can be put in any order, unless they are different files. -/
theorem commutes_putting {a b : Option Entry}
    (h : ∀ x ∈ a, ∀ y ∈ b, x = .directory ∨ y = .directory ∨ x = y) :
    (putting a).Commutes (putting b) := by
  rcases a with _ | _ | _ | _ <;> rcases b with _ | _ | _ | _ <;>
    simp_all [putting, Commutes, followedBy]

theorem adds_putting_wayEntry {l : Location} : (putting (wayEntry cwd p l)).Adds := by
  unfold wayEntry
  split_ifs <;> trivial

theorem adds_filling {l : Location} : (filling cwd p content l).Adds := by
  unfold filling
  split_ifs
  · trivial
  · exact adds_putting_wayEntry

theorem met_putting_wayEntry {l : Location} (h : l ∈ p.way cwd → v = some .directory) :
    (putting (wayEntry cwd p l)).Met v := by
  unfold wayEntry
  split_ifs with hway
  · simp [putting, Met, h hway]
  · trivial

theorem permits_wayEntry (h : d.Opens (p.way cwd) change) (x : Option Entry) :
    (putting (x.or (wayEntry cwd p change.location))).Permits (d.get? change.location) change.left := by
  obtain ⟨-, hnone, l, hl, rfl⟩ := h
  have hway : wayEntry cwd p (Change.makeDirectory l).location = some .directory := if_pos hl
  rw [hway]
  rcases x with _ | _ | _ | _ <;> simp [putting, Permits, hnone, Change.left]

theorem permits_writing
    (h : d.Puts cwd p change) :
    d.Permits (writing cwd p content) change := by
  by_cases hplace : change.location = p.place cwd
  · exact ⟨h.fits.location_ne_nil, by simp [writing, hplace, Effect.Permits]⟩
  · rcases h with h | h
    · refine ⟨h.1.location_ne_nil, ?_⟩
      rw [writing, if_neg hplace]
      exact permits_wayEntry h none
    · exact absurd h.location_eq hplace

theorem met_writing (h : d.Stands cwd p content) (l : Location) :
    (writing cwd p content l).Met (d.get? l) := by
  unfold writing
  split_ifs with hl
  · exact hl ▸ h.2
  · refine met_putting_wayEntry fun hway => ?_
    rcases List.mem_append.1 hway with hway | hway
    · exact h.1.passed l hway
    · exact absurd (List.mem_singleton.1 hway) hl

theorem permits_clearing (h : d.Clears (p.place cwd) change) :
    d.Permits (clearing cwd p true) change := by
  obtain ⟨hfits, m, hm, rfl⟩ := h
  have hclear : clearing cwd p true (Change.remove m).location = set none := if_pos ⟨rfl, hm⟩
  exact ⟨hfits.location_ne_nil, by rw [hclear]; trivial⟩

theorem met_clearing {replace : Bool} (h : ∀ m, p.place cwd <+: m → d.get? m = none) (l : Location) :
    (clearing cwd p replace l).Met (d.get? l) := by
  unfold clearing
  split_ifs with hl
  · exact h l hl.2
  · trivial

theorem permits_copying
    (h : d.Copies (fun r e => src.get? (source ++ r) = some e) (p.way cwd) (p.place cwd) change) :
    d.Permits (copying cwd p src source) change := by
  refine ⟨h.fits.location_ne_nil, ?_⟩
  cases h with
  | opens ho => exact permits_wayEntry ho _
  | directory ho hr =>
    obtain ⟨-, hnone, l, hl, rfl⟩ := ho
    obtain rfl := List.mem_singleton.1 hl
    rw [copying, Change.location, copyEntry_append, hr]
    exact ⟨hnone, rfl⟩
  | file _ hr hc =>
    obtain ⟨content, rfl⟩ := hc
    rw [copying, Change.location, copyEntry_append, hr]
    trivial

theorem met_copying (hway : ∀ m ∈ p.way cwd, d.get? m = some .directory)
    (hcopied : ∀ r e, src.get? (source ++ r) = some e → d.get? (p.place cwd ++ r) = some e)
    (l : Location) : (copying cwd p src source l).Met (d.get? l) := by
  unfold copying
  cases hcopy : copyEntry cwd p src source l with
  | none => exact met_putting_wayEntry (hway l)
  | some e =>
    have hl : p.place cwd <+: l := by
      by_contra hno
      simp [copyEntry, hno] at hcopy
    obtain ⟨r, rfl⟩ := hl
    rw [copyEntry_append] at hcopy
    have hfound := hcopied r e hcopy
    cases e with
    | directory => simp [putting, Met, hfound]
    | file | link => exact hfound

end Effect

open Work Effect

section Pages

variable {c : Config} {w : Workspace} {n : Navigation} {doc : Document} {s : Text}

theorem migratePage_achieves (hd : w.disk.Plain) (hs : w.disk.readText w.cwd doc.path = .ok s) :
    (Migration.migratePage c n doc).Achieves
      (writing w.cwd ((Deed.page doc).target c) (.text (Migration.pageText c n doc s))) []
      (fun page _ => page = Migration.pageOf c n doc) w := by
  refine achieves_of_does ((migratePage_does n doc hd).mono (fun _ _ => permits_writing) ?_)
  rintro page d ⟨hpage, -, s', hs', hstands⟩
  obtain rfl : s = s' := by simpa [hs] using hs'
  exact ⟨met_writing hstands, hpage⟩

end Pages

section Scaffold

variable {c : Config} {w : Workspace} {deed : Deed} {s : Text} {p : Path}

theorem outcome_writeText {w' : Workspace} (hd : w.disk.Plain)
    (h : (writeText p s).outcome w = (.ok (), w')) : w.disk.Leads w.cwd p ∧
      w.disk.Overwrites w.cwd p (.write (p.place w.cwd) (.text [])) ∧
        w' = w.after [.write (p.place w.cwd) (.text []), .write (p.place w.cwd) (.text s)] := by
  obtain ⟨l, w₁, hl, h⟩ := outcome_bind_eq_ok.1 h
  obtain ⟨hl, rfl⟩ := outcome_inspect_eq_ok.1 hl
  obtain ⟨hends, hleads, rfl, hdir⟩ := hd.writableFile_eq_ok.1 hl
  refine ⟨hleads, ⟨hleads, hends, hdir, _, rfl⟩, ?_⟩
  simpa [outcome_bind, outcome_perform, ← Workspace.after_append] using h.symm

theorem reaches_fill {d : Disk} {l : Location} (hl : l ≠ []) (hnone : d.get? l = none) :
    Reaches (fun m => if m = l then fill (.file (.text s)) else keep) [l] d
      [.write l (.text []), .write l (.text s)] := by
  have hend (m : Location) : (d.after [.write l (.text []), .write l (.text s)]).get? m =
      if m = l then some (.file (.text s)) else d.get? m := by
    split_ifs with hm
    · subst hm
      exact get?_write_self hl
    · exact get?_after_of_ne (by simpa [Change.location] using hm)
  have hreached (m : Location) : (d.after [.write l (.text []), .write l (.text s)]).get? m =
      (if m = l then fill (.file (.text s)) else keep).on (d.get? m) := by
    rw [hend]
    split_ifs with hm
    · simp [Effect.on, hm, hnone]
    · rfl
  refine ⟨fun ps hps hsettled m => ?_, hreached⟩
  rcases ps with _ | ⟨c, _ | ⟨c', rest⟩⟩
  · exact underway_self
  · obtain rfl : c = .write l (.text []) := (List.cons_prefix_cons.1 hps).1
    exact absurd rfl (hsettled l (by simp))
  · rw [hps.eq_of_length_le (by simp), hreached]
    exact underway_on

theorem reaches_open {d : Disk} {cwd : Location} {cs : List Change} (hcs : d.Allows (Opens (p.way cwd)) cs)
    (hleads : (d.after cs).Leads cwd p) (hplace : (d.after cs).get? (p.place cwd) ≠ some .directory) :
    Reaches (fun m => if m = p.place cwd then keep else putting (wayEntry cwd p m)) [] d cs ∧
      (d.after cs).get? (p.place cwd) = d.get? (p.place cwd) := by
  have hne : ∀ c ∈ cs, c.location ≠ p.place cwd := by
    intro c hc heq
    obtain ⟨before, behind, rfl⟩ := List.append_of_mem hc
    obtain ⟨-, hopens, hbehind⟩ := allows_append.1 hcs
    rw [after_append, after_cons] at hplace
    refine hplace (hbehind.keeps (I := fun d => d.get? (p.place cwd) = some .directory) ?_
      fun _ _ hd ho => ho.get?_apply_of_some hd)
    exact heq ▸ hopens.get?_self
  refine ⟨reaches_of_permits ((hcs.and (allows_of_forall hne)).mono fun d c h => ?_) fun m => ?_,
    get?_after_of_ne fun c hc => (hne c hc).symm⟩
  · refine ⟨h.1.1.location_ne_nil, ?_⟩
    dsimp only
    rw [if_neg h.2]
    exact permits_wayEntry h.1 none
  · split_ifs with hm
    · trivial
    · refine met_putting_wayEntry fun hway => ?_
      rcases List.mem_append.1 hway with hway | hway
      · exact hleads.passed m hway
      · exact absurd (List.mem_singleton.1 hway) hm

theorem met_filling {d : Disk} {cwd : Location} {content : Content} (hleads : d.Leads cwd p)
    (hsome : d.get? (p.place cwd) ≠ none) (l : Location) : (filling cwd p content l).Met (d.get? l) := by
  unfold filling
  split_ifs with hl
  · exact hl ▸ hsome
  · refine met_putting_wayEntry fun hway => ?_
    rcases List.mem_append.1 hway with hway | hway
    · exact hleads.passed l hway
    · exact absurd (List.mem_singleton.1 hway) hl

theorem writeMissing_achieves (hd : w.disk.Plain) (hinside : Config.isInside (deed.path c))
    (hdetours : ∀ b ∈ c.site.root.detours w.cwd, w.disk.get? b = some .directory) :
    (Scaffold.writeMissing (deed.target c) s).Achieves (filling w.cwd (deed.target c) (.text s))
      [(deed.target c).place w.cwd] (fun _ _ => True) w := by
  intro created w' hout
  rw [Scaffold.writeMissing, outcome_ask_bind] at hout
  split_ifs at hout with hexists
  · obtain ⟨-, rfl⟩ := outcome_pure_eq_ok.1 hout
    obtain ⟨hleads, hsome⟩ := hd.pathExists_iff.1 hexists
    refine ⟨[], by simp, ⟨fun ps hps _ l => ?_, fun l => ?_⟩, trivial⟩
    · rw [List.prefix_nil.1 hps]
      exact underway_self
    · exact underway_self.eq_on_of_met (met_filling hleads hsome l)
  · obtain ⟨_, w₂, hholder, hout⟩ := outcome_bind_eq_ok.1 hout
    obtain ⟨_, w₃, hwrite, hout⟩ := outcome_bind_eq_ok.1 hout
    obtain ⟨-, rfl⟩ := outcome_pure_eq_ok.1 hout
    obtain ⟨cs, hw, hcs, -⟩ := makeHolder_does (p := deed.target c) hd
    rw [hholder] at hw
    obtain rfl : w₂ = w.after cs := hw
    obtain ⟨hleads, hover, rfl⟩ :=
      outcome_writeText (plain_after_opens hd hcs) (outcome_reportedAt_eq_ok.1 hwrite)
    obtain ⟨hopened, hkept⟩ := reaches_open hcs hleads hover.2.2.1
    have hvacant := Deed.vacant_of_missing hd hinside (by simpa using hexists) hover
    have hne : (deed.target c).place w.cwd ≠ [] := hover.fits.location_ne_nil
    have hfilled := reaches_fill (s := s) hne (hkept.trans (hvacant.2 hdetours))
    refine ⟨_, (Workspace.after_append).symm, ?_, trivial⟩
    refine (hopened.append hfilled).congr fun l => ?_
    by_cases hl : l = (deed.target c).place w.cwd
    · simp only [filling, if_pos hl, keep_followedBy]
    · simp only [filling, if_neg hl, followedBy_keep]

end Scaffold

end DocsMigration
