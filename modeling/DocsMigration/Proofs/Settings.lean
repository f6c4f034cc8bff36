import DocsMigration.Config.Load
import DocsMigration.Proofs.Walking
/-! What is known of a configuration that was loaded. Every path in it that is joined to another one is
relative, is not blank and has no step to a parent directory, so it leads to a place at or below the one
it is joined to, and all that is new on the way there lies between the two. -/

namespace DocsMigration

namespace Config

variable {c : Config}

/-- Whether a text names something inside a directory. -/
def Contained (value : Text) : Prop := Text.isBlank value = false ∧ isInside ⟨value⟩

/-- A configuration that passes all checks on its paths. -/
structure Sound (c : Config) : Prop where
  docs : Contained c.source.docsDirectory
  navigation : Contained c.source.navigationFile
  sections : ∀ s ∈ c.sections, Contained s.path
  assets : ∀ a ∈ c.assets, Contained a.source ∧ Contained a.target

theorem isInside_iff {p : Path} :
    isInside p ↔ p.isAbsolute = false ∧ Path.parentName ∉ p.names := by
  simp [isInside, Path.hasParentStep]

theorem isInside_join {p q : Path} (hp : isInside p) (hq : isInside q) : isInside (p.join q) := by
  obtain ⟨hrel, hpar⟩ := isInside_iff.1 hp
  obtain ⟨hrel', hpar'⟩ := isInside_iff.1 hq
  refine isInside_iff.2 ⟨(Path.isAbsolute_join hrel').trans hrel, ?_⟩
  rw [Path.names_join hrel', List.mem_append]
  exact not_or.2 ⟨hpar, hpar'⟩

theorem Contained.ne_nil {value : Text} (h : Contained value) : value ≠ [] := by
  rintro rfl
  exact absurd h.1 (by decide)

theorem checkFilled_eq_ok {field value : Text} :
    checkFilled field value = .ok () ↔ Text.isBlank value = false := by
  unfold checkFilled
  split_ifs with h <;> simp [h]

theorem checkInside_eq_ok {field value : Text} :
    checkInside field value = .ok () ↔ Contained value := by
  rw [checkInside, bind_eq_ok, Contained, ← @checkFilled_eq_ok field]
  split_ifs with h <;> simp [h, Unique.exists_iff]

theorem checkSections_eq_ok {place : Nat} {ss : List Section} (h : checkSections place ss = .ok ()) :
    ∀ s ∈ ss, Contained s.path := by
  induction ss generalizing place with
  | nil => simp
  | cons s rest ih =>
    rw [checkSections] at h
    obtain ⟨_, hpath, h⟩ := bind_eq_ok.1 h
    obtain ⟨_, -, h⟩ := bind_eq_ok.1 h
    obtain ⟨_, -, h⟩ := bind_eq_ok.1 h
    exact List.forall_mem_cons.2 ⟨checkInside_eq_ok.1 hpath, ih h⟩

theorem checkAssets_eq_ok {place : Nat} {as : List Asset} (h : checkAssets place as = .ok ()) :
    ∀ a ∈ as, Contained a.source ∧ Contained a.target := by
  induction as generalizing place with
  | nil => simp
  | cons a rest ih =>
    rw [checkAssets] at h
    obtain ⟨_, hsource, h⟩ := bind_eq_ok.1 h
    obtain ⟨_, htarget, h⟩ := bind_eq_ok.1 h
    exact List.forall_mem_cons.2
      ⟨⟨checkInside_eq_ok.1 hsource, checkInside_eq_ok.1 htarget⟩, ih h⟩

theorem sound_of_validate (h : validate c = .ok ()) : c.Sound := by
  unfold validate at h
  obtain ⟨_, hsource, h⟩ := bind_eq_ok.1 h
  obtain ⟨_, -, h⟩ := bind_eq_ok.1 h
  obtain ⟨_, hsections, hassets⟩ := bind_eq_ok.1 h
  unfold checkSource at hsource
  obtain ⟨_, hdocs, hsource⟩ := bind_eq_ok.1 hsource
  obtain ⟨_, hnavigation, -⟩ := bind_eq_ok.1 hsource
  exact ⟨checkInside_eq_ok.1 hdocs, checkInside_eq_ok.1 hnavigation, checkSections_eq_ok hsections,
    checkAssets_eq_ok hassets⟩

/-- What is loaded has been checked, overrides included. -/
theorem sound_of_load {env : Environment} {w : Workspace} {file : Option Path} {overrides : Overrides}
    (h : load env w file overrides = .ok c) : c.Sound := by
  unfold load at h
  obtain ⟨read, -, h⟩ := bind_eq_ok.1 h
  obtain ⟨_, hvalid, h⟩ := bind_eq_ok.1 h
  obtain rfl : overrides.apply read = c := by simpa [pure, Except.pure] using h
  exact sound_of_validate (mapError_eq_ok.1 hvalid)

end Config

namespace Path

variable {p q : Path} {cwd m : Location}

theorem place_prefix_join (hq : Config.isInside q) : p.place cwd <+: (p.join q).place cwd := by
  obtain ⟨hrel, hpar⟩ := Config.isInside_iff.1 hq
  rw [place_join hrel]
  exact (Location.prefix_along hpar Location.along_mem_visited).1

theorem way_join_cases (hq : Config.isInside q) (hm : m ∈ (p.join q).way cwd) :
    m ∈ p.way cwd ∨ p.place cwd <+: m ∧ m <+: (p.join q).place cwd := by
  obtain ⟨hrel, hpar⟩ := Config.isInside_iff.1 hq
  rw [place_join hrel]
  exact ((mem_way_join hrel).1 hm).imp_right (Location.prefix_along hpar)

theorem way_subset_join (hq : Config.isInside q) : p.way cwd ⊆ (p.join q).way cwd :=
  fun _ hm => (mem_way_join (Config.isInside_iff.1 hq).1).2 (.inl hm)

theorem way_subset_passed_join (hq : Config.isInside q) (hne : q.names ≠ []) :
    p.way cwd ⊆ ((p.join q).origin cwd).passed (p.join q).names := by
  have hrel := (Config.isInside_iff.1 hq).1
  rw [origin_join hrel, names_join hrel]
  exact Location.visited_subset_passed hne

/-- The places from which the names of a path lead back. -/
def detours (cwd : Location) (p : Path) : List Location := (p.origin cwd).backedOut p.names

theorem detours_subset_way : p.detours cwd ⊆ p.way cwd := Location.backedOut_subset_visited

end Path

namespace Disk

variable {d : Disk} {site q : Path} {cwd m : Location}

/-- Where all places that a path backs out of are directories, the rest of its way lies above its
place. -/
theorem Plain.way_cases (hd : d.Plain) (hq : Config.isInside q)
    (hdetours : ∀ b ∈ site.detours cwd, d.get? b = some .directory) (hm : m ∈ (site.join q).way cwd) :
    m <+: (site.join q).place cwd ∨ d.get? m = some .directory := by
  rcases Path.way_join_cases hq hm with hm | ⟨-, hm⟩
  · rcases Location.visited_cases hm with hm | ⟨b, hb, hmb⟩
    · exact .inl (hm.trans (Path.place_prefix_join hq))
    · by_cases heq : m = b
      · exact .inr (heq ▸ hdetours b hb)
      · exact .inr (hd.get?_of_prefix (by simp [hdetours b hb]) hmb heq)
  · exact .inl hm

theorem Plain.leads_of_directory (hd : d.Plain) (hq : Config.isInside q)
    (hdetours : ∀ b ∈ site.detours cwd, d.get? b = some .directory)
    (haddr : Addresses (site.join q) (site.join q).names)
    (hdir : d.get? ((site.join q).place cwd) = some .directory) : d.Leads cwd (site.join q) := by
  refine ⟨haddr, fun m hm => ?_⟩
  rcases hd.way_cases hq hdetours (passed_stepsOf_subset hm) with hprefix | h
  · by_cases heq : m = (site.join q).place cwd
    · exact heq ▸ hdir
    · exact hd.get?_of_prefix (by simp [hdir]) hprefix heq
  · exact h

end Disk

end DocsMigration
