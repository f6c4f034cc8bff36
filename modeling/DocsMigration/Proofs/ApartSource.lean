import DocsMigration.Proofs.Deeds
/-! A source apart from the site. Where neither lies inside the other, a run leaves the source alone, as
long as the directories exist that the path of the site backs out of. Each step of a deed is at a place on
the way down to its target or below the target, even while directories that the path goes through are
missing for a moment, because the place where they are is being cleared. -/

namespace DocsMigration

open Disk

namespace Location

variable {l m k : Location}

/-- Whether neither of two places lies at or below the other. -/
def Apart (l m : Location) : Prop := ¬ l <+: m ∧ ¬ m <+: l

instance : Decidable (Apart l m) := inferInstanceAs (Decidable (_ ∧ _))

theorem Apart.below (h : l.Apart m) (hm : m <+: k) : l.Apart k := by
  refine ⟨fun hlk => ?_, fun hkl => h.2 (hm.trans hkl)⟩
  rcases List.prefix_or_prefix_of_prefix hlk hm with h' | h'
  · exact h.1 h'
  · exact h.2 h'

theorem Apart.not_above (h : l.Apart m) (hk : k <+: m ∨ m <+: k) : ¬ l <+: k := by
  intro hlk
  rcases hk with hk | hk
  · exact h.1 (hlk.trans hk)
  · exact (h.below hk).1 hlk

end Location

/-- A source that a site is migrated from, as it is on the disk `src`, with the place of its root apart
from the root of the site. -/
structure ApartSource (c : Config) where
  docs : Path
  cwd : Location
  source : Location
  src : Disk
  plain : src.Plain
  opened : src.isDirectory cwd docs
  holds : source <+: docs.place cwd
  apart : source.Apart (c.site.root.place cwd)

namespace ApartSource

variable {c : Config} (S : ApartSource c)

structure Untouched (d : Disk) : Prop where
  plain : d.Plain
  agrees : ∀ l, S.source <+: l → d.get? l = S.src.get? l

/-- What a run relies on between two deeds. -/
structure Steady (d : Disk) : Prop extends S.Untouched d where
  docs : ∀ m ∈ S.docs.way S.cwd, d.get? m = some .directory
  detours : ∀ b ∈ c.site.root.detours S.cwd, d.get? b = some .directory

/-- What a deed keeps all the while. -/
structure Undisturbed (deed : Deed) (d : Disk) : Prop extends S.Untouched d where
  way : ∀ m ∈ (deed.target c).way S.cwd, m <+: (deed.target c).place S.cwd ∨
    (deed.target c).place S.cwd <+: m ∨ d.get? m = some .directory

variable {S} {d d' : Disk} {deed : Deed} {change : Change} {start : Disk}

theorem Steady.undisturbed (h : S.Steady d) (deed : Deed) (hinside : Config.isInside (deed.path c)) :
    S.Undisturbed deed d :=
  ⟨h.toUntouched, fun _ hm => (h.plain.way_cases hinside h.detours hm).imp_right .inr⟩

theorem apart_target (S : ApartSource c) (deed : Deed) (hinside : Config.isInside (deed.path c)) :
    S.source.Apart ((deed.target c).place S.cwd) :=
  S.apart.below (Path.place_prefix_join hinside)

theorem Undisturbed.near (h : S.Undisturbed deed d) (hmay : deed.May c S.cwd start d change) :
    change.location <+: (deed.target c).place S.cwd ∨ (deed.target c).place S.cwd <+: change.location := by
  rcases hmay with ⟨-, hnone, l, hl, rfl⟩ | ⟨-, howns, -⟩
  · rcases h.way l hl with hm | hm | hm
    · exact .inl hm
    · exact .inr hm
    · exact absurd (hnone.symm.trans hm) (by simp)
  · exact .inr howns.below

theorem Undisturbed.apply (h : S.Undisturbed deed d) (start : Disk) (hinside : Config.isInside (deed.path c))
    (hmay : deed.May c S.cwd start d change) : S.Undisturbed deed (d.apply change) := by
  have hnear := h.near hmay
  refine ⟨⟨h.plain.apply_fits hmay.fits, fun l hl => ?_⟩, fun m hm => ?_⟩
  · rw [get?_apply_of_ne, h.agrees l hl]
    rintro rfl
    exact (S.apart_target deed hinside).not_above hnear hl
  · by_cases heq : m = change.location
    · exact heq ▸ hnear.imp_right .inl
    · rw [get?_apply_of_ne heq]
      exact h.way m hm

end ApartSource

end DocsMigration
