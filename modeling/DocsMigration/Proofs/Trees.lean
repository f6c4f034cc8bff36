import DocsMigration.Proofs.Order
import DocsMigration.Proofs.Places
/-! What can be observed of a disk. A single step changes the entry at one place and no other. A disk
without links is a tree: every entry stands in a directory, under a proper name, and only once. Steps
that find a directory to stand in, and nothing below what they remove, keep it a tree. -/

namespace DocsMigration

instance (n : Name) : Decidable n.Proper := inferInstanceAs (Decidable (_ ∧ _))

namespace Change

def location : Change → Location
  | makeDirectory l => l
  | write l _ => l
  | remove l => l

def left : Change → Option Entry
  | makeDirectory _ => some .directory
  | write _ c => some (.file c)
  | remove _ => none

end Change

namespace Disk

variable {d : Disk} {l m : Location} {e : Entry} {c : Change}

@[simp] theorem get?_nil (d : Disk) : d.get? [] = some .directory := rfl

theorem get?_of_ne_nil (h : l ≠ []) : d.get? l = d.entries.lookup l := by
  simp [get?, h]

theorem lookup_filter {entries : List (Location × Entry)} (p : Location → Bool) (m : Location) :
    (entries.filter fun x => p x.1).lookup m = if p m then entries.lookup m else none := by
  induction entries with
  | nil => simp
  | cons x xs ih =>
    obtain ⟨k, e⟩ := x
    by_cases hmk : m = k
    · subst hmk
      by_cases hp : p m <;> simp [hp, ih]
    · by_cases hp : p k <;> simp [hp, ih, List.lookup_cons, beq_eq_false_iff_ne.2 hmk]

theorem get?_put (hl : l ≠ []) : (d.put l e).get? m = if m = l then some e else d.get? m := by
  by_cases hm : m = []
  · simp [hm, Ne.symm hl]
  rw [get?_of_ne_nil hm, get?_of_ne_nil hm, put, List.lookup_cons, lookup_filter fun k => k != l]
  by_cases hml : m = l
  · simp [hml]
  · simp [hml, beq_eq_false_iff_ne.2 hml]

theorem get?_erase (hl : l ≠ []) : (d.erase l).get? m = if m = l then none else d.get? m := by
  by_cases hm : m = []
  · simp [hm, Ne.symm hl]
  rw [get?_of_ne_nil hm, get?_of_ne_nil hm, erase, lookup_filter fun k => k != l]
  by_cases hml : m = l <;> simp [hml]

theorem get?_apply (d : Disk) (c : Change) (m : Location) :
    (d.apply c).get? m = if m = c.location ∧ m ≠ [] then c.left else d.get? m := by
  by_cases hl : c.location = []
  · by_cases hm : m = []
    · simp [hm]
    · cases c <;> simp only [Change.location] at hl <;> subst hl <;>
        simp [apply, put, erase, get?_of_ne_nil hm, List.lookup_cons, beq_eq_false_iff_ne.2 hm,
          lookup_filter fun k => k != [], hm, Change.location]
  · have hne : m = c.location ∧ m ≠ [] ↔ m = c.location := and_iff_left_of_imp fun h => h ▸ hl
    simp only [hne]
    cases c with
    | makeDirectory l | write l content => exact get?_put hl
    | remove l => exact get?_erase hl

theorem get?_apply_of_ne (h : m ≠ c.location) : (d.apply c).get? m = d.get? m := by
  rw [get?_apply, if_neg fun hm => h hm.1]

theorem get?_apply_self (h : c.location ≠ []) : (d.apply c).get? c.location = c.left := by
  rw [get?_apply, if_pos ⟨rfl, h⟩]

theorem get?_write_self {content : Content} (h : l ≠ []) :
    (d.apply (.write l content)).get? l = some (.file content) :=
  get?_apply_self (c := .write l content) h

theorem distinct_filter {p : Location × Entry → Bool} (h : (d.entries.map (·.1)).Nodup) :
    ((d.entries.filter p).map (·.1)).Nodup :=
  h.sublist (List.filter_sublist.map _)

theorem distinct_put (h : (d.entries.map (·.1)).Nodup) : ((d.put l e).entries.map (·.1)).Nodup := by
  rw [put, List.map_cons, List.nodup_cons]
  exact ⟨by simp, distinct_filter h⟩

/-- A tree of files and directories, without links. -/
structure Plain (d : Disk) : Prop where
  distinct : (d.entries.map (·.1)).Nodup
  proper : ∀ l, d.get? l ≠ none → ∀ n ∈ l, n.Proper
  held : ∀ l n, d.get? (l ++ [n]) ≠ none → d.get? l = some .directory
  linkless : ∀ l target, d.get? l ≠ some (.link target)

def isTree (d : Disk) : Bool :=
  decide (d.entries.map (·.1)).Nodup && d.entries.all fun x =>
    x.1 != [] && decide (∀ n ∈ x.1, n.Proper) && d.isDirectoryAt x.1.dropLast &&
      match x.2 with
      | .link _ => false
      | _ => true

theorem plain_of_isTree (h : d.isTree) : d.Plain := by
  simp only [isTree, Bool.and_eq_true, decide_eq_true_eq, List.all_eq_true, bne_iff_ne,
    isDirectoryAt, beq_iff_eq] at h
  obtain ⟨hdistinct, hentries⟩ := h
  have hfound {l : Location} {e : Entry} (hl : l ≠ []) (he : d.get? l = some e) :
      ((l ≠ [] ∧ ∀ n ∈ l, n.Proper) ∧ d.get? l.dropLast = some .directory) ∧ ∀ target, e ≠ .link target := by
    rw [get?_of_ne_nil hl, List.lookup_eq_some_iff] at he
    obtain ⟨before, after, heq, -⟩ := he
    obtain ⟨hgood, hlink⟩ := hentries (l, e) (by simp [heq])
    refine ⟨hgood, ?_⟩
    rintro target rfl
    simp at hlink
  refine ⟨hdistinct, fun l hl => ?_, fun l n hn => ?_, fun l target hl => ?_⟩
  · by_cases hne : l = []
    · simp [hne]
    · obtain ⟨e, he⟩ := Option.ne_none_iff_exists'.1 hl
      exact (hfound hne he).1.1.2
  · obtain ⟨e, he⟩ := Option.ne_none_iff_exists'.1 hn
    simpa using (hfound (by simp) he).1.2
  · by_cases hne : l = []
    · simp [hne] at hl
    · exact (hfound hne hl).2 target rfl

/-- A step that fits into a tree: what is made or written stands in a directory under a proper name,
no directory is overwritten and nothing is below what is removed. -/
inductive Fits (d : Disk) : Change → Prop
  | makeDirectory {l : Location} {n : Name} : n.Proper → d.get? l = some .directory →
      d.get? (l ++ [n]) = none → Fits d (.makeDirectory (l ++ [n]))
  | write {l : Location} {n : Name} {c : Content} : n.Proper → d.get? l = some .directory →
      d.get? (l ++ [n]) ≠ some .directory → Fits d (.write (l ++ [n]) c)
  | remove {l : Location} : l ≠ [] → (∀ n, d.get? (l ++ [n]) = none) → Fits d (.remove l)

theorem Fits.location_ne_nil (h : d.Fits c) : c.location ≠ [] := by
  cases h with
  | remove hne _ => exact hne
  | _ => simp [Change.location]

theorem Fits.keeps_directory (h : d.Fits c) (hc : ∀ l, c ≠ .remove l)
    (hm : d.get? m = some .directory) : (d.apply c).get? m = some .directory := by
  have hne : m ≠ c.location := by
    rintro rfl
    cases h with
    | makeDirectory _ _ hnone => simp [Change.location, hnone] at hm
    | write _ _ hno => exact hno hm
    | remove => exact hc _ rfl
  rw [get?_apply_of_ne hne, hm]

namespace Plain

theorem get?_eq_some_iff (h : d.Plain) (hl : l ≠ []) : d.get? l = some e ↔ (l, e) ∈ d.entries := by
  rw [get?_of_ne_nil hl, List.lookup_eq_some_iff]
  constructor
  · rintro ⟨before, after, heq, -⟩
    rw [heq]
    simp
  · intro hmem
    obtain ⟨before, after, heq⟩ := List.append_of_mem hmem
    refine ⟨before, after, heq, fun x hx => ?_⟩
    have hnodup := h.distinct
    rw [heq, List.map_append, List.map_cons, List.nodup_append] at hnodup
    simpa using (hnodup.2.2 x.1 (List.mem_map_of_mem hx) l (by simp)).symm

theorem get?_of_prefix (h : d.Plain) (hm : d.get? m ≠ none) (hlm : l <+: m) (hne : l ≠ m) :
    d.get? l = some .directory := by
  obtain ⟨tail, rfl⟩ := hlm
  induction tail using List.reverseRecOn with
  | nil => simp at hne
  | append_singleton tail n ih =>
    rw [← List.append_assoc] at hm
    have hdir := h.held _ _ hm
    by_cases htail : tail = []
    · simpa [htail] using hdir
    · exact ih (by simp [hdir]) (by simpa using Ne.symm htail)

theorem distinct_apply (h : d.Plain) (c : Change) : ((d.apply c).entries.map (·.1)).Nodup := by
  cases c with
  | makeDirectory l | write l content => exact distinct_put h.distinct
  | remove l => exact distinct_filter h.distinct

theorem apply_fits (h : d.Plain) (hc : d.Fits c) : (d.apply c).Plain := by
  refine ⟨h.distinct_apply c, fun m hm => ?_, fun m k hm => ?_, fun m target => ?_⟩
  · rw [get?_apply] at hm
    split_ifs at hm with hloc
    · obtain ⟨rfl, -⟩ := hloc
      cases hc with
      | makeDirectory hn hl _ | write hn hl _ =>
        intro k hk
        rcases List.mem_append.1 hk with hk | hk
        · exact h.proper _ (by simp [hl]) k hk
        · exact List.mem_singleton.1 hk ▸ hn
      | remove => exact absurd rfl hm
    · exact h.proper m hm
  · by_cases hmk : m ++ [k] = c.location
    · cases hc with
      | @makeDirectory l n _ hl _ | @write l n _ _ hl _ =>
        obtain rfl : m = l := (List.append_inj' hmk rfl).1
        rw [get?_apply_of_ne (by simp [Change.location])]
        exact hl
      | remove hne _ => exact absurd (hmk ▸ get?_apply_self hne) hm
    · rw [get?_apply_of_ne hmk] at hm
      have hdir := h.held m k hm
      by_cases hml : m = c.location
      · subst hml
        cases hc with
        | makeDirectory => exact get?_apply_self (by simp [Change.location])
        | write _ _ hno => exact absurd hdir hno
        | remove _ hbelow => exact absurd (hbelow k) hm
      · rw [get?_apply_of_ne hml]
        exact hdir
  · rw [get?_apply]
    split_ifs with hloc
    · cases c <;> simp [Change.left]
    · exact h.linkless m target

theorem mem_children (h : d.Plain) {n : Name} : (n, e) ∈ d.children l ↔ d.get? (l ++ [n]) = some e := by
  rw [children, Text.sortBy_perm.mem_iff, List.mem_filterMap, h.get?_eq_some_iff (by simp)]
  constructor
  · rintro ⟨⟨m, e'⟩, hmem, heq⟩
    rcases List.eq_nil_or_concat m with rfl | ⟨before, last, rfl⟩
    · simp at heq
    · simp only [List.concat_eq_append, List.getLast?_concat, List.dropLast_concat, beq_iff_eq,
        Option.ite_none_right_eq_some, Option.some.injEq, Prod.mk.injEq] at heq hmem
      obtain ⟨rfl, rfl, rfl⟩ := heq
      exact hmem
  · intro hmem
    exact ⟨_, hmem, by simp⟩

theorem proper_of_mem_children (h : d.Plain) {n : Name} (hn : (n, e) ∈ d.children l) : n.Proper :=
  h.proper (l ++ [n]) (by simp [h.mem_children.1 hn]) n (by simp)

theorem nodup_children (h : d.Plain) (l : Location) : ((d.children l).map (·.1)).Nodup := by
  have hdistinct := h.distinct
  rw [List.Nodup, List.pairwise_map] at hdistinct
  rw [children, (Text.sortBy_perm.map _).nodup_iff, List.Nodup, List.pairwise_map,
    List.pairwise_filterMap]
  refine hdistinct.imp fun {x y} hne child hchild child' hchild' hsame => hne ?_
  obtain ⟨m, e⟩ := x
  obtain ⟨m', e'⟩ := y
  rcases List.eq_nil_or_concat m with rfl | ⟨before, last, rfl⟩
  · simp at hchild
  rcases List.eq_nil_or_concat m' with rfl | ⟨before', last', rfl⟩
  · simp at hchild'
  simp only [List.concat_eq_append, List.getLast?_concat, List.dropLast_concat, beq_iff_eq,
    Option.ite_none_right_eq_some, Option.some.injEq] at hchild hchild'
  obtain ⟨rfl, rfl⟩ := hchild
  obtain ⟨rfl, rfl⟩ := hchild'
  exact congrArg before'.concat hsame

theorem pairwise_children : (d.children l).Pairwise fun x y => Text.le x.1 y.1 :=
  Text.pairwise_sortBy (fun x y => Text.le_or_le x.1 y.1)
    fun x y z hxy hyz => Text.le_of_le_of_le x.1 y.1 z.1 hxy hyz

/-- The list of the entries of a directory can be read off what is found right below it. -/
theorem children_congr {d' : Disk} {l' : Location} (h : d.Plain) (h' : d'.Plain)
    (heq : ∀ n, d.get? (l ++ [n]) = d'.get? (l' ++ [n])) : d.children l = d'.children l' := by
  have hperm : (d.children l).Perm (d'.children l') :=
    (List.perm_ext_iff_of_nodup (h.nodup_children l).of_map (h'.nodup_children l').of_map).2
      fun ⟨n, e⟩ => by rw [h.mem_children, h'.mem_children, heq]
  refine hperm.eq_of_pairwise (fun x y hx hy hxy hyx => ?_) pairwise_children pairwise_children
  have hname : x.1 = y.1 := le_antisymm (Text.le_iff.1 hxy) (Text.le_iff.1 hyx)
  exact List.inj_on_of_nodup_map (h.nodup_children l) hx (hperm.mem_iff.2 hy) hname

end Plain

theorem Plain.get?_child (h : d.Plain) {n : Name} {r : Location} (hm : d.get? (l ++ n :: r) ≠ none) :
    d.get? (l ++ [n]) ≠ none := by
  by_cases hr : r = []
  · rwa [hr] at hm
  · have hdir := h.get?_of_prefix (l := l ++ [n]) hm ⟨r, by simp⟩ (by simpa using Ne.symm hr)
    simp [hdir]

theorem Plain.eq_nil_of_file (h : d.Plain) {content : Content} {r : Location}
    (hl : d.get? l = some (.file content)) (hr : d.get? (l ++ r) ≠ none) : r = [] := by
  by_contra hne
  have hdir := h.get?_of_prefix hr (List.prefix_append l r) (by simpa using Ne.symm hne)
  simp [hdir] at hl

theorem length_le_depth (hl : d.get? l ≠ none) : l.length ≤ d.depth := by
  obtain ⟨e, he⟩ := Option.ne_none_iff_exists'.1 hl
  by_cases hne : l = []
  · simp [hne]
  · rw [get?_of_ne_nil hne, List.lookup_eq_some_iff] at he
    obtain ⟨before, after, heq, -⟩ := he
    rw [depth]
    exact List.le_max_of_le (a := l.length) (by simp [heq]) le_rfl

end Disk

end DocsMigration
