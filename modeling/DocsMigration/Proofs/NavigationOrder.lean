import DocsMigration.Navigation
import Mathlib.Data.Finset.Card
import Mathlib.Data.List.Lex
import Mathlib.Tactic
/-! What the navigation says about a page, told by places in the configuration alone. An address leads into
nested lists: on each level it names an item and an entry of it. The occurrences of pages are listed in the
lexicographic order of their addresses, which is the order of a walk that goes into a nested list where it
meets it; of the occurrences of one page the last one counts. -/

namespace DocsMigration

namespace Navigation

section Places

/-- The way into nested lists: on each level an item and an entry of it, by their places. -/
abbrev Address := List (Nat × Nat)

abbrev Earlier : Nat × Nat → Nat × Nat → Prop := Prod.Lex (· < ·) (· < ·)

def entryAt? (items : List Yaml.Value) (item entry : Nat) : Option (Text × Yaml.Value) :=
  match items[item]? with
  | some (.mapping entries) => entries[entry]?.bind fun e => e.1.string?.map fun title => (title, e.2)
  | _ => none

def listAt? : List Yaml.Value → Address → Option (List Yaml.Value)
  | items, [] => some items
  | items, (item, entry) :: rest =>
    match entryAt? items item entry with
    | some (_, .sequence inner) => listAt? inner rest
    | _ => none

/-- A page at its place: `above` leads to the list, in which it stands in an entry of an item. -/
structure Occurrence where
  above : Address
  item : Nat
  entry : Nat
  title : Text
  path : Text
deriving DecidableEq, Repr

namespace Occurrence

def address (o : Occurrence) : Address := o.above ++ [(o.item, o.entry)]

def recorded (o : Occurrence) : NavigationItem := ⟨o.path, ⟨o.title, min (o.item + 1) weightLimit⟩⟩

def In (items : List Yaml.Value) (o : Occurrence) : Prop :=
  ∃ inner, listAt? items o.above = some inner ∧
    entryAt? inner o.item o.entry = some (o.title, .string o.path)

end Occurrence

/-- All occurrences of pages, in the order in which a walk meets them. -/
structure IsPreorder (items : List Yaml.Value) (occ : List Occurrence) : Prop where
  ordered : occ.Pairwise fun o o' => List.Lex Earlier o.address o'.address
  mem_iff : ∀ o, o ∈ occ ↔ o.In items

end Places

section Cells

structure Cell where
  item : Nat
  entry : Nat
  title : Text
  value : Yaml.Value

def Cell.place (c : Cell) : Nat × Nat := (c.item, c.entry)

def cellsOf (item : Nat) : Yaml.Value → List Cell
  | .mapping entries => entries.zipIdx.filterMap fun (e, entry) =>
      e.1.string?.map fun title => ⟨item, entry, title, e.2⟩
  | _ => []

def cells (items : List Yaml.Value) : List Cell := items.zipIdx.flatMap fun (v, item) => cellsOf item v

variable {items : List Yaml.Value} {c c' : Cell} {item : Nat} {v : Yaml.Value}

theorem pairwise_zipIdx {α : Type} (xs : List α) : xs.zipIdx.Pairwise fun x y => x.2 < y.2 := by
  have h := List.pairwise_lt_range' (s := 0) (n := xs.length)
  rwa [← List.zipIdx_map_snd, List.pairwise_map] at h

theorem mem_cellsOf : c ∈ cellsOf item v ↔
    ∃ entries key, v = .mapping entries ∧ entries[c.entry]? = some (key, c.value) ∧
      key.string? = some c.title ∧ c.item = item := by
  cases v with
  | mapping entries =>
    simp only [cellsOf, List.mem_filterMap, Prod.exists, List.mk_mem_zipIdx_iff_getElem?,
      Option.map_eq_some_iff]
    constructor
    · rintro ⟨key, value, entry, he, title, ht, rfl⟩
      exact ⟨entries, key, rfl, he, ht, rfl⟩
    · rintro ⟨_, key, ⟨⟩, he, ht, rfl⟩
      exact ⟨key, c.value, c.entry, he, c.title, ht, rfl⟩
  | _ => simp [cellsOf]

theorem mem_cells : c ∈ cells items ↔ entryAt? items c.item c.entry = some (c.title, c.value) := by
  simp only [cells, List.mem_flatMap, Prod.exists, List.mk_mem_zipIdx_iff_getElem?, mem_cellsOf, entryAt?]
  constructor
  · rintro ⟨_, item, hv, entries, key, rfl, he, ht, rfl⟩
    simp [hv, he, ht]
  · intro h
    split at h
    · rename_i entries hv
      obtain ⟨⟨key, value⟩, he, h⟩ := Option.bind_eq_some_iff.1 h
      obtain ⟨title, ht, heq⟩ := Option.map_eq_some_iff.1 h
      obtain ⟨rfl, rfl⟩ := Prod.mk.inj heq
      exact ⟨_, _, hv, entries, key, rfl, he, ht, rfl⟩
    · simp at h

theorem pairwise_cellsOf : (cellsOf item v).Pairwise fun c c' => Earlier c.place c'.place := by
  cases v with
  | mapping entries =>
    refine List.pairwise_filterMap.2 ((pairwise_zipIdx entries).imp ?_)
    rintro ⟨e, j⟩ ⟨e', j'⟩ hlt c hc c' hc'
    obtain ⟨title, -, rfl⟩ := Option.map_eq_some_iff.1 hc
    obtain ⟨title', -, rfl⟩ := Option.map_eq_some_iff.1 hc'
    exact .right _ hlt
  | _ => exact .nil

theorem pairwise_cells (items : List Yaml.Value) :
    (cells items).Pairwise fun c c' => Earlier c.place c'.place := by
  refine List.pairwise_flatMap.2 ⟨fun x _ => pairwise_cellsOf, (pairwise_zipIdx items).imp ?_⟩
  rintro ⟨v, i⟩ ⟨v', i'⟩ hlt c hc c' hc'
  obtain ⟨_, _, _, _, _, rfl⟩ := mem_cellsOf.1 hc
  obtain ⟨_, _, _, _, _, rfl⟩ := mem_cellsOf.1 hc'
  exact .left _ _ hlt

theorem sizeOf_lt_of_mem_cells {inner : List Yaml.Value} (h : c ∈ cells items)
    (hv : c.value = .sequence inner) : sizeOf inner < sizeOf items := by
  simp only [cells, List.mem_flatMap, Prod.exists, List.mk_mem_zipIdx_iff_getElem?, mem_cellsOf] at h
  obtain ⟨v, i, hitem, entries, key, rfl, he, -⟩ := h
  have houter := List.sizeOf_lt_of_mem (List.mem_of_getElem? hitem)
  have hinner := List.sizeOf_lt_of_mem (List.mem_of_getElem? he)
  rw [hv] at hinner
  simp only [Yaml.Value.mapping.sizeOf_spec, Prod.mk.sizeOf_spec, Yaml.Value.sequence.sizeOf_spec] at houter hinner
  omega

theorem walkEntries_eq (n : Navigation) (entries : List (Yaml.Value × Yaml.Value)) :
    walkEntries n item entries = entries.foldl (fun n e => walkEntry n item e) n := by
  induction entries generalizing n with
  | nil => rfl
  | cons e rest ih => rw [walkEntries, ih, List.foldl_cons]

theorem walkItem_eq (n : Navigation) : walkItem n item v =
    (cellsOf item v).foldl (fun n c => walkTarget n c.item c.title c.value) n := by
  cases v with
  | mapping entries =>
    rw [walkItem, walkEntries_eq, cellsOf, List.foldl_filterMap]
    conv_lhs => rw [← List.zipIdx_map_fst 0 entries]
    rw [List.foldl_map]
    refine List.foldl_ext _ _ n fun n x _ => ?_
    obtain ⟨⟨key, value⟩, entry⟩ := x
    rw [walkEntry]
    cases h : key.string? <;> simp [h]
  | _ => rfl

theorem walk_eq_zipIdx (n : Navigation) (items : List Yaml.Value) (position : Nat) :
    walk n position items = (items.zipIdx position).foldl (fun n (v, item) => walkItem n item v) n := by
  induction items generalizing n position with
  | nil => rfl
  | cons v rest ih => rw [walk, ih, List.zipIdx_cons, List.foldl_cons]

theorem walk_eq (n : Navigation) (items : List Yaml.Value) :
    walk n 0 items = (cells items).foldl (fun n c => walkTarget n c.item c.title c.value) n := by
  rw [walk_eq_zipIdx, cells, List.foldl_flatMap]
  simp only [walkItem_eq]

end Cells

section Walk

variable {items : List Yaml.Value} {c : Cell} {o : Occurrence}

/-- An occurrence in an entry: the entry names its page, or a list in which it stands. -/
def Under (c : Cell) (o : Occurrence) : Prop :=
  (o.above = [] ∧ (o.item, o.entry) = c.place ∧ o.title = c.title ∧ c.value = .string o.path) ∨
    ∃ inner rest, c.value = .sequence inner ∧ o.above = c.place :: rest ∧
      Occurrence.In inner { o with above := rest }

theorem Under.address_head (h : Under c o) : ∃ rest, o.address = c.place :: rest := by
  rcases h with ⟨habove, hplace, -⟩ | ⟨inner, rest, -, habove, -⟩
  · exact ⟨[], by simp [Occurrence.address, habove, hplace]⟩
  · exact ⟨rest ++ [(o.item, o.entry)], by simp [Occurrence.address, habove]⟩

theorem in_iff_under : o.In items ↔ ∃ c ∈ cells items, Under c o := by
  obtain ⟨above, item, entry, title, path⟩ := o
  constructor
  · rintro ⟨inner, hlist, hentry⟩
    cases above with
    | nil =>
      obtain rfl : items = inner := Option.some.inj hlist
      exact ⟨⟨item, entry, title, .string path⟩, mem_cells.2 hentry, .inl ⟨rfl, rfl, rfl, rfl⟩⟩
    | cons step rest =>
      obtain ⟨i, j⟩ := step
      simp only [listAt?] at hlist
      split at hlist
      · rename_i t below hat
        exact ⟨⟨i, j, t, .sequence below⟩, mem_cells.2 hat, .inr ⟨below, rest, rfl, rfl, inner, hlist, hentry⟩⟩
      · simp at hlist
  · rintro ⟨c, hc, ⟨rfl, hplace, rfl, hv⟩ | ⟨below, rest, hv, rfl, inner, hlist, hentry⟩⟩
    · obtain ⟨rfl, rfl⟩ := Prod.mk.inj hplace
      exact ⟨items, rfl, by rw [mem_cells.1 hc, hv]⟩
    · refine ⟨inner, ?_, hentry⟩
      simpa [listAt?, Cell.place, mem_cells.1 hc, hv] using hlist

def insertAll (n : Navigation) (occ : List Occurrence) : Navigation :=
  occ.foldl (fun n o => n.insert o.recorded) n

/-- A row of occurrences that stands for what an entry says. -/
structure Row (c : Cell) (row : List Occurrence) : Prop where
  ordered : row.Pairwise fun o o' => List.Lex Earlier o.address o'.address
  mem_iff : ∀ o, o ∈ row ↔ Under c o
  recorded : ∀ n, walkTarget n c.item c.title c.value = insertAll n row

theorem row_page {path : Text} (hv : c.value = .string path) :
    Row c [⟨[], c.item, c.entry, c.title, path⟩] := by
  refine ⟨List.pairwise_singleton _ _, fun o => ?_, fun n => by rw [hv]; rfl⟩
  obtain ⟨above, item, entry, title, path'⟩ := o
  simp [Under, hv, Cell.place, and_assoc, eq_comm]

theorem row_list {inner : List Yaml.Value} {occ : List Occurrence} (hv : c.value = .sequence inner)
    (hocc : IsPreorder inner occ) (hrecorded : ∀ n, walk n 0 inner = insertAll n occ) :
    Row c (occ.map fun o => { o with above := c.place :: o.above }) := by
  refine ⟨?_, fun o => ?_, fun n => ?_⟩
  · rw [List.pairwise_map]
    exact hocc.ordered.imp fun h => .cons h
  · simp only [List.mem_map, hocc.mem_iff, Under, hv, reduceCtorEq, and_false, false_or]
    constructor
    · rintro ⟨o, ho, rfl⟩
      exact ⟨inner, o.above, rfl, rfl, ho⟩
    · rintro ⟨_, rest, ⟨⟩, habove, ho⟩
      exact ⟨_, ho, by rw [← habove]⟩
  · rw [hv, walkTarget, hrecorded, insertAll, insertAll, List.foldl_map]
    rfl

theorem row_other (hpage : ∀ path, c.value ≠ .string path) (hlist : ∀ inner, c.value ≠ .sequence inner) :
    Row c [] := by
  refine ⟨.nil, fun o => ?_, fun n => ?_⟩
  · simp [Under, hpage, hlist]
  · cases hv : c.value with
    | string path => exact absurd hv (hpage path)
    | sequence inner => exact absurd hv (hlist inner)
    | _ => rfl

/-- The walk records all occurrences in their order, whatever is recorded before. -/
theorem exists_preorder (items : List Yaml.Value) :
    ∃ occ, IsPreorder items occ ∧ ∀ n, walk n 0 items = insertAll n occ := by
  induction hn : sizeOf items using Nat.strong_induction_on generalizing items with
  | _ n ih =>
    have hrow : ∀ c ∈ cells items, ∃ row, Row c row := by
      intro c hc
      cases hv : c.value with
      | string path => exact ⟨_, row_page hv⟩
      | sequence inner =>
        obtain ⟨occ, hocc, hrecorded⟩ := ih _ (hn ▸ sizeOf_lt_of_mem_cells hc hv) inner rfl
        exact ⟨_, row_list hv hocc hrecorded⟩
      | _ => exact ⟨[], row_other (by simp [hv]) (by simp [hv])⟩
    choose! row hrow using hrow
    refine ⟨(cells items).flatMap row, ⟨List.pairwise_flatMap.2 ⟨fun c hc => (hrow c hc).ordered, ?_⟩, ?_⟩, fun n => ?_⟩
    · refine (pairwise_cells items).imp_of_mem fun {c c'} hc hc' hlt o ho o' ho' => ?_
      obtain ⟨rest, hrest⟩ := (((hrow c hc).mem_iff o).1 ho).address_head
      obtain ⟨rest', hrest'⟩ := (((hrow c' hc').mem_iff o').1 ho').address_head
      rw [hrest, hrest']
      exact .rel hlt
    · intro o
      rw [List.mem_flatMap, in_iff_under]
      exact exists_congr fun c => and_congr_right fun hc => (hrow c hc).mem_iff o
    · rw [walk_eq, insertAll, List.foldl_flatMap]
      exact List.foldl_ext _ _ n fun n c hc => (hrow c hc).recorded n

end Walk

section Lookup

/-- The last of the occurrences of a page. -/
def IsLast (occ : List Occurrence) (path : Text) (o : Occurrence) : Prop :=
  ∃ before after, occ = before ++ o :: after ∧ o.path = path ∧ ∀ o' ∈ after, o'.path ≠ path

variable {occ : List Occurrence} {n : Navigation}

theorem isLast_nil {path : Text} {o : Occurrence} : ¬ IsLast [] path o := by
  rintro ⟨before, after, h, -⟩
  simp at h

theorem isLast_concat {path : Text} {o last : Occurrence} : IsLast (occ ++ [last]) path o ↔
    if last.path = path then o = last else IsLast occ path o := by
  constructor
  · rintro ⟨before, after, heq, hpath, hafter⟩
    rcases List.eq_nil_or_concat' after with rfl | ⟨after, x, rfl⟩
    · obtain ⟨rfl, rfl⟩ := List.append_inj' heq rfl |>.imp_right List.singleton_inj.1
      rw [if_pos hpath]
    · rw [← List.cons_append, ← List.append_assoc] at heq
      obtain ⟨rfl, rfl⟩ := List.append_inj' heq rfl |>.imp_right List.singleton_inj.1
      rw [if_neg (hafter _ (by simp))]
      exact ⟨before, after, rfl, hpath, fun o' ho' => hafter o' (by simp [ho'])⟩
  · split_ifs with h
    · rintro rfl
      exact ⟨occ, [], rfl, h, by simp⟩
    · rintro ⟨before, after, rfl, hpath, hafter⟩
      refine ⟨before, after ++ [last], by simp, hpath, fun o' ho' => ?_⟩
      rcases List.mem_append.1 ho' with ho' | ho'
      · exact hafter o' ho'
      · rwa [List.mem_singleton.1 ho']

theorem find?_putInto (item : NavigationItem) (items : List NavigationItem) (path : Text) :
    (item.putInto items).find? (·.path == path) =
      if item.path = path then some item else items.find? (·.path == path) := by
  induction items with
  | nil => by_cases h : item.path = path <;> simp [NavigationItem.putInto, h]
  | cons other rest ih =>
    rw [NavigationItem.putInto]
    by_cases hother : other.path = item.path
    · by_cases h : item.path = path <;> simp [hother, h]
    · rw [if_neg hother]
      by_cases h : other.path = path
      · have hitem : item.path ≠ path := fun hp => hother (h.trans hp.symm)
        simp [h, hitem]
      · simp [h, ih]

theorem lookup_insert (n : Navigation) (item : NavigationItem) (path : Text) :
    (n.insert item).lookup path = if item.path = path then some item.entry else n.lookup path := by
  rw [lookup, insert, find?_putInto]
  split_ifs <;> rfl

theorem insertAll_concat (n : Navigation) (occ : List Occurrence) (o : Occurrence) :
    insertAll n (occ ++ [o]) = (insertAll n occ).insert o.recorded := List.foldl_concat _ _ _ _

theorem lookup_insertAll_eq_some_iff {path : Text} {e : NavigationEntry} :
    (insertAll empty occ).lookup path = some e ↔ ∃ o, IsLast occ path o ∧ e = o.recorded.entry := by
  induction occ using List.reverseRecOn with
  | nil => simp [insertAll, empty, lookup, isLast_nil]
  | append_singleton occ last ih =>
    rw [insertAll_concat, lookup_insert]
    by_cases h : last.path = path
    · simp [isLast_concat, Occurrence.recorded, h, eq_comm]
    · simp only [isLast_concat, if_neg h]
      rw [← ih, if_neg (show last.recorded.path ≠ path from h)]

theorem path_mem_insertAll {path : Text} :
    path ∈ (insertAll empty occ).items.map (·.path) ↔ path ∈ occ.map (·.path) := by
  induction occ using List.reverseRecOn with
  | nil => rfl
  | append_singleton occ last ih =>
    rw [insertAll_concat, insert, NavigationItem.path_mem_putInto, ih]
    simp [Occurrence.recorded, or_comm]

theorem lookup_eq_none_iff {path : Text} : n.lookup path = none ↔ path ∉ n.items.map (·.path) := by
  simp [lookup]

theorem size_insertAll : (insertAll empty occ).size = (occ.map (·.path)).toFinset.card := by
  have hpaths : (occ.map (·.path)).toFinset = ((insertAll empty occ).items.map (·.path)).toFinset := by
    ext path
    rw [List.mem_toFinset, List.mem_toFinset, path_mem_insertAll]
  rw [hpaths, List.toFinset_card_of_nodup (insertAll empty occ).distinct, List.length_map, size]

theorem item_lt_length {items : List Yaml.Value} {item entry : Nat} {x : Text × Yaml.Value}
    (h : entryAt? items item entry = some x) : item < items.length := by
  by_contra hlt
  simp [entryAt?, List.getElem?_eq_none (Nat.le_of_not_lt hlt)] at h

/-- The list to which an address leads is short enough for its items to be numbered. -/
def Short (items : List Yaml.Value) (a : Address) : Prop :=
  ∀ inner, listAt? items a = some inner → inner.length < 2 ^ 32

theorem weight_eq {items : List Yaml.Value} {o : Occurrence} (hin : o.In items) (hshort : Short items o.above) :
    min (o.item + 1) weightLimit = o.item + 1 := by
  obtain ⟨inner, hlist, hentry⟩ := hin
  have hlength := hshort inner hlist
  have hitem := item_lt_length hentry
  rw [weightLimit]
  omega

/-- What a navigation says about pages, told by the occurrences of them in order. -/
structure Follows (n : Navigation) (items : List Yaml.Value) (occ : List Occurrence) : Prop where
  found : ∀ path e, n.lookup path = some e ↔
    ∃ o, IsLast occ path o ∧ e = ⟨o.title, min (o.item + 1) weightLimit⟩
  missing : ∀ path, n.lookup path = none ↔ ∀ o ∈ occ, o.path ≠ path
  size : n.size = (occ.map (·.path)).toFinset.card
  positive : ∀ path e, n.lookup path = some e → 1 ≤ e.weight
  numbered : ∀ path o, IsLast occ path o → Short items o.above →
    n.lookup path = some ⟨o.title, o.item + 1⟩
  increasing : ∀ path path' o o', IsLast occ path o → IsLast occ path' o' → o.above = o'.above →
    o.item < o'.item → Short items o.above → ∃ e e', n.lookup path = some e ∧ n.lookup path' = some e' ∧
      e.weight < e'.weight

theorem follows_preorder {items : List Yaml.Value} (hocc : IsPreorder items occ) :
    Follows (insertAll empty occ) items occ := by
  have hnumbered : ∀ path o, IsLast occ path o → Short items o.above →
      (insertAll empty occ).lookup path = some ⟨o.title, o.item + 1⟩ := by
    intro path o hlast hshort
    refine lookup_insertAll_eq_some_iff.2 ⟨o, hlast, ?_⟩
    obtain ⟨before, after, rfl, -⟩ := hlast
    have hin := (hocc.mem_iff o).1 (by simp)
    rw [Occurrence.recorded, weight_eq hin hshort]
  refine ⟨fun path e => lookup_insertAll_eq_some_iff, fun path => ?_, size_insertAll, ?_, hnumbered, ?_⟩
  · rw [lookup_eq_none_iff, path_mem_insertAll]
    simp
  · intro path e he
    obtain ⟨o, -, rfl⟩ := lookup_insertAll_eq_some_iff.1 he
    simp [Occurrence.recorded, weightLimit]
  · intro path path' o o' hlast hlast' habove hlt hshort
    exact ⟨_, _, hnumbered path o hlast hshort, hnumbered path' o' hlast' (habove ▸ hshort), Nat.succ_lt_succ hlt⟩

end Lookup

/-- The navigation of a configuration says of each page what its last occurrence says. -/
theorem lookup_last_occurrence {v : Yaml.Value} {items : List Yaml.Value}
    (h : v.field? "nav".toList = some (.sequence items)) :
    ∃ occ, IsPreorder items occ ∧ Follows (ofValue v) items occ := by
  obtain ⟨occ, hocc, hrecorded⟩ := exists_preorder items
  have hwalk : ofValue v = insertAll empty occ := by
    rw [ofValue, h]
    exact hrecorded empty
  exact ⟨occ, hocc, hwalk ▸ follows_preorder hocc⟩

/-- Items of which one is a bare page and one has two titles. A page stands in the outer list and again in the
inner one, and another the other way round. -/
def nestedItems : List Yaml.Value :=
  let page (title path : String) : Yaml.Value × Yaml.Value := (.string title.toList, .string path.toList)
  [.mapping [page "Home" "index.md"], .string "about.md".toList,
    .mapping [(.string "Lab".toList, .sequence [.mapping [page "Overview" "lab.md"],
      .mapping [page "Network" "network.md", page "Start" "index.md"]])],
    .mapping [(.int 5, .string "five.md".toList), page "The lab" "lab.md"]]

def nestedConfiguration : Yaml.Value := .mapping [(.string "nav".toList, .sequence nestedItems)]

/-- The later occurrence counts, in whichever list it stands. -/
theorem lookup_nested : nestedConfiguration.field? "nav".toList = some (.sequence nestedItems) ∧
    (∃ occ, IsPreorder nestedItems occ ∧ Follows (ofValue nestedConfiguration) nestedItems occ) ∧
    (ofValue nestedConfiguration).lookup "index.md".toList = some ⟨"Start".toList, 2⟩ ∧
    (ofValue nestedConfiguration).lookup "lab.md".toList = some ⟨"The lab".toList, 4⟩ := by
  have h : nestedConfiguration.field? "nav".toList = some (.sequence nestedItems) := rfl
  exact ⟨h, lookup_last_occurrence h, by decide, by decide⟩

end Navigation

end DocsMigration
