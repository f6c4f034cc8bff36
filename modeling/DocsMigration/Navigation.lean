import DocsMigration.Markdown.Page
/-! The navigation of a site is a list of items. An item pairs titles with pages, or with lists of
items below them, and a page's weight is the place of its item in the list it stands in, counted from
one. Of several items for one page the last one counts. A page outside the navigation is titled by
its file name. -/

namespace DocsMigration

structure NavigationEntry where
  title : Text
  weight : Nat
deriving DecidableEq, Repr

/-- A page in the navigation, named by its path below the docs directory. -/
structure NavigationItem where
  path : Text
  entry : NavigationEntry
deriving DecidableEq, Repr

namespace NavigationItem

/-- Sets what is said about a page: an item for the same page is overwritten where it stands. -/
def putInto (item : NavigationItem) : List NavigationItem → List NavigationItem
  | [] => [item]
  | other :: rest => if other.path = item.path then item :: rest else other :: putInto item rest

theorem path_mem_putInto {item : NavigationItem} {path : Text} {items : List NavigationItem} :
    path ∈ (putInto item items).map (·.path) ↔ path = item.path ∨ path ∈ items.map (·.path) := by
  induction items with
  | nil => simp [putInto]
  | cons other rest ih =>
    rw [putInto]
    split <;> rename_i h
    · simp [h]
    · simp only [List.map_cons, List.mem_cons, ih]
      exact or_left_comm

theorem nodup_putInto (item : NavigationItem) {items : List NavigationItem}
    (h : (items.map (·.path)).Nodup) : ((putInto item items).map (·.path)).Nodup := by
  induction items with
  | nil => simp [putInto]
  | cons other rest ih =>
    obtain ⟨hother, hrest⟩ := List.nodup_cons.1 h
    rw [putInto]
    split <;> rename_i hpath
    · rwa [List.map_cons, ← hpath]
    · refine List.nodup_cons.2 ⟨fun hmem => ?_, ih hrest⟩
      exact (path_mem_putInto.1 hmem).elim hpath hother

end NavigationItem

/-- What a navigation says about pages. No page has two items. -/
structure Navigation where
  items : List NavigationItem
  distinct : (items.map (·.path)).Nodup
deriving DecidableEq

namespace Navigation

def weightLimit : Nat := 4294967295

def empty : Navigation := ⟨[], .nil⟩

def insert (n : Navigation) (item : NavigationItem) : Navigation :=
  ⟨item.putInto n.items, NavigationItem.nodup_putInto item n.distinct⟩

def lookup (n : Navigation) (path : Text) : Option NavigationEntry :=
  (n.items.find? (·.path == path)).map (·.entry)

def size (n : Navigation) : Nat := n.items.length

mutual

/-- Records the pages of a list of items, of which the first has `position` items before it. -/
def walk (n : Navigation) (position : Nat) : List Yaml.Value → Navigation
  | [] => n
  | v :: rest => walk (walkItem n position v) (position + 1) rest
termination_by structural vs => vs

def walkItem (n : Navigation) (position : Nat) : Yaml.Value → Navigation
  | .mapping entries => walkEntries n position entries
  | _ => n
termination_by structural v => v

def walkEntries (n : Navigation) (position : Nat) : List (Yaml.Value × Yaml.Value) → Navigation
  | [] => n
  | e :: rest => walkEntries (walkEntry n position e) position rest
termination_by structural es => es

/-- Records the pages of a title and what it stands for; a key that is no string is not a title. -/
def walkEntry (n : Navigation) (position : Nat) : Yaml.Value × Yaml.Value → Navigation
  | (key, v) =>
    match key.string? with
    | some title => walkTarget n position title v
    | none => n
termination_by structural e => e

/-- What a title stands for is a page, or a list with a numbering of its own. -/
def walkTarget (n : Navigation) (position : Nat) (title : Text) : Yaml.Value → Navigation
  | .string path => n.insert ⟨path, ⟨title, min (position + 1) weightLimit⟩⟩
  | .sequence items => walk n 0 items
  | _ => n
termination_by structural v => v

end

/-- The navigation of a site configuration; it is empty without a list of items. -/
def ofValue (v : Yaml.Value) : Navigation :=
  match v.field? "nav".toList with
  | some (.sequence items) => walk empty 0 items
  | _ => empty

def parse? (s : Text) : Option Navigation := (Yaml.parse? s).map ofValue

end Navigation

namespace Title

def ofWord : Text → Text
  | [] => []
  | c :: s => Text.upperChar c ++ s.flatMap Text.lowerChar

/-- The title for a file name without its extension: its words, which hyphens and underscores
separate. -/
def ofStem (stem : Text) : Text :=
  let words := Text.splitAt '-' (stem.map fun c => if c = '_' then '-' else c)
  List.intercalate [' '] ((words.filter (!·.isEmpty)).map ofWord)

/-- The part of a path behind its last slash, without the extension. -/
def stem (path : Text) : Text :=
  let name := ((Text.splitLast? '/' path).map (·.2)).getD path
  match Text.splitLast? '.' name with
  | some (before, _) => if before.isEmpty then name else before
  | none => name

end Title

namespace Navigation

/-- The title and weight of a page. Without an entry, or with an empty title in it, the title comes
from the file name; without an entry the weight is the default. -/
def pageMeta (n : Navigation) (path : Text) (defaultWeight : Nat) : Markdown.PageMeta :=
  let entry := n.lookup path
  ⟨((entry.map (·.title)).filter (!·.isEmpty)).getD (Title.ofStem (Title.stem path)),
    (entry.map (·.weight)).getD defaultWeight⟩

end Navigation

end DocsMigration
