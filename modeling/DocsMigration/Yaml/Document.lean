import DocsMigration.Yaml.Node
/-! The value of a YAML document. Aliases are replaced by what they mean, as long as that does not
nest too deeply or happen too often; a key may stand only once in a mapping; and a scalar's tag or
its plain notation decides what kind of value it is. -/

namespace DocsMigration

namespace Yaml

namespace Node

def depthLimit : Nat := 128

/-- How many aliases may be followed for each event of the document. -/
def aliasesPerEvent : Nat := 100

mutual

/-- The number of events of a node: one for a scalar or an alias, and two more than its parts for a
collection. -/
def events : Node → Nat
  | .alias _ => 1
  | .scalar _ _ _ _ => 1
  | .sequence _ _ items => 2 + eventsOfAll items
  | .mapping _ _ entries => 2 + eventsOfEntries entries
termination_by structural n => n

def eventsOfAll : List Node → Nat
  | [] => 0
  | n :: rest => events n + eventsOfAll rest
termination_by structural ns => ns

def eventsOfEntries : List (Node × Node) → Nat
  | [] => 0
  | e :: rest => eventsOfEntry e + eventsOfEntries rest
termination_by structural es => es

def eventsOfEntry : Node × Node → Nat
  | (k, v) => events k + events v
termination_by structural e => e

end

mutual

def anchored : Node → List (Nat × Node)
  | .alias _ => []
  | .scalar anchor tag plain text =>
    (anchor.map fun id => (id, Node.scalar anchor tag plain text)).toList
  | .sequence anchor tag items =>
    (anchor.map fun id => (id, Node.sequence anchor tag items)).toList ++ anchoredOfAll items
  | .mapping anchor tag entries =>
    (anchor.map fun id => (id, Node.mapping anchor tag entries)).toList ++
      anchoredOfEntries entries
termination_by structural n => n

def anchoredOfAll : List Node → List (Nat × Node)
  | [] => []
  | n :: rest => anchored n ++ anchoredOfAll rest
termination_by structural ns => ns

def anchoredOfEntries : List (Node × Node) → List (Nat × Node)
  | [] => []
  | e :: rest => anchoredOfEntry e ++ anchoredOfEntries rest
termination_by structural es => es

def anchoredOfEntry : Node × Node → List (Nat × Node)
  | (k, v) => anchored k ++ anchored v
termination_by structural e => e

end

/-- What aliases mean, and how many of them may still be followed. -/
structure Expansion where
  table : List (Nat × Node)
  remaining : Nat

abbrev Expand := StateT Expansion Option

def follow (n : Node) : Expand Node := do
  match n with
  | .alias id =>
    let s ← get
    guard (0 < s.remaining)
    set { s with remaining := s.remaining - 1 }
    match s.table.lookup id with
    | some target => return target
    | none => failure
  | _ => return n

/-- The tag of a value, if it is one of the document's own: then it starts with an exclamation mark,
which is dropped unless it stands alone. -/
def localTag? : Option Text → Option Text
  | some ['!'] => some ['!']
  | some ('!' :: name) => some ((Text.stripPrefix? ['!'] name).filter (!·.isEmpty) |>.getD name)
  | _ => none

def coreTag (name : String) : Text := "tag:yaml.org,2002:".toList ++ name.toList

def plainValue? (text : Text) : Option Value :=
  match resolve text with
  | .value v => some v
  | .wideInteger => none

/-- The value of a scalar: its tag decides if it is one of the four that name a kind of value, and
otherwise its notation. -/
def scalarValue? (tag : Option Text) (plain : Bool) (text : Text) : Option Value :=
  match tag with
  | none => if plain then plainValue? text else some (.string text)
  | some t =>
    if t = coreTag "bool" then (boolOf? text).map .bool
    else if t = coreTag "int" then
      match integerValue? text with
      | some (.value v) => some v
      | _ => none
    else if t = coreTag "float" then (floatOf? text).map .float
    else if t = coreTag "null" then if nullWords.contains text then some .null else none
    else some (.string text)

def withTag (tag : Option Text) (v : Value) : Value :=
  match localTag? tag with
  | some name => .tagged name v
  | none => v

/-- Adds entries one by one; a key that is there already is refused. -/
def distinct? : Mapping → Mapping → Option Mapping
  | seen, [] => some seen
  | seen, e :: rest =>
    if seen.contains e.1 then none else distinct? (seen ++ [e]) rest

def valueBy (part : Option (Node → Expand Value)) (n : Node) : Expand Value := do
  match ← n.follow, part with
  | .scalar _ tag plain text, _ =>
    match localTag? tag with
    | some name => return .tagged name (← scalarValue? none plain text)
    | none => scalarValue? tag plain text
  | .sequence _ tag items, some part => return withTag tag (.sequence (← items.mapM part))
  | .mapping _ tag entries, some part =>
    let entries ← entries.mapM fun (k, v) => do return (← part k, ← part v)
    return withTag tag (.mapping (← distinct? [] entries))
  | _, _ => failure

def valueWithin : Nat → Node → Expand Value
  | 0 => valueBy none
  | depth + 1 => valueBy (some (valueWithin depth))

def value? (n : Node) : Option Value :=
  ((n.valueWithin depthLimit).run ⟨n.anchored.reverse, aliasesPerEvent * n.events⟩).map (·.1)

end Node

/-- Reads a YAML text of at most one document. A text without any is null. -/
def parse? (s : Text) : Option Value := do
  match ← Node.ofTokens? (← tokens? s) with
  | some n => n.value?
  | none => return .null

end Yaml

end DocsMigration
