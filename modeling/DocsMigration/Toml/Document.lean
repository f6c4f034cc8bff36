import DocsMigration.Toml.Scalar
/-! Reading TOML documents. Tables come about in three ways, and each may be extended only in its own
way: a table with a header is defined once; one that a header merely passes through may get its own
header later; and one that a dotted key makes is extended by dotted keys alone. Arrays and tables in
brackets are closed. -/

namespace DocsMigration

namespace Toml

/-- How a table came about. -/
inductive Origin where
  | header
  | passedThrough
  | dottedKey
deriving DecidableEq, Repr

/-- A part of a document that is still being read. -/
inductive Node where
  | value (v : Value)
  | table (origin : Origin) (entries : List (Text × Node))
  /-- The tables that double headers add one by one. -/
  | tables (items : List (List (Text × Node)))
deriving Repr

abbrev Entries := List (Text × Node)

namespace Node

mutual

def toValue : Node → Value
  | .value v => v
  | .table _ entries => .table (entriesToTable entries)
  | .tables items => .array (itemsToValues items)
termination_by structural n => n

def entriesToTable : List (Text × Node) → Table
  | [] => []
  | e :: rest => entryToValue e :: entriesToTable rest
termination_by structural es => es

def entryToValue : Text × Node → Text × Value
  | (key, n) => (key, toValue n)
termination_by structural e => e

def itemsToValues : List (List (Text × Node)) → List Value
  | [] => []
  | es :: rest => .table (entriesToTable es) :: itemsToValues rest
termination_by structural items => items

end

end Node

namespace Entries

def replace (key : Text) (n : Node) : Entries → Entries
  | [] => []
  | e :: rest => if e.1 = key then (key, n) :: rest else e :: replace key n rest

def changeLast (change : Entries → Option Entries) (items : List Entries) : Option Node :=
  match items.reverse with
  | [] => none
  | last :: before => (change last).map fun last => .tables (before.reverse ++ [last])

/-- Sets a key to a value inside a table; the tables that a dotted key passes are made as needed. A
table of another origin is not extended, and no key is set twice. -/
def assign : List Text → Value → Entries → Option Entries
  | [], _, _ => none
  | [key], v, es => if (es.lookup key).isSome then none else some (es ++ [(key, .value v)])
  | key :: rest, v, es =>
    match es.lookup key with
    | none => (assign rest v []).map fun inner => es ++ [(key, .table .dottedKey inner)]
    | some (.table origin inner) =>
      if origin = .dottedKey ∨ (origin = .passedThrough ∧ 1 < rest.length) then
        (assign rest v inner).map fun inner => replace key (.table origin inner) es
      else none
    | some (.tables items) =>
      if 1 < rest.length then
        (changeLast (assign rest v) items).map fun n => replace key n es
      else none
    | some (.value _) => none

/-- Changes the entry at the end of a path of keys; the tables on the way are passed through, and of
several tables under one key the last is meant. -/
def changeAt (change : Option Node → Option Node) : List Text → Entries → Option Entries
  | [], _ => none
  | [key], es =>
    (change (es.lookup key)).map fun n =>
      if (es.lookup key).isSome then replace key n es else es ++ [(key, n)]
  | key :: rest, es =>
    match es.lookup key with
    | none => (changeAt change rest []).map fun inner => es ++ [(key, .table .passedThrough inner)]
    | some (.table origin inner) =>
      (changeAt change rest inner).map fun inner => replace key (.table origin inner) es
    | some (.tables items) =>
      (changeLast (changeAt change rest) items).map fun n => replace key n es
    | some (.value _) => none

def openTable : Option Node → Option Node
  | none => some (.table .header [])
  | some (.table .passedThrough inner) => some (.table .header inner)
  | some _ => none

def addTable : Option Node → Option Node
  | none => some (.tables [[]])
  | some (.tables items) => some (.tables (items ++ [[]]))
  | some _ => none

def assignBelow (key : List Text) (v : Value) : Option Node → Option Node
  | some (.table origin inner) => (assign key v inner).map (.table origin)
  | some (.tables items) => changeLast (assign key v) items
  | _ => none

end Entries

/-- Skips blanks, line breaks and comments; the flag says whether the text starts inside a
comment. -/
def skipLines? : Bool → Text → Option Text
  | _, [] => some []
  | _, '\n' :: s => skipLines? false s
  | _, '\r' :: '\n' :: s => skipLines? false s
  | true, c :: s => if isTextChar c then skipLines? true s else none
  | false, c :: s =>
    if isBlankChar c then skipLines? false s
    else if c = '#' then skipLines? true s
    else some (c :: s)

def nestingLimit : Nat := 80

def assignment? (value? : Text → Option (Value × Text)) (s : Text) :
    Option (List Text × Value × Text) := do
  let (key, rest) ← Key.parts? s
  let (v, rest) ← value? (skipBlanks (← Text.stripPrefix? ['='] rest))
  return (key, v, rest)

def items? (value? : Text → Option (Value × Text)) :
    Nat → List Value → Text → Option (List Value × Text)
  | 0, _, _ => none
  | fuel + 1, read, s => do
    match ← skipLines? false s with
    | ']' :: rest => return (read.reverse, rest)
    | s =>
      let (v, rest) ← value? s
      match ← skipLines? false rest with
      | ',' :: rest => items? value? fuel (v :: read) rest
      | ']' :: rest => return ((v :: read).reverse, rest)
      | _ => none

def members? (value? : Text → Option (Value × Text)) : Nat → Entries → Text → Option (Entries × Text)
  | 0, _, _ => none
  | fuel + 1, read, s => do
    match ← skipLines? false s with
    | '}' :: rest => return (read, rest)
    | s =>
      let (key, v, rest) ← assignment? value? s
      let read ← Entries.assign key v read
      match ← skipLines? false rest with
      | ',' :: rest => members? value? fuel read rest
      | '}' :: rest => return (read, rest)
      | _ => none

def valueBy (inner : Option (Text → Option (Value × Text))) (s : Text) : Option (Value × Text) :=
  match s, inner with
  | '"' :: _, _ => (Quoted.string? '"' s).map fun (t, rest) => (.string t, rest)
  | '\'' :: _, _ => (Quoted.string? '\'' s).map fun (t, rest) => (.string t, rest)
  | '[' :: rest, some value? =>
    (items? value? (rest.length + 1) [] rest).map fun (items, rest) => (.array items, rest)
  | '{' :: rest, some value? =>
    (members? value? (rest.length + 1) [] rest).map fun (es, rest) =>
      (.table (Node.entriesToTable es), rest)
  | _, _ =>
    let (word, rest) := bareText s
    (bareValue? word).map fun v => (v, rest)

def valueWithin : Nat → Text → Option (Value × Text)
  | 0 => valueBy none
  | depth + 1 => valueBy (some (valueWithin depth))

def lineRest? (s : Text) : Option Text :=
  match skipBlanks s with
  | [] => some []
  | '#' :: rest => skipLines? true rest
  | rest => lineBreak? rest

/-- Reads lines; `header` is the path of the table that the last header named. -/
def entriesFrom? : Nat → List Text → Entries → Text → Option Entries
  | 0, _, _, _ => none
  | fuel + 1, header, es, s => do
    match ← skipLines? false s with
    | [] => return es
    | '[' :: '[' :: rest =>
      let (path, rest) ← Key.parts? rest
      let rest ← Text.stripPrefix? "]]".toList rest
      entriesFrom? fuel path (← Entries.changeAt Entries.addTable path es) (← lineRest? rest)
    | '[' :: rest =>
      let (path, rest) ← Key.parts? rest
      let rest ← Text.stripPrefix? [']'] rest
      entriesFrom? fuel path (← Entries.changeAt Entries.openTable path es) (← lineRest? rest)
    | s =>
      let (key, v, rest) ← assignment? (valueWithin nestingLimit) s
      let es ← match header with
        | [] => Entries.assign key v es
        | _ => Entries.changeAt (Entries.assignBelow key v) header es
      entriesFrom? fuel header es (← lineRest? rest)

/-- Reads a document, with or without a byte order mark. -/
def parse? (s : Text) : Option Table :=
  let s := match s with
    | '\ufeff' :: rest => rest
    | _ => s
  (entriesFrom? (s.length + 1) [] [] s).map Node.entriesToTable

end Toml

end DocsMigration
