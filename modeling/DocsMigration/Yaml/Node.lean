import DocsMigration.Yaml.Token
/-! The nodes of a YAML document and their grammar. An anchor is a number: that of the names in use
when it is set. Setting a name again gives it a new number, which a later name may share, and an
alias means the last node that carries its number. -/

namespace DocsMigration

namespace Yaml

inductive Node where
  | alias (id : Nat)
  | scalar (anchor : Option Nat) (tag : Option Text) (plain : Bool) (text : Text)
  | sequence (anchor : Option Nat) (tag : Option Text) (items : List Node)
  | mapping (anchor : Option Nat) (tag : Option Text) (entries : List (Node × Node))
deriving Repr

/-- What tag handles stand for, as the default or a directive has it. -/
abbrev Handles := List (Text × Text)

def defaultHandles : Handles :=
  [("!".toList, "!".toList), ("!!".toList, "tag:yaml.org,2002:".toList)]

/-- The tokens still to be read, the names of the anchors and the meanings of the handles. -/
structure Grammar.State where
  tokens : List Token
  anchors : List (Text × Nat)
  handles : Handles

namespace Grammar

abbrev Rule := StateT State Option

def peek : Rule (Option Token) := do return (← get).tokens.head?

def skip : Rule Unit := modify fun s => { s with tokens := s.tokens.drop 1 }

def expect (t : Token) : Rule Unit := do
  guard ((← peek) == some t)
  skip

def at? (ts : List Token) : Rule Bool := do
  match ← peek with
  | some t => return ts.contains t
  | none => return true

def emptyScalar : Node := .scalar none none true []

def setAnchor (name : Text) : Rule Nat := do
  let s ← get
  let id := s.anchors.length
  let rest := s.anchors.filter fun a => a.1 != name
  set { s with anchors := (name, id) :: rest }
  return id

def resolveTag (t : Tag) : Rule Text := do
  if t.handle.isEmpty then return t.suffix
  match (← get).handles.lookup t.handle with
  | some leading => return leading ++ t.suffix
  | none => failure

structure Properties where
  anchor : Option Text
  tag : Option Tag

def anchor? : Rule (Option Text) := do
  match ← peek with
  | some (.anchor name) => skip; return some name
  | _ => return none

def tag? : Rule (Option Tag) := do
  match ← peek with
  | some (.tag t) => skip; return some t
  | _ => return none

def properties : Rule Properties := do
  match ← anchor? with
  | some name => return ⟨some name, ← tag?⟩
  | none =>
    match ← tag? with
    | some t => return ⟨← anchor?, some t⟩
    | none => return ⟨none, none⟩

/-- Where a node stands: in a block, as the value or key of a block mapping, where a sequence needs
no further indentation, or in a flow collection. -/
inductive Place where
  | block
  | blockEntry
  | flow
deriving DecidableEq

mutual

def node (fuel : Nat) (place : Place) : Rule Node :=
  match fuel with
  | 0 => failure
  | fuel + 1 => do
    match ← peek with
    | some (.alias name) =>
      skip
      match (← get).anchors.lookup name with
      | some id => return .alias id
      | none => failure
    | _ =>
      let p ← properties
      let tag ← p.tag.mapM resolveTag
      let next ← peek
      let anchor ← p.anchor.mapM setAnchor
      match next with
      | some (.scalar plain text) =>
        skip
        return .scalar anchor (if tag = some ['!'] then none else tag) plain text
      | some .flowSequenceStart => skip; return .sequence anchor tag (← flowItems fuel true)
      | some .flowMappingStart => skip; return .mapping anchor tag (← flowEntries fuel true)
      | some .blockSequenceStart =>
        guard (place != .flow)
        skip
        return .sequence anchor tag (← blockItems fuel)
      | some .blockMappingStart =>
        guard (place != .flow)
        skip
        return .mapping anchor tag (← blockEntries fuel)
      | some .blockEntry =>
        if place = .blockEntry then return .sequence anchor tag (← plainItems fuel)
        else
          guard (p.anchor.isSome || p.tag.isSome)
          return .scalar anchor tag true []
      | _ =>
        guard (p.anchor.isSome || p.tag.isSome)
        return .scalar anchor tag true []
termination_by structural fuel

/-- The node behind an indicator, which is empty in front of the given tokens. -/
def nodeUnless (fuel : Nat) (place : Place) (ends : List Token) : Rule Node :=
  match fuel with
  | 0 => failure
  | fuel + 1 => do
    if ← at? ends then return emptyScalar else node fuel place
termination_by structural fuel

def blockItems (fuel : Nat) : Rule (List Node) :=
  match fuel with
  | 0 => failure
  | fuel + 1 => do
    match ← peek with
    | some .blockEntry =>
      skip
      let item ← nodeUnless fuel .block [.blockEntry, .blockEnd]
      return item :: (← blockItems fuel)
    | some .blockEnd => skip; return []
    | _ => failure
termination_by structural fuel

/-- The items of a sequence that is indented like the mapping around it. -/
def plainItems (fuel : Nat) : Rule (List Node) :=
  match fuel with
  | 0 => failure
  | fuel + 1 => do
    match ← peek with
    | some .blockEntry =>
      skip
      let item ← nodeUnless fuel .block [.blockEntry, .key, .value, .blockEnd]
      return item :: (← plainItems fuel)
    | _ => return []
termination_by structural fuel

def blockEntries (fuel : Nat) : Rule (List (Node × Node)) :=
  match fuel with
  | 0 => failure
  | fuel + 1 => do
    match ← peek with
    | some .key =>
      skip
      let ends := [Token.key, .value, .blockEnd]
      let k ← nodeUnless fuel .blockEntry ends
      let v ← valueUnless fuel .blockEntry ends
      return (k, v) :: (← blockEntries fuel)
    | some .blockEnd => skip; return []
    | _ => failure
termination_by structural fuel

def valueUnless (fuel : Nat) (place : Place) (ends : List Token) : Rule Node :=
  match fuel with
  | 0 => failure
  | fuel + 1 => do
    if (← peek) == some .value then
      skip
      nodeUnless fuel place ends
    else return emptyScalar
termination_by structural fuel

/-- The items of a flow sequence. A key among them is a mapping of one entry; where its node is
missing, the token in its place is skipped. -/
def flowItems (fuel : Nat) (first : Bool) : Rule (List Node) :=
  match fuel with
  | 0 => failure
  | fuel + 1 => do
    if (← peek) == some .flowSequenceEnd then
      skip
      return []
    if !first then expect .flowEntry
    match ← peek with
    | some .flowSequenceEnd => skip; return []
    | some .key =>
      skip
      let missing ← at? [.value, .flowEntry, .flowSequenceEnd]
      if missing then skip
      let k ← if missing then pure emptyScalar else node fuel .flow
      let v ← valueUnless fuel .flow [.flowEntry, .flowSequenceEnd]
      return .mapping none none [(k, v)] :: (← flowItems fuel false)
    | _ =>
      let item ← node fuel .flow
      return item :: (← flowItems fuel false)
termination_by structural fuel

def flowEntries (fuel : Nat) (first : Bool) : Rule (List (Node × Node)) :=
  match fuel with
  | 0 => failure
  | fuel + 1 => do
    if (← peek) == some .flowMappingEnd then
      skip
      return []
    if !first then expect .flowEntry
    match ← peek with
    | some .flowMappingEnd => skip; return []
    | some .key =>
      skip
      let k ← nodeUnless fuel .flow [.value, .flowEntry, .flowMappingEnd]
      let v ← valueUnless fuel .flow [.flowEntry, .flowMappingEnd]
      return (k, v) :: (← flowEntries fuel false)
    | _ =>
      let k ← node fuel .flow
      return (k, emptyScalar) :: (← flowEntries fuel false)
termination_by structural fuel

end

/-- The directives in front of a document. The version has to be 1.1 or 1.2 and is given at most
once, as is the meaning of a handle. -/
def directives : List Token → Bool → Handles → Option (Handles × List Token)
  | .directive (.version major minor) :: rest, versioned, handles =>
    if versioned || major != 1 || (minor != 1 && minor != 2) then none
    else directives rest true handles
  | .directive (.tag handle leading) :: rest, versioned, handles =>
    if (handles.lookup handle).isSome then none
    else directives rest versioned (handles ++ [(handle, leading)])
  | rest, _, handles => some (handles, rest)

def isDocumentBoundary : Token → Bool
  | .directive _ => true
  | .documentStart => true
  | .documentEnd => true
  | _ => false

def content (fuel : Nat) (marked : Bool) : Rule Node := do
  match ← peek with
  | some t => if marked && isDocumentBoundary t then return emptyScalar else node fuel .block
  | none => if marked then return emptyScalar else failure

end Grammar

/-- The one document of a list of tokens: nothing if there is none, which is no error. -/
def Node.ofTokens? (ts : List Token) : Option (Option Node) := do
  if ts.isEmpty then return none
  let (given, rest) ← Grammar.directives ts false []
  let marked := rest.head? == some Token.documentStart
  guard (marked || rest.length == ts.length)
  let rest := if marked then rest.drop 1 else rest
  let (n, s) ← (Grammar.content (4 * ts.length + 8) marked).run
    ⟨rest, [], given ++ defaultHandles⟩
  guard (s.tokens.all (· == Token.documentEnd))
  return some n

end Yaml

end DocsMigration
