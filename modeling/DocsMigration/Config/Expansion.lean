import DocsMigration.Text.Alphanumeric
/-! References to environment variables inside settings. A reference in braces may give a default.
Once a setting has a reference in braces, a bare reference in it is expanded as well, and two dollar
signs stand for one; a setting without braces is left alone. -/

namespace DocsMigration

abbrev Environment := List (Text × Text)

namespace Expansion

def isNameChar (c : Char) : Bool := Text.isAlphanumeric c || c == '_'

def splitDefault? : Text → Option (Text × Text)
  | ':' :: '-' :: s => some ([], s)
  | c :: s => (splitDefault? s).map fun (name, value) => (c :: name, value)
  | [] => none

/-- What is between braces: the name of a variable and perhaps a default. A name is not empty if a
default follows it. -/
def reference (inside : Text) : Text × Option Text :=
  match splitDefault? inside with
  | some ([], _) => (inside, none)
  | some (name, value) => (name, some value)
  | none => (inside, none)

/-- The value of a reference, or the name of the variable that is missing. -/
def valueOf (env : Environment) (name : Text) (default : Option Text) : Except Text Text :=
  match env.lookup name, default with
  | some value, _ => .ok value
  | none, some value => .ok value
  | none, none => .error name

/-- Expands the references in the text behind the first `skip` characters, which belong to a
reference already expanded. Fails with the name of the first variable that is missing. -/
def expandFrom (env : Environment) : Nat → Text → Except Text Text
  | _, [] => .ok []
  | skip + 1, _ :: s => expandFrom env skip s
  | 0, c :: s =>
    if c ≠ '$' then (expandFrom env 0 s).map (c :: ·)
    else match s with
      | '{' :: rest =>
        match Text.splitOnce? '}' rest with
        | some (inside, _) =>
          match valueOf env (reference inside).1 (reference inside).2 with
          | .ok value => (expandFrom env (inside.length + 2) s).map (value ++ ·)
          | .error name => .error name
        | none => (expandFrom env 1 s).map ("$\x7b".toList ++ ·)
      | '$' :: _ => (expandFrom env 1 s).map ('$' :: ·)
      | _ =>
        let name := s.takeWhile isNameChar
        if name.isEmpty then (expandFrom env 0 s).map ('$' :: ·)
        else match valueOf env name none with
          | .ok value => (expandFrom env name.length s).map (value ++ ·)
          | .error name => .error name

def expand (env : Environment) (s : Text) : Except Text Text :=
  if Text.contains s "$\x7b".toList then expandFrom env 0 s else .ok s

/-- Expands a tilde for the home directory at the start of a path. -/
def expandHome (env : Environment) (s : Text) : Text :=
  match s with
  | '~' :: rest =>
    if rest.isEmpty || rest.head? == some '/' then
      match env.lookup "HOME".toList with
      | some home => if home.isEmpty then s else home ++ rest
      | none => s
    else s
  | _ => s

def expandPath (env : Environment) (s : Text) : Except Text Text :=
  (expand env s).map (expandHome env)

end Expansion

end DocsMigration
