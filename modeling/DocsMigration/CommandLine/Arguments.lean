import DocsMigration.Config.Load
/-! The arguments of the command line. Options come in a long form and some in a short one; several
short ones can be joined, and a value can be attached to either form or follow it. Behind two hyphens
nothing is an option. -/

namespace DocsMigration

namespace CommandLine

inductive Topic where
  | program
  | convert
  | migrate
deriving DecidableEq, Repr

inductive Stop where
  | misuse
  | help (topic : Topic)
  | version
deriving DecidableEq, Repr

inductive ValueKind where
  | text
  | path
  | number
deriving DecidableEq, Repr

/-- A natural of at most 32 bits, with or without a sign. -/
def number? (s : Text) : Option Nat :=
  let negative := s.head? == some '-'
  let digits := match s with
    | '+' :: ds => ds
    | '-' :: ds => ds
    | ds => ds
  if digits.all Char.isDigit then
    (Text.naturalOf? 10 digits).filter fun n => n < 4294967296 && (!negative || n == 0)
  else none

namespace ValueKind

def accepts : ValueKind → Text → Bool
  | .text, _ => true
  | .path, s => !s.isEmpty
  | .number, s => (number? s).isSome

end ValueKind

/-- An option; one without a kind of value is a flag. -/
structure OptionForm where
  long : Text
  short : Option Char
  value : Option ValueKind
deriving DecidableEq, Repr

structure Form where
  topic : Topic
  options : List OptionForm
  plain : Nat
deriving DecidableEq, Repr

/-- The arguments read so far; a flag is given with an empty value. -/
structure Given where
  options : List (Text × Text)
  plain : List Text
deriving DecidableEq, Repr

namespace Given

def none : Given := ⟨[], []⟩

def value? (g : Given) (long : String) : Option Text := g.options.lookup long.toList

def has (g : Given) (long : String) : Bool := (g.value? long).isSome

/-- Adds an option, which may be given only once and needs a fitting value. -/
def add (g : Given) (o : OptionForm) (value : Text) : Except Stop Given :=
  if (g.options.lookup o.long).isSome then .error .misuse
  else if (o.value.map (·.accepts value)).getD true then
    .ok { g with options := g.options ++ [(o.long, value)] }
  else .error .misuse

def addPlain (f : Form) (g : Given) (arg : Text) : Except Stop Given :=
  if g.plain.length < f.plain && ValueKind.path.accepts arg then
    .ok { g with plain := g.plain ++ [arg] }
  else .error .misuse

end Given

def isOption (arg : Text) : Bool := arg.head? == some '-' && 1 < arg.length

inductive Pending where
  | nothing
  | valueOf (o : OptionForm)
deriving DecidableEq, Repr

/-- Reads a long option with or without an attached value; `body` is the text behind the hyphens. -/
def readLong (f : Form) (g : Given) (body : Text) : Except Stop (Given × Pending) := do
  let (name, attached) := match Text.splitOnce? '=' body with
    | some (name, value) => (name, some value)
    | none => (body, none)
  match f.options.find? (·.long == name), attached with
  | some o, some value => if o.value.isSome then return (← g.add o value, .nothing) else .error .misuse
  | some o, none => if o.value.isSome then return (g, .valueOf o) else return (← g.add o [], .nothing)
  | none, none => if name = "help".toList then .error (.help f.topic) else .error .misuse
  | none, some _ => .error .misuse

/-- Reads joined short options; what follows one that takes a value is its value. -/
def readShort (f : Form) (g : Given) : Text → Except Stop (Given × Pending)
  | [] => .ok (g, .nothing)
  | c :: rest =>
    match f.options.find? (·.short == some c) with
    | some o =>
      if o.value.isNone then do readShort f (← g.add o []) rest
      else match rest with
        | [] => .ok (g, .valueOf o)
        | '=' :: value => do return (← g.add o value, .nothing)
        | value => do return (← g.add o value, .nothing)
    | none => if c = 'h' then .error (.help f.topic) else .error .misuse

def readArguments (f : Form) (g : Given) (pending : Pending) : List Text → Except Stop Given
  | [] => if pending = .nothing then .ok g else .error .misuse
  | arg :: rest =>
    if arg = "--".toList then
      if pending = .nothing then rest.foldlM (Given.addPlain f) g else .error .misuse
    else match pending, isOption arg with
      | .valueOf _, true => .error .misuse
      | .valueOf o, false => do readArguments f (← g.add o arg) .nothing rest
      | .nothing, false => do readArguments f (← Given.addPlain f g arg) .nothing rest
      | .nothing, true => do
        let (g, pending) ← match Text.stripPrefix? "--".toList arg with
          | some body => readLong f g body
          | none => readShort f g (arg.drop 1)
        readArguments f g pending rest

structure ConvertArguments where
  file : Path
  title : Option Text
  weight : Nat
  frontMatter : Bool
deriving DecidableEq, Repr

structure MigrateArguments where
  overrides : Overrides
  config : Option Path
deriving DecidableEq, Repr

inductive Command where
  | convert (arguments : ConvertArguments)
  | migrate (arguments : MigrateArguments)
deriving DecidableEq, Repr

def convertForm : Form := ⟨.convert, [
  ⟨"title".toList, some 't', some .text⟩,
  ⟨"weight".toList, some 'w', some .number⟩,
  ⟨"no-front-matter".toList, none, none⟩], 1⟩

def migrateForm : Form := ⟨.migrate, [
  ⟨"source".toList, some 's', some .path⟩,
  ⟨"dest".toList, some 'd', some .path⟩,
  ⟨"repo-url".toList, none, some .text⟩,
  ⟨"default-weight".toList, none, some .number⟩,
  ⟨"config".toList, some 'c', some .path⟩,
  ⟨"verbose".toList, some 'v', none⟩], 0⟩

def repositoryVariable : Text := "DOCSHIFT_REPO_URL".toList

def convertCommand (g : Given) : Except Stop Command :=
  match g.plain with
  | file :: _ => .ok (.convert ⟨⟨file⟩, g.value? "title",
      ((g.value? "weight").bind number?).getD Config.defaultWeight, !g.has "no-front-matter"⟩)
  | [] => .error .misuse

def migrateCommand (env : Environment) (g : Given) : Command :=
  .migrate ⟨{
    sourcePath := (g.value? "source").map Path.mk
    siteRoot := (g.value? "dest").map Path.mk
    repositoryUrl := (g.value? "repo-url").or (env.lookup repositoryVariable)
    defaultWeight := (g.value? "default-weight").bind number? }, (g.value? "config").map Path.mk⟩

def topic? (word : Text) : Option Topic :=
  if word = "convert".toList then some .convert
  else if word = "migrate".toList then some .migrate
  else if word = "help".toList then some .program
  else none

def helpOn : List Text → Stop
  | [] => .help .program
  | [word] => match topic? word with
    | some t => .help t
    | none => .misuse
  | _ => .misuse

def parse (env : Environment) : List Text → Except Stop Command
  | [] => .error .misuse
  | word :: rest =>
    match topic? word with
    | some .convert => do convertCommand (← readArguments convertForm Given.none .nothing rest)
    | some .migrate => do
      return migrateCommand env (← readArguments migrateForm Given.none .nothing rest)
    | some .program => .error (helpOn rest)
    | none =>
      if word = "--help".toList || Text.startsWith word "-h".toList then .error (.help .program)
      else if word = "--version".toList || Text.startsWith word "-V".toList then .error .version
      else .error .misuse

end CommandLine

end DocsMigration
