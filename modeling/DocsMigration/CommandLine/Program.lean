import DocsMigration.CommandLine.Messages
/-! The program as a whole: from its arguments and environment to what it prints, its exit status and
what becomes of the disk. A converted page goes to the standard output, and everything said about the
work to the error output. -/

namespace DocsMigration

namespace CommandLine

structure Outcome where
  exit : Nat
  output : Text
  errors : Text
deriving DecidableEq, Repr

namespace Outcome

def failure (before : List Text) (message : Text) : Outcome :=
  ⟨1, [], ofLines (before ++ ["Error: ".toList ++ message])⟩

end Outcome

inductive ConvertError where
  | zeroWeight
  | unreadable (cause : FileError)
deriving DecidableEq, Repr

namespace ConvertError

def message : ConvertError → Text
  | .zeroWeight => "--weight must be greater than 0".toList
  | .unreadable cause => cause.message

end ConvertError

def titleOf (file : Path) : Text := Title.ofStem ((file.fileName?.map Name.stem).getD [])

def convertPage (w : Workspace) (a : ConvertArguments) : Except ConvertError Text := do
  if a.weight = 0 then .error .zeroWeight
  let text ← (w.disk.readText w.cwd a.file).mapError .unreadable
  let rewriters : Markdown.Rewriters := {}
  return if a.frontMatter then rewriters.convert text ⟨a.title.getD (titleOf a.file), a.weight⟩
    else rewriters.convertBody text

def runConvert (w : Workspace) (a : ConvertArguments) : Outcome :=
  match convertPage w a with
  | .ok page => ⟨0, page, []⟩
  | .error e => .failure [] e.message

def runMigrate (env : Environment) (repositories : Repositories) (a : MigrateArguments) :
    StateM Workspace Outcome := do
  match Config.load env (← get) a.config a.overrides with
  | .error e => return .failure [] e.message
  | .ok c =>
    match ← (Migration.run repositories c).run with
    | .error e => return .failure (announcement c) e.message
    | .ok report => return ⟨0, [], ofLines (announcement c ++ reportLines report ++ reviewLines)⟩

def run (env : Environment) (repositories : Repositories) (args : List Text) :
    StateM Workspace Outcome := do
  match parse env args with
  | .error .misuse => return ⟨2, [], misuseText⟩
  | .error (.help topic) => return ⟨0, help env topic, []⟩
  | .error .version => return ⟨0, versionText, []⟩
  | .ok (.convert a) => return runConvert (← get) a
  | .ok (.migrate a) => runMigrate env repositories a

end CommandLine

end DocsMigration
