import DocsMigration.Config.Settings
import DocsMigration.Toml.Document
/-! The settings as a configuration file has them, before anything is expanded or resolved. Every
setting may be left out, apart from those that make up a section or an asset; settings of another
name are allowed and have no effect. -/

namespace DocsMigration

namespace Config

structure FileSource where
  repositoryUrl : Option Text
  path : Option Text
  docsDirectory : Option Text
  navigationFile : Option Text
deriving DecidableEq, Repr

structure FileSite where
  root : Option Text
  defaultWeight : Option Nat
  homePage : Option Bool
deriving DecidableEq, Repr

structure FileSettings where
  source : FileSource
  site : FileSite
  rewriters : Markdown.Rewriters
  sections : List Section
  assets : List Asset
deriving DecidableEq, Repr

abbrev Fields := Text → Nat → Option Toml.Value

/-- Reads a field by its name or place, if it is there; a value of the wrong kind is refused. -/
def Fields.optional? {α : Type} (fs : Fields) (name : String) (place : Nat)
    (read : Toml.Value → Option α) : Option (Option α) :=
  match fs name.toList place with
  | none => some none
  | some v => (read v).map some

def Fields.required? {α : Type} (fs : Fields) (name : String) (place : Nat)
    (read : Toml.Value → Option α) : Option α := (fs name.toList place).bind read

namespace FileSettings

def source? (v : Toml.Value) : Option FileSource := do
  let fs : Fields ← v.fields?
  return ⟨← fs.optional? "repo_url" 0 Toml.Value.string?, ← fs.optional? "path" 1 Toml.Value.string?,
    ← fs.optional? "docs_dir" 2 Toml.Value.string?, ← fs.optional? "nav_file" 3 Toml.Value.string?⟩

def site? (v : Toml.Value) : Option FileSite := do
  let fs : Fields ← v.fields?
  return ⟨← fs.optional? "root" 0 Toml.Value.string?,
    ← fs.optional? "default_weight" 1 Toml.Value.natural?,
    ← fs.optional? "home_page" 2 Toml.Value.boolean?⟩

def rewriters? (v : Toml.Value) : Option Markdown.Rewriters := do
  let fs : Fields ← v.fields?
  let flag? (name : String) (place : Nat) : Option Bool :=
    (fs.optional? name place Toml.Value.boolean?).map (·.getD true)
  return ⟨← flag? "admonitions" 0, ← flag? "tabs" 1, ← flag? "links" 2, ← flag? "attrs" 3,
    ← flag? "icons" 4, ← flag? "images" 5⟩

def section? (v : Toml.Value) : Option Section := do
  let fs : Fields ← v.fields?
  return ⟨← fs.required? "path" 0 Toml.Value.string?, ← fs.required? "title" 1 Toml.Value.string?,
    ← fs.required? "weight" 2 Toml.Value.natural?⟩

def asset? (v : Toml.Value) : Option Asset := do
  let fs : Fields ← v.fields?
  return ⟨← fs.required? "from" 0 Toml.Value.string?, ← fs.required? "to" 1 Toml.Value.string?,
    (← fs.optional? "replace" 2 Toml.Value.boolean?).getD false⟩

def list? {α : Type} (read : Toml.Value → Option α) (v : Toml.Value) : Option (List α) :=
  v.array?.bind (·.mapM read)

def ofTable? (t : Toml.Table) : Option FileSettings := do
  let fs : Fields := fun name _ => t.lookup name
  return ⟨(← fs.optional? "source" 0 source?).getD ⟨none, none, none, none⟩,
    (← fs.optional? "site" 1 site?).getD ⟨none, none, none⟩,
    (← fs.optional? "convert" 2 rewriters?).getD {},
    (← fs.optional? "sections" 3 (list? section?)).getD defaultSections,
    (← fs.optional? "assets" 4 (list? asset?)).getD defaultAssets⟩

def parse? (s : Text) : Option FileSettings := (Toml.parse? s).bind ofTable?

end FileSettings

end Config

end DocsMigration
