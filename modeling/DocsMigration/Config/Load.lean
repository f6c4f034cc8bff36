import DocsMigration.Config.Expansion
import DocsMigration.Config.Reading
import DocsMigration.Config.Validation
import DocsMigration.Files.Workspace
/-! Loading a configuration. It comes from a given file, or else from the nearest file of the usual
name in the working directory and its ancestors, or else it is the standard one. Paths in it are
resolved against the directory of the file. Overrides are applied before the settings are checked. -/

namespace DocsMigration

inductive ConfigError where
  | notFound (p : Path)
  | unreadable (cause : FileError)
  | malformed
  | invalid (problem : Config.Problem)
  | unsetVariable (field name : Text)
deriving DecidableEq, Repr

namespace ConfigError

def message : ConfigError → Text
  | .notFound p => "Configuration file not found: ".toList ++ p.text
  | .unreadable cause => "I/O error: ".toList ++ cause.message
  | .malformed => "TOML parse error".toList
  | .invalid problem => "Configuration error: ".toList ++ problem.message
  | .unsetVariable field name =>
    "Environment variable error in ".toList ++ field ++ ": $\x7b".toList ++ name ++
      "\x7d not set".toList

end ConfigError

namespace Config

def fileName : Path := ⟨"docshift.toml".toList⟩

def inField (field : String) (result : Except Text Text) : Except ConfigError Text :=
  result.mapError (.unsetVariable field.toList)

def resolveSource (env : Environment) (directory : Path) (s : FileSource) :
    Except ConfigError SourceSettings := do
  let url ← match s.repositoryUrl with
    | some url => inField "source.repo_url" (Expansion.expand env url)
    | none => pure defaultRepositoryUrl
  let path ← match s.path with
    | some p => do pure (some (directory.join ⟨← inField "source.path" (Expansion.expandPath env p)⟩))
    | none => pure none
  return ⟨url, path, s.docsDirectory.getD defaultDocsDirectory,
    s.navigationFile.getD defaultNavigationFile⟩

def resolveSite (env : Environment) (directory : Path) (s : FileSite) :
    Except ConfigError SiteSettings := do
  let root ← match s.root with
    | some root => do pure (directory.join ⟨← inField "site.root" (Expansion.expandPath env root)⟩)
    | none => pure directory
  return ⟨root, s.defaultWeight.getD defaultWeight, s.homePage.getD true⟩

def ofFile (env : Environment) (w : Workspace) (p : Path) : Except ConfigError Config := do
  let text ← (w.disk.readText w.cwd p).mapError .unreadable
  match FileSettings.parse? text with
  | none => .error .malformed
  | some s =>
    let directory := p.parent?.getD ⟨Path.currentName⟩
    let source ← resolveSource env directory s.source
    let site ← resolveSite env directory s.site
    return ⟨source, site, s.rewriters, s.sections, s.assets, some p⟩

/-- The nearest configuration file, from the working directory upwards. -/
def discover? (w : Workspace) : Option Path :=
  if w.disk.isDirectoryAt w.cwd then
    (w.cwd.toPath.ancestors.map (·.join fileName)).find? (w.disk.pathExists w.cwd)
  else none

def standardHere (w : Workspace) : Config :=
  standard (if w.disk.isDirectoryAt w.cwd then w.cwd.toPath else ⟨[]⟩)

def read (env : Environment) (w : Workspace) (file : Option Path) : Except ConfigError Config :=
  match file with
  | some p => if w.disk.pathExists w.cwd p then ofFile env w p else .error (.notFound p)
  | none => match discover? w with
    | some p => ofFile env w p
    | none => .ok (standardHere w)

def load (env : Environment) (w : Workspace) (file : Option Path) (overrides : Overrides) :
    Except ConfigError Config := do
  let c := overrides.apply (← read env w file)
  (validate c).mapError .invalid
  return c

end Config

end DocsMigration
