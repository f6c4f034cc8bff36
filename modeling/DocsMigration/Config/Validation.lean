import DocsMigration.Config.Settings
import DocsMigration.Text.Whitespace
/-! What settings have to satisfy: paths inside the repository and the site stay inside them, texts
that have to say something are not blank, and weights are positive. The first problem found is the
one that is reported. -/

namespace DocsMigration

namespace Config

inductive Problem where
  | blank (field : Text)
  | outside (field value : Text)
  | unsupportedUrl (field : Text)
  | zero (field : Text)
deriving DecidableEq, Repr

namespace Problem

def message : Problem → Text
  | .blank field => field ++ " cannot be empty".toList
  | .outside field value => field ++ " must be a relative path without '..': ".toList ++ value
  | .unsupportedUrl field =>
    field ++ " must start with http://, https://, git@ or file://".toList
  | .zero field => field ++ " must be greater than 0".toList

end Problem

abbrev Check := Except Problem Unit

def checkFilled (field value : Text) : Check :=
  if Text.isBlank value then .error (.blank field) else .ok ()

def isInside (p : Path) : Bool := !p.isAbsolute && !p.hasParentStep

/-- A path has to be relative and may not step up to a parent directory. -/
def checkInside (field value : Text) : Check := do
  checkFilled field value
  if isInside ⟨value⟩ then .ok () else .error (.outside field value)

def urlStarts : List Text := ["http://".toList, "https://".toList, "git@".toList, "file://".toList]

def checkUrl (field value : Text) : Check := do
  checkFilled field value
  if urlStarts.any (Text.startsWith value) then .ok () else .error (.unsupportedUrl field)

def checkPositive (field : Text) (n : Nat) : Check :=
  if n = 0 then .error (.zero field) else .ok ()

def itemField (list : String) (place : Nat) (field : String) : Text :=
  list.toList ++ '[' :: Text.ofNat place ++ "].".toList ++ field.toList

def checkSource (s : SourceSettings) : Check := do
  checkInside "source.docs_dir".toList s.docsDirectory
  checkInside "source.nav_file".toList s.navigationFile
  if s.path.isNone then checkUrl "source.repo_url".toList s.repositoryUrl

def checkSections : Nat → List Section → Check
  | _, [] => .ok ()
  | place, s :: rest => do
    checkInside (itemField "sections" place "path") s.path
    checkFilled (itemField "sections" place "title") s.title
    checkPositive (itemField "sections" place "weight") s.weight
    checkSections (place + 1) rest

def checkAssets : Nat → List Asset → Check
  | _, [] => .ok ()
  | place, a :: rest => do
    checkInside (itemField "assets" place "from") a.source
    checkInside (itemField "assets" place "to") a.target
    checkAssets (place + 1) rest

/-- Checks all settings. The repository's URL does not matter if a local checkout is given. -/
def validate (c : Config) : Check := do
  checkSource c.source
  checkPositive "site.default_weight".toList c.site.defaultWeight
  checkSections 0 c.sections
  checkAssets 0 c.assets

end Config

end DocsMigration
