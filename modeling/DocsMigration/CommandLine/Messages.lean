import DocsMigration.CommandLine.Arguments
import DocsMigration.Migration.Run
/-! What the program says: its help, the report of a migration, and the work that is left to be done
by hand. -/

namespace DocsMigration

namespace CommandLine

def ofLines (ls : List Text) : Text := ls.flatMap (· ++ ['\n'])

def versionText : Text := "docshift 0.1.0\n".toList

def misuseText : Text :=
  ofLines ["error: invalid arguments".toList, [], "For more information, try '--help'.".toList]

def programHelp : Text := ofLines [
  "docshift - MkDocs Material to Hugo/Hextra migration".toList,
  [],
  "Usage: docshift <COMMAND>".toList,
  [],
  "Commands:".toList,
  "  migrate  Migrate a MkDocs site into a Hugo/Hextra site".toList,
  "  convert  Convert one Markdown file and print the result".toList,
  "  help     Print this message or the help of the given subcommand(s)".toList,
  [],
  "Options:".toList,
  "  -h, --help     Print help".toList,
  "  -V, --version  Print version".toList]

def convertHelp : Text := ofLines [
  "Convert one Markdown file and print the result".toList,
  [],
  "Usage: docshift convert [OPTIONS] <FILE>".toList,
  [],
  "Arguments:".toList,
  "  <FILE>  Path to the markdown file".toList,
  [],
  "Options:".toList,
  "  -t, --title <TITLE>    Title used when the file has none (default: derived from file name)".toList,
  "  -w, --weight <WEIGHT>  Sidebar weight written to the front matter [default: 99]".toList,
  "      --no-front-matter  Only rewrite the body, leave front matter untouched".toList,
  "  -h, --help             Print help".toList]

def migrateHelp (env : Environment) : Text := ofLines [
  "Migrate a MkDocs site into a Hugo/Hextra site".toList,
  [],
  "Usage: docshift migrate [OPTIONS]".toList,
  [],
  "Options:".toList,
  "  -s, --source <SOURCE>                  Local MkDocs repository (skips git clone)".toList,
  "  -d, --dest <DEST>                      Hugo site root (default: config directory or current directory)".toList,
  "      --repo-url <REPO_URL>              Repository to clone (overrides config) [env: ".toList ++
    repositoryVariable ++ '=' :: (env.lookup repositoryVariable).getD [] ++ [']'],
  "      --default-weight <DEFAULT_WEIGHT>  Weight of pages missing from the navigation (overrides config)".toList,
  "  -c, --config <CONFIG>                  Path to configuration file (default: auto-discover docshift.toml)".toList,
  "  -v, --verbose                          Enable verbose output (show INFO logs)".toList,
  "  -h, --help                             Print help".toList]

def help (env : Environment) : Topic → Text
  | .program => programHelp
  | .convert => convertHelp
  | .migrate => migrateHelp env

def announcement (c : Config) : List Text := [
  match c.source.path with
  | some p => "Source: ".toList ++ p.text
  | none => "Cloning ".toList ++ c.source.repositoryUrl ++ "...".toList,
  "Hugo root: ".toList ++ c.site.root.text]

def separator : Text := List.replicate 64 '─'

def heading (title : String) : List Text := [[], title.toList, separator]

/-- The lines of a list, or a line that says that it is empty. -/
def orElse (ls : List Text) (empty : String) : List Text := if ls.isEmpty then [empty.toList] else ls

def assetLine (a : CopiedAsset) : Text :=
  "  copied    ".toList ++ a.target.text ++ "  (".toList ++ Text.ofNat a.files ++ " files)".toList

/-- The width that the names of documents are filled up to. -/
def pageColumn : Nat := 45

def pageLine (p : MigratedPage) : Text :=
  "  migrated  ".toList ++ Text.padRight pageColumn p.source ++ " -> ".toList ++ p.destination.text

def headPartialLine (created : Bool) : Text :=
  if created then "  created   ".toList ++ Scaffold.headPartialPath.text
  else "  skipped   ".toList ++ Scaffold.headPartialPath.text ++ "  (already exists)".toList

def reportLines (r : Report) : List Text :=
  heading "Navigation" ++
  ["  Found ".toList ++ Text.ofNat r.navigationSize ++ " navigation entries".toList] ++
  heading "Static assets" ++
  orElse (r.assets.map assetLine) "  No assets found" ++
  [headPartialLine r.headPartialCreated] ++
  heading "Markdown files" ++
  r.pages.map pageLine ++
  heading "Section indexes" ++
  orElse (r.sectionsCreated.map fun p => "  created   ".toList ++ p.text)
    "  All section indexes already exist" ++
  heading "Migration complete" ++
  ["  Migrated : ".toList ++ Text.ofNat r.pages.length ++ " Markdown files".toList,
    "  Hugo root: ".toList ++ r.siteRoot.text] ++
  (r.clonedFrom.map fun url =>
    "  Source   : ".toList ++ url ++ " (temporary clone removed)".toList).toList

structure ReviewItem where
  subject : Text
  remarks : List Text

def reviewItems : List ReviewItem := [
  ⟨"assets/css/custom.css".toList, [
    "Uses Material-theme selectors (.md-typeset, .md-admonition, ...) that".toList,
    "don't exist in Hextra. Update colour variables and replace them.".toList]⟩,
  ⟨"static/js/extra.js".toList, [
    "Queries '.md-content h1' and similar. Update selectors to Hextra's".toList,
    "markup (e.g. '.content h1') for AOS to work.".toList]⟩,
  ⟨"content/_index.md (home page)".toList, [
    "Uses AOS <div> wrappers and Markdown in HTML. The hextra-home layout".toList,
    "differs from MkDocs Material; consider Hextra card/hero shortcodes.".toList]⟩,
  ⟨":material-*: icons".toList, [
    "Stripped during migration. Replace with text, emoji, or".toList,
    "\x7b\x7b< icon \"name\" >\x7d\x7d where applicable.".toList]⟩,
  ⟨"network-topology-diagram.html".toList, [
    "Copied to static/projects/. Links to it are left as-is;".toList,
    "verify the URL resolves once the site is running.".toList]⟩,
  ⟨"Build the site".toList, ["hugo server -D".toList]⟩]

def reviewLinesFrom : Nat → List ReviewItem → List Text
  | _, [] => []
  | number, item :: rest =>
    ("  ".toList ++ Text.ofNat number ++ ". ".toList ++ item.subject) ::
      item.remarks.map ("     ".toList ++ ·) ++ reviewLinesFrom (number + 1) rest

def reviewLines : List Text := heading "Manual review needed" ++ reviewLinesFrom 1 reviewItems

end CommandLine

end DocsMigration
