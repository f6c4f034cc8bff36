import DocsMigration.Migration.Assets
import DocsMigration.Migration.Checkout
import DocsMigration.Migration.Documents
import DocsMigration.Migration.Route
import DocsMigration.Migration.Scaffold
import DocsMigration.Navigation
/-! The migration of a site. After the source has been found complete, the assets are copied, then the
head partial is written, then every document is converted, and at last the sections get their index
pages. The documents are converted by tasks that are executed in some order. -/

namespace DocsMigration

structure MigratedPage where
  source : Text
  destination : Path
  title : Text
  weight : Nat
deriving DecidableEq, Repr

structure Report where
  siteRoot : Path
  clonedFrom : Option Text
  navigationSize : Nat
  pages : List MigratedPage
  assets : List CopiedAsset
  sectionsCreated : List Path
  headPartialCreated : Bool
deriving DecidableEq, Repr

namespace Migration

def loadNavigation (p : Path) (d : Disk) (cwd : Location) : Except MigrationError Navigation := do
  let text ← (d.readText cwd p).mapError (.unreadableNavigation p)
  match Navigation.parse? text with
  | some n => .ok n
  | none => .error .malformedNavigation

/-- Converts a document and writes it to its place on the site. -/
def migratePage (c : Config) (n : Navigation) (doc : Document) : MigrationWork MigratedPage := do
  let info := n.pageMeta doc.relPath c.site.defaultWeight
  let text ← MigrationWork.reportedAt doc.path (Work.inspect (·.readText · doc.path))
  let page := c.rewriters.convert text info
  let destination := Route.destination doc.relPath c.site.homePage
  let target := c.site.root.join destination
  MigrationWork.makeHolder target
  MigrationWork.reportedAt target (Work.writeText target page)
  return ⟨doc.relPath, destination, info.title, info.weight⟩

/-- How the tasks of the pages are executed: in which order they are begun, and how many of them are still
executed after one has failed. -/
structure Schedule where
  order : List Document → List Document
  perm : ∀ found, (order found).Perm found
  late : Nat

/-- The tasks are executed as their documents are listed, up to one that fails. -/
def Schedule.listed : Schedule := ⟨id, fun _ => .refl _, 0⟩

/-- Executes tasks one after the other. When one fails, `late` of those behind it are still executed,
whatever comes of them. -/
def executeAll (task : Document → MigrationWork MigratedPage) (late : Nat) :
    List Document → MigrationWork (List MigratedPage)
  | [] => pure []
  | doc :: rest => do
    match ← Work.attempt (task doc) with
    | .ok page => return page :: (← executeAll task late rest)
    | .error e => do
      (rest.take late).forM fun doc => do let _ ← Work.attempt (task doc)
      throw e

def collect (found : List Document) (pages : List MigratedPage) : List MigratedPage :=
  found.filterMap fun doc => pages.find? (·.source == doc.relPath)

/-- Migrates the site from a checkout. -/
def runFrom (schedule : Schedule) (c : Config) (checkout : Checkout) : MigrationWork Report := do
  let docs := checkout.root.join ⟨c.source.docsDirectory⟩
  let navigationFile := checkout.root.join ⟨c.source.navigationFile⟩
  if !(← Work.ask (·.isDirectory · docs)) then throw (.missingDocs docs)
  if !(← Work.ask (·.isFile · navigationFile)) then throw (.missingNavigation navigationFile)
  let navigation ← Work.inspect (loadNavigation navigationFile)
  let assets ← CopiedAsset.copyAll docs c.site.root c.assets
  let headPartialCreated ← Scaffold.createHeadPartial c.site.root
  let found ← Document.findAll docs
  let pages ← executeAll (migratePage c navigation) schedule.late (schedule.order found)
  let sections ← c.sections.mapM (Scaffold.createSectionIndex c.site.root)
  return ⟨c.site.root, checkout.url?, navigation.size, collect found pages, assets,
    sections.filterMap id, headPartialCreated⟩

/-- Migrates the site as configured, with the tasks of the pages executed on a schedule. -/
def runBy (schedule : Schedule) (repositories : Repositories) (c : Config) : MigrationWork Report :=
  Checkout.withCheckout repositories c.source (runFrom schedule c)

def run (repositories : Repositories) (c : Config) : MigrationWork Report :=
  runBy .listed repositories c

end Migration

end DocsMigration
