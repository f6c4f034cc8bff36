import DocsMigration.Files.Path
import DocsMigration.Markdown.Page
/-! The settings of a migration, with what they are when nothing is configured. -/

namespace DocsMigration

/-- The source of the documents: a repository, which is cloned unless a local checkout is given. The
two paths in it are relative to its root. -/
structure SourceSettings where
  repositoryUrl : Text
  path : Option Path
  docsDirectory : Text
  navigationFile : Text
deriving DecidableEq, Repr

/-- The site that is written. The weight is that of pages outside the navigation, and `homePage`
makes the top page of the documents the home page of the site. -/
structure SiteSettings where
  root : Path
  defaultWeight : Nat
  homePage : Bool
deriving DecidableEq, Repr

/-- A section of the site that gets an index page; its path is relative to the root of the site. -/
structure Section where
  path : Text
  title : Text
  weight : Nat
deriving DecidableEq, Repr

/-- A file or directory that is copied from the documents into the site, where `replace` clears the
target first. -/
structure Asset where
  source : Text
  target : Text
  replace : Bool
deriving DecidableEq, Repr

structure Config where
  source : SourceSettings
  site : SiteSettings
  rewriters : Markdown.Rewriters
  sections : List Section
  assets : List Asset
  /-- The file the settings come from. -/
  file : Option Path
deriving DecidableEq, Repr

namespace Config

def defaultRepositoryUrl : Text := "https://github.com/moshthesubnet/my-lab-docs.git".toList

def defaultDocsDirectory : Text := "docs".toList

def defaultNavigationFile : Text := "mkdocs.yml".toList

def defaultWeight : Nat := 99

def defaultSections : List Section := [
  ⟨"content/docs".toList, "Documentation".toList, 1⟩,
  ⟨"content/docs/lab".toList, "My Lab".toList, 1⟩,
  ⟨"content/docs/guides".toList, "Guides".toList, 2⟩,
  ⟨"content/docs/projects".toList, "Projects".toList, 3⟩]

def defaultAssets : List Asset := [
  ⟨"assets".toList, "static/assets".toList, true⟩,
  ⟨"projects/network-topology-diagram.html".toList,
    "static/projects/network-topology-diagram.html".toList, false⟩,
  ⟨"stylesheets/extra.css".toList, "assets/css/custom.css".toList, false⟩,
  ⟨"stylesheets/aos.css".toList, "static/css/aos.css".toList, false⟩,
  ⟨"javascripts/aos.js".toList, "static/js/aos.js".toList, false⟩,
  ⟨"javascripts/extra.js".toList, "static/js/extra.js".toList, false⟩]

def standard (root : Path) : Config where
  source := ⟨defaultRepositoryUrl, none, defaultDocsDirectory, defaultNavigationFile⟩
  site := ⟨root, defaultWeight, true⟩
  rewriters := {}
  sections := defaultSections
  assets := defaultAssets
  file := none

end Config

structure Overrides where
  sourcePath : Option Path := none
  siteRoot : Option Path := none
  repositoryUrl : Option Text := none
  defaultWeight : Option Nat := none
deriving DecidableEq, Repr

namespace Overrides

def apply (o : Overrides) (c : Config) : Config :=
  { c with
    source := { c.source with
      path := o.sourcePath.or c.source.path
      repositoryUrl := o.repositoryUrl.getD c.source.repositoryUrl }
    site := { c.site with
      root := o.siteRoot.getD c.site.root
      defaultWeight := o.defaultWeight.getD c.site.defaultWeight } }

end Overrides

end DocsMigration
