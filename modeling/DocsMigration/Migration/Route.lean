import DocsMigration.Files.Path
/-! Where a document goes on the site: it keeps its path below the docs section, and the top page can
become the home page instead. -/

namespace DocsMigration

namespace Route

def contentDirectory : Path := ⟨"content".toList⟩

def docsSection : Path := ⟨"docs".toList⟩

def topPage : Text := "index.md".toList

def homePage : Path := ⟨"_index.md".toList⟩

def destination (relPath : Text) (toHomePage : Bool) : Path :=
  if toHomePage && relPath == topPage then contentDirectory.join homePage
  else (Text.splitAt '/' relPath).foldl (fun p part => p.join ⟨part⟩)
    (contentDirectory.join docsSection)

end Route

end DocsMigration
