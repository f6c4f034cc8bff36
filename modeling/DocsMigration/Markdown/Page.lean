import DocsMigration.Markdown.Admonition
import DocsMigration.Markdown.Annotation
import DocsMigration.Markdown.FrontMatter
import DocsMigration.Markdown.Image
import DocsMigration.Markdown.Tabs
/-! Converting a page. The rewriters run in a fixed order, blocks first. Links come before icons, so
that the label of a link is still whole when its target is rewritten; the front matter comes
last. -/

namespace DocsMigration

namespace Markdown

structure Rewriters where
  admonitions : Bool := true
  tabs : Bool := true
  links : Bool := true
  attributes : Bool := true
  icons : Bool := true
  images : Bool := true
deriving DecidableEq, Repr

structure PageMeta where
  title : Text
  weight : Nat
deriving DecidableEq, Repr

namespace Rewriters

def selected (r : Rewriters) : List (Text → Text) :=
  (if r.admonitions then [Admonition.convert] else []) ++
  (if r.tabs then [Tabs.convert] else []) ++
  (if r.links then [Link.convert] else []) ++
  (if r.attributes then [ButtonAttributes.strip] else []) ++
  (if r.icons then [Icon.strip] else []) ++
  (if r.images then [Image.convert] else [])

/-- Rewrites a page without merging its front matter. Line ends are made line feeds first. -/
def convertBody (r : Rewriters) (s : Text) : Text :=
  r.selected.foldl (fun t rewrite => rewrite t) (Text.normalizeNewlines s)

def convert (r : Rewriters) (s : Text) (m : PageMeta) : Text :=
  FrontMatter.merge (r.convertBody s) m.title m.weight

end Rewriters

end Markdown

end DocsMigration
