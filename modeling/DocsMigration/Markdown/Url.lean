import DocsMigration.Text.Basic
/-! References that lead out of the site: a URL with a scheme, or one that names only a host. -/

namespace DocsMigration

namespace Markdown

namespace Url

def isSchemeChar (c : Char) : Bool := c.isAlphanum || c == '+' || c == '-' || c == '.'

/-- A scheme is a letter followed by letters, digits, plus, minus or dot, and ends with a colon. -/
def hasScheme (url : Text) : Bool :=
  match Text.splitOnce? ':' url with
  | some (c :: rest, _) => c.isAlpha && rest.all isSchemeChar
  | _ => false

def isExternal (url : Text) : Bool := Text.startsWith url "//".toList || hasScheme url

end Url

end Markdown

end DocsMigration
