import DocsMigration.Text.Basic
/-! Searching a text from left to right for matches that do not overlap. A matcher looks at the
front of a text and gives the value it found with the text that follows the match; the scan takes
the leftmost match, goes on behind it, and keeps every other character. -/

namespace DocsMigration

namespace Text

abbrev Matcher (α : Type) := Text → Option (α × Text)

/-- A part of a scanned text: a character outside every match, or a match with its source text. -/
inductive Piece (α : Type) where
  | char (c : Char)
  | hit (source : Text) (value : α)
deriving DecidableEq, Repr

namespace Piece

def source {α : Type} : Piece α → Text
  | .char c => [c]
  | .hit s _ => s

def render {α : Type} (f : Text → α → Text) : Piece α → Text
  | .char c => [c]
  | .hit s a => f s a

end Piece

/-- The pieces of a text whose first `skip` characters belong to a match already taken. -/
def piecesFrom {α : Type} (m : Matcher α) : Nat → Text → List (Piece α)
  | _, [] => []
  | skip + 1, _ :: s => piecesFrom m skip s
  | 0, c :: s =>
    match m (c :: s) with
    | none => .char c :: piecesFrom m 0 s
    | some (a, rest) =>
      let width := (c :: s).length - rest.length
      .hit ((c :: s).take width) a :: piecesFrom m (width - 1) s

def pieces {α : Type} (m : Matcher α) (s : Text) : List (Piece α) := piecesFrom m 0 s

def found {α : Type} (m : Matcher α) (s : Text) : List α :=
  (pieces m s).filterMap fun
    | .char _ => none
    | .hit _ a => some a

def replaceAll {α : Type} (m : Matcher α) (f : Text → α → Text) (s : Text) : Text :=
  (pieces m s).flatMap (Piece.render f)

end Text

end DocsMigration
