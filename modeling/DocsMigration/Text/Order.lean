import DocsMigration.Text.Basic
/-! Sorting by insertion. Texts are ordered by the code points of their characters, the shorter of
two first if it starts the other. -/

namespace DocsMigration

namespace Text

def insertBy {α : Type} (le : α → α → Bool) (x : α) : List α → List α
  | [] => [x]
  | y :: ys => if le x y then x :: y :: ys else y :: insertBy le x ys

/-- The elements in order; equal ones keep their places. -/
def sortBy {α : Type} (le : α → α → Bool) : List α → List α
  | [] => []
  | x :: xs => insertBy le x (sortBy le xs)

def le (s t : Text) : Bool := !List.lex t s fun c d => c.toNat < d.toNat

end Text

end DocsMigration
