/-! Texts are lists of characters, so that every pass over a page is a recursion on its text. A text
is cut at a separator or after each line feed, and both cuts lose nothing: joining the parts gives
the text back. -/

namespace DocsMigration

abbrev Text := List Char

namespace Text

/-- The parts between the separators; there is one more part than there are separators. -/
def splitAt (sep : Char) : Text → List Text
  | [] => [[]]
  | c :: s =>
    if c = sep then [] :: splitAt sep s
    else match splitAt sep s with
      | [] => [[c]]
      | part :: parts => (c :: part) :: parts

def lines (s : Text) : List Text := splitAt '\n' s

def unlines (ls : List Text) : Text := List.intercalate ['\n'] ls

/-- The lines of a text, each with its own line feed; only the last may lack one. -/
def fullLines : Text → List Text
  | [] => []
  | c :: s =>
    if c = '\n' then ['\n'] :: fullLines s
    else match fullLines s with
      | [] => [[c]]
      | line :: rest => (c :: line) :: rest

/-- Every carriage return that stands before a line feed is dropped. -/
def normalizeNewlines : Text → Text
  | [] => []
  | '\r' :: '\n' :: s => '\n' :: normalizeNewlines s
  | c :: s => c :: normalizeNewlines s

def stripPrefix? (pre s : Text) : Option Text := List.isPrefixOf? pre s

def stripSuffix? (suf s : Text) : Option Text := List.isSuffixOf? suf s

def startsWith (s pre : Text) : Bool := pre.isPrefixOf s

def endsWith (s suf : Text) : Bool := suf.isSuffixOf s

def contains (s part : Text) : Bool :=
  match s with
  | [] => part.isEmpty
  | _ :: rest => part.isPrefixOf s || contains rest part

def splitOnce? (sep : Char) : Text → Option (Text × Text)
  | [] => none
  | c :: s =>
    if c = sep then some ([], s)
    else (splitOnce? sep s).map fun (before, after) => (c :: before, after)

def splitLast? (sep : Char) (s : Text) : Option (Text × Text) :=
  (splitOnce? sep s.reverse).map fun (after, before) => (before.reverse, after.reverse)

def ofNat (n : Nat) : Text := Nat.toDigits 10 n

def utf8Size (s : Text) : Nat := s.foldl (fun size c => size + c.utf8Size) 0

def padRight (width : Nat) (s : Text) : Text := s ++ List.replicate (width - s.length) ' '

theorem splitAt_ne_nil (sep : Char) (s : Text) : splitAt sep s ≠ [] := by
  induction s with
  | nil => simp [splitAt]
  | cons c s ih =>
    simp only [splitAt]
    split
    · simp
    · split <;> simp

theorem unlines_cons (l : Text) {ls : List Text} (h : ls ≠ []) :
    unlines (l :: ls) = l ++ '\n' :: unlines ls := by
  cases ls with
  | nil => exact absurd rfl h
  | cons m ms => simp [unlines, List.intercalate]

theorem unlines_lines (s : Text) : unlines (lines s) = s := by
  induction s with
  | nil => rfl
  | cons c s ih =>
    unfold lines at ih ⊢
    simp only [splitAt]
    split
    · rw [unlines_cons _ (splitAt_ne_nil _ _), ih]; simp_all
    · split
      · exact absurd ‹_› (splitAt_ne_nil _ _)
      · rename_i part parts heq
        rw [heq] at ih
        cases parts with
        | nil => simpa [unlines, List.intercalate] using ih
        | cons m ms =>
          rw [unlines_cons _ (by simp)] at ih ⊢
          simp [ih]

theorem flatten_fullLines (s : Text) : (fullLines s).flatten = s := by
  induction s with
  | nil => rfl
  | cons c s ih =>
    simp only [fullLines]
    split
    · simp_all
    · split <;> simp_all

end Text

end DocsMigration
