import DocsMigration.Proofs.Delimiters
import DocsMigration.Proofs.MemberRuns
/-! Cutting texts at byte positions that are kept by hand. A position is counted up from the sizes of the
parts in front of it, and a slice can only be taken between two places of its text where no character is
divided. The indentation of a line is cut off behind as many bytes as there are spaces, the YAML and the
body of a page are found at the sizes of its lines, the blank lines of a body are stepped over, and the
sources of image tags are replaced between the end of the last one replaced and the start of the next. All
these positions are places for a cut, in their order, and what is cut out is what the texts themselves
tell. -/

namespace DocsMigration

namespace Text

section Slices

variable {s t a b : Text} {n start stop : Nat}

/-- A byte position at which a text can be cut, that is, its start, its end, or a place between two of its
characters. -/
def IsBoundary (s : Text) (n : Nat) : Prop := ∃ a b, s = a ++ b ∧ utf8Size a = n

def sliceFrom? (start : Nat) (s : Text) : Option Text := (cutAt? start s).map (·.2)

theorem sliceFrom?_append (a b : Text) : sliceFrom? (utf8Size a) (a ++ b) = some b := by
  rw [sliceFrom?, cutAt?_append]
  rfl

theorem cutAt?_eq_some_iff : cutAt? n s = some (a, b) ↔ s = a ++ b ∧ utf8Size a = n := by
  constructor
  · intro h
    fun_induction cutAt? n s generalizing a b with
    | case1 s =>
      obtain ⟨rfl, rfl⟩ := Prod.mk.inj (Option.some.inj h)
      exact ⟨rfl, rfl⟩
    | case2 n => contradiction
    | case3 n c s hfits ih =>
      obtain ⟨⟨front, behind⟩, hcut, heq⟩ := Option.map_eq_some_iff.1 h
      obtain ⟨rfl, rfl⟩ := Prod.mk.inj heq
      obtain ⟨rfl, hsize⟩ := ih hcut
      refine ⟨rfl, ?_⟩
      rw [utf8Size_cons, hsize]
      omega
    | case4 n c s hno => contradiction
  · rintro ⟨rfl, rfl⟩
    exact cutAt?_append a b

theorem isBoundary_iff : IsBoundary s n ↔ (cutAt? n s).isSome := by
  simp [IsBoundary, Option.isSome_iff_exists, cutAt?_eq_some_iff]

theorem IsBoundary.le (h : IsBoundary s n) : n ≤ utf8Size s := by
  obtain ⟨a, b, rfl, rfl⟩ := h
  rw [utf8Size_append]
  exact Nat.le_add_right _ _

theorem slice?_eq_some_iff : slice? start stop s = some t ↔
    ∃ a b, s = a ++ (t ++ b) ∧ utf8Size a = start ∧ utf8Size a + utf8Size t = stop := by
  constructor
  · intro h
    obtain ⟨⟨a, behind⟩, hcut, h⟩ := Option.bind_eq_some_iff.1 h
    dsimp only at h
    split_ifs at h with hle
    obtain ⟨⟨t', b⟩, hcut', rfl⟩ := Option.map_eq_some_iff.1 h
    obtain ⟨rfl, rfl⟩ := cutAt?_eq_some_iff.1 hcut
    obtain ⟨rfl, hstop⟩ := cutAt?_eq_some_iff.1 hcut'
    exact ⟨a, b, rfl, rfl, by dsimp only; omega⟩
  · rintro ⟨a, b, rfl, rfl, rfl⟩
    exact slice?_append a t b

/-- A slice can be taken exactly between two places for a cut, the first of them in front. -/
theorem isSome_slice?_iff :
    (slice? start stop s).isSome ↔ start ≤ stop ∧ IsBoundary s start ∧ IsBoundary s stop := by
  rw [Option.isSome_iff_exists]
  simp only [slice?_eq_some_iff]
  constructor
  · rintro ⟨t, a, b, rfl, rfl, rfl⟩
    refine ⟨Nat.le_add_right _ _, ⟨a, t ++ b, rfl, rfl⟩, a ++ t, b, by simp, utf8Size_append a t⟩
  · rintro ⟨hle, ⟨a, b, rfl, rfl⟩, a', b', heq, rfl⟩
    rcases List.append_eq_append_iff.1 heq with ⟨t, rfl, rfl⟩ | ⟨t, rfl, rfl⟩
    · exact ⟨t, a, b', rfl, rfl, (utf8Size_append a t).symm⟩
    · rw [utf8Size_append] at hle ⊢
      have ht : utf8Size t = 0 := by omega
      exact ⟨[], a' ++ t, b, rfl, utf8Size_append a' t, by
        rw [utf8Size_append, ht]
        rfl⟩

/-- The first character is two bytes long, so there is no cut behind its first byte. -/
example : slice? 0 1 "él".toList = none ∧ slice? 0 2 "él".toList = some "é".toList := by decide

end Slices

section Bytes

/-- The bytes of a text in UTF-8. -/
def bytes (s : Text) : List UInt8 := s.flatMap String.utf8EncodeChar

def spaceByte : UInt8 := 0x20

theorem utf8EncodeChar_cases (c : Char) : (c = ' ' ∧ String.utf8EncodeChar c = [spaceByte]) ∨
    c ≠ ' ' ∧ ∃ x xs, String.utf8EncodeChar c = x :: xs ∧ x ≠ spaceByte := by
  by_cases hc : c = ' '
  · exact .inl ⟨hc, by rw [hc]; rfl⟩
  · have hval : c.val.toNat ≠ 32 := fun h => hc (Char.ext (UInt32.toNat_inj.1 h))
    have hne {n : Nat} (h : n % 256 ≠ 32) : UInt8.ofNat n ≠ spaceByte := by
      intro heq
      have := congrArg UInt8.toNat heq
      simp [spaceByte] at this
      exact h this
    refine .inr ⟨hc, ?_⟩
    rw [String.utf8EncodeChar]
    split_ifs
    · exact ⟨_, _, rfl, hne (by omega)⟩
    · exact ⟨_, _, rfl, hne (by omega)⟩
    · exact ⟨_, _, rfl, hne (by omega)⟩
    · exact ⟨_, _, rfl, hne (by omega)⟩

theorem length_takeWhile_bytes (s : Text) :
    ((bytes s).takeWhile (· == spaceByte)).length = (s.takeWhile (· = ' ')).length := by
  induction s with
  | nil => rfl
  | cons c s ih =>
    have hbytes : bytes (c :: s) = String.utf8EncodeChar c ++ bytes s := rfl
    rcases utf8EncodeChar_cases c with ⟨rfl, henc⟩ | ⟨hc, x, xs, henc, hx⟩
    · rw [hbytes, henc]
      simp [ih]
    · rw [hbytes, henc, List.cons_append, List.takeWhile_cons_of_neg (by simpa using hx),
        List.takeWhile_cons_of_neg (by simpa using hc)]
      rfl

theorem utf8Size_spaces (n : Nat) : utf8Size (List.replicate n ' ') = n := by
  induction n with
  | zero => rfl
  | succ n ih =>
    have hspace : ' '.utf8Size = 1 := by decide
    rw [List.replicate_succ, utf8Size_cons, ih, hspace, Nat.add_comm]

end Bytes

end Text

namespace Markdown

def stripIndentAt? (indent : Nat) (line : Text) : Option (Option Text) :=
  if line.isEmpty then some (some line)
  else if indent ≤ ((Text.bytes line).takeWhile (· == Text.spaceByte)).length then
    (Text.sliceFrom? indent line).map some
  else if line.head? = some '\t' then some (some (line.dropWhile (· = '\t')))
  else some none

theorem stripIndentAt?_eq (indent : Nat) (line : Text) :
    stripIndentAt? indent line = some (stripIndent indent line) := by
  rw [stripIndentAt?, stripIndent, Text.length_takeWhile_bytes]
  split_ifs with hempty hwide htab
  · rw [List.isEmpty_iff.1 hempty]
  · obtain ⟨t, rfl⟩ := le_length_spaces_iff.1 hwide
    have hcut := Text.sliceFrom?_append (List.replicate indent ' ') t
    rw [Text.utf8Size_spaces] at hcut
    simp [hcut]
  · rfl
  · rfl

namespace FrontMatter

/-- A body from its first line that is not blank on; `position` is where the lines at hand start. -/
def dropBlankLinesFrom? (body : Text) (position : Nat) : List Text → Option Text
  | [] => some []
  | line :: rest =>
    if Text.isBlank line then dropBlankLinesFrom? body (position + Text.utf8Size line) rest
    else Text.sliceFrom? position body

def dropBlankLinesAt? (body : Text) : Option Text := dropBlankLinesFrom? body 0 (Text.fullLines body)

theorem dropBlankLinesFrom?_eq (front : Text) (ls : List Text) :
    dropBlankLinesFrom? (front ++ ls.flatten) (Text.utf8Size front) ls =
      some (ls.dropWhile Text.isBlank).flatten := by
  induction ls generalizing front with
  | nil => rfl
  | cons l ls ih =>
    rw [dropBlankLinesFrom?]
    split_ifs with hl
    · rw [List.dropWhile_cons_of_pos hl, ← ih (front ++ l), Text.utf8Size_append]
      simp
    · rw [List.dropWhile_cons_of_neg hl]
      exact Text.sliceFrom?_append front _

theorem dropBlankLinesAt?_eq (body : Text) : dropBlankLinesAt? body = some (dropBlankLines body) := by
  have hlines := dropBlankLinesFrom?_eq [] (Text.fullLines body)
  rw [Text.flatten_fullLines] at hlines
  exact hlines

def mergeAt? (s title : Text) (weight : Nat) : Option Text := do
  let parts ← splitByPositions? s
  let body ← dropBlankLinesAt? parts.body
  let reading := (parts.yaml.map read).getD ⟨[], none⟩
  return block (Yaml.render (complete reading.metadata title weight)) ++ "\n\n".toList ++ body

theorem mergeAt?_eq (s title : Text) (weight : Nat) : mergeAt? s title weight = some (merge s title weight) := by
  obtain ⟨p, hp⟩ := exists_parted s
  rw [mergeAt?, hp.splitByPositions?_eq, ← hp.eq_split]
  simp only [Option.bind_eq_bind, Option.bind_some, dropBlankLinesAt?_eq]
  rfl

end FrontMatter

namespace ImageTag

structure Capture where
  start : Nat
  stop : Nat

def capturesFrom (position : Nat) : List (Text.Piece ImageTag) → List Capture
  | [] => []
  | .char c :: ps => capturesFrom (position + c.utf8Size) ps
  | .hit w tag :: ps =>
    let start := position + Text.utf8Size tag.before
    ⟨start, start + Text.utf8Size tag.source⟩ :: capturesFrom (position + Text.utf8Size w) ps

def captures (s : Text) : List Capture := capturesFrom 0 (Text.pieces matcher s)

/-- Replaces the sources found by rooted ones; `last` is the end of the last one replaced. A source that
stays is passed over, and what lies between two that are replaced is kept. -/
def splice? (s : Text) (last : Nat) : List Capture → Option Text
  | [] => Text.sliceFrom? last s
  | c :: cs => do
    let source ← Text.slice? c.start c.stop s
    match Image.normalize source with
    | none => splice? s last cs
    | some path =>
      let kept ← Text.slice? last c.start s
      let more ← splice? s c.stop cs
      return kept ++ path ++ more

def convertAt? (s : Text) : Option Text := splice? s 0 (captures s)

/-- Behind `x`, which ends where the last source was replaced, `y` is still to be kept, and the scan has
come to `b`. -/
theorem splice?_eq (x y b : Text) :
    splice? (x ++ (y ++ b)) (Text.utf8Size x)
      (capturesFrom (Text.utf8Size x + Text.utf8Size y) (Text.pieces matcher b)) = some (y ++ convert b) := by
  induction b using Text.scan_induction consuming_matcher generalizing x y with
  | nil => exact Text.sliceFrom?_append x (y ++ [])
  | char c b hc ih =>
    have hnext := ih x (y ++ [c])
    have hsize : Text.utf8Size (y ++ [c]) = Text.utf8Size y + c.utf8Size := by
      rw [Text.utf8Size_append, Text.utf8Size_cons]
      rfl
    rw [hsize, ← Nat.add_assoc] at hnext
    rw [Text.pieces_of_none hc, capturesFrom, convert, Text.replaceAll_of_none hc]
    simpa [convert] using hnext
  | hit w tag rest hw htag ih =>
    obtain ⟨rfl, -⟩ := rooted_cases htag
    have hsource : Text.slice? (Text.utf8Size x + Text.utf8Size y + Text.utf8Size tag.before)
        (Text.utf8Size x + Text.utf8Size y + Text.utf8Size tag.before + Text.utf8Size tag.source)
        (x ++ (y ++ (tag.before ++ tag.source ++ [tag.quote] ++ rest))) = some tag.source := by
      have hslice := Text.slice?_append (x ++ y ++ tag.before) tag.source ([tag.quote] ++ rest)
      simpa [Text.utf8Size_append, Nat.add_assoc] using hslice
    have hconvert : convert (tag.before ++ tag.source ++ [tag.quote] ++ rest) =
        rooted (tag.before ++ tag.source ++ [tag.quote]) tag ++ convert rest := Text.replaceAll_of_some hw htag
    rw [Text.pieces_of_some hw htag, capturesFrom, splice?]
    dsimp only
    rw [hsource, Option.bind_eq_bind, Option.bind_some, hconvert, rooted]
    cases hn : Image.normalize tag.source with
    | none =>
      have hnext := ih x (y ++ (tag.before ++ tag.source ++ [tag.quote]))
      simpa [Text.utf8Size_append, Nat.add_assoc] using hnext
    | some path =>
      have hkept : Text.slice? (Text.utf8Size x) (Text.utf8Size x + Text.utf8Size y + Text.utf8Size tag.before)
          (x ++ (y ++ (tag.before ++ tag.source ++ [tag.quote] ++ rest))) = some (y ++ tag.before) := by
        have hslice := Text.slice?_append x (y ++ tag.before) (tag.source ++ [tag.quote] ++ rest)
        simpa [Text.utf8Size_append, Nat.add_assoc] using hslice
      have hnext := ih (x ++ y ++ tag.before ++ tag.source) [tag.quote]
      simp only [Text.utf8Size_append, Nat.add_assoc, List.append_assoc] at hkept hnext ⊢
      rw [hkept, Option.bind_some, hnext]
      simp

theorem convertAt?_eq (s : Text) : convertAt? s = some (convert s) := splice?_eq [] [] s

end ImageTag

def Image.convertAt? (s : Text) : Option Text := ImageTag.convertAt? (convertInline s)

theorem Image.convertAt?_eq (s : Text) : convertAt? s = some (convert s) :=
  ImageTag.convertAt?_eq (convertInline s)

end Markdown

end DocsMigration
