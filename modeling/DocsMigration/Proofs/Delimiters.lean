import DocsMigration.Proofs.Marks
/-! How a page is cut at its delimiters. Every text has one cut into lines. A page whose first line is a
delimiter and that has a second one is cut around the first two; any other page is all body. The parts are
the same when they are taken out of the page at byte positions, which the sizes of the lines add up to. -/

namespace DocsMigration

namespace Text

/-- A cut of a text into lines: a line feed is the last sign of its line, and only the last line may lack
one. -/
structure Lined (s : Text) (ls : List Text) : Prop where
  whole : ls.flatten = s
  lines : ∀ l ∈ ls, l ≠ [] ∧ '\n' ∉ l.dropLast
  ended : ∀ l ∈ ls.dropLast, l.getLast? = some '\n'

theorem fullLines_of_not_mem {l : Text} (hne : l ≠ []) (hl : '\n' ∉ l) : fullLines l = [l] := by
  induction l with
  | nil => exact absurd rfl hne
  | cons c l ih =>
    rw [List.mem_cons, not_or] at hl
    rw [fullLines, if_neg (Ne.symm hl.1)]
    rcases eq_or_ne l [] with rfl | hl'
    · rfl
    · rw [ih hl' hl.2]

theorem fullLines_eq_self {l : Text} : fullLines l = [l] ↔ l ≠ [] ∧ '\n' ∉ l.dropLast := by
  constructor
  · intro h
    refine ⟨(fullLines_eq_cons h).1, fun hmem => ?_⟩
    obtain ⟨a, b, hab⟩ := List.append_of_mem hmem
    have hl : l ≠ [] := (fullLines_eq_cons h).1
    -- a line feed in front of the last sign would end a line of its own
    have hcut : l = (a ++ ['\n']) ++ (b ++ [l.getLast hl]) := by
      conv_lhs => rw [← List.dropLast_append_getLast hl, hab]
      simp
    have hlines : fullLines l = fullLines (a ++ ['\n']) ++ fullLines (b ++ [l.getLast hl]) := by
      conv_lhs => rw [hcut]
      exact fullLines_append (by simp) _
    have hfilled {t : Text} (ht : t ≠ []) : 0 < (fullLines t).length := by
      refine List.length_pos_iff.2 fun hnil => ht ?_
      rw [← flatten_fullLines t, hnil]
      rfl
    have hfront := hfilled (t := a ++ ['\n']) (by simp)
    have hback := hfilled (t := b ++ [l.getLast hl]) (by simp)
    have hlength := congrArg List.length hlines
    rw [h, List.length_append, List.length_singleton] at hlength
    omega
  · rintro ⟨hne, hl⟩
    by_cases hlast : l.getLast hne = '\n'
    · have hform : l = l.dropLast ++ ['\n'] := by
        rw [← hlast, List.dropLast_append_getLast hne]
      rw [hform]
      exact fullLines_line hl
    · refine fullLines_of_not_mem hne fun hmem => ?_
      rw [← List.dropLast_append_getLast hne, List.mem_append, List.mem_singleton] at hmem
      exact hmem.elim hl fun h => hlast h.symm

theorem Lined.eq_fullLines {s : Text} {ls : List Text} (h : s.Lined ls) : fullLines s = ls := by
  induction ls generalizing s with
  | nil =>
    rw [← h.whole]
    rfl
  | cons l ls ih =>
    have hline := fullLines_eq_self.2 (h.lines l List.mem_cons_self)
    rcases eq_or_ne ls [] with rfl | hne
    · rw [← h.whole]
      simpa using hline
    · have hend := h.ended l (by simp [List.dropLast_cons_of_ne_nil hne])
      have hrest : Lined ls.flatten ls := ⟨rfl, fun k hk => h.lines k (List.mem_cons_of_mem l hk),
        fun k hk => h.ended k (by simp [List.dropLast_cons_of_ne_nil hne, hk])⟩
      rw [← h.whole, List.flatten_cons, fullLines_append (by simp [hend]), hline, ih hrest]
      rfl

theorem lined_fullLines (s : Text) : s.Lined (fullLines s) := by
  generalize hls : fullLines s = ls
  induction ls generalizing s with
  | nil =>
    have hs := flatten_fullLines s
    rw [hls] at hs
    exact ⟨hs, by simp, by simp⟩
  | cons l ls ih =>
    obtain ⟨hne, hline, hrest, hend⟩ := fullLines_eq_cons hls
    have ih := ih _ hrest
    refine ⟨by rw [← hls, flatten_fullLines], fun k hk => ?_, fun k hk => ?_⟩
    · rcases List.mem_cons.1 hk with rfl | hk
      · exact fullLines_eq_self.1 hline
      · exact ih.lines k hk
    · rcases eq_or_ne ls [] with rfl | hls'
      · simp at hk
      · rw [List.dropLast_cons_of_ne_nil hls'] at hk
        rcases List.mem_cons.1 hk with rfl | hk
        · obtain ⟨k, rfl, -⟩ := hend hls'
          simp
        · exact ih.ended k hk

theorem lined_iff {s : Text} {ls : List Text} : s.Lined ls ↔ fullLines s = ls :=
  ⟨Lined.eq_fullLines, fun h => h ▸ lined_fullLines s⟩

section Positions

/-- The text in front of a byte position and the text behind it; nothing if the position is beyond the
end, or inside a character. -/
def cutAt? : Nat → Text → Option (Text × Text)
  | 0, s => some ([], s)
  | _ + 1, [] => none
  | n + 1, c :: s =>
    if c.utf8Size ≤ n + 1 then
      (cutAt? (n + 1 - c.utf8Size) s).map fun (before, behind) => (c :: before, behind)
    else none

/-- The text between two byte positions; nothing if they are not in order, or one of them is no place for
a cut. -/
def slice? (start stop : Nat) (s : Text) : Option Text := do
  let (_, behind) ← cutAt? start s
  if start ≤ stop then (cutAt? (stop - start) behind).map (·.1) else none

theorem cutAt?_append (a b : Text) : cutAt? (utf8Size a) (a ++ b) = some (a, b) := by
  induction a with
  | nil => cases b <;> rfl
  | cons c a ih =>
    have hpos := c.utf8Size_pos
    obtain ⟨n, hn⟩ : ∃ n, utf8Size (c :: a) = n + 1 := ⟨utf8Size (c :: a) - 1, by
      rw [utf8Size_cons]
      omega⟩
    have hrest : n + 1 - c.utf8Size = utf8Size a := by
      rw [← hn, utf8Size_cons]
      omega
    have hle : c.utf8Size ≤ n + 1 := by
      rw [← hn, utf8Size_cons]
      omega
    rw [hn, List.cons_append, cutAt?, if_pos hle, hrest, ih]
    rfl

theorem slice?_append (a b c : Text) :
    slice? (utf8Size a) (utf8Size a + utf8Size b) (a ++ (b ++ c)) = some b := by
  rw [slice?, cutAt?_append]
  simp [cutAt?_append]

end Positions

end Text

namespace Markdown

namespace FrontMatter

/-- The parts a page is made of: its lines around its first two delimiters, or all of it as a body. -/
inductive Parted (s : Text) : Split → Prop
  /-- The lines of the YAML and of the body are lines of the page. -/
  | fenced {first close yaml body : Text} {ys bs : List Text} :
      s.Lined (first :: (ys ++ close :: bs)) → yaml.Lined ys → body.Lined bs →
      isDelimiter first → isDelimiter close → (∀ l ∈ ys, ¬ isDelimiter l) →
      s = first ++ yaml ++ close ++ body → Parted s ⟨some yaml, body⟩
  /-- The first line is no delimiter, or no later line is one. -/
  | plain {ls : List Text} : s.Lined ls →
      (∀ first rest, ls = first :: rest → isDelimiter first → ∀ l ∈ rest, ¬ isDelimiter l) →
      Parted s ⟨none, s⟩

theorem Parted.eq_split {s : Text} {p : Split} (h : Parted s p) : split s = p := by
  cases h with
  | fenced hs hyaml hbody hfirst hclose hys =>
    exact split_eq_some.2 ⟨_, _, _, _, hs.eq_fullLines, hfirst, hclose, hys, hyaml.whole.symm,
      hbody.whole.symm⟩
  | @plain ls hs hnone =>
    unfold split
    rw [hs.eq_fullLines]
    cases ls with
    | nil => rfl
    | cons first rest =>
      dsimp only
      split_ifs with hfirst
      · cases hcut : cut? rest with
        | none => rfl
        | some parts =>
          obtain ⟨d, hd, rfl, -⟩ := cut?_eq_some.1 hcut
          exact absurd hd (hnone first _ rfl hfirst d (by simp))
      · rfl

theorem exists_parted (s : Text) : ∃ p, Parted s p := by
  have hlines := Text.lined_fullLines s
  by_cases h : ∃ first rest, Text.fullLines s = first :: rest ∧ isDelimiter first ∧
      ∃ l ∈ rest, isDelimiter l
  · obtain ⟨first, rest, heq, hfirst, hsome⟩ := h
    obtain ⟨⟨ys, bs⟩, hcut⟩ := Option.isSome_iff_exists.1 (isSome_cut?.2 hsome)
    obtain ⟨close, hclose, rfl, hys⟩ := cut?_eq_some.1 hcut
    have hrest := (Text.fullLines_eq_cons heq).2.2.1
    have hbody : Text.fullLines s = (first :: (ys ++ [close])) ++ bs := by simpa using heq
    rw [heq] at hlines
    refine ⟨_, .fenced hlines (Text.lined_iff.2 (Text.fullLines_flatten hrest).1)
      (Text.lined_iff.2 (Text.fullLines_flatten_right hbody)) hfirst hclose hys ?_⟩
    rw [← hlines.whole]
    simp
  · refine ⟨_, .plain hlines fun first rest heq hfirst l hl hdelimiter => h ?_⟩
    exact ⟨first, rest, heq, hfirst, l, hl, hdelimiter⟩

section Positions

def findDelimiter? (position : Nat) : List Text → Option (Nat × Nat)
  | [] => none
  | line :: rest =>
    if isDelimiter line then some (position, Text.utf8Size line)
    else findDelimiter? (position + Text.utf8Size line) rest

/-- Cuts a page by byte positions: the YAML lies between the first line and the next delimiter, the body
behind that. Nothing comes of it if a position is no place for a cut. -/
def splitByPositions? (s : Text) : Option Split :=
  match Text.fullLines s with
  | [] => some ⟨none, s⟩
  | first :: rest =>
    if isDelimiter first then
      match findDelimiter? (Text.utf8Size first) rest with
      | some (position, size) => do
        let yaml ← Text.slice? (Text.utf8Size first) position s
        let (_, body) ← Text.cutAt? (position + size) s
        return ⟨some yaml, body⟩
      | none => some ⟨none, s⟩
    else some ⟨none, s⟩

theorem findDelimiter?_eq_none {ls : List Text} (h : ∀ l ∈ ls, ¬ isDelimiter l) (position : Nat) :
    findDelimiter? position ls = none := by
  induction ls generalizing position with
  | nil => rfl
  | cons l ls ih =>
    rw [findDelimiter?, if_neg (h l List.mem_cons_self), ih fun k hk => h k (List.mem_cons_of_mem l hk)]

theorem findDelimiter?_append {ys : List Text} {d : Text} (hys : ∀ l ∈ ys, ¬ isDelimiter l)
    (hd : isDelimiter d) (position : Nat) (bs : List Text) : findDelimiter? position (ys ++ d :: bs) =
      some (position + Text.utf8Size ys.flatten, Text.utf8Size d) := by
  induction ys generalizing position with
  | nil =>
    rw [List.nil_append, findDelimiter?, if_pos hd]
    rfl
  | cons l ys ih =>
    rw [List.cons_append, findDelimiter?, if_neg (hys l List.mem_cons_self),
      ih fun k hk => hys k (List.mem_cons_of_mem l hk), List.flatten_cons, Text.utf8Size_append,
      Nat.add_assoc]

theorem Parted.splitByPositions?_eq {s : Text} {p : Split} (h : Parted s p) :
    splitByPositions? s = some p := by
  unfold splitByPositions?
  cases h with
  | @fenced first close yaml body ys bs hs hyaml hbody hfirst hclose hys hwhole =>
    rw [hs.eq_fullLines]
    simp only [hfirst, if_true, findDelimiter?_append hys hclose, hyaml.whole]
    have hslice : Text.slice? (Text.utf8Size first) (Text.utf8Size first + Text.utf8Size yaml) s =
        some yaml := by
      rw [hwhole, List.append_assoc, List.append_assoc]
      exact Text.slice?_append first yaml (close ++ body)
    have hcut : Text.cutAt? (Text.utf8Size first + Text.utf8Size yaml + Text.utf8Size close) s =
        some (first ++ yaml ++ close, body) := by
      rw [hwhole, ← Text.utf8Size_append, ← Text.utf8Size_append]
      exact Text.cutAt?_append (first ++ yaml ++ close) body
    rw [hslice, hcut]
    rfl
  | @plain ls hs hnone =>
    rw [hs.eq_fullLines]
    cases ls with
    | nil => rfl
    | cons first rest =>
      dsimp only
      split_ifs with hfirst
      · rw [findDelimiter?_eq_none (hnone first rest rfl hfirst)]
      · rfl

end Positions

/-- A page is cut into the parts that its lines and delimiters tell, into no others, and all positions at
which it has to be cut are found. -/
theorem split_around_delimiters (s : Text) :
    (∀ p, Parted s p ↔ split s = p) ∧ splitByPositions? s = some (split s) := by
  obtain ⟨p, hp⟩ := exists_parted s
  obtain rfl := hp.eq_split
  exact ⟨fun q => ⟨Parted.eq_split, fun h => h ▸ hp⟩, hp.splitByPositions?_eq⟩

end FrontMatter

end Markdown

end DocsMigration
