import DocsMigration.Proofs.Positions
import DocsMigration.Proofs.Preservation
import DocsMigration.Proofs.TabGroups
/-! Going over lines by a cursor. The body of a block, a group of tabs and both block passes are loops over
the lines of a page: a turn looks at the line at the cursor, puts something out, and moves the cursor on.
Such a loop comes to its end only if every turn does move it on, and a turn can be made only if the line it
asks for is there. All four loops do, and put out what the outline of the page tells. So a page can be
converted by cursors and byte positions alone: no index is behind the last line, and no slice is taken where
the text cannot be cut. -/

namespace DocsMigration

namespace Markdown

/-- What a turn of a loop comes to: it is the last one, or the loop goes on at another line. -/
inductive Turn (α : Type) where
  | last
  | onward (next : Nat) (output : List α)
deriving DecidableEq, Repr

section Loops

variable {α : Type} {size i next : Nat} {turn? : Nat → Option (Turn α)} {result : Nat → Nat × List α}
  {output : List α}

/-- Takes turns from line `i` of `size` lines on, and gives the line where the last one was taken, with all
that was put out. Nothing comes of a loop in which a turn cannot be made, or does not move the cursor on to a
later line or the end: it would go on for ever. -/
def cursorLoop? (size : Nat) (turn? : Nat → Option (Turn α)) (i : Nat) : Option (Nat × List α) :=
  match turn? i with
  | none => none
  | some .last => some (i, [])
  | some (.onward next output) =>
    if _h : i < next ∧ next ≤ size then
      (cursorLoop? size turn? next).map fun (stop, more) => (stop, output ++ more)
    else none
termination_by size - i

theorem cursorLoop?_of_last (h : turn? i = some .last) : cursorLoop? size turn? i = some (i, []) := by
  rw [cursorLoop?, h]

theorem cursorLoop?_of_onward (h : turn? i = some (.onward next output)) (hnext : i < next ∧ next ≤ size) :
    cursorLoop? size turn? i =
      (cursorLoop? size turn? next).map fun (stop, more) => (stop, output ++ more) := by
  rw [cursorLoop?, h]
  exact dif_pos hnext

/-- Every turn of a loop can be made, and moves the cursor on to a later line or the end. -/
def Advances (size : Nat) (turn? : Nat → Option (Turn α)) : Prop :=
  ∀ i, ∃ turn, turn? i = some turn ∧ ∀ next output, turn = .onward next output → i < next ∧ next ≤ size

namespace Turn

/-- The result at line `i` is what this turn puts out there, in front of the result at the line where the loop
goes on. -/
def Fits (size : Nat) (result : Nat → Nat × List α) (i : Nat) : Turn α → Prop
  | last => result i = (i, [])
  | onward next output =>
    (i < next ∧ next ≤ size) ∧ result i = ((result next).1, output ++ (result next).2)

end Turn

/-- Every turn of a loop can be made, and fits the result. -/
def Computes (size : Nat) (turn? : Nat → Option (Turn α)) (result : Nat → Nat × List α) : Prop :=
  ∀ i, ∃ turn, turn? i = some turn ∧ turn.Fits size result i

namespace Computes

theorem advances (h : Computes size turn? result) : Advances size turn? := by
  intro i
  obtain ⟨turn, hturn, hfits⟩ := h i
  refine ⟨turn, hturn, ?_⟩
  rintro next output rfl
  exact hfits.1

theorem cursorLoop?_eq (h : Computes size turn? result) (i : Nat) :
    cursorLoop? size turn? i = some (result i) := by
  induction hleft : size - i using Nat.strong_induction_on generalizing i with
  | _ left ih =>
    obtain ⟨turn, hturn, hfits⟩ := h i
    cases turn with
    | last => rw [cursorLoop?_of_last hturn, hfits]
    | onward next output =>
      obtain ⟨hnext, hresult⟩ := hfits
      rw [cursorLoop?_of_onward hturn hnext, ih (size - next) (by omega) next rfl, hresult]
      rfl

end Computes

end Loops

section Bodies

variable {ls rest : List Text} {l : Text} {i start indent : Nat}

def memberTurn? (indent : Nat) (ls : List Text) (i : Nat) : Option (Turn Text) :=
  match ls[i]? with
  | none => some .last
  | some line => do
    match ← stripIndentAt? indent line with
    | none => return .last
    | some stripped => return .onward (i + 1) [stripped]

def popBlankEnd (ls : List Text) : List Text :=
  if _h : ls.getLast?.any Text.isBlank then popBlankEnd ls.dropLast else ls
termination_by ls.length
decreasing_by
  have hne : ls ≠ [] := by
    rintro rfl
    simp at _h
  rw [List.length_dropLast]
  exact Nat.sub_one_lt (List.length_pos_iff.2 hne).ne'

def indentedBodyAt? (ls : List Text) (start indent : Nat) : Option IndentedBody :=
  (cursorLoop? ls.length (memberTurn? indent ls) start).map fun (next, run) => ⟨popBlankEnd run, next⟩

theorem popBlankEnd_eq (ls : List Text) : popBlankEnd ls = dropBlankEnd ls := by
  induction ls using List.reverseRecOn with
  | nil =>
    rw [popBlankEnd]
    rfl
  | append_singleton ls l ih =>
    rw [popBlankEnd, dropBlankEnd, List.reverse_concat, List.getLast?_concat, List.dropLast_concat]
    by_cases hl : Text.isBlank l
    · rw [dif_pos (by simpa using hl), List.dropWhile_cons_of_pos hl, ih]
      rfl
    · rw [dif_neg (by simpa using hl), List.dropWhile_cons_of_neg hl, List.reverse_cons, List.reverse_reverse]

theorem computes_memberTurn? (indent : Nat) (ls : List Text) : Computes ls.length (memberTurn? indent ls)
    fun i => (i + (memberRun indent (ls.drop i)).length, memberRun indent (ls.drop i)) := by
  intro i
  cases h : ls.drop i with
  | nil =>
    refine ⟨.last, ?_, ?_⟩
    · rw [memberTurn?, List.getElem?_eq_none (List.drop_eq_nil_iff.1 h)]
    · rw [Turn.Fits, h]
      rfl
  | cons l rest =>
    obtain ⟨hat, hdrop⟩ := getElem?_of_drop h
    have hturn : memberTurn? indent ls i = some (match stripIndent indent l with
        | none => .last
        | some stripped => .onward (i + 1) [stripped]) := by
      rw [memberTurn?, hat]
      simp only [stripIndentAt?_eq, Option.bind_eq_bind, Option.bind_some]
      cases stripIndent indent l <;> rfl
    refine ⟨_, hturn, ?_⟩
    cases hstrip : stripIndent indent l with
    | none =>
      rw [Turn.Fits, h, memberRun, hstrip]
      rfl
    | some stripped =>
      refine ⟨⟨Nat.lt_succ_self i, lt_length_of_drop h⟩, ?_⟩
      dsimp only
      rw [h, hdrop, memberRun, hstrip]
      simp only [List.length_cons, List.singleton_append]
      rw [Nat.add_right_comm, Nat.add_assoc]

theorem indentedBodyAt?_eq (ls : List Text) (start indent : Nat) :
    indentedBodyAt? ls start indent = some (indentedBody ls start indent) := by
  rw [indentedBodyAt?, (computes_memberTurn? indent ls).cursorLoop?_eq, Option.map_some]
  simp only [popBlankEnd_eq]
  rfl

theorem next_indentedBody (hi : i < ls.length) (indent : Nat) :
    i < (indentedBody ls (i + 1) indent).next ∧ (indentedBody ls (i + 1) indent).next ≤ ls.length := by
  have hrun := length_memberRun_le indent (ls.drop (i + 1))
  rw [List.length_drop] at hrun
  dsimp only [indentedBody]
  omega

theorem drop_next_indentedBody (h : ls.drop start = rest) (indent : Nat) :
    ls.drop (indentedBody ls start indent).next = rest.drop (memberRun indent rest).length := by
  rw [indentedBody, h, ← List.drop_drop, h]

end Bodies

namespace Admonition

variable {ls rest : List Text} {l : Text} {i : Nat} {header : AdmonitionHeader}

def turn? (ls : List Text) (i : Nat) : Option (Turn Text) :=
  if i < ls.length then do
    let line ← ls[i]?
    match AdmonitionHeader.parse line with
    | none => return .onward (i + 1) [line]
    | some header =>
      let body ← indentedBodyAt? ls (i + 1) blockIndent
      return .onward body.next (renderBlock ⟨header, body.lines⟩)
  else some .last

def convertAt? (s : Text) : Option Text :=
  (cursorLoop? (Text.lines s).length (turn? (Text.lines s)) 0).map fun (_, output) => Text.unlines output

theorem turn?_of_drop (h : ls.drop i = l :: rest) : turn? ls i =
    some (match AdmonitionHeader.parse l with
      | none => .onward (i + 1) [l]
      | some header => .onward (indentedBody ls (i + 1) blockIndent).next
        (renderBlock ⟨header, (indentedBody ls (i + 1) blockIndent).lines⟩)) := by
  rw [turn?, if_pos (lt_length_of_drop h), (getElem?_of_drop h).1]
  simp only [Option.bind_eq_bind, Option.bind_some, indentedBodyAt?_eq]
  cases AdmonitionHeader.parse l <;> rfl

theorem renderBlock_dropBlankEnd (header : AdmonitionHeader) (run : List Text) :
    renderBlock ⟨header, dropBlankEnd run⟩ = renderBlock ⟨header, run⟩ := by
  have hbody : (⟨header, dropBlankEnd run⟩ : Block AdmonitionHeader).body =
      (⟨header, run⟩ : Block AdmonitionHeader).body := by
    have hkept : dropBlankEnd (dropBlankEnd run ++ []) = dropBlankEnd run :=
      dropBlankEnd_append (by simp) (not_isBlank_of_dropBlankEnd run)
    rwa [List.append_nil] at hkept
  rw [renderBlock, renderBlock, hbody]

theorem computes_turn? (ls : List Text) : Computes ls.length (turn? ls)
    fun i => (max i ls.length, convertLines (ls.drop i)) := by
  intro i
  cases h : ls.drop i with
  | nil =>
    have hle := List.drop_eq_nil_iff.1 h
    refine ⟨.last, if_neg (Nat.not_lt.2 hle), ?_⟩
    rw [Turn.Fits, h, max_eq_left hle]
    rfl
  | cons l rest =>
    have hlt := lt_length_of_drop h
    have hdrop := (getElem?_of_drop h).2
    refine ⟨_, turn?_of_drop h, ?_⟩
    cases hl : AdmonitionHeader.parse l with
    | none =>
      refine ⟨⟨Nat.lt_succ_self i, hlt⟩, ?_⟩
      dsimp only
      rw [h, hdrop, convertLines_cons_line hl, max_eq_right hlt.le, max_eq_right hlt]
      rfl
    | some header =>
      have hnext := next_indentedBody hlt blockIndent
      have hlines : (indentedBody ls (i + 1) blockIndent).lines = dropBlankEnd (memberRun blockIndent rest) := by
        rw [indentedBody, hdrop]
      refine ⟨hnext, ?_⟩
      dsimp only
      rw [h, convertLines_cons_block hl, drop_next_indentedBody hdrop, hlines, renderBlock_dropBlankEnd,
        max_eq_right hlt.le, max_eq_right hnext.2]

theorem convertAt?_eq (s : Text) : convertAt? s = some (convert s) := by
  rw [convertAt?, (computes_turn? (Text.lines s)).cursorLoop?_eq]
  rfl

end Admonition

namespace Tabs

variable {ls rest : List Text} {l label : Text} {i : Nat}

def groupTurn? (ls : List Text) (i : Nat) : Option (Turn Tab) :=
  match ls[i]?.bind label? with
  | none => some .last
  | some label => do
    let body ← indentedBodyAt? ls (i + 1) blockIndent
    return .onward body.next [⟨label, body.lines⟩]

def groupAt? (ls : List Text) (start : Nat) : Option Group :=
  (cursorLoop? ls.length (groupTurn? ls) start).map fun (next, tabs) => ⟨tabs, next⟩

/-- A turn at the next line to be converted, which takes a whole group if there is one. -/
def turn? (ls : List Text) (i : Nat) : Option (Turn Text) :=
  if i < ls.length then do
    let group ← groupAt? ls i
    if group.tabs.isEmpty then
      let line ← ls[i]?
      return .onward (i + 1) [line]
    else return .onward group.next (opener :: (group.tabs.flatMap renderTab ++ [closer, []]))
  else some .last

def convertAt? (s : Text) : Option Text :=
  (cursorLoop? (Text.lines s).length (turn? (Text.lines s)) 0).map fun (_, output) => Text.unlines output

theorem groupAt_of_not_isHeaderAt (h : ¬ IsHeaderAt ls i) : groupAt ls i = ⟨[], i⟩ := by
  rw [groupAt]
  cases hdrop : ls.drop i with
  | nil => rfl
  | cons l rest =>
    rw [IsHeaderAt, (getElem?_of_drop hdrop).1, Option.bind_some, Option.not_isSome_iff_eq_none] at h
    rw [outline_cons_line h]
    rfl

theorem groupAt_of_header (h : ls.drop i = l :: rest) (hl : label? l = some label) : groupAt ls i =
    ⟨tabOf ⟨label, memberRun blockIndent rest⟩ ::
        (groupAt ls (indentedBody ls (i + 1) blockIndent).next).tabs,
      (groupAt ls (indentedBody ls (i + 1) blockIndent).next).next⟩ := by
  have hdrop := (getElem?_of_drop h).2
  have hspan : (⟨label, memberRun blockIndent rest⟩ : Block Text).span + i =
      (indentedBody ls (i + 1) blockIndent).next := by
    rw [indentedBody, hdrop, Block.span]
    dsimp only
    omega
  rw [groupAt, groupAt, h, outline_cons_block hl, drop_next_indentedBody hdrop, leadingBlocks, ← hspan]
  simp [Nat.add_comm]

theorem groupTurn?_of_header (h : ls.drop i = l :: rest) (hl : label? l = some label) : groupTurn? ls i =
    some (.onward (indentedBody ls (i + 1) blockIndent).next
      [tabOf ⟨label, memberRun blockIndent rest⟩]) := by
  obtain ⟨hat, hdrop⟩ := getElem?_of_drop h
  rw [groupTurn?, hat, Option.bind_some, hl]
  simp only [Option.bind_eq_bind, Option.bind_some, indentedBodyAt?_eq]
  rw [indentedBody, hdrop]
  rfl

theorem IsHeaderAt.exists_drop (h : IsHeaderAt ls i) :
    ∃ l rest label, ls.drop i = l :: rest ∧ label? l = some label := by
  obtain ⟨label, hbind⟩ := Option.isSome_iff_exists.1 h
  obtain ⟨l, hat, hl⟩ := Option.bind_eq_some_iff.1 hbind
  obtain ⟨hlt, rfl⟩ := List.getElem?_eq_some_iff.1 hat
  exact ⟨_, _, label, List.drop_eq_getElem_cons hlt, hl⟩

theorem computes_groupTurn? (ls : List Text) : Computes ls.length (groupTurn? ls)
    fun i => ((groupAt ls i).next, (groupAt ls i).tabs) := by
  intro i
  by_cases hheader : IsHeaderAt ls i
  · obtain ⟨l, rest, label, h, hl⟩ := hheader.exists_drop
    refine ⟨_, groupTurn?_of_header h hl, next_indentedBody (lt_length_of_drop h) blockIndent, ?_⟩
    dsimp only
    rw [groupAt_of_header h hl]
    rfl
  · refine ⟨.last, ?_, ?_⟩
    · rw [groupTurn?, Option.not_isSome_iff_eq_none.1 hheader]
    · rw [Turn.Fits, groupAt_of_not_isHeaderAt hheader]

theorem groupAt?_eq (ls : List Text) (start : Nat) : groupAt? ls start = some (groupAt ls start) := by
  rw [groupAt?, (computes_groupTurn? ls).cursorLoop?_eq]
  rfl

/-- A group ends no earlier than it starts, and behind an open group the page is rendered without it. -/
theorem groupAt_spec (h : ls.drop i = rest) (hi : i ≤ ls.length) :
    (i ≤ (groupAt ls i).next ∧ (groupAt ls i).next ≤ ls.length) ∧
      render true (outline label? rest) = (groupAt ls i).tabs.flatMap renderTab ++ [closer, []] ++
        convertLines (ls.drop (groupAt ls i).next) := by
  induction rest using outline_induction label? generalizing i with
  | nil =>
    rw [groupAt_of_not_isHeaderAt (not_isHeaderAt_of_nil h le_rfl), h]
    exact ⟨⟨le_rfl, hi⟩, rfl⟩
  | line l rest hl ih =>
    rw [groupAt_of_not_isHeaderAt (not_isHeaderAt_of_line h hl), h]
    refine ⟨⟨le_rfl, hi⟩, ?_⟩
    rw [render_cons_line true hl, convertLines, render_cons_line false hl]
    rfl
  | block l rest label hl ih =>
    obtain ⟨hlt, hle⟩ := next_indentedBody (lt_length_of_drop h) blockIndent
    obtain ⟨⟨hnext, hend⟩, hrender⟩ := ih (drop_next_indentedBody (getElem?_of_drop h).2 blockIndent) hle
    rw [groupAt_of_header h hl]
    refine ⟨⟨hlt.le.trans hnext, hend⟩, ?_⟩
    rw [render_cons_block true hl, hrender]
    simp

theorem computes_turn? (ls : List Text) : Computes ls.length (turn? ls)
    fun i => (max i ls.length, convertLines (ls.drop i)) := by
  intro i
  by_cases hlt : i < ls.length
  · by_cases hheader : IsHeaderAt ls i
    · obtain ⟨l, rest, label, h, hl⟩ := hheader.exists_drop
      obtain ⟨hbody, hle⟩ := next_indentedBody hlt blockIndent
      have hdrop := drop_next_indentedBody (getElem?_of_drop h).2 blockIndent
      obtain ⟨⟨hnext, hend⟩, hrender⟩ := groupAt_spec hdrop hle
      have hturn : turn? ls i = some (.onward (groupAt ls i).next
          (opener :: ((groupAt ls i).tabs.flatMap renderTab ++ [closer, []]))) := by
        rw [turn?, if_pos hlt, groupAt?_eq, groupAt_of_header h hl]
        rfl
      refine ⟨_, hturn, ?_⟩
      rw [groupAt_of_header h hl]
      refine ⟨⟨hbody.trans_le hnext, hend⟩, ?_⟩
      dsimp only
      rw [h, convertLines, render_cons_block false hl, hrender, max_eq_right hlt.le, max_eq_right hend]
      simp
    · have h := List.drop_eq_getElem_cons hlt
      have hl : label? ls[i] = none := by
        rwa [IsHeaderAt, (getElem?_of_drop h).1, Option.bind_some, Option.not_isSome_iff_eq_none] at hheader
      have hturn : turn? ls i = some (.onward (i + 1) [ls[i]]) := by
        rw [turn?, if_pos hlt, groupAt?_eq, groupAt_of_not_isHeaderAt hheader, (getElem?_of_drop h).1]
        rfl
      refine ⟨_, hturn, ⟨Nat.lt_succ_self i, hlt⟩, ?_⟩
      dsimp only
      rw [h, convertLines, render_cons_line false hl, max_eq_right hlt.le, max_eq_right hlt]
      rfl
  · have hle := Nat.not_lt.1 hlt
    refine ⟨.last, if_neg hlt, ?_⟩
    rw [Turn.Fits, List.drop_eq_nil_of_le hle, max_eq_left hle]
    rfl

theorem convertAt?_eq (s : Text) : convertAt? s = some (convert s) := by
  rw [convertAt?, (computes_turn? (Text.lines s)).cursorLoop?_eq]
  rfl

end Tabs

namespace Rewriters

def optionalAt? (on : Bool) (f? : Text → Option Text) (s : Text) : Option Text :=
  if on then f? s else some s

def convertBodyAt? (r : Rewriters) (s : Text) : Option Text := do
  let admonished ← optionalAt? r.admonitions Admonition.convertAt? (Text.normalizeNewlines s)
  let tabbed ← optionalAt? r.tabs Tabs.convertAt? admonished
  let stripped := optional r.icons Icon.strip (optional r.attributes ButtonAttributes.strip
    (optional r.links Link.convert tabbed))
  optionalAt? r.images Image.convertAt? stripped

def convertAt? (r : Rewriters) (s : Text) (m : PageMeta) : Option Text := do
  let body ← r.convertBodyAt? s
  FrontMatter.mergeAt? body m.title m.weight

theorem optionalAt?_eq {f? : Text → Option Text} {f : Text → Text} (h : ∀ s, f? s = some (f s)) (on : Bool)
    (s : Text) : optionalAt? on f? s = some (optional on f s) := by
  cases on
  · rfl
  · exact h s

theorem convertBodyAt?_eq (r : Rewriters) (s : Text) : r.convertBodyAt? s = some (r.convertBody s) := by
  rw [convertBodyAt?, convertBody_eq, optionalAt?_eq Admonition.convertAt?_eq]
  simp only [Option.bind_eq_bind, Option.bind_some, optionalAt?_eq Tabs.convertAt?_eq,
    optionalAt?_eq Image.convertAt?_eq]

theorem convertAt?_eq (r : Rewriters) (s : Text) (m : PageMeta) : r.convertAt? s m = some (r.convert s m) := by
  rw [convertAt?, convertBodyAt?_eq]
  exact FrontMatter.mergeAt?_eq (r.convertBody s) m.title m.weight

end Rewriters

/-- A text can be cut at a position exactly if that is a place between characters, and between two positions
exactly if both are such places, in their order. None of them is behind the end of the text. -/
structure CutsChecked : Prop where
  within : ∀ s n, Text.IsBoundary s n → n ≤ Text.utf8Size s
  sliceFrom : ∀ s n, (Text.sliceFrom? n s).isSome ↔ Text.IsBoundary s n
  slice : ∀ s start stop, (Text.slice? start stop s).isSome ↔
    start ≤ stop ∧ Text.IsBoundary s start ∧ Text.IsBoundary s stop

theorem cutsChecked : CutsChecked where
  within s n := Text.IsBoundary.le
  sliceFrom s n := by
    rw [Text.sliceFrom?, Option.isSome_map, Text.isBoundary_iff]
  slice s start stop := Text.isSome_slice?_iff

/-- What the loops collect from line `start` on is the body and the group of tabs that the page has there. In
these loops and in those over a whole page, every turn can be made, at any line, and moves its cursor on. -/
structure LoopsReturn (ls : List Text) (start indent : Nat) : Prop where
  body : indentedBodyAt? ls start indent = some (indentedBody ls start indent)
  group : Tabs.groupAt? ls start = some (Tabs.groupAt ls start)
  members : Advances ls.length (memberTurn? indent ls)
  tabs : Advances ls.length (Tabs.groupTurn? ls)
  admonitions : Advances ls.length (Admonition.turn? ls)
  groups : Advances ls.length (Tabs.turn? ls)

theorem loopsReturn (ls : List Text) (start indent : Nat) : LoopsReturn ls start indent where
  body := indentedBodyAt?_eq ls start indent
  group := Tabs.groupAt?_eq ls start
  members := (computes_memberTurn? indent ls).advances
  tabs := (Tabs.computes_groupTurn? ls).advances
  admonitions := (Admonition.computes_turn? ls).advances
  groups := (Tabs.computes_turn? ls).advances

/-- Every page is converted by cursors and byte positions, under any selection of rewriters: no slice fails,
though one fails wherever its text cannot be cut, and no loop comes to a line that is not there or stands
still. -/
theorem converted_by_cursors (r : Rewriters) (s : Text) (m : PageMeta) (ls : List Text) (start indent : Nat) :
    CutsChecked ∧ r.convertAt? s m = some (r.convert s m) ∧ LoopsReturn ls start indent :=
  ⟨cutsChecked, r.convertAt?_eq s m, loopsReturn ls start indent⟩

end Markdown

end DocsMigration
