import DocsMigration.Proofs.Blocks
/-! The two block passes write shortcodes that nest well. A line that starts like a shortcode opens or
closes one, and a stack holds what is open; the stack says which shortcode may stand in which. No
body of a tab reaches over such a line, because it is neither a header nor a member, so the second
pass works between the lines that the first has written, and leaves the stack there as it was. -/

namespace DocsMigration

namespace Markdown

inductive Shortcode where
  | callout
  | details
  | tabs
  | tab
deriving DecidableEq, Repr

def Shortcode.ofName? (name : Text) : Option Shortcode :=
  if name = "callout".toList then some .callout
  else if name = "details".toList then some .details
  else if name = "tabs".toList then some .tabs
  else if name = "tab".toList then some .tab
  else none

inductive Marker where
  | opener (kind : Shortcode)
  | closer (kind : Shortcode)
deriving DecidableEq, Repr

namespace Marker

def lead : Text := "\x7b\x7b<".toList

/-- Reads a marker line: behind the lead and a space stands the name, with a slash in front of it if
the shortcode is closed. -/
def read? (line : Text) : Option Marker :=
  match Text.stripPrefix? (lead ++ [' ']) line with
  | some ('/' :: rest) => (Shortcode.ofName? (rest.takeWhile Char.isAlpha)).map .closer
  | some rest => (Shortcode.ofName? (rest.takeWhile Char.isAlpha)).map .opener
  | none => none

end Marker

/-- An open shortcode; a group of tabs knows whether it has a tab yet. -/
inductive Frame where
  | callout
  | details
  | tabs (started : Bool)
  | tab
deriving DecidableEq, Repr

namespace Nesting

/-- What a marker does to the open shortcodes, the innermost first. Callouts and details blocks stand
at top level, a group of tabs there or directly inside one of them, a tab directly inside a group.
Each is closed by its own closer, and a group only behind a tab. -/
def step : List Frame → Marker → Option (List Frame)
  | [], .opener .callout => some [.callout]
  | [], .opener .details => some [.details]
  | [], .opener .tabs => some [.tabs false]
  | [.callout], .opener .tabs => some [.tabs false, .callout]
  | [.details], .opener .tabs => some [.tabs false, .details]
  | .tabs _ :: outer, .opener .tab => some (.tab :: .tabs true :: outer)
  | .callout :: outer, .closer .callout => some outer
  | .details :: outer, .closer .details => some outer
  | .tabs true :: outer, .closer .tabs => some outer
  | .tab :: outer, .closer .tab => some outer
  | _, _ => none

/-- A line that does not start like a marker changes nothing; one that does has to be a marker that
may stand there. -/
def advance (frames : List Frame) (line : Text) : Option (List Frame) :=
  if Text.startsWith line Marker.lead then (Marker.read? line).bind (step frames) else some frames

def Quiet (ls : List Text) : Prop := ∀ l ∈ ls, ¬ Marker.lead <:+: l

theorem advance_of_not_infix {l : Text} (h : ¬ Marker.lead <:+: l) (frames : List Frame) :
    advance frames l = some frames := by
  have : ¬ Text.startsWith l Marker.lead := fun hs =>
    h (List.isPrefixOf_iff_prefix.1 hs).isInfix
  simp [advance, this]

theorem run_quiet {ls : List Text} (h : Quiet ls) (frames : List Frame) :
    ls.foldlM advance frames = some frames := by
  induction ls with
  | nil => rfl
  | cons l ls ih =>
    rw [List.foldlM_cons, advance_of_not_infix (h l List.mem_cons_self)]
    exact ih fun k hk => h k (List.mem_cons_of_mem l hk)

end Nesting

/-- The shortcodes of these lines are well nested, and none stays open. -/
def WellNested (ls : List Text) : Prop := ls.foldlM Nesting.advance [] = some []

instance (ls : List Text) : Decidable (WellNested ls) :=
  inferInstanceAs (Decidable (_ = _))

namespace Nesting

def holders : List (List Frame) := [[], [.callout], [.details]]

theorem run_renderTab {t : Tab} (hb : Quiet t.body) (started : Bool) (outer : List Frame) :
    (Tabs.renderTab t).foldlM advance (.tabs started :: outer) = some (.tabs true :: outer) := by
  have hopen : advance (.tabs started :: outer) (Tabs.tabOpener t.label) =
      some (.tab :: .tabs true :: outer) := rfl
  rw [Tabs.renderTab, List.foldlM_cons, hopen]
  simp only [Option.bind_eq_bind, Option.bind_some]
  rw [List.foldlM_append, run_quiet hb]
  rfl

/-- Groups of tabs leave what is open around them as it was. -/
theorem run_render {es : List (Element Text)} (hline : ∀ l, .line l ∈ es → ¬ Marker.lead <:+: l)
    (hblock : ∀ b, .block b ∈ es → Quiet b.body) {outer : List Frame} (ho : outer ∈ holders) :
    (Tabs.render false es).foldlM advance outer = some outer ∧
      (Tabs.render true es).foldlM advance (.tabs true :: outer) = some outer := by
  have hclose : [Tabs.closer, []].foldlM advance (.tabs true :: outer) = some outer := rfl
  induction es with
  | nil => exact ⟨rfl, hclose⟩
  | cons e es ih =>
    obtain ⟨ihf, iht⟩ := ih (fun l hl => hline l (List.mem_cons_of_mem e hl))
      fun b hb => hblock b (List.mem_cons_of_mem e hb)
    cases e with
    | line l =>
      have hl : (l :: Tabs.render false es).foldlM advance outer = some outer := by
        rw [List.foldlM_cons, advance_of_not_infix (hline l List.mem_cons_self)]
        exact ihf
      refine ⟨hl, ?_⟩
      rw [Tabs.render, if_pos rfl, List.foldlM_append, hclose]
      exact hl
    | block b =>
      have hb (started : Bool) : (Tabs.renderTab (Tabs.tabOf b) ++ Tabs.render true es).foldlM advance
          (.tabs started :: outer) = some outer := by
        rw [List.foldlM_append, run_renderTab (hblock b List.mem_cons_self)]
        exact iht
      refine ⟨?_, hb true⟩
      have hopen : advance outer Tabs.opener = some (.tabs false :: outer) := by
        simp only [holders, List.mem_cons, List.not_mem_nil, or_false] at ho
        rcases ho with rfl | rfl | rfl <;> rfl
      rw [Tabs.render, if_neg Bool.false_ne_true, List.append_assoc, List.singleton_append,
        List.foldlM_cons, hopen]
      exact hb false

theorem run_tabs {ls : List Text} (h : Quiet ls) {outer : List Frame} (ho : outer ∈ holders) :
    (Tabs.convertLines ls).foldlM advance outer = some outer := by
  refine (run_render (fun l hl => ?_) (fun b hb m hm => ?_) ho).1
  · exact h l ((mem_outline hl).1 l rfl).1
  · obtain ⟨k, hk, hs⟩ := exists_of_mem_body hb hm
    exact fun hi => h k hk (hi.trans hs.isInfix)

theorem convertLines_append_marker {l : Text} (h : Marker.lead <+: l) (a b : List Text) :
    Tabs.convertLines (a ++ l :: b) = Tabs.convertLines a ++ l :: Tabs.convertLines b := by
  obtain ⟨rest, rfl⟩ := h
  exact Tabs.convertLines_append_cons rfl (not_isMember_cons (by decide) (by decide)) a b

/-- Two marker lines cut the page for the second pass; what it does between them and around them
leaves the stack alone. -/
theorem run_enclosed (frame : Frame) (opener closer : Text) {a b c : List Text}
    (ho : Marker.lead <+: opener) (hc : Marker.lead <+: closer) (hf : [frame] ∈ holders)
    (hopen : advance [] opener = some [frame]) (hclose : advance [frame] closer = some [])
    (ha : Quiet a) (hb : Quiet b) (hrest : (Tabs.convertLines c).foldlM advance [] = some []) :
    (Tabs.convertLines (a ++ opener :: (b ++ closer :: c))).foldlM advance [] = some [] := by
  rw [convertLines_append_marker ho, convertLines_append_marker hc,
    List.foldlM_append, run_tabs ha (by simp [holders])]
  simp only [Option.bind_eq_bind, Option.bind_some, List.foldlM_cons, hopen]
  rw [List.foldlM_append, run_tabs hb hf]
  simp only [Option.bind_eq_bind, Option.bind_some, List.foldlM_cons, hclose]
  exact hrest

theorem not_infix_bold {t : Text} (h : ¬ Marker.lead <:+: t) :
    ¬ Marker.lead <:+: "**".toList ++ t ++ "**".toList := fun hi =>
  h (Text.infix_of_infix_append_right
    (Text.infix_of_infix_append_left hi (Text.forall_mem_of_all (by decide)))
    (Text.forall_mem_of_all (by decide)))

theorem Quiet.append {a b : List Text} (ha : Quiet a) (hb : Quiet b) : Quiet (a ++ b) := by
  intro l hl
  rcases List.mem_append.1 hl with hl | hl
  · exact ha l hl
  · exact hb l hl

theorem quiet_titleLines {title : Option Text} (h : ∀ t, title = some t → ¬ Marker.lead <:+: t) :
    Quiet (Admonition.titleLines title) := by
  intro l hl
  cases title with
  | none => simp [Admonition.titleLines] at hl
  | some t =>
    simp only [Admonition.titleLines, List.mem_cons, List.not_mem_nil, or_false] at hl
    rcases hl with rfl | rfl
    · exact not_infix_bold (h t rfl)
    · decide

/-- The lines `a` in front are those already gone over; they hold no marker. -/
theorem run_elements {es : List (Element AdmonitionHeader)}
    (hline : ∀ l, .line l ∈ es → ¬ Marker.lead <:+: l)
    (hblock : ∀ b, .block b ∈ es → Quiet b.body ∧
      ∀ t, b.header.title = some t → ¬ Marker.lead <:+: t) {a : List Text} (ha : Quiet a) :
    (Tabs.convertLines (a ++ es.flatMap Admonition.renderElement)).foldlM advance [] = some [] := by
  induction es generalizing a with
  | nil => simpa using run_tabs ha (by simp [holders])
  | cons e es ih =>
    have hes {a : List Text} (ha : Quiet a) := ih (fun l hl => hline l (List.mem_cons_of_mem e hl))
      (fun b hb => hblock b (List.mem_cons_of_mem e hb)) ha
    cases e with
    | line l =>
      have hl : Quiet [l] := by simpa [Quiet] using hline l List.mem_cons_self
      simpa [Admonition.renderElement] using hes (ha.append hl)
    | block b =>
      obtain ⟨hbody, htitle⟩ := hblock b List.mem_cons_self
      have hempty : Quiet [[]] := by simp [Quiet, Marker.lead]
      rw [List.flatMap_cons, Admonition.renderElement, Admonition.renderBlock]
      cases b.header.fence with
      | plain =>
        have hlead (style : CalloutStyle) : Marker.lead <+: Admonition.calloutOpener style := by
          cases style <;> exact ⟨_, rfl⟩
        have hopen (style : CalloutStyle) :
            advance [] (Admonition.calloutOpener style) = some [.callout] := by
          cases style <;> rfl
        simpa using run_enclosed .callout _ Admonition.calloutCloser (hlead _) ⟨_, rfl⟩
          (by simp [holders]) (hopen (Callout.ofKind b.header.kind).style) rfl ha
          ((quiet_titleLines htitle).append hbody) (hes hempty)
      | collapsible =>
        simpa using run_enclosed .details
          (Admonition.detailsOpener (b.header.title.getD (Callout.ofKind b.header.kind).defaultTitle))
          Admonition.detailsCloser ⟨_, rfl⟩ ⟨_, rfl⟩ (by simp [holders]) rfl rfl ha hbody (hes hempty)

end Nesting

/-- The block passes write well-nested shortcodes on every page without the lead of a marker. -/
theorem blocks_wellNested (s : Text) (h : ¬ Marker.lead <:+: s) :
    WellNested (Text.lines (Tabs.convert (Admonition.convert s))) := by
  rw [Tabs.lines_convert, Admonition.lines_convert]
  have hlines : Nesting.Quiet (Text.lines s) := fun l hl hi =>
    h (hi.trans (Text.infix_of_mem_lines hl))
  refine Nesting.run_elements (fun l hl => ?_) (fun b hb => ⟨fun m hm hi => ?_, fun t ht hi => ?_⟩)
    (a := []) fun _ hl => nomatch hl
  · exact hlines l ((mem_outline hl).1 l rfl).1
  · obtain ⟨k, hk, hs⟩ := exists_of_mem_body hb hm
    exact hlines k hk (hi.trans hs.isInfix)
  · obtain ⟨line, hmem, hp⟩ := ((mem_outline hb).2 b rfl).1
    obtain ⟨rest, rfl, -, htitle⟩ := AdmonitionHeader.parse_spec hp
    exact hlines _ hmem (hi.trans ((htitle t ht).trans (List.suffix_append _ rest).isInfix))

/-- A group of tabs in the body of an admonition: both passes write something. -/
theorem tabs_in_callout_wellNested :
    ¬ Marker.lead <:+: "!!! tip\n    === \"One\"\n        1\n".toList ∧
      WellNested (Text.lines (Tabs.convert (Admonition.convert
        "!!! tip\n    === \"One\"\n        1\n".toList))) ∧
      Text.lines (Tabs.convert (Admonition.convert "!!! tip\n    === \"One\"\n        1\n".toList)) =
        [Admonition.calloutOpener .info, Tabs.opener, Tabs.tabOpener "One".toList, "1".toList,
          Tabs.tabCloser, Tabs.closer, [], Admonition.calloutCloser, []] :=
  ⟨by decide, blocks_wellNested _ (by decide), by decide +kernel⟩

/-- A tab outside a group is not well nested. -/
example : ¬ WellNested [Tabs.tabOpener "One".toList, Tabs.tabCloser] := by decide

end Markdown

end DocsMigration
