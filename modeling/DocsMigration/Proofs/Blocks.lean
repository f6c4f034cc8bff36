import DocsMigration.Markdown.Admonition
import DocsMigration.Markdown.Tabs
import DocsMigration.Proofs.Case
import DocsMigration.Proofs.Outline
/-! The headers of admonitions and tabs, and the lines that are written for them. A header starts
with a mark of its own, so it is no member of a block; and no line that is written holds a line
feed, so the lines of a converted page are exactly those its pass has written. -/

namespace DocsMigration

namespace Markdown

namespace AdmonitionHeader

theorem eq_mark_append_of_fence? {line rest : Text} {f : Fence} (h : fence? line = some (f, rest)) :
    line = f.mark ++ rest := by
  unfold fence? at h
  split at h
  · rename_i s hs
    obtain ⟨rfl, rfl⟩ := Prod.mk.inj (Option.some.inj h)
    exact (Text.stripPrefix?_eq_some.1 hs).symm
  · simp only [Option.map_eq_some_iff, Prod.mk.injEq] at h
    obtain ⟨s, hs, rfl, rfl⟩ := h
    exact (Text.stripPrefix?_eq_some.1 hs).symm

theorem infix_of_titleText? {rest title : Text} (h : titleText? rest = some title) :
    title <:+: rest := by
  unfold titleText? at h
  split at h
  · obtain rfl := Option.some.inj h
    exact List.nil_infix
  · rename_i c s hs
    split_ifs at h
    split at h
    · rename_i t after ht
      split_ifs at h
      obtain rfl := Option.some.inj h
      obtain ⟨rfl, -⟩ := Text.splitOnce?_eq_some.1 ht
      have hsuf : c :: (t ++ '"' :: after) <:+ rest := hs ▸ List.dropWhile_suffix _
      exact List.IsInfix.trans ⟨[c], '"' :: after, by simp⟩ hsuf.isInfix
    · contradiction

/-- What a header line holds: the mark of its fence at the front, and behind it its kind as a word and
its title as it stands there. -/
theorem parse_spec {line : Text} {h : AdmonitionHeader} (hp : parse line = some h) :
    ∃ rest, line = h.fence.mark ++ rest ∧
      (∃ word, word <:+: rest ∧ (∀ c ∈ word, Text.isWord c) ∧ h.kind = Text.toLower word) ∧
        ∀ t, h.title = some t → t <:+: rest := by
  simp only [parse, guard, Option.bind_eq_bind, Option.bind_eq_some_iff, Prod.exists] at hp
  obtain ⟨f, rest, hf, -, -, -, -, title, ht, hp⟩ := hp
  obtain rfl := Option.some.inj hp
  have hrest : Text.trimStart rest <:+: rest := (List.dropWhile_suffix _).isInfix
  refine ⟨rest, eq_mark_append_of_fence? hf, ⟨_, (List.takeWhile_prefix _).isInfix.trans hrest,
    List.all_eq_true.1 List.all_takeWhile, rfl⟩, fun t h => ?_⟩
  dsimp only at h
  split_ifs at h
  obtain rfl := Option.some.inj h
  exact (infix_of_titleText? ht).trans ((List.dropWhile_suffix _).isInfix.trans hrest)

theorem unindented_parse : Unindented parse := by
  intro line h hp
  obtain ⟨rest, rfl, -⟩ := parse_spec hp
  cases h.fence <;> exact not_isMember_cons (by decide) (by decide)

end AdmonitionHeader

namespace Admonition

/-- A default title has only the signs of the word it stands for, but for those of the known titles. -/
theorem mem_of_mem_defaultTitle {x : Char} (h0 : 0 < x.toNat) (hx : x.toNat < 65)
    (htitles : ∀ e ∈ Callout.table, x ∉ e.2.defaultTitle) {kind : Text}
    (h : x ∈ (Callout.ofKind kind).defaultTitle) : x ∈ kind := by
  simp only [Callout.ofKind] at h
  cases hc : Callout.table.lookup (Text.toLower kind) with
  | some callout =>
    obtain ⟨l, r, hl, -⟩ := List.lookup_eq_some_iff.1 hc
    rw [hc] at h
    exact absurd h (htitles (Text.toLower kind, callout) (by simp [hl]))
  | none =>
    rw [hc] at h
    exact Text.mem_of_mem_toLower h0 hx (Text.mem_of_mem_capitalize h0 hx h)

theorem newline_not_mem_detailsOpener {title : Text} (h : '\n' ∉ title) :
    '\n' ∉ detailsOpener title := by
  unfold detailsOpener
  simp only [List.mem_append, not_or]
  exact ⟨⟨by decide, h⟩, by decide⟩

theorem newline_not_mem_titleLines {title : Option Text} (h : ∀ t, title = some t → '\n' ∉ t) :
    ∀ l ∈ titleLines title, '\n' ∉ l := by
  intro l hl
  cases title with
  | none => simp [titleLines] at hl
  | some t =>
    simp only [titleLines, List.mem_cons, List.not_mem_nil, or_false] at hl
    rcases hl with rfl | rfl
    · simp [h t rfl]
    · simp

theorem newline_not_mem_renderBlock {b : Block AdmonitionHeader} (hbody : ∀ l ∈ b.body, '\n' ∉ l)
    (htitle : ∀ t, b.header.title = some t → '\n' ∉ t)
    (hdefault : '\n' ∉ (Callout.ofKind b.header.kind).defaultTitle) :
    ∀ l ∈ renderBlock b, '\n' ∉ l := by
  intro l hl
  unfold renderBlock at hl
  split at hl
  · simp only [List.mem_cons, List.mem_append, List.not_mem_nil, or_false] at hl
    rcases hl with rfl | (hl | hl) | rfl | rfl
    · cases (Callout.ofKind b.header.kind).style <;> decide
    · exact newline_not_mem_titleLines htitle l hl
    · exact hbody l hl
    · decide
    · simp
  · simp only [List.mem_cons, List.mem_append, List.not_mem_nil, or_false] at hl
    rcases hl with rfl | hl | rfl | rfl
    · apply newline_not_mem_detailsOpener
      cases ht : b.header.title with
      | none => exact hdefault
      | some t => exact htitle t ht
    · exact hbody l hl
    · decide
    · simp

theorem newline_not_mem_renderElement {ls : List Text} (hls : ∀ l ∈ ls, '\n' ∉ l)
    {e : Element AdmonitionHeader} (he : e ∈ outline AdmonitionHeader.parse ls) :
    ∀ l ∈ renderElement e, '\n' ∉ l := by
  obtain ⟨hline, hblock⟩ := mem_outline he
  cases e with
  | line l => simpa [renderElement] using hls l (hline l rfl).1
  | block b =>
    obtain ⟨⟨line, hmem, hp⟩, -⟩ := hblock b rfl
    obtain ⟨rest, rfl, ⟨word, hword, -, hkind⟩, htitle⟩ := AdmonitionHeader.parse_spec hp
    have htext : ∀ t, t <:+: rest → '\n' ∉ t := fun t ht hm =>
      hls _ hmem (List.mem_append_right _ (ht.subset hm))
    have hkind' : '\n' ∉ b.header.kind := by
      intro hm
      rw [hkind] at hm
      exact htext word hword (Text.mem_of_mem_toLower (by decide) (by decide) hm)
    apply newline_not_mem_renderBlock
    · intro l hl hm
      obtain ⟨k, hk, hs⟩ := exists_of_mem_body he hl
      exact hls k hk (hs.subset hm)
    · exact fun t ht => htext t (htitle t ht)
    · exact fun hm => hkind' (mem_of_mem_defaultTitle (by decide) (by decide) (by decide) hm)

theorem newline_not_mem_convertLines {ls : List Text} (hls : ∀ l ∈ ls, '\n' ∉ l) :
    ∀ l ∈ convertLines ls, '\n' ∉ l := by
  intro l hl
  obtain ⟨e, he, hl⟩ := List.mem_flatMap.1 hl
  exact newline_not_mem_renderElement hls he l hl

theorem convertLines_ne_nil {ls : List Text} (h : ls ≠ []) : convertLines ls ≠ [] := by
  obtain ⟨l, ls, rfl⟩ := List.exists_cons_of_ne_nil h
  unfold convertLines
  cases hp : AdmonitionHeader.parse l with
  | none => simp [outline_cons_line hp, renderElement]
  | some a =>
    rw [outline_cons_block hp]
    cases hf : a.fence <;> simp [renderElement, renderBlock, hf]

theorem lines_convert (s : Text) : Text.lines (convert s) = convertLines (Text.lines s) :=
  Text.lines_unlines (convertLines_ne_nil (Text.lines_ne_nil s))
    (newline_not_mem_convertLines fun _ => Text.newline_not_mem_of_mem_lines)

end Admonition

namespace Tabs

theorem label?_eq_some {line label : Text} (h : label? line = some label) :
    ∃ rest, line = "=== \"".toList ++ label ++ '"' :: rest ∧ label ≠ [] ∧ '"' ∉ label := by
  unfold label? at h
  split at h
  · rename_i s hs
    split at h
    · rename_i t rest ht
      split_ifs at h with he
      obtain rfl := Option.some.inj h
      obtain ⟨rfl, hq⟩ := Text.splitOnce?_eq_some.1 ht
      exact ⟨rest, by simp [← Text.stripPrefix?_eq_some.1 hs], by simpa using he, hq⟩
    · contradiction
  · contradiction

theorem unindented_label? : Unindented label? := by
  intro line label h
  obtain ⟨rest, rfl, -⟩ := label?_eq_some h
  exact not_isMember_cons (by decide) (by decide)

/-- A line that is no block closes the group in front of it, and what follows is rendered afresh. -/
theorem render_append_line (inGroup : Bool) (es fs : List (Element Text)) (l : Text) :
    render inGroup (es ++ .line l :: fs) = render inGroup es ++ l :: render false fs := by
  induction es generalizing inGroup with
  | nil => cases inGroup <;> rfl
  | cons e es ih => cases e <;> simp [render, ih]

theorem convertLines_append_cons {l : Text} (hl : label? l = none) (hm : ¬ IsMember l)
    (a b : List Text) : convertLines (a ++ l :: b) = convertLines a ++ l :: convertLines b := by
  have hb : ∀ k ∈ (l :: b).head?, ¬ IsMember k := by simpa using hm
  unfold convertLines
  rw [outline_append hb, outline_cons_line hl, render_append_line]

/-- Every line of the rendered outline is a line of the page, a line of some tab, a line around a
group, or the empty line behind one. -/
theorem mem_render {inGroup : Bool} {es : List (Element Text)} {l : Text}
    (h : l ∈ render inGroup es) :
    l = opener ∨ l = closer ∨ l = [] ∨ .line l ∈ es ∨ ∃ b, .block b ∈ es ∧ l ∈ renderTab (tabOf b) := by
  induction es generalizing inGroup with
  | nil => cases inGroup <;> simp_all [render]
  | cons e es ih =>
    cases e with
    | line k =>
      rw [render, List.mem_append, List.mem_cons] at h
      rcases h with h | rfl | h
      · have : l = closer ∨ l = [] := by cases inGroup <;> simp_all
        tauto
      · simp
      · have := ih h
        grind
    | block b =>
      rw [render, List.mem_append, List.mem_append] at h
      rcases h with (h | h) | h
      · cases inGroup <;> simp_all
      · exact .inr (.inr (.inr (.inr ⟨b, List.mem_cons_self, h⟩)))
      · have := ih h
        grind

theorem newline_not_mem_renderTab {t : Tab} (hl : '\n' ∉ t.label) (hb : ∀ l ∈ t.body, '\n' ∉ l) :
    ∀ l ∈ renderTab t, '\n' ∉ l := by
  intro l h
  simp only [renderTab, List.mem_cons, List.mem_append, List.not_mem_nil, or_false] at h
  rcases h with rfl | h | rfl
  · unfold tabOpener
    simp only [List.mem_append, not_or]
    exact ⟨⟨by decide, hl⟩, by decide⟩
  · exact hb l h
  · decide

theorem newline_not_mem_convertLines {ls : List Text} (hls : ∀ l ∈ ls, '\n' ∉ l) :
    ∀ l ∈ convertLines ls, '\n' ∉ l := by
  intro l hl
  rcases mem_render hl with rfl | rfl | rfl | h | ⟨b, h, hl⟩
  · decide
  · decide
  · simp
  · exact hls l ((mem_outline h).1 l rfl).1
  · obtain ⟨⟨line, hmem, hlabel⟩, hmembers⟩ := (mem_outline h).2 b rfl
    obtain ⟨rest, rfl, -⟩ := label?_eq_some hlabel
    refine newline_not_mem_renderTab (fun hm => hls _ hmem ?_) (fun l hl hm => ?_) l hl
    · simp [show '\n' ∈ b.header from hm]
    · obtain ⟨k, hk, hs⟩ := exists_of_mem_body h hl
      exact hls k hk (hs.subset hm)

theorem convertLines_ne_nil {ls : List Text} (h : ls ≠ []) : convertLines ls ≠ [] := by
  obtain ⟨l, ls, rfl⟩ := List.exists_cons_of_ne_nil h
  unfold convertLines
  cases hl : label? l with
  | none => simp [outline_cons_line hl, render]
  | some a => simp [outline_cons_block hl, render]

theorem lines_convert (s : Text) : Text.lines (convert s) = convertLines (Text.lines s) :=
  Text.lines_unlines (convertLines_ne_nil (Text.lines_ne_nil s))
    (newline_not_mem_convertLines fun _ => Text.newline_not_mem_of_mem_lines)

end Tabs

end Markdown

end DocsMigration
