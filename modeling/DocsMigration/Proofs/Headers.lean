import DocsMigration.Proofs.Annotations
import DocsMigration.Proofs.Blocks
/-! Lines in front of the first header. A block pass leaves them alone, and the line it writes for the
first header starts with two braces. Every header of an admonition loses its fence and every header of
a tab its equals signs, and nothing that is written has such a sign: so a pass that changes a page
leaves fewer of them. -/

namespace DocsMigration

namespace Text

theorem countP_unlines {p : Char → Bool} (hp : p '\n' = false) (ls : List Text) :
    (unlines ls).countP p = ls.flatten.countP p := by
  induction ls with
  | nil => rfl
  | cons l ls ih =>
    rcases eq_or_ne ls [] with rfl | hls
    · simp [unlines]
    · rw [unlines_cons l hls, List.countP_append, List.countP_cons, ih, hp, List.flatten_cons,
        List.countP_append]
      simp

theorem countP_flatten_lines {p : Char → Bool} (hp : p '\n' = false) (s : Text) :
    (lines s).flatten.countP p = s.countP p := by
  rw [← countP_unlines hp, unlines_lines]

theorem exists_unlines_eq (pre : List Text) (l : Text) (post : List Text) :
    ∃ y, unlines (pre ++ l :: post) = pre.flatMap (· ++ ['\n']) ++ (l ++ y) := by
  induction pre with
  | nil =>
    rcases eq_or_ne post [] with rfl | hpost
    · exact ⟨[], by simp [unlines]⟩
    · exact ⟨'\n' :: unlines post, unlines_cons l hpost⟩
  | cons k pre ih =>
    obtain ⟨y, hy⟩ := ih
    refine ⟨y, ?_⟩
    rw [List.cons_append, unlines_cons k (by simp), hy]
    simp

theorem countP_eq_zero_of_forall {p : Char → Bool} {s : Text} (h : ∀ c ∈ s, ¬ p c) : s.countP p = 0 :=
  List.countP_eq_zero.2 h

end Text

namespace Markdown

section Blocks

variable {η : Type} {p : Char → Bool}

theorem countP_body_le (b : Block η) : b.body.flatten.countP p ≤ b.members.flatten.countP p := by
  have hbody : b.body.Sublist b.members := by
    have := (List.dropWhile_sublist Text.isBlank (l := b.members.reverse)).reverse
    simpa [Block.body, dropBlankEnd] using this
  exact hbody.flatten.countP_le

theorem countP_memberRun_le (n : Nat) (ls : List Text) :
    (memberRun n ls).flatten.countP p + (ls.drop (memberRun n ls).length).flatten.countP p ≤
      ls.flatten.countP p := by
  induction ls with
  | nil => simp [memberRun]
  | cons l ls ih =>
    unfold memberRun
    split
    · rename_i m hm
      have := (suffix_of_stripIndent hm).sublist.countP_le (p := p)
      simp only [List.flatten_cons, List.countP_append, List.length_cons, List.drop_succ_cons]
      omega
    · simp

end Blocks

/-- A page up to a line that starts with two braces: `ks` has the lines `ls`, or it has them up to
some line and goes on with one that starts with two braces. -/
def Fronts (ls ks : List Text) : Prop :=
  ks = ls ∨ ∃ pre l post t more, ls = pre ++ l :: post ∧ ks = pre ++ ('{' :: '{' :: t) :: more

theorem Fronts.cons {ls ks : List Text} (h : Fronts ls ks) (l : Text) : Fronts (l :: ls) (l :: ks) := by
  rcases h with rfl | ⟨pre, k, post, t, more, rfl, rfl⟩
  · exact .inl rfl
  · exact .inr ⟨l :: pre, k, post, t, more, rfl, rfl⟩

theorem leads_of_braces {x t y : Text} (h : ButtonAttributes.leads (x ++ '{' :: '{' :: t)) :
    ButtonAttributes.leads (x ++ y) := by
  obtain ⟨ws, ws', hws, hws', hp⟩ := ButtonAttributes.leads_iff.1 h
  refine ButtonAttributes.leads_iff.2 ⟨ws, ws', hws, hws', ?_⟩
  have hclass : ('{' :: ButtonAttributes.className).countP (· == '{') = 1 := by decide
  have hone : (ws ++ '{' :: (ws' ++ ButtonAttributes.className)).countP (· == '{') = 1 := by
    have hblank {ws : Text} (hws : ∀ c ∈ ws, Text.isSpace c) : ws.countP (· == '{') = 0 := by
      apply Text.countP_eq_zero_of_forall
      intro c hc hbrace
      rw [beq_iff_eq.1 hbrace] at hc
      exact absurd (hws _ hc) (by decide)
    rw [List.countP_cons] at hclass
    rw [List.countP_append, List.countP_cons, List.countP_append, hblank hws, hblank hws']
    omega
  have hlast : (ws ++ '{' :: (ws' ++ ButtonAttributes.className)).getLast? = some 'n' := by
    have : ButtonAttributes.className <:+ ws ++ '{' :: (ws' ++ ButtonAttributes.className) :=
      ⟨ws ++ '{' :: ws', by simp⟩
    rw [← Text.getLast?_of_suffix this (by decide)]
    decide
  generalize ws ++ '{' :: (ws' ++ ButtonAttributes.className) = p at hp hone hlast ⊢
  rcases List.prefix_or_prefix_of_prefix hp (List.prefix_append x _) with h' | ⟨z, rfl⟩
  · exact h'.trans (List.prefix_append x y)
  · rw [List.prefix_append_right_inj] at hp
    match z with
    | [] => simp
    | [c] =>
      obtain rfl := (List.cons_prefix_cons.1 hp).1
      rw [List.getLast?_concat] at hlast
      exact absurd hlast (by decide)
    | c :: d :: z =>
      obtain ⟨rfl, htail⟩ := List.cons_prefix_cons.1 hp
      obtain ⟨rfl, -⟩ := List.cons_prefix_cons.1 htail
      simp at hone
      omega

theorem leads_of_fronts {ls ks : List Text} (h : Fronts ls ks)
    (hks : ButtonAttributes.leads (Text.unlines ks)) : ButtonAttributes.leads (Text.unlines ls) := by
  rcases h with rfl | ⟨pre, l, post, t, more, rfl, rfl⟩
  · exact hks
  · obtain ⟨y, hy⟩ := Text.exists_unlines_eq pre ('{' :: '{' :: t) more
    obtain ⟨z, hz⟩ := Text.exists_unlines_eq pre l post
    rw [hy] at hks
    rw [hz]
    exact leads_of_braces hks

/-- A pass over lines that keeps each line in front of the first header, and writes for a header and
all behind it a line that starts with two braces and fewer signs of some kind than there were. -/
structure BlockPass {η : Type} (header? : Text → Option η) (p : Char → Bool)
    (pass : List Text → List Text) : Prop where
  newline : p '\n' = false
  nil : pass [] = []
  line : ∀ {l}, header? l = none → ∀ ls, pass (l :: ls) = l :: pass ls
  block : ∀ {l a}, header? l = some a → ∀ ls, ∃ t more, pass (l :: ls) = ('{' :: '{' :: t) :: more ∧
    (pass (l :: ls)).flatten.countP p < (l :: ls).flatten.countP p

namespace BlockPass

variable {η : Type} {header? : Text → Option η} {p : Char → Bool} {pass : List Text → List Text}

theorem pass_append (h : BlockPass header? p pass) {ls : List Text}
    (hls : ∀ l ∈ ls, header? l = none) (ks : List Text) : pass (ls ++ ks) = ls ++ pass ks := by
  induction ls with
  | nil => rfl
  | cons l ls ih =>
    rw [List.cons_append, h.line (hls l List.mem_cons_self),
      ih fun k hk => hls k (List.mem_cons_of_mem l hk), List.cons_append]

theorem countP_pass_lt (h : BlockPass header? p pass) {ls : List Text}
    (hls : ∃ l ∈ ls, header? l ≠ none) : (pass ls).flatten.countP p < ls.flatten.countP p := by
  induction ls with
  | nil => simp at hls
  | cons l ls ih =>
    cases hl : header? l with
    | none =>
      have := ih (by simpa [hl] using hls)
      rw [h.line hl, List.flatten_cons, List.flatten_cons, List.countP_append, List.countP_append]
      omega
    | some a =>
      obtain ⟨t, more, -, hlt⟩ := h.block hl ls
      exact hlt

theorem fronts_pass (h : BlockPass header? p pass) (ls : List Text) : Fronts ls (pass ls) := by
  induction ls with
  | nil => exact .inl h.nil
  | cons l ls ih =>
    cases hl : header? l with
    | none =>
      rw [h.line hl]
      exact ih.cons l
    | some a =>
      obtain ⟨t, more, heq, -⟩ := h.block hl ls
      exact .inr ⟨[], l, ls, t, more, rfl, heq⟩

theorem countP_lt (h : BlockPass header? p pass) {s : Text} (hs : ∃ l ∈ Text.lines s, header? l ≠ none) :
    (Text.unlines (pass (Text.lines s))).countP p < s.countP p := by
  rw [Text.countP_unlines h.newline]
  exact (h.countP_pass_lt hs).trans_eq (Text.countP_flatten_lines h.newline s)

/-- A page stays as it is exactly if it has no header. -/
theorem eq_self_iff (h : BlockPass header? p pass) {s : Text} :
    Text.unlines (pass (Text.lines s)) = s ↔ ∀ l ∈ Text.lines s, header? l = none := by
  constructor
  · intro hfix l hl
    by_contra hne
    have hlt := h.countP_lt ⟨l, hl, hne⟩
    rw [hfix] at hlt
    omega
  · intro hnone
    have hpass := h.pass_append hnone []
    rw [List.append_nil, h.nil, List.append_nil] at hpass
    rw [hpass, Text.unlines_lines]

theorem eq_or_countP_lt (h : BlockPass header? p pass) (s : Text) :
    Text.unlines (pass (Text.lines s)) = s ∨
      (Text.unlines (pass (Text.lines s))).countP p < s.countP p := by
  by_cases hs : ∃ l ∈ Text.lines s, header? l ≠ none
  · exact .inr (h.countP_lt hs)
  · exact .inl (h.eq_self_iff.2 (by simpa using hs))

/-- Lines that stay as they are stay so in front of any text. -/
theorem convert_append (h : BlockPass header? p pass) {a : Text} (ha : a.getLast? = some '\n')
    (hfix : Text.unlines (pass (Text.lines a)) = a) (b : Text) :
    Text.unlines (pass (Text.lines (a ++ b))) = a ++ Text.unlines (pass (Text.lines b)) := by
  have hnone := h.eq_self_iff.1 hfix
  obtain ⟨a, rfl⟩ := List.getLast?_eq_some_iff.1 ha
  have hlines (b : Text) : Text.lines (a ++ ['\n'] ++ b) = Text.lines a ++ Text.lines b := by
    rw [List.append_assoc]
    exact Text.lines_append_newline a b
  have hfront : ∀ l ∈ Text.lines a, header? l = none := by
    intro l hl
    apply hnone
    rw [← List.append_nil (a ++ ['\n']), hlines]
    exact List.mem_append_left _ hl
  have hne : pass (Text.lines b) ≠ [] := by
    obtain ⟨l, ls, hl⟩ := List.exists_cons_of_ne_nil (Text.lines_ne_nil b)
    rw [hl]
    cases hh : header? l with
    | none => simp [h.line hh]
    | some x =>
      obtain ⟨t, more, heq, -⟩ := h.block hh ls
      simp [heq]
  rw [hlines, h.pass_append hfront, Text.unlines_append (Text.lines_ne_nil a) hne, Text.unlines_lines]
  simp

theorem leads (h : BlockPass header? p pass) {s : Text}
    (hs : ButtonAttributes.leads (Text.unlines (pass (Text.lines s)))) : ButtonAttributes.leads s := by
  have := leads_of_fronts (h.fronts_pass (Text.lines s)) hs
  rwa [Text.unlines_lines] at this

end BlockPass

namespace Admonition

def isFenceSign (c : Char) : Bool := c == '!' || c == '?'

theorem countP_defaultTitle {word : Text} (hword : ∀ c ∈ word, Text.isWord c) :
    (Callout.ofKind (Text.toLower word)).defaultTitle.countP isFenceSign = 0 := by
  apply Text.countP_eq_zero_of_forall
  intro c hc hsign
  have hmem (h0 : 0 < c.toNat) (hx : c.toNat < 65)
      (htitles : ∀ e ∈ Callout.table, c ∉ e.2.defaultTitle) : c ∈ word :=
    Text.mem_of_mem_toLower h0 hx (mem_of_mem_defaultTitle h0 hx htitles hc)
  simp only [isFenceSign, Bool.or_eq_true, beq_iff_eq] at hsign
  rcases hsign with rfl | rfl
  · exact absurd (hword _ (hmem (by decide) (by decide) (by decide))) (by decide)
  · exact absurd (hword _ (hmem (by decide) (by decide) (by decide))) (by decide)

theorem countP_detailsOpener (title : Text) :
    (detailsOpener title).countP isFenceSign = title.countP isFenceSign := by
  have hmarks : (detailsOpener []).countP isFenceSign = 0 := by decide
  unfold detailsOpener at hmarks ⊢
  simp only [List.countP_append, List.countP_nil] at hmarks ⊢
  omega

theorem countP_titleLines (title : Text) :
    (titleLines (some title)).flatten.countP isFenceSign = title.countP isFenceSign := by
  have hmarks : (titleLines (some [])).flatten.countP isFenceSign = 0 := by decide
  unfold titleLines at hmarks ⊢
  simp only [List.flatten_cons, List.countP_append, List.countP_nil] at hmarks ⊢
  omega

theorem countP_renderBlock_lt {line : Text} {a : AdmonitionHeader}
    (h : AdmonitionHeader.parse line = some a) (members : List Text) :
    (renderBlock ⟨a, members⟩).flatten.countP isFenceSign <
      line.countP isFenceSign + members.flatten.countP isFenceSign := by
  obtain ⟨rest, rfl, ⟨word, -, hword, hkind⟩, htitle⟩ := AdmonitionHeader.parse_spec h
  have hbody : (Block.body ⟨a, members⟩).flatten.countP isFenceSign ≤
      members.flatten.countP isFenceSign := countP_body_le ⟨a, members⟩
  have hmark : a.fence.mark.countP isFenceSign = 3 := by cases a.fence <;> decide
  have hgiven : ∀ t, a.title = some t → t.countP isFenceSign ≤ rest.countP isFenceSign :=
    fun t ht => (htitle t ht).sublist.countP_le
  rw [List.countP_append, hmark]
  unfold renderBlock
  split
  · have hopener : (calloutOpener (Callout.ofKind a.kind).style).countP isFenceSign = 0 := by
      cases (Callout.ofKind a.kind).style <;> decide
    have hcloser : calloutCloser.countP isFenceSign = 0 := by decide
    have htitles : (titleLines a.title).flatten.countP isFenceSign ≤ rest.countP isFenceSign := by
      cases ht : a.title with
      | none => simp [titleLines]
      | some t =>
        rw [countP_titleLines]
        exact hgiven t ht
    simp only [List.flatten_cons, List.flatten_append, List.flatten_nil, List.countP_append,
      List.countP_nil, hopener, hcloser]
    omega
  · have hcloser : detailsCloser.countP isFenceSign = 0 := by decide
    have htitles : (a.title.getD (Callout.ofKind a.kind).defaultTitle).countP isFenceSign ≤
        rest.countP isFenceSign := by
      cases ht : a.title with
      | none =>
        rw [Option.getD_none, hkind, countP_defaultTitle hword]
        exact Nat.zero_le _
      | some t => exact hgiven t ht
    simp only [List.flatten_cons, List.flatten_append, List.flatten_nil, List.countP_append,
      List.countP_nil, countP_detailsOpener, hcloser]
    omega

theorem convertLines_cons_line {l : Text} (h : AdmonitionHeader.parse l = none) (ls : List Text) :
    convertLines (l :: ls) = l :: convertLines ls := by
  simp [convertLines, outline_cons_line h, renderElement]

theorem convertLines_cons_block {l : Text} {a : AdmonitionHeader}
    (h : AdmonitionHeader.parse l = some a) (ls : List Text) :
    convertLines (l :: ls) = renderBlock ⟨a, memberRun blockIndent ls⟩ ++
      convertLines (ls.drop (memberRun blockIndent ls).length) := by
  simp [convertLines, outline_cons_block h, renderElement]

theorem countP_convertLines_le (ls : List Text) :
    (convertLines ls).flatten.countP isFenceSign ≤ ls.flatten.countP isFenceSign := by
  induction ls using outline_induction AdmonitionHeader.parse with
  | nil => rfl
  | line l ls h ih =>
    rw [convertLines_cons_line h, List.flatten_cons, List.flatten_cons, List.countP_append,
      List.countP_append]
    omega
  | block l ls a h ih =>
    have hblock := countP_renderBlock_lt h (memberRun blockIndent ls)
    have hrun := countP_memberRun_le (p := isFenceSign) blockIndent ls
    rw [convertLines_cons_block h, List.flatten_append, List.flatten_cons, List.countP_append,
      List.countP_append]
    omega

theorem exists_renderBlock_eq (b : Block AdmonitionHeader) :
    ∃ t more, renderBlock b = ('{' :: '{' :: t) :: more := by
  have hcallout (style : CalloutStyle) : ∃ t, calloutOpener style = '{' :: '{' :: t := by
    cases style <;> exact ⟨_, rfl⟩
  unfold renderBlock
  split
  · obtain ⟨t, ht⟩ := hcallout (Callout.ofKind b.header.kind).style
    exact ⟨t, _, congrArg (· :: _) ht⟩
  · exact ⟨_, _, rfl⟩

theorem blockPass_convertLines : BlockPass AdmonitionHeader.parse isFenceSign convertLines where
  newline := by decide
  nil := rfl
  line := convertLines_cons_line
  block := by
    intro l a h ls
    obtain ⟨t, more, heq⟩ := exists_renderBlock_eq ⟨a, memberRun blockIndent ls⟩
    have hblock := countP_renderBlock_lt h (memberRun blockIndent ls)
    have hrun := countP_memberRun_le (p := isFenceSign) blockIndent ls
    have hrest := countP_convertLines_le (ls.drop (memberRun blockIndent ls).length)
    rw [convertLines_cons_block h]
    refine ⟨t, more ++ convertLines (ls.drop (memberRun blockIndent ls).length), ?_, ?_⟩
    · rw [heq, List.cons_append]
    · rw [List.flatten_append, List.flatten_cons, List.countP_append, List.countP_append]
      omega

end Admonition

namespace Tabs

section Counting

variable {p : Char → Bool}

/-- None of the signs that are written around tabs is counted. -/
def Unwritten (p : Char → Bool) : Prop :=
  opener.countP p = 0 ∧ closer.countP p = 0 ∧ tabCloser.countP p = 0 ∧ (tabOpener []).countP p = 0

theorem countP_tabOpener (hp : Unwritten p) (label : Text) :
    (tabOpener label).countP p = label.countP p := by
  have hmarks := hp.2.2.2
  unfold tabOpener at hmarks ⊢
  simp only [List.countP_append, List.countP_nil] at hmarks ⊢
  omega

theorem countP_renderTab_le (hp : Unwritten p) {line label : Text} (h : label? line = some label)
    (members : List Text) : (renderTab (tabOf ⟨label, members⟩)).flatten.countP p +
      "===".toList.countP p ≤ line.countP p + members.flatten.countP p := by
  obtain ⟨rest, rfl, -⟩ := label?_eq_some h
  have hbody : (Block.body ⟨label, members⟩).flatten.countP p ≤ members.flatten.countP p :=
    countP_body_le ⟨label, members⟩
  have hmark : "=== \"".toList = "===".toList ++ " \"".toList := by decide
  simp only [renderTab, tabOf, List.flatten_cons, List.flatten_append, List.flatten_nil,
    List.countP_append, List.countP_nil, countP_tabOpener hp, hp.2.2.1, hmark]
  omega

theorem render_cons_line (inGroup : Bool) {l : Text} (h : label? l = none) (ls : List Text) :
    render inGroup (outline label? (l :: ls)) =
      (if inGroup then [closer, []] else []) ++ l :: render false (outline label? ls) := by
  rw [outline_cons_line h, render]

theorem render_cons_block (inGroup : Bool) {l label : Text} (h : label? l = some label)
    (ls : List Text) : render inGroup (outline label? (l :: ls)) =
      (if inGroup then [] else [opener]) ++ renderTab (tabOf ⟨label, memberRun blockIndent ls⟩) ++
        render true (outline label? (ls.drop (memberRun blockIndent ls).length)) := by
  rw [outline_cons_block h, render]

theorem countP_render_le (hp : Unwritten p) (ls : List Text) (inGroup : Bool) :
    (render inGroup (outline label? ls)).flatten.countP p ≤ ls.flatten.countP p := by
  have hglue (inGroup : Bool) {l k : List Text} (hl : l.flatten.countP p = 0)
      (hk : k.flatten.countP p = 0) : (if inGroup then l else k).flatten.countP p = 0 := by
    cases inGroup
    · exact hk
    · exact hl
  induction ls using outline_induction label? generalizing inGroup with
  | nil => cases inGroup <;> simp [render, hp.2.1]
  | line l ls h ih =>
    have := ih false
    have hclose := hglue inGroup (l := [closer, []]) (k := []) (by simp [hp.2.1]) rfl
    rw [render_cons_line inGroup h, List.flatten_append, List.flatten_cons, List.flatten_cons,
      List.countP_append, List.countP_append, List.countP_append]
    omega
  | block l ls a h ih =>
    have := ih true
    have hblock := countP_renderTab_le hp h (memberRun blockIndent ls)
    have hrun := countP_memberRun_le (p := p) blockIndent ls
    have hopen := hglue inGroup (l := []) (k := [opener]) rfl (by simp [hp.1])
    rw [render_cons_block inGroup h, List.flatten_append, List.flatten_append, List.flatten_cons,
      List.countP_append, List.countP_append, List.countP_append]
    omega

theorem countP_convert_le (hp : Unwritten p) (hnewline : p '\n' = false) (s : Text) :
    (convert s).countP p ≤ s.countP p := by
  unfold convert
  rw [Text.countP_unlines hnewline]
  exact (countP_render_le hp _ false).trans_eq (Text.countP_flatten_lines hnewline s)

end Counting

def isEquals (c : Char) : Bool := c == '='

theorem blockPass_convertLines : BlockPass label? isEquals convertLines where
  newline := by decide
  nil := rfl
  line := fun h ls => render_cons_line false h ls
  block := by
    intro l label h ls
    have hp : Unwritten isEquals := by
      unfold Unwritten
      decide
    have hmark : "===".toList.countP isEquals = 3 := by decide
    have hblock := countP_renderTab_le hp h (memberRun blockIndent ls)
    have hrun := countP_memberRun_le (p := isEquals) blockIndent ls
    have hrest := countP_render_le hp (ls.drop (memberRun blockIndent ls).length) true
    have hopen : opener.countP isEquals = 0 := hp.1
    refine ⟨_, _, render_cons_block false h ls, ?_⟩
    have heq : convertLines (l :: ls) = [opener] ++ renderTab (tabOf ⟨label, memberRun blockIndent ls⟩) ++
        render true (outline label? (ls.drop (memberRun blockIndent ls).length)) :=
      render_cons_block false h ls
    rw [heq]
    simp only [List.flatten_append, List.flatten_cons, List.flatten_nil, List.countP_append,
      List.countP_nil]
    omega

end Tabs

end Markdown

end DocsMigration
