import DocsMigration.Proofs.Preservation
import DocsMigration.Proofs.Rejoining
/-! Pages that no rewriter touches. A text passes through unchanged, whichever rewriters are selected,
exactly if it holds nothing that one of them is for. Each rewriter shows what it is for by the text it
changes: a block pass has a header, a removal an annotation, and a change of targets a match with a target
that is not what it becomes. So a text without all of this is the same in front of every pass. -/

namespace DocsMigration

namespace Text

theorem normalizeNewlines_eq_self_iff {s : Text} : normalizeNewlines s = s ↔ ¬ "\r\n".toList <:+: s := by
  have hpair : "\r\n".toList = ['\r', '\n'] := rfl
  rw [hpair]
  fun_induction normalizeNewlines s with
  | case1 => simp
  | case2 s ih => simp [List.infix_cons_iff]
  | case3 c s hno ih =>
    have hfront : ¬ ['\r', '\n'] <+: c :: s := by
      rintro ⟨t, ht⟩
      obtain ⟨rfl, rfl⟩ := List.cons.inj ht
      exact hno t rfl rfl
    rw [List.cons_inj_right, List.infix_cons_iff, not_or, and_iff_right hfront]
    exact ih

end Text

namespace Markdown

def Unmoved (g : Text → Option Text) (target : Text) : Prop := ∀ u ∈ g target, u = target

theorem Bracketed.replaceAll_eq_self_iff {pre : Text} {m : Text.Matcher Link} {g : Text → Option Text}
    (h : Bracketed pre m) (hg : Tame g) {s : Text} :
    Text.replaceAll m (Link.retargeted pre g) s = s ↔ ∀ l ∈ Text.found m s, Unmoved g l.target := by
  refine Text.replaceAll_eq_self_iff h.consuming (fun w l rest hs => h.eq_or_incomparable hg hs)
    fun w l rest hs => ?_
  rw [h.source hs, Unmoved, Link.retargeted]
  cases g l.target with
  | none => simp
  | some url => simp [Link.render]

theorem Link.convert_eq_self_iff {s : Text} :
    convert s = s ↔ ∀ l ∈ Text.found matcher s, Unmoved retarget l.target :=
  bracketed_link.replaceAll_eq_self_iff tame_retarget

theorem Image.convertInline_eq_self_iff {s : Text} :
    convertInline s = s ↔ ∀ l ∈ Text.found matcher s, Unmoved normalize l.target :=
  bracketed_image.replaceAll_eq_self_iff tame_normalize

theorem ImageTag.convert_eq_self_iff {s : Text} :
    convert s = s ↔ ∀ tag ∈ Text.found matcher s, Unmoved Image.normalize tag.source := by
  refine Text.replaceAll_eq_self_iff (f := rooted) consuming_matcher (fun _ _ _ => eq_or_incomparable)
    fun w tag rest hs => ?_
  rw [(rooted_cases hs).1, Unmoved, rooted]
  cases Image.normalize tag.source with
  | none => simp
  | some path => simp

theorem Image.convert_eq_self_iff {s : Text} : convert s = s ↔
    (∀ l ∈ Text.found matcher s, Unmoved normalize l.target) ∧
      ∀ tag ∈ Text.found ImageTag.matcher s, Unmoved normalize tag.source := by
  rw [← convertInline_eq_self_iff, ← ImageTag.convert_eq_self_iff]
  refine ⟨convert_eq_self, fun ⟨hinline, htags⟩ => ?_⟩
  rw [convert, hinline, htags]

/-- A text with nothing in it that a rewriter is for. -/
structure Untargeted (s : Text) : Prop where
  newlines : ¬ "\r\n".toList <:+: s
  admonitions : ∀ l ∈ Text.lines s, AdmonitionHeader.parse l = none
  tabs : ∀ l ∈ Text.lines s, Tabs.label? l = none
  links : ∀ l ∈ Text.found Link.matcher s, Unmoved Link.retarget l.target
  attributes : ¬ ∃ t, ButtonAttributes.IsList t ∧ t <:+: s
  icons : ¬ ∃ t, Icon.IsIcon t ∧ t <:+: s
  images : ∀ l ∈ Text.found Image.matcher s, Unmoved Image.normalize l.target
  sources : ∀ tag ∈ Text.found ImageTag.matcher s, Unmoved Image.normalize tag.source

theorem untargeted_iff_passes {s : Text} : Untargeted s ↔ Text.normalizeNewlines s = s ∧
    Admonition.convert s = s ∧ Tabs.convert s = s ∧ Link.convert s = s ∧ ButtonAttributes.strip s = s ∧
      Icon.strip s = s ∧ Image.convert s = s := by
  rw [Text.normalizeNewlines_eq_self_iff, Admonition.convert, Admonition.blockPass_convertLines.eq_self_iff,
    Tabs.convert, Tabs.blockPass_convertLines.eq_self_iff, Link.convert_eq_self_iff,
    ButtonAttributes.strip_eq_self_iff, Icon.strip_eq_self_iff, Image.convert_eq_self_iff]
  exact ⟨fun ⟨hn, ha, ht, hl, hb, hi, hm, hs⟩ => ⟨hn, ha, ht, hl, hb, hi, hm, hs⟩,
    fun ⟨hn, ha, ht, hl, hb, hi, hm, hs⟩ => ⟨hn, ha, ht, hl, hb, hi, hm, hs⟩⟩

/-- A text passes through every selection of rewriters unchanged exactly if it has nothing in it that one
of them is for. -/
theorem untargeted_iff_unchanged (s : Text) :
    Untargeted s ↔ ∀ r : Rewriters, r.convertBody s = s := by
  rw [untargeted_iff_passes]
  constructor
  · rintro ⟨hnewlines, hadmonitions, htabs, hlinks, hattributes, hicons, himages⟩ r
    rw [Rewriters.convertBody, hnewlines]
    refine FrontMatter.foldl_eq_self (Rewriters.forall_mem_selected.2 ?_)
    exact ⟨fun _ => hadmonitions, fun _ => htabs, fun _ => hlinks, fun _ => hattributes, fun _ => hicons,
      fun _ => himages⟩
  · intro h
    -- no rewriter selected, and then each of them alone
    have hnewlines : Text.normalizeNewlines s = s := h ⟨false, false, false, false, false, false⟩
    have halone (r : Rewriters) : r.selected.foldl (fun t rewrite => rewrite t) s = s := by
      simpa [Rewriters.convertBody, hnewlines] using h r
    exact ⟨hnewlines, halone ⟨true, false, false, false, false, false⟩,
      halone ⟨false, true, false, false, false, false⟩, halone ⟨false, false, true, false, false, false⟩,
      halone ⟨false, false, false, true, false, false⟩, halone ⟨false, false, false, false, true, false⟩,
      halone ⟨false, false, false, false, false, true⟩⟩

end Markdown

end DocsMigration
