import DocsMigration.Proofs.Outline
import Mathlib.Order.Bounds.Basic
/-! The body of an indented block. It takes every line up to the first one that does not belong to the
block, for any indentation and from any line on; what the body leaves out of them are the blank lines at
their end. These two facts determine it. A line that is indented by spaces is lost in no body, since the
spaces that were taken from it are put back. -/

namespace DocsMigration

namespace Text

theorem trim_eq_nil_iff {s : Text} : trim s = [] ↔ isBlank s := by
  constructor
  · intro h
    have hrest : ∀ c ∈ trimStart s, isSpace c := by
      rw [trim, trimEnd, List.reverse_eq_nil_iff, List.dropWhile_eq_nil_iff] at h
      simpa using h
    rw [isBlank, List.all_eq_true]
    intro c hc
    rw [← List.takeWhile_append_dropWhile (p := isSpace) (l := s), List.mem_append] at hc
    exact hc.elim (List.all_eq_true.1 List.all_takeWhile c) (hrest c)
  · intro h
    have hnil : trimStart s = [] := List.dropWhile_eq_nil_iff.2 (List.all_eq_true.1 h)
    rw [trim, hnil]
    rfl

end Text

namespace Markdown

/-- The first place from `start` on where a block with this indentation ends: the end of the page, or a
line that does not belong to it. -/
def IsFirstEnd (ls : List Text) (start indent next : Nat) : Prop :=
  IsLeast {i | start ≤ i ∧ (i = ls.length ∨ ∃ l, ls[i]? = some l ∧ ¬ Belongs indent l)} next

/-- What a block takes of a page: the lines from `start` up to its first end, each without its
indentation, except for the blank lines that they end in. -/
structure TakesRun (ls : List Text) (start indent : Nat) (body : IndentedBody) : Prop where
  next : IsFirstEnd ls start indent body.next
  lines : ∃ blank, ((ls.take body.next).drop start).map (stripIndent indent) =
    (body.lines ++ blank).map some ∧ ∀ l ∈ blank, Text.trim l = []
  last : ∀ l ∈ body.lines.getLast?, Text.trim l ≠ []

section Runs

variable {ls : List Text} {start indent : Nat} {body : IndentedBody}

theorem isFirstEnd_memberRun (hstart : start ≤ ls.length) (indent : Nat) :
    IsFirstEnd ls start indent (start + (memberRun indent (ls.drop start)).length) := by
  have hle := length_memberRun_le indent (ls.drop start)
  rw [List.length_drop] at hle
  constructor
  · refine ⟨Nat.le_add_right _ _, ?_⟩
    have hbehind := stripIndent_behind_memberRun indent (ls.drop start)
    rw [List.drop_drop, List.head?_drop] at hbehind
    rcases hat : ls[start + (memberRun indent (ls.drop start)).length]? with _ | l
    · rw [List.getElem?_eq_none_iff] at hat
      exact .inl (by omega)
    · exact .inr ⟨l, rfl, stripIndent_eq_none_iff.1 (hbehind l hat)⟩
  · rintro i ⟨hi, hend⟩
    by_contra hlt
    obtain ⟨l, hl, hstrip⟩ := isSome_stripIndent_of_lt_memberRun (n := indent)
      (k := i - start) (ls.drop start) (by omega)
    rw [List.getElem?_drop, show start + (i - start) = i by omega] at hl
    rcases hend with rfl | ⟨k, hk, hno⟩
    · simp at hl
    · obtain rfl := Option.some.inj (hk.symm.trans hl)
      exact hno (isSome_stripIndent_iff.1 hstrip)

theorem map_stripIndent_run (ls : List Text) (start indent : Nat) :
    ((ls.take (start + (memberRun indent (ls.drop start)).length)).drop start).map (stripIndent indent) =
      (memberRun indent (ls.drop start)).map some := by
  rw [List.drop_take, Nat.add_sub_cancel_left, map_stripIndent_take_memberRun]

theorem takesRun_indentedBody (hstart : start ≤ ls.length) (indent : Nat) :
    TakesRun ls start indent (indentedBody ls start indent) where
  next := isFirstEnd_memberRun hstart indent
  lines := by
    obtain ⟨blank, hrun, hblank⟩ := exists_blank_of_dropBlankEnd (memberRun indent (ls.drop start))
    exact ⟨blank, (map_stripIndent_run ls start indent).trans (congrArg (List.map some) hrun),
      fun l hl => Text.trim_eq_nil_iff.2 (hblank l hl)⟩
  last := fun l hl htrim => not_isBlank_of_dropBlankEnd _ l hl (Text.trim_eq_nil_iff.1 htrim)

theorem TakesRun.eq_indentedBody (h : TakesRun ls start indent body) (hstart : start ≤ ls.length) :
    indentedBody ls start indent = body := by
  obtain ⟨lines, next⟩ := body
  obtain rfl : start + (memberRun indent (ls.drop start)).length = next :=
    (isFirstEnd_memberRun hstart indent).unique h.next
  obtain ⟨blank, hlines, hblank⟩ := h.lines
  have hrun : memberRun indent (ls.drop start) = lines ++ blank :=
    List.map_injective_iff.2 (Option.some_injective _) ((map_stripIndent_run ls start indent).symm.trans hlines)
  rw [indentedBody, hrun, dropBlankEnd_append (fun l hl => Text.trim_eq_nil_iff.1 (hblank l hl))
    fun l hl hb => h.last l hl (Text.trim_eq_nil_iff.2 hb)]

theorem stripIndent_of_spaces {l : Text} (h : List.replicate indent ' ' <+: l) :
    stripIndent indent l = some (l.drop indent) ∧ List.replicate indent ' ' ++ l.drop indent = l := by
  obtain ⟨t, rfl⟩ := h
  have hdrop : (List.replicate indent ' ' ++ t).drop indent = t := by simp
  refine ⟨?_, by rw [hdrop]⟩
  have hwide := le_length_spaces_iff.2 (List.prefix_append (List.replicate indent ' ') t)
  rw [stripIndent, if_pos hwide]
  split_ifs with hempty
  · rw [List.isEmpty_iff.1 hempty, List.drop_nil]
  · rfl

end Runs

/-- From any line of a page on, the body of a block takes the longest run of lines that belong to it, and
that alone; a line indented by spaces is the indentation and what the body has of it. -/
theorem indentedBody_maximal {ls : List Text} {start : Nat} (hstart : start ≤ ls.length) (indent : Nat) :
    (∀ body, indentedBody ls start indent = body ↔ TakesRun ls start indent body) ∧
      ∀ l, List.replicate indent ' ' <+: l →
        (stripIndent indent l).map (List.replicate indent ' ' ++ ·) = some l := by
  refine ⟨fun body => ⟨?_, fun h => h.eq_indentedBody hstart⟩, fun l hl => ?_⟩
  · rintro rfl
    exact takesRun_indentedBody hstart indent
  · obtain ⟨hstrip, hback⟩ := stripIndent_of_spaces hl
    rw [hstrip, Option.map_some, hback]

def listing : List Text :=
  ["!!! note".toList, "    a".toList, [], "\t\tb".toList, "      c".toList, "     ".toList, [], "  d".toList]

theorem listing_taken : 1 ≤ listing.length ∧
    TakesRun listing 1 4 ⟨["a".toList, [], "b".toList, "  c".toList], 7⟩ := by
  have hstart : 1 ≤ listing.length := by decide
  exact ⟨hstart, ((indentedBody_maximal hstart 4).1 _).1 (by decide)⟩

end Markdown

end DocsMigration
