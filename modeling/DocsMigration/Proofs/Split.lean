import DocsMigration.Markdown.FrontMatter
import DocsMigration.Proofs.Cuts
/-! Cutting a page into its front matter and its body. The lines of a page keep their line feeds here,
so the lines of two texts are put together by putting the texts together, wherever the first ends in a
line feed; and a page has front matter exactly if it is made of a delimiter, lines that are none, a
second delimiter and the rest. -/

namespace DocsMigration

namespace Text

theorem fullLines_append {a : Text} (ha : ∀ c ∈ a.getLast?, c = '\n') (b : Text) :
    fullLines (a ++ b) = fullLines a ++ fullLines b := by
  induction a with
  | nil => rfl
  | cons c a ih =>
    cases a with
    | nil =>
      obtain rfl := ha c rfl
      simp [fullLines]
    | cons d a =>
      have ih := ih (by simpa using ha)
      rw [List.cons_append, fullLines, fullLines, ih]
      split_ifs
      · rfl
      · cases h : fullLines (d :: a) with
        | nil => simpa [h] using flatten_fullLines (d :: a)
        | cons line rest => rfl

theorem fullLines_line {l : Text} (hl : '\n' ∉ l) : fullLines (l ++ ['\n']) = [l ++ ['\n']] := by
  induction l with
  | nil => rfl
  | cons c l ih =>
    simp only [List.mem_cons, not_or] at hl
    rw [List.cons_append, fullLines, if_neg (Ne.symm hl.1), ih hl.2]

theorem fullLines_concat (s : Text) (c : Char) :
    (∃ ls l, fullLines s = ls ++ [l] ∧ fullLines (s ++ [c]) = ls ++ [l ++ [c]]) ∨
      fullLines (s ++ [c]) = fullLines s ++ [[c]] := by
  induction s with
  | nil => by_cases hc : c = '\n' <;> simp [fullLines, hc]
  | cons d s ih =>
    simp only [List.cons_append, fullLines]
    by_cases hd : d = '\n'
    · simp only [if_pos hd]
      rcases ih with ⟨ls, l, hs, hc⟩ | hc
      · exact .inl ⟨['\n'] :: ls, l, by rw [hs]; rfl, by rw [hc]; rfl⟩
      · exact .inr (by rw [hc]; rfl)
    · simp only [if_neg hd]
      rcases ih with ⟨_ | ⟨first, ls⟩, l, hs, hc⟩ | hc
      · exact .inl ⟨[], d :: l, by rw [hs]; rfl, by rw [hc]; rfl⟩
      · exact .inl ⟨(d :: first) :: ls, l, by rw [hs]; rfl, by rw [hc]; rfl⟩
      · cases hs : fullLines s with
        | nil => exact .inl ⟨[], [d], rfl, by rw [hc, hs]; rfl⟩
        | cons first rest => exact .inr (by rw [hc, hs]; rfl)

/-- A line is a line by itself, and what is behind it has the other lines; a line that another one
follows ends in a line feed. -/
theorem fullLines_eq_cons {s l : Text} {ls : List Text} (h : fullLines s = l :: ls) :
    l ≠ [] ∧ fullLines l = [l] ∧ fullLines ls.flatten = ls ∧
      (ls ≠ [] → ∃ k, l = k ++ ['\n'] ∧ '\n' ∉ k) := by
  induction s generalizing l ls with
  | nil => contradiction
  | cons c s ih =>
    rw [fullLines] at h
    split_ifs at h with hc
    · obtain ⟨rfl, rfl⟩ := List.cons.inj h
      exact ⟨by simp, by decide, by rw [flatten_fullLines], fun _ => ⟨[], rfl, by simp⟩⟩
    · split at h
      · obtain ⟨rfl, rfl⟩ := List.cons.inj h
        exact ⟨by simp, by simp [fullLines, hc], rfl, by simp⟩
      · rename_i line rest hs
        obtain ⟨rfl, rfl⟩ := List.cons.inj h
        obtain ⟨-, hline, hrest, hend⟩ := ih hs
        refine ⟨by simp, by simp [fullLines, hc, hline], hrest, fun hne => ?_⟩
        obtain ⟨k, rfl, hk⟩ := hend hne
        exact ⟨c :: k, rfl, by simp [hk, Ne.symm hc]⟩

/-- The first lines of a text, as a text of their own, have the same lines; they end in a line feed if
others follow. -/
theorem fullLines_flatten {s : Text} {ls ks : List Text} (h : fullLines s = ls ++ ks) :
    fullLines ls.flatten = ls ∧ (ls ≠ [] → ks ≠ [] → ls.flatten.getLast? = some '\n') := by
  induction ls generalizing s with
  | nil => exact ⟨rfl, by simp⟩
  | cons l ls ih =>
    obtain ⟨-, hline, hrest, hend⟩ := fullLines_eq_cons h
    obtain ⟨hls, hlast⟩ := ih hrest
    rw [List.flatten_cons]
    rcases eq_or_ne ls [] with rfl | hne
    · refine ⟨by simpa using hline, fun _ hks => ?_⟩
      obtain ⟨k, rfl, -⟩ := hend (by simpa using hks)
      simp
    · obtain ⟨k, rfl, -⟩ := hend (by simp [hne])
      refine ⟨?_, fun _ hks => ?_⟩
      · rw [fullLines_append (by simp), hline, hls]
        rfl
      · have hflat : ls.flatten ≠ [] := by
          intro hnil
          rw [hnil] at hls
          exact hne hls.symm
        rw [List.getLast?_append_of_ne_nil _ hflat]
        exact hlast hne hks

theorem fullLines_flatten_right {s : Text} {ls ks : List Text} (h : fullLines s = ls ++ ks) :
    fullLines ks.flatten = ks := by
  induction ls generalizing s with
  | nil => rw [← List.nil_append ks, ← h, flatten_fullLines]
  | cons l ls ih => exact ih (fullLines_eq_cons h).2.2.1

theorem prefix_of_fullLines {s l : Text} {ls : List Text} (h : fullLines s = l :: ls) : l <+: s :=
  ⟨ls.flatten, by simpa [h] using flatten_fullLines s⟩

theorem newline_infix_of_mem_tail {s l : Text} (h : l ∈ (fullLines s).tail) : '\n' :: l <:+: s := by
  induction s with
  | nil => contradiction
  | cons c s ih =>
    rw [fullLines] at h
    split_ifs at h with hc
    · cases hs : fullLines s with
      | nil => simp [hs] at h
      | cons line rest =>
        rw [hs, List.tail_cons] at h
        rcases List.mem_cons.1 h with rfl | h
        · exact hc ▸ List.IsPrefix.isInfix (List.cons_prefix_cons.2 ⟨rfl, prefix_of_fullLines hs⟩)
        · exact List.infix_cons (ih (by rwa [hs]))
    · split at h
      · contradiction
      · rename_i line rest hs
        exact List.infix_cons (ih (by rwa [hs]))

end Text

namespace Markdown

namespace FrontMatter

theorem eq_of_isDelimiter {l : Text} (h : isDelimiter l) :
    ∃ ws, l = delimiter ++ ws ∧ ∀ c ∈ ws, Text.isSpace c := by
  have htrim : (l.reverse.dropWhile Text.isSpace).reverse = delimiter := by
    simpa [isDelimiter, Text.trimEnd] using h
  refine ⟨(l.reverse.takeWhile Text.isSpace).reverse, ?_, fun c hc => ?_⟩
  · rw [← htrim, ← List.reverse_append, List.takeWhile_append_dropWhile, List.reverse_reverse]
  · exact List.all_eq_true.1 List.all_takeWhile c (List.mem_reverse.1 hc)

theorem delimiter_prefix {l : Text} (h : isDelimiter l) : delimiter <+: l := by
  obtain ⟨ws, rfl, -⟩ := eq_of_isDelimiter h
  exact List.prefix_append delimiter ws

theorem cut?_eq_some {ls a b : List Text} :
    cut? ls = some (a, b) ↔
      ∃ d, isDelimiter d ∧ ls = a ++ d :: b ∧ ∀ l ∈ a, ¬ isDelimiter l := by
  induction ls generalizing a b with
  | nil => simp [cut?]
  | cons l ls ih =>
    rw [cut?]
    split_ifs with hl
    · constructor
      · rintro ⟨⟩
        exact ⟨l, hl, rfl, by simp⟩
      · rintro ⟨d, -, hls, ha⟩
        cases a with
        | nil => simp_all
        | cons k a =>
          obtain ⟨rfl, -⟩ := List.cons.inj hls
          exact absurd hl (ha l List.mem_cons_self)
    · simp only [Option.map_eq_some_iff, Prod.exists, Prod.mk.injEq]
      constructor
      · rintro ⟨a', b', h, rfl, rfl⟩
        obtain ⟨d, hd, rfl, ha⟩ := ih.1 h
        exact ⟨d, hd, rfl, by simpa [hl] using ha⟩
      · rintro ⟨d, hd, hls, ha⟩
        cases a with
        | nil =>
          obtain ⟨rfl, -⟩ := List.cons.inj hls
          exact absurd hd hl
        | cons k a =>
          obtain ⟨rfl, rfl⟩ := List.cons.inj hls
          exact ⟨a, b, ih.2 ⟨d, hd, rfl, fun l hl => ha l (List.mem_cons_of_mem _ hl)⟩, rfl, rfl⟩

theorem split_eq_some {s y b : Text} :
    split s = ⟨some y, b⟩ ↔ ∃ first ys d rest, Text.fullLines s = first :: (ys ++ d :: rest) ∧
      isDelimiter first ∧ isDelimiter d ∧ (∀ l ∈ ys, ¬ isDelimiter l) ∧
        y = ys.flatten ∧ b = rest.flatten := by
  unfold split
  split
  · rename_i h
    simp [h]
  · rename_i first rest h
    rw [h]
    constructor
    · intro hs
      split_ifs at hs with hf
      split at hs
      · rename_i ys after hcut
        obtain ⟨d, hd, rfl, hys⟩ := cut?_eq_some.1 hcut
        obtain ⟨hy, hb⟩ := Split.mk.inj hs
        exact ⟨first, ys, d, after, rfl, hf, hd, hys, (Option.some.inj hy).symm, hb.symm⟩
      · simp at hs
      · simp at hs
    · rintro ⟨first', ys, d, after, heq, hf, hd, hys, rfl, rfl⟩
      obtain ⟨rfl, rfl⟩ := List.cons.inj heq
      rw [if_pos hf, cut?_eq_some.2 ⟨d, hd, rfl, hys⟩]

/-- A page put together from two delimiters, the lines between them and a body. -/
theorem split_assembled {y : Text} (hy : ∀ c ∈ y.getLast?, c = '\n')
    (hlines : ∀ l ∈ Text.fullLines y, ¬ isDelimiter l) (b : Text) :
    split (delimiter ++ '\n' :: y ++ delimiter ++ '\n' :: b) = ⟨some y, b⟩ := by
  have hd : isDelimiter (delimiter ++ ['\n']) := by decide
  have hline : Text.fullLines (delimiter ++ ['\n']) = [delimiter ++ ['\n']] :=
    Text.fullLines_line (by decide)
  refine split_eq_some.2 ⟨_, _, _, _, ?_, hd, hd, hlines, (Text.flatten_fullLines y).symm,
    (Text.flatten_fullLines b).symm⟩
  have hsplit : delimiter ++ '\n' :: y ++ delimiter ++ '\n' :: b =
      (delimiter ++ ['\n']) ++ (y ++ ((delimiter ++ ['\n']) ++ b)) := by simp
  have hend : ∀ c ∈ (delimiter ++ ['\n']).getLast?, c = '\n' := by simp
  rw [hsplit, Text.fullLines_append hend, Text.fullLines_append hy, Text.fullLines_append hend, hline]
  rfl

theorem split_eq_block {fm y : Text} (h : split fm = ⟨some y, []⟩) : ∃ first ys d,
    Text.fullLines fm = first :: (ys ++ [d]) ∧ isDelimiter first ∧ isDelimiter d ∧
      (∀ l ∈ ys, ¬ isDelimiter l) ∧ y = ys.flatten := by
  obtain ⟨first, ys, d, rest, hlines, hfirst, hd, hys, hy, hrest⟩ := split_eq_some.1 h
  have hcut : Text.fullLines fm = (first :: (ys ++ [d])) ++ rest := by simpa using hlines
  have hrest' := Text.fullLines_flatten_right hcut
  obtain rfl : rest = [] := by rw [← hrest', ← hrest]; rfl
  exact ⟨first, ys, d, hlines, hfirst, hd, hys, hy⟩

/-- A block that ends its line is the front matter of a page whatever follows. -/
theorem split_append {fm y : Text} (h : split fm = ⟨some y, []⟩) (hend : fm.getLast? = some '\n')
    (b : Text) : split (fm ++ b) = ⟨some y, b⟩ := by
  obtain ⟨first, ys, d, hlines, hfirst, hd, hys, rfl⟩ := split_eq_block h
  refine split_eq_some.2 ⟨first, ys, d, Text.fullLines b, ?_, hfirst, hd, hys, rfl,
    (Text.flatten_fullLines b).symm⟩
  rw [Text.fullLines_append (by simp [hend]), hlines]
  simp

/-- Every page with front matter is a block in front of a body. -/
theorem exists_block {s y b : Text} (h : split s = ⟨some y, b⟩) : ∃ fm, s = fm ++ b ∧
    split fm = ⟨some y, []⟩ ∧ (b ≠ [] → fm.getLast? = some '\n') := by
  obtain ⟨first, ys, d, rest, hlines, hfirst, hd, hys, rfl, rfl⟩ := split_eq_some.1 h
  have hcut : Text.fullLines s = (first :: (ys ++ [d])) ++ rest := by simpa using hlines
  obtain ⟨hblock, hend⟩ := Text.fullLines_flatten hcut
  refine ⟨(first :: (ys ++ [d])).flatten, ?_, ?_, fun hne => ?_⟩
  · rw [← List.flatten_append, ← hcut, Text.flatten_fullLines]
  · exact split_eq_some.2 ⟨first, ys, d, [], hblock, hfirst, hd, hys, rfl, rfl⟩
  · apply hend (by simp)
    rintro rfl
    exact hne rfl

end FrontMatter

end Markdown

end DocsMigration
