import DocsMigration.Proofs.ImageTags
import DocsMigration.Proofs.Split
/-! Retargeting changes a line only behind one of the signs that stand right before a target: an
opening parenthesis or a quote. No delimiter line has such a sign, so the lines of a page that are
delimiters stay the same lines, and whether a page has front matter stays the same. -/

namespace DocsMigration

namespace Text

def opensTarget (c : Char) : Bool := c == '(' || c == '"' || c == '\''

theorem not_isSpace_of_opensTarget {c : Char} (h : opensTarget c) : ¬ isSpace c := by
  simp only [opensTarget, Bool.or_eq_true, beq_iff_eq] at h
  rcases h with (rfl | rfl) | rfl <;> decide

/-- `t` is `s` but for parts of lines that stand right behind such a sign. -/
inductive Retouched : Text → Text → Prop
  | nil : Retouched [] []
  | keep (c : Char) {s t : Text} (h : Retouched s t) : Retouched (c :: s) (c :: t)
  | change {d : Char} {u v s t : Text} (hd : opensTarget d) (hu : '\n' ∉ u) (hv : '\n' ∉ v)
      (h : Retouched s t) : Retouched (d :: (u ++ s)) (d :: (v ++ t))

namespace Retouched

theorem behind {s t : Text} (h : Retouched s t) (x : Text) : Retouched (x ++ s) (x ++ t) := by
  induction x with
  | nil => exact h
  | cons c x ih => exact .keep c ih

theorem replaceAll {α : Type} {m : Matcher α} {f : Text → α → Text} (hm : Consuming m)
    (hf : ∀ w a rest, m (w ++ rest) = some (a, rest) → f w a = w ∨
      ∃ x d u v y, opensTarget d ∧ '\n' ∉ u ∧ '\n' ∉ v ∧ w = x ++ d :: (u ++ y) ∧
        f w a = x ++ d :: (v ++ y)) (s : Text) : Retouched s (replaceAll m f s) := by
  induction s using scan_induction hm with
  | nil => exact .nil
  | char c s h ih =>
    rw [replaceAll_of_none h]
    exact .keep c ih
  | hit w a rest hw h ih =>
    rw [replaceAll_of_some hw h]
    rcases hf w a rest h with heq | ⟨x, d, u, v, y, hd, hu, hv, rfl, heq⟩
    · rw [heq]
      exact ih.behind w
    · rw [heq]
      have hchange := (Retouched.change hd hu hv (ih.behind y)).behind x
      simpa using hchange

end Retouched

/-- Two lines that are the same up to one of the signs, if they are not the same. -/
def Alike (l k : Text) : Prop :=
  l = k ∨ ∃ x d u v, opensTarget d ∧ l = x ++ d :: u ∧ k = x ++ d :: v

theorem Alike.cons {l k : Text} (h : Alike l k) (c : Char) : Alike (c :: l) (c :: k) := by
  rcases h with rfl | ⟨x, d, u, v, hd, rfl, rfl⟩
  · exact .inl rfl
  · exact .inr ⟨c :: x, d, u, v, hd, rfl, rfl⟩

theorem fullLines_cons_append {c : Char} {u : Text} (hc : c ≠ '\n') (hu : '\n' ∉ u) (s : Text) :
    fullLines (c :: (u ++ s)) = match fullLines s with
      | [] => [c :: u]
      | line :: rest => (c :: (u ++ line)) :: rest := by
  induction u generalizing c with
  | nil =>
    rw [List.nil_append, fullLines, if_neg hc]
    rfl
  | cons d u ih =>
    simp only [List.mem_cons, not_or] at hu
    rw [List.cons_append, fullLines, if_neg hc, ih (Ne.symm hu.1) hu.2]
    cases fullLines s <;> rfl

theorem Retouched.fullLines {s t : Text} (h : Retouched s t) :
    List.Forall₂ Alike (fullLines s) (fullLines t) := by
  induction h with
  | nil => exact .nil
  | @keep c s t h ih =>
    rw [Text.fullLines, Text.fullLines]
    generalize Text.fullLines s = ls, Text.fullLines t = ks at ih ⊢
    split_ifs
    · exact .cons (.inl rfl) ih
    · cases ih with
      | nil => exact .cons (.inl rfl) .nil
      | cons hl ih => exact .cons (hl.cons c) ih
  | @change d u v s t hd hu hv h ih =>
    have hc : d ≠ '\n' := by
      rintro rfl
      exact absurd hd (by decide)
    rw [fullLines_cons_append hc hu, fullLines_cons_append hc hv]
    generalize Text.fullLines s = ls, Text.fullLines t = ks at ih ⊢
    cases ih with
    | nil => exact .cons (.inr ⟨[], d, u, v, hd, rfl, rfl⟩) .nil
    | cons hl ih => exact .cons (.inr ⟨[], d, _, _, hd, rfl, rfl⟩) ih

theorem prefix_of_alike {p : Text} {ls ks : List Text} (h : List.Forall₂ Alike ls ks)
    (hp : ∀ c ∈ p, ¬ opensTarget c) (hks : p <+: ks.flatten) : p <+: ls.flatten := by
  induction h generalizing p with
  | nil => exact hks
  | @cons l k ls ks hl h ih =>
    rw [List.flatten_cons] at hks ⊢
    rcases hl with rfl | ⟨x, d, u, v, hd, rfl, rfl⟩
    · rcases List.prefix_or_prefix_of_prefix hks (List.prefix_append l _) with hp' | ⟨p', rfl⟩
      · exact hp'.trans (List.prefix_append l _)
      · have hp' := (List.prefix_append_right_inj l).1 hks
        exact (List.prefix_append_right_inj l).2
          (ih (fun c hc => hp c (List.mem_append_right l hc)) hp')
    · have hx : p <+: x ++ d :: (v ++ ks.flatten) := by simpa using hks
      have hpx : p <+: x := prefix_of_not_mem hx fun hm => hp d hm hd
      rw [List.append_assoc]
      exact hpx.trans (List.prefix_append x _)

end Text

namespace Markdown

theorem retouched_retargeted {pre : Text} {m : Text.Matcher Link} {g : Text → Option Text}
    (h : Bracketed pre m) (hg : Tame g) (s : Text) :
    Text.Retouched s (Text.replaceAll m (Link.retargeted pre g) s) := by
  refine .replaceAll h.consuming (fun w l rest hs => ?_) s
  rcases h.retargeted_cases hg hs with heq | ⟨url, -, -, hurl, hw, hr⟩
  · exact .inl heq
  · refine .inr ⟨pre ++ '[' :: l.label ++ [']'], '(', l.target, url, [')'], by decide,
      (h.target_signs hs).2, hurl, ?_, ?_⟩
    · rw [hw]
      simp
    · rw [hr]
      simp

theorem retouched_imageTag (s : Text) : Text.Retouched s (ImageTag.convert s) := by
  refine .replaceAll ImageTag.consuming_matcher (fun w tag rest hs => ?_) s
  have hfits := ImageTag.fits_matcher hs
  obtain ⟨hw, heq | ⟨-, -, hr⟩⟩ := ImageTag.rooted_cases hs
  · exact .inl heq
  · obtain ⟨x, hx⟩ := List.getLast?_eq_some_iff.1 hfits.getLast?
    obtain ⟨parents, hsource, hparents⟩ := dropParents_suffix tag.source
    refine .inr ⟨x, tag.quote, parents, ['/'], Image.dropParents tag.source ++ [tag.quote], ?_,
      fun hm => ?_, by decide, ?_, ?_⟩
    · rcases hfits.quote with hq | hq <;> rw [hq] <;> decide
    · rcases hparents _ hm with hc | hc <;> exact absurd hc (by decide)
    · rw [hw, hx]
      conv_lhs => rw [hsource]
      simp
    · exact hr.trans (by simp [hx])

namespace FrontMatter

theorem mem_delimiter {l : Text} (h : isDelimiter l) : ∀ c ∈ l, c = '-' ∨ Text.isSpace c := by
  obtain ⟨ws, rfl, hws⟩ := eq_of_isDelimiter h
  intro c hc
  rcases List.mem_append.1 hc with hc | hc
  · exact .inl (by simpa [delimiter] using hc)
  · exact .inr (hws c hc)

theorem not_mem_of_isDelimiter {l : Text} (h : isDelimiter l) {c : Char} (hc : Text.opensTarget c) :
    c ∉ l := by
  intro hm
  rcases mem_delimiter h c hm with rfl | hspace
  · exact absurd hc (by decide)
  · exact Text.not_isSpace_of_opensTarget hc hspace

theorem isDelimiter_of_alike {l k : Text} (h : Text.Alike l k) : isDelimiter l ↔ isDelimiter k := by
  rcases h with rfl | ⟨x, d, u, v, hd, rfl, rfl⟩
  · rfl
  · refine iff_of_false ?_ ?_
    · intro hl
      exact not_mem_of_isDelimiter hl hd (by simp)
    · intro hk
      exact not_mem_of_isDelimiter hk hd (by simp)

theorem isSome_cut? {ls : List Text} : (cut? ls).isSome ↔ ∃ l ∈ ls, isDelimiter l := by
  induction ls with
  | nil => simp [cut?]
  | cons l ls ih =>
    rw [cut?]
    split_ifs with hl
    · simp [hl]
    · simp [ih, hl]

theorem isSome_split {s : Text} : (split s).yaml.isSome ↔ ∃ first rest,
    Text.fullLines s = first :: rest ∧ isDelimiter first ∧ ∃ l ∈ rest, isDelimiter l := by
  unfold split
  cases hs : Text.fullLines s with
  | nil => simp
  | cons first rest =>
    simp only [List.cons.injEq, ↓existsAndEq, true_and]
    split_ifs with hf
    · rw [← isSome_cut?]
      cases cut? rest <;> simp [hf]
    · simp [hf]

theorem isSome_split_of_alike {s t : Text}
    (h : List.Forall₂ Text.Alike (Text.fullLines s) (Text.fullLines t)) :
    (split s).yaml.isSome ↔ (split t).yaml.isSome := by
  have hsome {ls ks : List Text} (h : List.Forall₂ Text.Alike ls ks) :
      (∃ l ∈ ls, isDelimiter l) ↔ ∃ l ∈ ks, isDelimiter l := by
    induction h with
    | nil => simp
    | cons hl _ ih => simp [isDelimiter_of_alike hl, ih]
  rw [isSome_split, isSome_split]
  generalize Text.fullLines s = ls, Text.fullLines t = ks at h ⊢
  cases h with
  | nil => simp
  | cons hl h => simp [isDelimiter_of_alike hl, hsome h]

end FrontMatter

end Markdown

end DocsMigration
