import DocsMigration.Proofs.ImageTags
/-! Which source of a tag is found. Up to the first closing angle bracket, a tag opens a value wherever the
text of a source attribute stands, also inside the value of another attribute. The source that is found is
the first of these values that is not empty and that some quote closes. -/

namespace DocsMigration

namespace Markdown

namespace ImageTag

section Values

variable {s t w p rest : Text} {q : Char} {tag : ImageTag}

theorem OpensValue.not_mem (h : OpensValue w q) {x : Char} (hspace : ¬ Text.isSpace x)
    (hx : x ∉ '"' :: '\'' :: '=' :: attributeName.flatten) : x ∉ w := by
  obtain ⟨u, rfl, hu⟩ := h.exists_eq_concat
  intro hmem
  rcases List.mem_append.1 hmem with hmem | hmem
  · rcases hu x hmem with hs | hl
    · exact hspace hs
    · exact hx (List.mem_cons_of_mem _ (List.mem_cons_of_mem _ hl))
  · obtain rfl := List.mem_singleton.1 hmem
    rcases h.quote with rfl | rfl <;> exact hx (by decide)

theorem OpensValue.eq_of_prefix {w' : Text} {q' : Char} (h : OpensValue w q) (h' : OpensValue w' q')
    (hp : p ++ w' <+: w) : p ++ w' = w := by
  obtain ⟨u, rfl, hu⟩ := h.exists_eq_concat
  refine (List.prefix_concat_iff.1 hp).resolve_right fun hinside => ?_
  have hmem : q' ∈ u := hinside.subset (List.mem_append_right p (List.mem_of_getLast? h'.getLast?))
  rcases hu q' hmem with hq | hq <;> rcases h'.quote with rfl | rfl <;> revert hq <;> decide

theorem OpensValue.eq_or_prefix {c : Char} {y : Text} (h : OpensValue w q) (hy : y.getLast? = some c)
    (hc : c = '"' ∨ c = '\'') (hp : y <+: p ++ w) : y = p ++ w ∨ y <+: p := by
  obtain ⟨u, rfl, hu⟩ := h.exists_eq_concat
  rw [← List.append_assoc] at hp ⊢
  refine (List.prefix_concat_iff.1 hp).imp_right fun hp => Text.prefix_of_prefix_append hp hy fun hm => ?_
  rcases hu c hm with hq | hq <;> rcases hc with rfl | rfl <;> revert hq <;> decide

/-- Behind an opening quote, a value that is not empty, and its closing quote. -/
def Closes (q : Char) (t : Text) : Prop := t.head? ≠ some q ∧ q ∈ t

theorem closes_iff : Closes q t ↔ ∃ value rest, t = value ++ q :: rest ∧ value ≠ [] ∧ q ∉ value := by
  constructor
  · rintro ⟨hhead, hq⟩
    obtain ⟨value, rest, rfl, hvalue⟩ := List.eq_append_cons_of_mem hq
    refine ⟨value, rest, rfl, ?_, hvalue⟩
    rintro rfl
    exact hhead rfl
  · rintro ⟨value, rest, rfl, hne, hvalue⟩
    obtain ⟨c, value, rfl⟩ := List.exists_cons_of_ne_nil hne
    refine ⟨?_, by simp⟩
    rw [List.cons_append, List.head?_cons, Ne, Option.some.injEq]
    exact (List.ne_of_not_mem_cons hvalue).symm

theorem Fits.closes (h : Fits tag s rest) : Closes tag.quote (tag.source ++ tag.quote :: rest) :=
  closes_iff.2 ⟨tag.source, rest, rfl, h.ne_nil, h.not_mem⟩

/-- A part of a tag that ends in front of a value: a source attribute behind signs that do not end the
tag. -/
def OpensIn (p : Text) (q : Char) : Prop := ∃ mid w, p = mid ++ w ∧ '>' ∉ mid ∧ OpensValue w q

def Opens (p : Text) (q : Char) : Prop :=
  ∃ name p', p = '<' :: (name ++ p') ∧ Spells tagName name ∧ (∀ c ∈ p'.head?, ¬ Text.isWord c) ∧
    OpensIn p' q

theorem Opens.bracket_not_mem (h : Opens p q) : '>' ∉ p := by
  obtain ⟨name, _, rfl, hname, -, mid, w, rfl, hmid, hw⟩ := h
  have hletters : '>' ∉ name := by
    intro hm
    obtain ⟨set, hset, hletter⟩ := hname.exists_mem hm
    revert hletter set
    decide
  simp [hletters, hmid, hw.not_mem (x := '>') (by decide) (by decide)]

/-- What is read at the front of a text, if it is the first closed value of those that open there. -/
structure ReadsFirst (front : Text → Char → Prop) (s : Text) (tag : ImageTag) (rest : Text) : Prop where
  fits : Fits tag s rest
  opens : front tag.before tag.quote
  first : ∀ p q t, s = p ++ t → front p q → Closes q t → tag.before <+: p

theorem ReadsFirst.unique {front : Text → Char → Prop} {tag' : ImageTag} {rest' : Text}
    (h : ReadsFirst front s tag rest) (h' : ReadsFirst front s tag' rest') : tag = tag' ∧ rest = rest' := by
  have hform : ∀ {tag rest}, Fits tag s rest → s = tag.before ++ (tag.source ++ tag.quote :: rest) :=
    fun hfits => hfits.eq.trans (by simp)
  have hbefore : tag.before = tag'.before :=
    (h.first _ _ _ (hform h'.fits) h'.opens h'.fits.closes).eq_of_length_le
      (h'.first _ _ _ (hform h.fits) h.opens h.fits.closes).length_le
  have hquote : tag.quote = tag'.quote := by
    have hlast := h.fits.getLast?
    rw [hbefore, h'.fits.getLast?] at hlast
    exact (Option.some.inj hlast).symm
  have hvalue := (hform h.fits).symm.trans (hform h'.fits)
  rw [hbefore, hquote] at hvalue
  have hsplit : Text.splitOnce? tag'.quote (tag.source ++ tag'.quote :: rest) = some (tag.source, rest) :=
    Text.splitOnce?_eq_some.2 ⟨rfl, hquote ▸ h.fits.not_mem⟩
  rw [List.append_cancel_left hvalue, Text.splitOnce?_eq_some.2 ⟨rfl, h'.fits.not_mem⟩] at hsplit
  obtain ⟨hsource, hrest⟩ := Prod.mk.inj (Option.some.inj hsplit)
  exact ⟨by cases tag; cases tag'; simp_all, hrest.symm⟩

theorem opensValue_of_attribute? (h : attribute? s = some (tag, rest)) : OpensValue tag.before tag.quote := by
  cases hv : valueStart? s with
  | none => simp [attribute?, hv] at h
  | some r =>
    obtain ⟨q, t⟩ := r
    obtain ⟨w, hw, rfl⟩ := valueStart?_eq_some_iff.1 hv
    rw [attribute?_of_start hv] at h
    split at h
    · split_ifs at h
      obtain ⟨rfl, rfl⟩ := Prod.mk.inj (Option.some.inj h)
      exact hw
    · contradiction

theorem not_closes_of_attribute? (h : attribute? (w ++ t) = none) (hw : OpensValue w q) : ¬ Closes q t := by
  rw [closes_iff]
  rintro ⟨value, rest, rfl, hne, hvalue⟩
  rw [attribute?_of_start (hw.valueStart? _), Text.splitOnce?_eq_some.2 ⟨rfl, hvalue⟩] at h
  simp [hne] at h

theorem not_closes_of_findAttribute? (h : findAttribute? s = none) (hs : s = p ++ t) (hp : OpensIn p q) :
    ¬ Closes q t := by
  obtain ⟨mid, w, rfl, hmid, hw⟩ := hp
  induction mid generalizing s with
  | nil =>
    rw [hs, List.nil_append] at h
    obtain ⟨c, w', rfl⟩ : ∃ c w', w = c :: w' := by
      refine List.exists_cons_of_ne_nil ?_
      rintro rfl
      simpa using hw.getLast?
    refine not_closes_of_attribute? ?_ hw
    rw [List.cons_append] at h ⊢
    rw [findAttribute?_cons] at h
    split at h
    · contradiction
    · assumption
  | cons c mid ih =>
    rw [hs, List.cons_append, List.cons_append, findAttribute?_cons] at h
    split at h
    · contradiction
    · rw [if_neg (List.ne_of_not_mem_cons hmid).symm, Option.map_eq_none_iff] at h
      exact ih h rfl (List.not_mem_of_not_mem_cons hmid)

theorem readsFirst_findAttribute? (h : findAttribute? s = some (tag, rest)) :
    ReadsFirst OpensIn s tag rest := by
  induction s generalizing tag with
  | nil => contradiction
  | cons c s ih =>
    have hfits := fits_findAttribute? h
    rw [findAttribute?_cons] at h
    split at h
    · rename_i found hf
      obtain rfl := Option.some.inj h
      have hopens := opensValue_of_attribute? hf
      refine ⟨hfits, ⟨[], tag.before, rfl, by simp, hopens⟩, fun p q t hs ⟨mid, w, hp, hmid, hw⟩ _ => ?_⟩
      have hbefore : tag.before <+: c :: s := ⟨tag.source ++ tag.quote :: rest, by rw [hfits.eq]; simp⟩
      rcases List.prefix_or_prefix_of_prefix hbefore (hs ▸ List.prefix_append p t) with hpre | hpre
      · exact hpre
      · subst hp
        rw [hopens.eq_of_prefix hw hpre]
    · rename_i hnone
      split_ifs at h with hc
      obtain ⟨⟨tag', rest'⟩, hf, heq⟩ := Option.map_eq_some_iff.1 h
      obtain ⟨rfl, rfl⟩ := Prod.mk.inj heq
      obtain ⟨-, ⟨mid, w, hp, hmid, hw⟩, hfirst⟩ := ih hf
      refine ⟨hfits, ⟨c :: mid, w, by simp [hp], by simp [hmid, Ne.symm hc], hw⟩, ?_⟩
      rintro p q t hs ⟨mid', w', rfl, hmid', hw'⟩ hcloses
      cases mid' with
      | nil =>
        rw [hs] at hnone
        exact absurd hcloses (not_closes_of_attribute? hnone hw')
      | cons d mid' =>
        obtain ⟨rfl, hs⟩ := List.cons.inj hs
        exact List.cons_prefix_cons.2
          ⟨rfl, hfirst _ q t (by simpa using hs) ⟨mid', w', rfl, List.not_mem_of_not_mem_cons hmid', hw'⟩ hcloses⟩

theorem exists_name_of_matcher (h : matcher s = some (tag, rest)) : ∃ name t, s = '<' :: (name ++ t) ∧
    Spells tagName name ∧ (∀ c ∈ t.head?, ¬ Text.isWord c) ∧
      ∃ inner, findAttribute? t = some (inner, rest) ∧
        tag = { inner with before := '<' :: (name ++ inner.before) } := by
  have hs := h
  unfold matcher at hs
  split at hs
  · rename_i s
    split at hs
    · rename_i t ht
      obtain ⟨name, hname, rfl⟩ := stripLetters?_eq_some_iff.1 ht
      rw [matcher_spelled hname] at h
      split_ifs at h with hword
      obtain ⟨⟨inner, rest'⟩, hf, heq⟩ := Option.map_eq_some_iff.1 h
      obtain ⟨rfl, rfl⟩ := Prod.mk.inj heq
      refine ⟨name, t, rfl, hname, fun c hc => ?_, inner, hf, rfl⟩
      obtain ⟨t, rfl⟩ := List.head?_eq_some_iff.1 hc
      simpa using hword
    · contradiction
  · contradiction

/-- The name of a tag has three letters, so a text cannot have two of them at its front. -/
theorem eq_of_spells {name name' t t' : Text} (h : Spells tagName name) (h' : Spells tagName name')
    (heq : name ++ t = name' ++ t') : name = name' ∧ t = t' :=
  List.append_inj heq ((List.Forall₂.length_eq h).symm.trans (List.Forall₂.length_eq h'))

theorem readsFirst_matcher (h : matcher s = some (tag, rest)) : ReadsFirst Opens s tag rest := by
  have hfits := fits_matcher h
  obtain ⟨name, t, rfl, hname, hword, inner, hf, rfl⟩ := exists_name_of_matcher h
  obtain ⟨hinner, hopens, hfirst⟩ := readsFirst_findAttribute? hf
  have hhead : inner.before.head? = t.head? := by
    obtain ⟨c, u, hu⟩ : ∃ c u, inner.before = c :: u := by
      refine List.exists_cons_of_ne_nil fun hnil => ?_
      simpa [hnil] using hinner.getLast?
    rw [hinner.eq, hu]
    rfl
  refine ⟨hfits, ⟨name, inner.before, rfl, hname, hhead ▸ hword, hopens⟩, ?_⟩
  rintro p q t' hs ⟨name', p', rfl, hname', -, hp'⟩ hcloses
  have hnames : name ++ t = name' ++ (p' ++ t') := by simpa using hs
  obtain ⟨rfl, rfl⟩ := eq_of_spells hname hname' hnames
  exact List.cons_prefix_cons.2
    ⟨rfl, (List.prefix_append_right_inj name).2 (hfirst p' q t' rfl hp' hcloses)⟩

theorem matcher_eq_none_iff : matcher s = none ↔ ∀ p q t, s = p ++ t → Opens p q → ¬ Closes q t := by
  constructor
  · rintro h _ q t rfl ⟨name, p', rfl, hname, hword, hp'⟩ hcloses
    have hhead : (p' ++ t).head?.any Text.isWord = false := by
      obtain ⟨mid, w, rfl, -, hw⟩ := hp'
      cases hmw : mid ++ w with
      | nil => simp [(List.append_eq_nil_iff.1 hmw).2, OpensValue] at hw
      | cons c u => simpa using hword c (by simp [hmw])
    have hform : '<' :: (name ++ p') ++ t = '<' :: (name ++ (p' ++ t)) := by simp
    rw [hform, matcher_spelled hname, hhead, if_neg Bool.false_ne_true, Option.map_eq_none_iff] at h
    exact not_closes_of_findAttribute? h rfl hp' hcloses
  · intro h
    refine Option.eq_none_iff_forall_ne_some.2 fun ⟨tag, rest⟩ hs => ?_
    obtain ⟨hfits, hopens, -⟩ := readsFirst_matcher hs
    exact h _ _ _ (hfits.eq.trans (by simp)) hopens hfits.closes

/-- A tag is read with the first of the closed values that it opens. -/
theorem matcher_eq_some_iff : matcher s = some (tag, rest) ↔ ReadsFirst Opens s tag rest := by
  refine ⟨readsFirst_matcher, fun h => ?_⟩
  cases hs : matcher s with
  | none =>
    exact absurd h.fits.closes
      (matcher_eq_none_iff.1 hs _ _ _ (h.fits.eq.trans (by simp)) h.opens)
  | some r =>
    obtain ⟨tag', rest'⟩ := r
    obtain ⟨rfl, rfl⟩ := (readsFirst_matcher hs).unique h
    rfl

end Values

end ImageTag

end Markdown

end DocsMigration
