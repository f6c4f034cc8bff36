import DocsMigration.Proofs.Openings
import DocsMigration.Proofs.Rescanning
import DocsMigration.Proofs.Retargeting
/-! Rooting the paths of images is done after one pass. The two scans rewrite the same text: an image can
stand in the value of an attribute, a tag in the label of an image, and an unclosed quote far behind can
complete a tag. But what rooting changes lies between the text that opens a value and the rest of the value.
There is whitespace in that stretch, so of an image it can only be in the label; and it has no quote more
than before, so no other value of the tag is closed by it. -/

namespace DocsMigration

namespace Markdown

namespace Bracketed

section Gaps

variable {pre : Text} {m : Text.Matcher Link}

/-- A stretch of text that only the label of a link can hold: it has whitespace, and none of the signs that a
link has around its label and its target. -/
structure Gap (pre g : Text) : Prop where
  space : ∃ c ∈ g, Text.isSpace c
  free : ∀ c ∈ g, c ∉ pre ++ "[]()".toList

theorem Gap.not_mem {g : Text} (hg : Gap pre g) {c : Char} (hc : c ∈ "[]()".toList) : c ∉ g :=
  fun hm => hg.free c hm (List.mem_append_right pre hc)

theorem Gap.found_append {g : Text} (hg : Gap pre g) (h : Bracketed pre m) (y : Text) :
    Text.found m (g ++ y) = Text.found m y := by
  refine Text.found_append fun u hu hne => Option.eq_none_iff_forall_ne_some.2 fun ⟨l, r⟩ hl => ?_
  obtain ⟨c, u, rfl⟩ := List.exists_cons_of_ne_nil hne
  have heq := ((h.spec _ _ _).1 hl).1
  refine hg.free c (hu.subset List.mem_cons_self) ?_
  cases pre with
  | nil =>
    obtain ⟨rfl, -⟩ := List.cons.inj heq
    decide
  | cons d pre =>
    obtain ⟨rfl, -⟩ := List.cons.inj heq
    exact List.mem_cons_self

/-- A match that starts in front of a gap ends in front of it, or has it in its label. -/
theorem gap_cases (h : Bracketed pre m) {g x y r : Text} {l : Link} (hg : Gap pre g)
    (hl : m (x ++ g ++ y) = some (l, r)) : (∃ x', x = pre ++ Link.render l ++ x' ∧ r = x' ++ g ++ y) ∨
      ∃ a b, l.label = a ++ g ++ b ∧ x = pre ++ '[' :: a ∧ y = b ++ "](".toList ++ l.target ++ ')' :: r := by
  obtain ⟨heq, -, -, htarget⟩ := (h.spec _ _ _).1 hl
  obtain ⟨s, hs, hspace⟩ := hg.space
  have hmem : ∀ a b : Text, s ∈ a ++ g ++ b := fun a b => by simp [hs]
  have heq : x ++ g ++ y = pre ++ '[' :: (l.label ++ ']' :: '(' :: (l.target ++ ')' :: r)) := by
    simpa [Link.render] using heq
  rcases Text.eq_append_or_cut heq (hg.not_mem (by decide)) with ⟨b, hb⟩ | ⟨a, rfl, ha⟩
  · exact absurd (List.mem_append_left _ (hb ▸ hmem x b)) (hg.free s hs)
  rcases Text.eq_append_or_cut ha.symm (hg.not_mem (by decide)) with ⟨b, hb⟩ | ⟨a', rfl, ha'⟩
  · refine .inr ⟨_, b, hb, rfl, ?_⟩
    rw [hb, List.append_assoc] at ha
    simpa using (List.append_cancel_left ha).symm
  rcases Text.eq_append_or_cut (a := []) ha'.symm (hg.not_mem (by decide)) with ⟨b, hb⟩ | ⟨d, rfl, hd⟩
  · exact absurd (hb ▸ hmem a' b) List.not_mem_nil
  rcases Text.eq_append_or_cut hd.symm (hg.not_mem (by decide)) with ⟨b, hb⟩ | ⟨x', rfl, hr⟩
  · have := htarget s (hb ▸ hmem d b)
    simp [Link.isTargetChar, hspace] at this
  · exact .inl ⟨x', by simp [Link.render], hr⟩

/-- With another gap in its place, a match ends at the same place and has the same target. -/
theorem match_gap (h : Bracketed pre m) {g g' x y r : Text} {l : Link} (hg : Gap pre g) (hg' : Gap pre g')
    (hl : m (x ++ g ++ y) = some (l, r)) : ∃ l', l'.target = l.target ∧
      (m (x ++ g' ++ y) = some (l', r) ∨
        ∃ w x', w ≠ [] ∧ x = w ++ x' ∧ r = x' ++ g ++ y ∧ m (x ++ g' ++ y) = some (l', x' ++ g' ++ y)) := by
  obtain ⟨-, hlabel, htarget⟩ := (h.spec _ _ _).1 hl
  rcases h.gap_cases hg hl with ⟨x', rfl, rfl⟩ | ⟨a, b, hab, rfl, rfl⟩
  · exact ⟨l, rfl, .inr ⟨_, x', render_ne_nil pre l, rfl, rfl,
      (h.spec _ _ _).2 ⟨by simp, hlabel, htarget⟩⟩⟩
  · refine ⟨⟨a ++ g' ++ b, l.target⟩, rfl, .inl ((h.spec _ _ _).2 ⟨by simp [Link.render], ?_, htarget⟩)⟩
    have hclose := hg'.not_mem (c := ']') (by decide)
    rw [hab] at hlabel
    simp_all

theorem eq_none_gap (h : Bracketed pre m) {g g' x y : Text} (hg : Gap pre g) (hg' : Gap pre g')
    (hnone : m (x ++ g ++ y) = none) : m (x ++ g' ++ y) = none := by
  refine Option.eq_none_iff_forall_ne_some.2 fun ⟨l, r⟩ hl => ?_
  obtain ⟨l', -, hl' | ⟨w, x', -, -, -, hl'⟩⟩ := h.match_gap hg' hg hl <;>
    · rw [hnone] at hl'
      contradiction

theorem targets_gap (h : Bracketed pre m) {g g' : Text} (hg : Gap pre g) (hg' : Gap pre g') (x y : Text) :
    (Text.found m (x ++ g ++ y)).map Link.target = (Text.found m (x ++ g' ++ y)).map Link.target := by
  induction hn : x.length using Nat.strong_induction_on generalizing x with
  | _ n ih =>
    cases x with
    | nil => rw [List.nil_append, List.nil_append, hg.found_append h, hg'.found_append h]
    | cons c x =>
      cases hl : m (c :: x ++ g ++ y) with
      | none =>
        have hl' := h.eq_none_gap hg hg' hl
        simp only [List.cons_append] at hl hl' ⊢
        rw [Text.found_of_none hl, Text.found_of_none hl']
        exact ih x.length (by simp [← hn]) x rfl
      | some found =>
        obtain ⟨l, r⟩ := found
        obtain ⟨l', htarget, hl' | ⟨w, x', hne, hx, rfl, hl'⟩⟩ := h.match_gap hg hg' hl
        · obtain ⟨w, hw, heq⟩ := h.consuming _ _ _ hl
          obtain ⟨w', hw', heq'⟩ := h.consuming _ _ _ hl'
          rw [heq] at hl ⊢
          rw [heq'] at hl' ⊢
          rw [Text.found_of_some hw hl, Text.found_of_some hw' hl', List.map_cons, List.map_cons, htarget]
        · have hpos := List.length_pos_iff.2 hne
          have hlen : x'.length < n := by
            rw [← hn, hx, List.length_append]
            omega
          have hform : ∀ gap, c :: x ++ gap ++ y = w ++ (x' ++ gap ++ y) := fun gap => by rw [hx]; simp
          rw [hform] at hl hl' ⊢
          rw [hform, Text.found_of_some hne hl, Text.found_of_some hne hl', List.map_cons, List.map_cons,
            htarget, ih _ hlen x' rfl]

end Gaps

end Bracketed

theorem settling_normalize : Settling Image.normalize where
  toTame := tame_normalize
  ne_nil := by
    intro t u h
    obtain ⟨-, rfl⟩ := normalize_eq_some h
    simp
  settled := by
    intro t u h
    obtain ⟨-, rfl⟩ := normalize_eq_some h
    rfl

namespace ImageTag

def moved (tag : ImageTag) : ImageTag :=
  { tag with source := (Image.normalize tag.source).getD tag.source }

theorem moved_settled (tag : ImageTag) : Image.normalize tag.moved.source = none := by
  unfold moved
  cases hu : Image.normalize tag.source with
  | none => exact hu
  | some u => exact settling_normalize.settled hu

theorem source_moved_ne_nil {tag : ImageTag} (h : tag.source ≠ []) : tag.moved.source ≠ [] := by
  unfold moved
  cases hu : Image.normalize tag.source with
  | none => exact h
  | some u => exact settling_normalize.ne_nil hu

theorem quote_not_mem_rooted {v : Text} {q : Char} (hq : q = '"' ∨ q = '\'') (h : q ∉ v) :
    q ∉ (Image.normalize v).getD v := by
  cases hu : Image.normalize v with
  | none => exact h
  | some u => rcases hq with rfl | rfl <;> exact tame_normalize.not_mem hu h (by decide) (by decide)

theorem quote_mem_of_mem_moved {tag : ImageTag} {q : Char} (hq : q = '"' ∨ q = '\'') (h : q ∈ tag.moved.source) :
    q ∈ tag.source :=
  by_contra fun hn => quote_not_mem_rooted hq hn h

theorem rooted_eq {w rest : Text} {tag : ImageTag} (h : matcher (w ++ rest) = some (tag, rest)) :
    w = tag.before ++ tag.source ++ [tag.quote] ∧
      rooted w tag = tag.before ++ tag.moved.source ++ [tag.quote] := by
  obtain ⟨hw, -⟩ := rooted_cases h
  refine ⟨hw, ?_⟩
  unfold rooted moved
  cases Image.normalize tag.source with
  | none => exact hw
  | some path => rfl

theorem quote_mem_of_mem_convert {s : Text} {q : Char} (hq : q = '"' ∨ q = '\'') (h : q ∈ convert s) :
    q ∈ s := by
  have hslash : ('/' == q) = false := by rcases hq with rfl | rfl <;> rfl
  exact List.count_pos_iff.1 ((List.count_pos_iff.2 h).trans_le (countP_convert_le hslash s))

section Values

variable {p x before v v' t t' rest rest' : Text} {q : Char}

theorem Opens.getLast? (h : Opens p q) : p.getLast? = some q := by
  obtain ⟨name, _, rfl, -, -, mid, w, rfl, -, hw⟩ := h
  obtain ⟨u, rfl, -⟩ := hw.exists_eq_concat
  have hform : '<' :: (name ++ (mid ++ (u ++ [q]))) = '<' :: (name ++ (mid ++ u)) ++ [q] := by simp
  rw [hform, List.getLast?_concat]

theorem Opens.quote (h : Opens p q) : q = '"' ∨ q = '\'' := by
  obtain ⟨_, _, -, -, -, _, _, -, -, hw⟩ := h
  exact hw.quote

/-- A tag that opens a value inside another tag opens the value that the other one opens, too. -/
theorem Opens.outer {z : Text} {q' : Char} (h : Opens before q) (h' : Opens (x ++ before ++ z) q') :
    Opens (x ++ before) q := by
  cases x with
  | nil => exact h
  | cons c x =>
    obtain ⟨name', p', hform, hname', hword, mid', w', rfl, hmid', hw'⟩ := h'
    obtain ⟨name, p, rfl, hname, -, mid, w, rfl, -, hw⟩ := h
    obtain ⟨rfl, heq⟩ := List.cons.inj hform
    replace heq : x ++ '<' :: (name ++ (mid ++ w) ++ z) = name' ++ (mid' ++ w') := by simpa using heq
    have hopen : '<' ∉ name' := by
      intro hm
      obtain ⟨set, hset, hletter⟩ := hname'.exists_mem hm
      revert hletter set
      decide
    have hinside : name' <+: x := by
      refine Text.prefix_of_not_mem (b := name ++ (mid ++ w) ++ z) ?_ hopen
      exact ⟨mid' ++ w', heq.symm⟩
    obtain ⟨x, rfl⟩ := hinside
    rw [List.append_assoc] at heq
    have hbehind : x ++ '<' :: (name ++ (mid ++ w) ++ z) = mid' ++ w' := List.append_cancel_left heq
    have hbracket : '>' ∉ mid' ++ w' := by simp [hmid', hw'.not_mem (x := '>') (by decide) (by decide)]
    rw [← hbehind] at hbracket hword
    have hfront : x ++ '<' :: (name ++ mid) <+: x ++ '<' :: (name ++ (mid ++ w) ++ z) := ⟨w ++ z, by simp⟩
    refine ⟨name', x ++ '<' :: (name ++ (mid ++ w)), by simp, hname', ?_, x ++ '<' :: (name ++ mid), w,
      by simp, fun hm => hbracket (hfront.subset hm), hw⟩
    cases x <;> exact hword

theorem Closes.congr {z : Text} (hz : z ≠ []) (hmem : q ∈ t → q ∈ t') (h : Closes q (z ++ t)) :
    Closes q (z ++ t') := by
  obtain ⟨c, z, rfl⟩ := List.exists_cons_of_ne_nil hz
  obtain ⟨hhead, hq⟩ := h
  refine ⟨hhead, ?_⟩
  rcases List.mem_append.1 hq with hq | hq
  · exact List.mem_append_left _ hq
  · exact List.mem_append_right _ (hmem hq)

theorem matcher_source (h : matcher (before ++ v ++ q :: rest) = some (⟨before, v, q⟩, rest))
    (hne : v' ≠ []) (hv' : q ∉ v')
    (hquotes : ∀ c, c = '"' ∨ c = '\'' → c ∈ v' ++ q :: rest' → c ∈ v ++ q :: rest) :
    matcher (before ++ v' ++ q :: rest') = some (⟨before, v', q⟩, rest') := by
  obtain ⟨hfits, hopens, hfirst⟩ := matcher_eq_some_iff.1 h
  refine matcher_eq_some_iff.2 ⟨⟨rfl, hfits.quote, hfits.getLast?, hne, hv'⟩, hopens, ?_⟩
  intro p c t heq hp hcloses
  rw [List.append_assoc] at heq
  rcases List.append_eq_append_iff.1 heq with ⟨z, rfl, -⟩ | ⟨z, rfl, rfl⟩
  · exact List.prefix_append before z
  · -- the value of `p` starts in front of the source
    rcases eq_or_ne z [] with rfl | hz
    · simp
    · exact hfirst p c (z ++ (v ++ q :: rest)) (by simp) hp (hcloses.congr hz (hquotes c hp.quote))

theorem eq_none_source (hopens : Opens before q) (hne : v ≠ []) (hv : q ∉ v)
    (hquotes : ∀ c, c = '"' ∨ c = '\'' → c ∈ v' → c ∈ v)
    (hnone : matcher (x ++ before ++ v ++ q :: rest) = none) :
    matcher (x ++ before ++ v' ++ q :: rest) = none := by
  have hsilent := matcher_eq_none_iff.1 hnone
  have hclosed : Closes q (v ++ q :: rest) := closes_iff.2 ⟨v, rest, rfl, hne, hv⟩
  have hno : ¬ Opens (x ++ before) q := fun h => hsilent _ q _ (by simp) h hclosed
  refine matcher_eq_none_iff.2 fun p c t heq hp hcloses => ?_
  rw [List.append_assoc] at heq
  rcases List.append_eq_append_iff.1 heq with ⟨z, rfl, -⟩ | ⟨z, hz, rfl⟩
  · exact hno (hopens.outer hp)
  · rcases eq_or_ne z [] with rfl | hne'
    · rw [List.append_nil] at hz
      have hlast : (x ++ before).getLast? = some q := by
        rw [List.getLast?_append, hopens.getLast?]
        rfl
      obtain rfl : c = q := Option.some.inj (hp.getLast?.symm.trans (hz ▸ hlast))
      exact hno (hz ▸ hp)
    · refine hsilent p c (z ++ (v ++ q :: rest)) (by rw [hz]; simp) hp (hcloses.congr hne' ?_)
      simpa using Or.imp_left (hquotes c hp.quote)

end Values

/-- Where the scan has found no tag, it finds none in what rooting makes of the text behind. -/
theorem eq_none_convert (u s : Text) (hs : matcher (u ++ s) = none) : matcher (u ++ convert s) = none := by
  unfold convert
  induction s using Text.scan_induction consuming_matcher generalizing u with
  | nil => exact hs
  | char c s hc ih =>
    rw [Text.replaceAll_of_none hc]
    simpa using ih (u ++ [c]) (by simpa using hs)
  | hit w tag rest hw htag ih =>
    obtain ⟨hfits, hopens, -⟩ := matcher_eq_some_iff.1 htag
    obtain ⟨hsource, hrooted⟩ := rooted_eq htag
    have hbehind := ih (u ++ w) (by simpa using hs)
    rw [Text.replaceAll_of_some hw htag]
    change matcher (u ++ (rooted w tag ++ _)) = none
    rw [hrooted]
    rw [hsource] at hbehind
    simpa using eq_none_source hopens hfits.ne_nil hfits.not_mem
      (fun c => quote_mem_of_mem_moved) (x := u) (by simpa using hbehind)

theorem rescans : Text.Rescans matcher rooted moved where
  consuming := consuming_matcher
  silent c s hs := eq_none_convert [c] s hs
  hit w tag rest h := by
    obtain ⟨hfits, -, -⟩ := matcher_eq_some_iff.1 h
    obtain ⟨hw, hrooted⟩ := rooted_eq h
    rw [hrooted]
    refine ⟨by simp, ?_⟩
    rw [hw] at h
    have hquotes : ∀ c, c = '"' ∨ c = '\'' → c ∈ tag.moved.source ++ tag.quote :: convert rest →
        c ∈ tag.source ++ tag.quote :: rest := by
      intro c hc hm
      simp only [List.mem_append, List.mem_cons] at hm ⊢
      rcases hm with hm | hm | hm
      · exact .inl (quote_mem_of_mem_moved hc hm)
      · exact .inr (.inl hm)
      · exact .inr (.inr (quote_mem_of_mem_convert hc hm))
    rw [List.append_assoc, List.singleton_append]
    exact matcher_source (by simpa using h) (source_moved_ne_nil hfits.ne_nil)
      (quote_not_mem_rooted hfits.quote hfits.not_mem) hquotes
  settled w tag := by rw [rooted, moved_settled]

theorem OpensValue.gap {w parents : Text} {q : Char} (hw : OpensValue w q)
    (hparents : ∀ c ∈ parents, c = '.' ∨ c = '/') : Bracketed.Gap ['!'] (w ++ parents) where
  space := by
    obtain ⟨c, name, ws, ws', rfl, hc, -⟩ := hw
    exact ⟨c, by simp, hc⟩
  free := by
    have hsigns : ∀ x ∈ ['!'] ++ "[]()".toList, ¬ Text.isSpace x ∧
        x ∉ '"' :: '\'' :: '=' :: attributeName.flatten ∧ x ≠ '.' ∧ x ≠ '/' :=
      Text.forall_mem_of_all (by decide)
    intro c hc hsign
    obtain ⟨hspace, hletter, hdot, hslash⟩ := hsigns c hsign
    rcases List.mem_append.1 hc with hc | hc
    · exact hw.not_mem hspace hletter hc
    · rcases hparents c hc with hc | hc
      · exact hdot hc
      · exact hslash hc

/-- Rooting the sources of tags leaves the targets of all images as they are. -/
theorem targets_convert (u s : Text) : (Text.found Image.matcher (u ++ convert s)).map Link.target =
    (Text.found Image.matcher (u ++ s)).map Link.target := by
  unfold convert
  induction s using Text.scan_induction consuming_matcher generalizing u with
  | nil => rfl
  | char c s hc ih =>
    rw [Text.replaceAll_of_none hc]
    simpa using ih (u ++ [c])
  | hit w tag rest hw htag ih =>
    rw [Text.replaceAll_of_some hw htag, ← List.append_assoc, ih, List.append_assoc]
    change (Text.found Image.matcher (u ++ (rooted w tag ++ rest))).map Link.target = _
    obtain ⟨hsource, heq | ⟨-, -, hrooted⟩⟩ := rooted_cases htag
    · rw [heq]
    · obtain ⟨-, ⟨name, p, hbefore, -, -, mid, v, rfl, -, hv⟩, -⟩ := matcher_eq_some_iff.1 htag
      obtain ⟨parents, hparents, hsigns⟩ := dropParents_suffix tag.source
      have hslash : Bracketed.Gap ['!'] (v ++ ['/']) := hv.gap (by simp)
      have hsame := bracketed_image.targets_gap (hv.gap hsigns) hslash
        (u ++ '<' :: (name ++ mid)) (Image.dropParents tag.source ++ tag.quote :: rest)
      rw [hrooted, hsource]
      conv_rhs => rw [hparents]
      rw [hbefore]
      simpa using hsame.symm

end ImageTag

/-- Rooting the paths of the images of a text is done after one pass: a second one changes nothing, as it
finds the same images and tags, each with its rooted path, and none of them is left to root. -/
theorem Image.rerooting_settles (s : Text) :
    convert (convert s) = convert s ∧
      (Text.found matcher (convert s)).map Link.target =
        (Text.found matcher s).map (fun l => (l.moved normalize).target) ∧
      Text.found ImageTag.matcher (convert s) =
        (Text.found ImageTag.matcher (convertInline s)).map ImageTag.moved ∧
      (∀ l ∈ Text.found matcher (convert s), normalize l.target = none) ∧
      ∀ tag ∈ Text.found ImageTag.matcher (convert s), normalize tag.source = none := by
  have htargets : (Text.found matcher (convert s)).map Link.target =
      (Text.found matcher s).map (fun l => (l.moved normalize).target) := by
    have hinline : Text.found matcher (convertInline s) = (Text.found matcher s).map (Link.moved normalize) :=
      bracketed_image.found_replaceAll (by decide) settling_normalize s
    rw [convert, ← List.nil_append (ImageTag.convert _), ImageTag.targets_convert, List.nil_append, hinline,
      List.map_map]
    rfl
  have htags : Text.found ImageTag.matcher (convert s) =
      (Text.found ImageTag.matcher (convertInline s)).map ImageTag.moved :=
    ImageTag.rescans.found_replaceAll (convertInline s)
  have hsettled : ∀ l ∈ Text.found matcher (convert s), normalize l.target = none := by
    intro l hl
    have htarget := List.mem_map_of_mem (f := Link.target) hl
    rw [htargets] at htarget
    obtain ⟨k, -, hk⟩ := List.mem_map.1 htarget
    rw [← hk]
    exact Link.moved_settled settling_normalize k
  refine ⟨?_, htargets, htags, hsettled, ?_⟩
  · -- the first scan leaves the text alone, and the second has been over it
    have hinline : convertInline (convert s) = convert s :=
      Text.replaceAll_eq_self_of_found bracketed_image.consuming fun l hl w => by rw [hsettled l hl]
    conv_lhs => rw [convert, hinline]
    exact ImageTag.rescans.replaceAll_replaceAll (convertInline s)
  · intro tag htag
    rw [htags] at htag
    obtain ⟨source, -, rfl⟩ := List.mem_map.1 htag
    exact source.moved_settled

end Markdown

end DocsMigration
