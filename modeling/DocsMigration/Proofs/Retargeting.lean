import DocsMigration.Proofs.Annotations
import DocsMigration.Proofs.Marks
/-! What retargeting leaves behind. A link that is retargeted loses the m of its file extension. An
image may gain characters and lose others, but where the text first changes there is a slash that was
not there: so no second change can bring the old text back. -/

namespace DocsMigration

namespace Markdown

/-- Retargeting makes no body start with an attribute list: a list has none of the signs before a
target. -/
theorem ButtonAttributes.leads_of_alike {s t : Text}
    (h : List.Forall₂ Text.Alike (Text.fullLines s) (Text.fullLines t)) (ht : leads t) : leads s := by
  obtain ⟨ws, ws', hws, hws', hp⟩ := leads_iff.1 ht
  refine leads_iff.2 ⟨ws, ws', hws, hws', ?_⟩
  rw [← Text.flatten_fullLines t] at hp
  rw [← Text.flatten_fullLines s]
  refine Text.prefix_of_alike h ?_ hp
  intro c hc hmark
  have hclass : ∀ c ∈ className, ¬ Text.opensTarget c := Text.forall_mem_of_all (by decide)
  rcases List.mem_append.1 hc with hc | hc
  · exact Text.not_isSpace_of_opensTarget hmark (hws c hc)
  · rcases List.mem_cons.1 hc with rfl | hc
    · exact absurd hmark (by decide)
    · rcases List.mem_append.1 hc with hc | hc
      · exact Text.not_isSpace_of_opensTarget hmark (hws' c hc)
      · exact hclass c hc hmark

/-- `t` is `s` up to one of the signs right before a target, and has a slash behind it where `s` has
another sign. -/
def Rooted (s t : Text) : Prop :=
  ∃ x d q u v, Text.opensTarget d ∧ q ≠ '/' ∧ s = x ++ [d] ++ q :: u ∧
    t = x ++ [d] ++ '/' :: v

namespace Rooted

variable {s t u : Text}

theorem irrefl : ¬ Rooted s s := by
  rintro ⟨x, d, q, u, v, -, hq, heq, hs⟩
  rw [heq] at hs
  exact hq (List.cons.inj (List.append_cancel_left hs)).1

theorem behind (h : Rooted s t) (y : Text) : Rooted (y ++ s) (y ++ t) := by
  obtain ⟨x, d, q, u, v, hd, hq, rfl, rfl⟩ := h
  exact ⟨y ++ x, d, q, u, v, hd, hq, by simp, by simp⟩

theorem append (h : Rooted s t) (y z : Text) : Rooted (s ++ y) (t ++ z) := by
  obtain ⟨x, d, q, u, v, hd, hq, rfl, rfl⟩ := h
  exact ⟨x, d, q, u ++ y, v ++ z, hd, hq, by simp, by simp⟩

theorem trans (h : Rooted s t) (h' : Rooted t u) : Rooted s u := by
  obtain ⟨x, d, q, a, b, hd, hq, rfl, ht⟩ := h
  obtain ⟨x', d', q', a', b', hd', hq', rfl, rfl⟩ := h'
  rcases List.append_eq_append_iff.1 ht with ⟨e, hx, he⟩ | ⟨e, hx, he⟩
  · rcases List.cons_eq_append_iff.1 he with ⟨rfl, he⟩ | ⟨e, rfl, he⟩
    · exact absurd (List.cons.inj he).1 hq'
    · exact ⟨x', d', q', e ++ q :: a, b', hd', hq', by rw [hx]; simp, rfl⟩
  · rcases List.cons_eq_append_iff.1 he with ⟨rfl, he⟩ | ⟨e, rfl, -⟩
    · exact absurd (List.cons.inj he).1.symm hq'
    · exact ⟨x, d, q, a, e ++ '/' :: b', hd, hq, rfl, by rw [hx]; simp⟩

theorem replaceAll {α : Type} {m : Text.Matcher α} {f : Text → α → Text} (hm : Text.Consuming m)
    (hf : ∀ w a rest, m (w ++ rest) = some (a, rest) → f w a = w ∨ Rooted w (f w a)) (s : Text) :
    Text.replaceAll m f s = s ∨ Rooted s (Text.replaceAll m f s) := by
  induction s using Text.scan_induction hm with
  | nil => exact .inl rfl
  | char c s h ih =>
    rw [Text.replaceAll_of_none h]
    rcases ih with heq | hr
    · exact .inl (by rw [heq])
    · exact .inr (hr.behind [c])
  | hit w a rest hw h ih =>
    rw [Text.replaceAll_of_some hw h]
    rcases hf w a rest h with heq | hr
    · rw [heq]
      rcases ih with heq | hr
      · exact .inl (by rw [heq])
      · exact .inr (hr.behind w)
    · exact .inr (hr.append _ _)

end Rooted

section Links

variable {p : Char → Bool} {pre : Text} {m : Text.Matcher Link} {g : Text → Option Text}

theorem countP_retargeted_le (h : Bracketed pre m) (hg : Tame g) (hslash : p '/' = false)
    (hdot : p '.' = false) (s : Text) :
    (Text.replaceAll m (Link.retargeted pre g) s).countP p ≤ s.countP p :=
  Text.countP_replaceAll_le h.consuming (fun _ _ _ hs => h.countP_le hg hslash hdot hs) s

namespace Link

theorem countP_convert_le (hslash : p '/' = false) (hdot : p '.' = false) (s : Text) :
    (convert s).countP p ≤ s.countP p :=
  countP_retargeted_le bracketed_link tame_retarget hslash hdot s

theorem isEm_countP_retarget {t url : Text} (h : retarget t = some url) :
    url.countP isEm < t.countP isEm := by
  have hmd : ".md".toList.countP isEm = 1 := by decide
  have hup : "../".toList.countP isEm = 0 := by decide
  have hhere : "./".toList.countP isEm = 0 := by decide
  obtain ⟨stem, rfl, hurl⟩ := retarget_eq_some h
  rw [List.countP_append, hmd]
  rcases hurl with rfl | rfl | ⟨dir, hdir, rfl⟩
  · omega
  · omega
  · have hle := hdir.sublist.countP_le (p := isEm)
    have hslash : ['/'].countP isEm = 0 := by decide
    rw [List.countP_append, hslash]
    omega

theorem convert_eq_or_countP_lt (s : Text) :
    convert s = s ∨ (convert s).countP isEm < s.countP isEm := by
  refine Text.replaceAll_eq_or_countP_lt bracketed_link.consuming (fun w l rest hs => ?_) s
  rcases bracketed_link.retargeted_cases tame_retarget hs with heq | ⟨url, hurl, -, -, hw, hr⟩
  · exact .inl heq
  · have hlt := isEm_countP_retarget hurl
    right
    change (retargeted [] retarget w l).countP isEm < w.countP isEm
    rw [hr, hw]
    simp only [List.countP_append]
    omega

end Link

end Links

namespace Image

theorem rooted_convertInline (s : Text) : convertInline s = s ∨ Rooted s (convertInline s) := by
  refine Rooted.replaceAll bracketed_image.consuming (fun w l rest hs => ?_) s
  rcases bracketed_image.retargeted_cases tame_normalize hs with heq | ⟨url, hurl, -, -, hw, hr⟩
  · exact .inl heq
  · obtain ⟨hhead, rfl⟩ := normalize_eq_some hurl
    obtain ⟨q, target, htarget⟩ := List.exists_cons_of_ne_nil ((bracketed_image.spec _ _ _).1 hs).2.2.1
    rw [htarget] at hhead hw
    refine .inr ⟨['!'] ++ '[' :: l.label ++ [']'], '(', q, target ++ [')'],
      dropParents l.target ++ [')'], by decide, by simpa using hhead, ?_, ?_⟩
    · rw [hw]
      simp
    · refine Eq.trans hr ?_
      simp

end Image

namespace ImageTag

theorem rooted_convert (s : Text) : convert s = s ∨ Rooted s (convert s) := by
  refine Rooted.replaceAll consuming_matcher (fun w tag rest hs => ?_) s
  have hfits := fits_matcher hs
  obtain ⟨hw, heq | ⟨hhead, -, hr⟩⟩ := rooted_cases hs
  · exact .inl heq
  · obtain ⟨x, hx⟩ := List.getLast?_eq_some_iff.1 hfits.getLast?
    obtain ⟨q, source, hsource⟩ := List.exists_cons_of_ne_nil hfits.ne_nil
    have hquote : Text.opensTarget tag.quote := by
      rcases hfits.quote with hq | hq <;> rw [hq] <;> decide
    rw [hsource] at hhead
    refine .inr ⟨x, tag.quote, q, source ++ [tag.quote], Image.dropParents tag.source ++ [tag.quote],
      hquote, by simpa using hhead, ?_, ?_⟩
    · rw [hw, hx, hsource]
      simp
    · exact hr.trans (by simp [hx])

theorem countP_convert_le {p : Char → Bool} (hslash : p '/' = false) (s : Text) :
    (convert s).countP p ≤ s.countP p := by
  refine Text.countP_replaceAll_le consuming_matcher (fun w tag rest hs => ?_) s
  obtain ⟨hw, heq | ⟨-, -, hr⟩⟩ := rooted_cases hs
  · exact (congrArg (List.countP p) heq).le
  · obtain ⟨parents, hsource, -⟩ := dropParents_suffix tag.source
    have hle : (Image.dropParents tag.source).countP p ≤ tag.source.countP p := by
      conv_rhs => rw [hsource]
      simp
    refine (congrArg (List.countP p) hr).le.trans ?_
    rw [hw]
    simp only [List.countP_append, List.countP_cons, hslash]
    simp
    omega

end ImageTag

namespace Image

theorem rooted_convert (s : Text) : convert s = s ∨ Rooted s (convert s) := by
  unfold convert
  rcases rooted_convertInline s with heq | h <;>
    rcases ImageTag.rooted_convert (convertInline s) with heq' | h'
  · exact .inl (by rw [heq', heq])
  · exact .inr (by rwa [heq] at h' ⊢)
  · exact .inr (by rwa [heq'])
  · exact .inr (h.trans h')

theorem convert_eq_self {s : Text} (h : convert s = s) :
    convertInline s = s ∧ ImageTag.convert s = s := by
  unfold convert at h
  have hinline : convertInline s = s := by
    apply (rooted_convertInline s).resolve_right
    intro hr
    apply Rooted.irrefl (s := s)
    rcases ImageTag.rooted_convert (convertInline s) with heq | hr'
    · rwa [← heq, h] at hr
    · rw [h] at hr'
      exact hr.trans hr'
  exact ⟨hinline, by rwa [hinline] at h⟩

theorem countP_convert_le {p : Char → Bool} (hslash : p '/' = false) (hdot : p '.' = false)
    (s : Text) : (convert s).countP p ≤ s.countP p :=
  (ImageTag.countP_convert_le hslash _).trans
    (countP_retargeted_le bracketed_image tame_normalize hslash hdot s)

end Image

end Markdown

end DocsMigration
