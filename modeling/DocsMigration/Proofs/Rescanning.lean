import DocsMigration.Proofs.Targets
/-! A second scan of a text whose matches have been retargeted finds the very same matches. A target can
hold brackets, and a label can hold the opening of another link, so the scan is followed from every place
of the text: where it has found nothing it still finds nothing, as a new target takes part in a match only
where the old one did. So retargeting is done after one pass. -/

namespace DocsMigration

namespace Text

section Rescanning

variable {α : Type} {m : Matcher α} {f : Text → α → Text} {g : α → α}

/-- A replacement after which a second scan finds the same matches, each of them moved by `g`, and leaves
them as they are. -/
structure Rescans (m : Matcher α) (f : Text → α → Text) (g : α → α) : Prop where
  consuming : Consuming m
  silent : ∀ c s, m (c :: s) = none → m (c :: replaceAll m f s) = none
  hit : ∀ w v rest, m (w ++ rest) = some (v, rest) →
    f w v ≠ [] ∧ m (f w v ++ replaceAll m f rest) = some (g v, replaceAll m f rest)
  settled : ∀ w v, f (f w v) (g v) = f w v

namespace Rescans

theorem pieces_replaceAll (h : Rescans m f g) (s : Text) :
    pieces m (replaceAll m f s) = (pieces m s).map fun
      | .char c => .char c
      | .hit w v => .hit (f w v) (g v) := by
  induction s using scan_induction h.consuming with
  | nil => rfl
  | char c s hc ih =>
    rw [replaceAll_of_none hc, pieces_of_none (h.silent c s hc), ih, pieces_of_none hc, List.map_cons]
  | hit w v rest hw hv ih =>
    obtain ⟨hne, hmoved⟩ := h.hit w v rest hv
    rw [replaceAll_of_some hw hv, pieces_of_some hne hmoved, ih, pieces_of_some hw hv, List.map_cons]

theorem replaceAll_replaceAll (h : Rescans m f g) (s : Text) :
    replaceAll m f (replaceAll m f s) = replaceAll m f s := by
  conv_lhs => rw [replaceAll, h.pieces_replaceAll, List.flatMap_map]
  refine List.flatMap_congr fun piece _ => ?_
  cases piece with
  | char c => rfl
  | hit w v => exact h.settled w v

theorem found_replaceAll (h : Rescans m f g) (s : Text) :
    found m (replaceAll m f s) = (found m s).map g := by
  rw [found, h.pieces_replaceAll, List.filterMap_map, found, List.map_filterMap]
  refine List.filterMap_congr fun piece _ => ?_
  cases piece <;> rfl

end Rescans

end Rescanning

end Text

namespace Markdown

/-- A change of targets that leaves nothing to do: what it gives is a target, and stays as it is. -/
structure Settling (g : Text → Option Text) : Prop extends Tame g where
  ne_nil : ∀ {t u}, g t = some u → u ≠ []
  settled : ∀ {t u}, g t = some u → g u = none

theorem Link.getLast?_retarget {t u : Text} (h : retarget t = some u) :
    t.getLast? = some 'd' ∧ u.getLast? = some '/' := by
  obtain ⟨stem, rfl, hu⟩ := retarget_eq_some h
  refine ⟨by simp, ?_⟩
  rcases hu with rfl | rfl | ⟨dir, -, rfl⟩
  · rfl
  · rfl
  · simp

theorem settling_retarget : Settling Link.retarget where
  toTame := tame_retarget
  ne_nil := by
    intro t u h
    have hlast := (Link.getLast?_retarget h).2
    rintro rfl
    contradiction
  settled := by
    intro t u h
    -- a directory URL has no file extension
    cases hu : Link.retarget u with
    | none => rfl
    | some v =>
      have hlast := (Link.getLast?_retarget hu).1
      rw [(Link.getLast?_retarget h).2] at hlast
      exact absurd (Option.some.inj hlast) (by decide)

namespace Link

def moved (g : Text → Option Text) (l : Link) : Link := ⟨l.label, (g l.target).getD l.target⟩

variable {pre : Text} {g : Text → Option Text}

theorem retargeted_render (pre : Text) (l : Link) :
    retargeted pre g (pre ++ render l) l = pre ++ render (moved g l) := by
  unfold retargeted moved
  cases g l.target <;> rfl

theorem moved_settled (hg : Settling g) (l : Link) : g (moved g l).target = none := by
  unfold moved
  cases hu : g l.target with
  | none => exact hu
  | some u => exact hg.settled hu

theorem target_moved (hg : Settling g) {l : Link} (hne : l.target ≠ [])
    (hl : ∀ c ∈ l.target, isTargetChar c) :
    (moved g l).target ≠ [] ∧ ∀ c ∈ (moved g l).target, isTargetChar c := by
  unfold moved
  cases hu : g l.target with
  | none => exact ⟨hne, hl⟩
  | some u =>
    refine ⟨hg.ne_nil hu, fun c hc => ?_⟩
    rcases hg.mem hu c hc with hc | rfl | rfl
    · exact hl c hc
    · decide
    · decide

end Link

namespace Bracketed

variable {pre : Text} {m : Text.Matcher Link} {g : Text → Option Text}

/-- Where no match starts in front of a target, none does with another one. Such a match would end in front
of the target, or have a target that ends with it, or be the match with that target. -/
theorem eq_none_target (h : Bracketed pre m) (hpre : ']' ∉ pre) {x t t' rest : Text} (hne : t ≠ [])
    (ht : ∀ c ∈ t, Link.isTargetChar c) (ht' : ∀ c ∈ t', Link.isTargetChar c)
    (hnone : m (x ++ "](".toList ++ t ++ ')' :: rest) = none) :
    m (x ++ "](".toList ++ t' ++ ')' :: rest) = none := by
  refine Option.eq_none_iff_forall_ne_some.2 fun ⟨l, r⟩ hl => ?_
  obtain ⟨heq, hlabel, hltarget⟩ := (h.spec _ _ _).1 hl
  have hopen : ']' ∉ pre ++ '[' :: l.label := by simp [hpre, hlabel]
  have hlabelled : x ++ ']' :: ('(' :: t' ++ ')' :: rest) =
      (pre ++ '[' :: l.label) ++ ']' :: ('(' :: l.target ++ ')' :: r) := by
    simpa [Link.render] using heq
  have hno : ∀ {v r}, x ++ "](".toList ++ t ++ ')' :: rest = pre ++ Link.render ⟨l.label, v⟩ ++ r →
      v ≠ [] → ¬ ∀ c ∈ v, Link.isTargetChar c := by
    intro v r hv hvne hvt
    rw [(h.spec _ ⟨l.label, v⟩ r).2 ⟨hv, hlabel, hvne, hvt⟩] at hnone
    contradiction
  rcases Text.eq_or_cut hlabelled hopen with ⟨rfl, -⟩ | ⟨y, rfl, hy⟩
  · -- the match has this target
    exact hno (v := t) (r := rest) (by simp [Link.render]) hne ht
  · cases y with
    | nil => exact absurd (List.cons.inj hy).1 (by decide)
    | cons c y =>
      obtain ⟨rfl, hy⟩ := List.cons.inj hy
      have htarget : y ++ ("](".toList ++ t') ++ ')' :: rest = l.target ++ ')' :: r := by simpa using hy.symm
      have hbetween : ')' ∉ "](".toList ++ t' := by simpa using Link.paren_not_mem ht'
      rcases Text.eq_or_cut_front htarget (Link.paren_not_mem hltarget.2) hbetween with ⟨hend, -⟩ | ⟨z, rfl⟩
      · -- the match's target ends with this one
        refine hno (v := y ++ "](".toList ++ t) (r := rest) (by simp [Link.render]) (by simp) fun c hc => ?_
        rcases List.mem_append.1 hc with hc | hc
        · refine hltarget.2 c (hend ▸ ?_)
          rw [← List.append_assoc]
          exact List.mem_append_left _ hc
        · exact ht c hc
      · -- the match ends before this target
        exact hno (v := l.target) (r := z ++ "](".toList ++ t ++ ')' :: rest)
          (by simp [Link.render]) hltarget.1 hltarget.2

theorem match_moved (h : Bracketed pre m) (hg : Settling g) {w rest : Text} {l : Link}
    (hs : m (w ++ rest) = some (l, rest)) (rest' : Text) :
    Link.retargeted pre g w l = pre ++ Link.render (l.moved g) ∧
      m (Link.retargeted pre g w l ++ rest') = some (l.moved g, rest') := by
  obtain ⟨-, hlabel, hne, hl⟩ := (h.spec _ _ _).1 hs
  have hform : Link.retargeted pre g w l = pre ++ Link.render (l.moved g) := by
    rw [h.source hs]
    exact Link.retargeted_render pre l
  refine ⟨hform, (h.spec _ _ _).2 ⟨by rw [hform], hlabel, Link.target_moved hg hne hl⟩⟩

/-- Where the scan has found nothing, it finds nothing in what retargeting makes of the text behind. -/
theorem eq_none_replaceAll (h : Bracketed pre m) (hpre : ']' ∉ pre) (hg : Settling g) (u s : Text)
    (hs : m (u ++ s) = none) : m (u ++ Text.replaceAll m (Link.retargeted pre g) s) = none := by
  induction s using Text.scan_induction h.consuming generalizing u with
  | nil => exact hs
  | char c s hc ih =>
    rw [Text.replaceAll_of_none hc]
    simpa using ih (u ++ [c]) (by simpa using hs)
  | hit w l rest hw hl ih =>
    obtain ⟨-, -, hne, htarget⟩ := (h.spec _ _ _).1 hl
    -- first the text behind the match is replaced, then the target of the match
    have hbehind := ih (u ++ w) (by simpa using hs)
    have hold : m ((u ++ pre ++ '[' :: l.label) ++ "](".toList ++ l.target ++
        ')' :: Text.replaceAll m (Link.retargeted pre g) rest) = none := by
      rw [h.source hl] at hbehind
      simpa [Link.render] using hbehind
    have hnew := h.eq_none_target hpre hne htarget (Link.target_moved hg hne htarget).2 hold
    rw [Text.replaceAll_of_some hw hl, (h.match_moved hg hl []).1]
    simpa [Link.render, Link.moved] using hnew

theorem rescans (h : Bracketed pre m) (hpre : ']' ∉ pre) (hg : Settling g) :
    Text.Rescans m (Link.retargeted pre g) (Link.moved g) where
  consuming := h.consuming
  silent c s hs := h.eq_none_replaceAll hpre hg [c] s hs
  hit w l rest hl := by
    obtain ⟨hform, hmoved⟩ := h.match_moved hg hl (Text.replaceAll m (Link.retargeted pre g) rest)
    exact ⟨hform ▸ render_ne_nil pre _, hmoved⟩
  settled w l := by rw [Link.retargeted, Link.moved_settled hg]

theorem replaceAll_replaceAll (h : Bracketed pre m) (hpre : ']' ∉ pre) (hg : Settling g) (s : Text) :
    Text.replaceAll m (Link.retargeted pre g) (Text.replaceAll m (Link.retargeted pre g) s) =
      Text.replaceAll m (Link.retargeted pre g) s :=
  (h.rescans hpre hg).replaceAll_replaceAll s

theorem found_replaceAll (h : Bracketed pre m) (hpre : ']' ∉ pre) (hg : Settling g) (s : Text) :
    Text.found m (Text.replaceAll m (Link.retargeted pre g) s) =
      (Text.found m s).map (Link.moved g) :=
  (h.rescans hpre hg).found_replaceAll s

end Bracketed

/-- Retargeting the links of a text is done after one pass: a second one changes nothing, as it finds the
same links, each with its new target, and none of them is left to retarget. -/
theorem Link.convert_settles (s : Text) :
    convert (convert s) = convert s ∧
      Text.found matcher (convert s) = (Text.found matcher s).map (moved retarget) ∧
      ∀ l ∈ Text.found matcher (convert s), retarget l.target = none := by
  have hfound : Text.found matcher (convert s) = (Text.found matcher s).map (moved retarget) :=
    bracketed_link.found_replaceAll (by decide) settling_retarget s
  refine ⟨bracketed_link.replaceAll_replaceAll (by decide) settling_retarget s, hfound, fun l hl => ?_⟩
  rw [hfound] at hl
  obtain ⟨k, -, rfl⟩ := List.mem_map.1 hl
  exact moved_settled settling_retarget k

end Markdown

end DocsMigration
