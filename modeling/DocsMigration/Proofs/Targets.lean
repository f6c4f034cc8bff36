import DocsMigration.Markdown.Image
import DocsMigration.Proofs.Replacement
/-! Links and images, and what happens to their targets. A link is found exactly where its text stands,
so whether a match is found depends on no more than the match itself; and what is written for it
differs from it only in the target, between the two parentheses. -/

namespace DocsMigration

namespace Text

/-- Whether a match is found depends on nothing behind it. -/
def Determined {α : Type} (m : Matcher α) : Prop :=
  ∀ w v rest, w ≠ [] → m (w ++ rest) = some (v, rest) → ∀ rest', m (w ++ rest') = some (v, rest')

/-- A scan for matches that depend on nothing behind them goes on as if nothing followed, unless a
match reaches over the end. -/
theorem agrees_of_determined {α : Type} {m : Matcher α} {f : Text → α → Text} (hm : Consuming m)
    (hd : Determined m) {b u : Text}
    (hcross : ∀ w v rest, u ++ b = w ++ rest → m (u ++ b) = some (v, rest) → u <+: w → u <+: f w v) :
    Agrees m f [[]] b u := by
  cases h : m (u ++ b) with
  | none =>
    apply Agrees.silent h
    intro c hc
    obtain rfl := List.mem_singleton.1 hc
    rw [List.append_nil]
    cases hu : m u with
    | none => rfl
    | some r =>
      obtain ⟨v, u'⟩ := r
      obtain ⟨w, hw, rfl⟩ := hm _ _ _ hu
      rw [List.append_assoc, hd w v u' hw hu (u' ++ b)] at h
      contradiction
  | some r =>
    obtain ⟨v, rest⟩ := r
    obtain ⟨w, hw, heq⟩ := hm _ _ _ h
    have hwhole : w <+: u ++ b := heq ▸ List.prefix_append _ _
    rcases List.prefix_or_prefix_of_prefix (List.prefix_append u b) hwhole with hu | ⟨u', rfl⟩
    · exact .across w rest v hw heq h fun _ => hcross w v rest heq h hu
    · rw [List.append_assoc] at heq
      obtain rfl := List.append_cancel_left heq
      rw [List.append_assoc] at h
      refine .inside w u' v hw rfl (by rw [List.append_assoc]; exact h) fun c _ => ?_
      rw [List.append_assoc]
      exact hd w v _ hw h (u' ++ c)

theorem eq_or_incomparable {x : Char} {a b : Text} (ha : x ∉ a) (hb : x ∉ b) (pre post : Text) :
    pre ++ a ++ x :: post = pre ++ b ++ x :: post ∨
      (¬ pre ++ a ++ x :: post <+: pre ++ b ++ x :: post ∧
        ¬ pre ++ b ++ x :: post <+: pre ++ a ++ x :: post) := by
  have key : ∀ {a b : Text}, x ∉ a → x ∉ b → pre ++ a ++ x :: post <+: pre ++ b ++ x :: post →
      a = b := by
    intro a b ha hb h
    rw [List.append_assoc, List.append_assoc, List.prefix_append_right_inj] at h
    obtain ⟨t, ht⟩ := h
    rw [List.append_assoc, List.cons_append] at ht
    have hsplit := splitOnce?_eq_some.2 ⟨ht.symm, ha⟩
    rw [splitOnce?_eq_some.2 ⟨rfl, hb⟩] at hsplit
    exact (Prod.mk.inj (Option.some.inj hsplit)).1.symm
  by_cases h : a = b
  · exact .inl (by rw [h])
  · exact .inr ⟨fun hp => h (key ha hb hp), fun hp => h (key hb ha hp).symm⟩

end Text

namespace Markdown

namespace Link

theorem matcher_eq_some {s rest : Text} {l : Link} :
    matcher s = some (l, rest) ↔
      s = render l ++ rest ∧ ']' ∉ l.label ∧ l.target ≠ [] ∧ ∀ c ∈ l.target, isTargetChar c := by
  constructor
  · intro h
    unfold matcher at h
    split at h
    · rename_i s
      split at h
      · rename_i t ht
        split at h
        · rename_i rest' hrest
          dsimp only at h
          split_ifs at h with he
          obtain ⟨rfl, rfl⟩ := Prod.mk.inj (Option.some.inj h)
          obtain ⟨hlabel, hmem⟩ := Text.eq_of_dropWhile_bne ht
          refine ⟨?_, hmem, by simpa using he, List.all_eq_true.1 List.all_takeWhile⟩
          have htarget := List.takeWhile_append_dropWhile (p := isTargetChar) (l := t)
          rw [hrest] at htarget
          simp only [render]
          conv_lhs => rw [← hlabel, ← htarget]
          simp
        · contradiction
      · contradiction
    · contradiction
  · rintro ⟨rfl, hlabel, hne, htarget⟩
    have hs : render l ++ rest = '[' :: (l.label ++ ']' :: '(' :: (l.target ++ ')' :: rest)) := by
      simp [render]
    have hclose : isTargetChar ')' = false := by decide
    rw [hs, matcher, Text.dropWhile_bne hlabel, Text.takeWhile_bne hlabel]
    simp [List.dropWhile_append_of_pos htarget, List.takeWhile_append_of_pos htarget, hclose, hne]

theorem retarget_eq_some {url u : Text} (h : retarget url = some u) :
    ∃ stem, url = stem ++ ".md".toList ∧
      (u = "../".toList ∨ u = "./".toList ∨ ∃ dir, dir <+: stem ∧ u = dir ++ ['/']) := by
  unfold retarget at h
  split_ifs at h
  split at h
  · contradiction
  · rename_i stem hstem
    refine ⟨stem, (Text.stripSuffix?_eq_some.1 hstem).symm, ?_⟩
    split_ifs at h
    · exact .inl (Option.some.inj h).symm
    · split at h
      · exact .inr (.inl (Option.some.inj h).symm)
      · rename_i dir _ hdir
        have hstart : dir <+: stem := ⟨_, Text.stripSuffix?_eq_some.1 hdir⟩
        exact .inr (.inr ⟨dir, hstart, (Option.some.inj h).symm⟩)
      · exact .inr (.inr ⟨stem, List.prefix_rfl, (Option.some.inj h).symm⟩)

theorem paren_not_mem {t : Text} (h : ∀ c ∈ t, isTargetChar c) : ')' ∉ t :=
  fun hm => absurd (h _ hm) (by decide)

def retargeted (pre : Text) (g : Text → Option Text) (source : Text) (l : Link) : Text :=
  match g l.target with
  | some url => pre ++ render ⟨l.label, url⟩
  | none => source

end Link

/-- What is asked of a change of targets: no sign comes into a target but slashes and dots, and no
other sign becomes more frequent. -/
structure Tame (g : Text → Option Text) : Prop where
  mem : ∀ {t u}, g t = some u → ∀ c ∈ u, c ∈ t ∨ c = '/' ∨ c = '.'
  countP_le : ∀ {t u}, g t = some u → ∀ p : Char → Bool, p '/' = false → p '.' = false →
    u.countP p ≤ t.countP p

theorem Tame.not_mem {g : Text → Option Text} (hg : Tame g) {t u : Text} (h : g t = some u) {c : Char}
    (hc : c ∉ t) (hslash : c ≠ '/') (hdot : c ≠ '.') : c ∉ u := by
  intro hm
  rcases hg.mem h c hm with hm | hm | hm
  · exact hc hm
  · exact hslash hm
  · exact hdot hm

theorem tame_retarget : Tame Link.retarget where
  mem := by
    intro t u h c hc
    obtain ⟨stem, rfl, rfl | rfl | ⟨dir, hdir, rfl⟩⟩ := Link.retarget_eq_some h
    · simp at hc; tauto
    · simp at hc; tauto
    · rcases List.mem_append.1 hc with hc | hc
      · exact .inl (List.mem_append_left _ (hdir.subset hc))
      · exact .inr (.inl (List.mem_singleton.1 hc))
  countP_le := by
    intro t u h p hslash hdot
    obtain ⟨stem, rfl, rfl | rfl | ⟨dir, hdir, rfl⟩⟩ := Link.retarget_eq_some h
    · simp [List.countP_cons, hslash, hdot]
    · simp [List.countP_cons, hslash, hdot]
    · have := hdir.sublist.countP_le (p := p)
      simp only [List.countP_append, List.countP_cons, List.countP_nil, hslash]
      simp
      omega

theorem dropParents_suffix (s : Text) : ∃ parents, s = parents ++ Image.dropParents s ∧
    ∀ c ∈ parents, c = '.' ∨ c = '/' := by
  fun_induction Image.dropParents s with
  | case1 s ih =>
    obtain ⟨parents, hs, hp⟩ := ih
    exact ⟨'.' :: '.' :: '/' :: parents, by rw [List.cons_append, List.cons_append, List.cons_append, ← hs],
      by simpa using hp⟩
  | case2 s => exact ⟨[], rfl, by simp⟩

theorem normalize_eq_some {path u : Text} (h : Image.normalize path = some u) :
    path.head? ≠ some '/' ∧ u = '/' :: Image.dropParents path := by
  unfold Image.normalize at h
  split_ifs at h with hif
  refine ⟨fun hhead => hif ?_, (Option.some.inj h).symm⟩
  obtain ⟨t, rfl⟩ := List.head?_eq_some_iff.1 hhead
  simp [Text.startsWith]

theorem tame_normalize : Tame Image.normalize where
  mem := by
    intro t u h c hc
    obtain ⟨-, rfl⟩ := normalize_eq_some h
    obtain ⟨parents, ht, -⟩ := dropParents_suffix t
    rcases List.mem_cons.1 hc with rfl | hc
    · simp
    · exact .inl (ht ▸ List.mem_append_right _ hc)
  countP_le := by
    intro t u h p hslash hdot
    obtain ⟨-, rfl⟩ := normalize_eq_some h
    obtain ⟨parents, ht, -⟩ := dropParents_suffix t
    conv_rhs => rw [ht]
    simp [List.countP_append, hslash]

/-- A matcher for links behind a sign of their own, or behind none. -/
structure Bracketed (pre : Text) (m : Text.Matcher Link) : Prop where
  spec : ∀ s l rest, m s = some (l, rest) ↔ s = pre ++ Link.render l ++ rest ∧ ']' ∉ l.label ∧
    l.target ≠ [] ∧ ∀ c ∈ l.target, Link.isTargetChar c
  newline_not_mem : '\n' ∉ pre

theorem bracketed_link : Bracketed [] Link.matcher :=
  ⟨fun _ _ _ => Link.matcher_eq_some, by simp⟩

theorem bracketed_image : Bracketed ['!'] Image.matcher := by
  refine ⟨fun s l rest => ?_, by decide⟩
  unfold Image.matcher
  split
  · rw [Link.matcher_eq_some]
    simp
  · rename_i hs
    refine iff_of_false (by simp) fun h => hs _ h.1

namespace Bracketed

variable {pre : Text} {m : Text.Matcher Link} {g : Text → Option Text}

theorem render_ne_nil (pre : Text) (l : Link) : pre ++ Link.render l ≠ [] := by
  simp [Link.render]

theorem consuming (h : Bracketed pre m) : Text.Consuming m := by
  intro s l rest hs
  exact ⟨pre ++ Link.render l, render_ne_nil pre l, ((h.spec _ _ _).1 hs).1⟩

theorem source (h : Bracketed pre m) {w : Text} {l : Link} {rest : Text}
    (hs : m (w ++ rest) = some (l, rest)) : w = pre ++ Link.render l :=
  List.append_cancel_right ((h.spec _ _ _).1 hs).1

theorem determined (h : Bracketed pre m) : Text.Determined m := by
  intro w l rest _ hs rest'
  obtain ⟨-, hl⟩ := (h.spec _ _ _).1 hs
  rw [h.source hs]
  exact (h.spec _ _ _).2 ⟨rfl, hl⟩

theorem target_signs (h : Bracketed pre m) {s : Text} {l : Link} {rest : Text}
    (hs : m s = some (l, rest)) : ')' ∉ l.target ∧ '\n' ∉ l.target := by
  have htarget := ((h.spec _ _ _).1 hs).2.2.2
  exact ⟨Link.paren_not_mem htarget, fun hm => absurd (htarget _ hm) (by decide)⟩

theorem retargeted_cases (h : Bracketed pre m) (hg : Tame g) {w : Text} {l : Link} {rest : Text}
    (hs : m (w ++ rest) = some (l, rest)) : Link.retargeted pre g w l = w ∨
      ∃ url, g l.target = some url ∧ ')' ∉ url ∧ '\n' ∉ url ∧
        w = pre ++ '[' :: l.label ++ "](".toList ++ l.target ++ [')'] ∧
        Link.retargeted pre g w l = pre ++ '[' :: l.label ++ "](".toList ++ url ++ [')'] := by
  obtain ⟨hparen, hnewline⟩ := h.target_signs hs
  have hw := h.source hs
  unfold Link.retargeted
  cases hurl : g l.target with
  | none => exact .inl rfl
  | some url =>
    refine .inr ⟨url, rfl, hg.not_mem hurl hparen (by decide) (by decide),
      hg.not_mem hurl hnewline (by decide) (by decide), ?_, ?_⟩
    · simp [hw, Link.render]
    · simp [Link.render]

theorem eq_or_incomparable (h : Bracketed pre m) (hg : Tame g) {w : Text} {l : Link} {rest : Text}
    (hs : m (w ++ rest) = some (l, rest)) : Link.retargeted pre g w l = w ∨
      (¬ Link.retargeted pre g w l <+: w ∧ ¬ w <+: Link.retargeted pre g w l) := by
  rcases h.retargeted_cases hg hs with heq | ⟨url, hurl, hparen, -, hw, hr⟩
  · exact .inl heq
  · rw [hr, hw]
    exact Text.eq_or_incomparable hparen (h.target_signs hs).1 _ _

theorem countP_le (h : Bracketed pre m) (hg : Tame g) {p : Char → Bool} (hslash : p '/' = false)
    (hdot : p '.' = false) {w : Text} {l : Link} {rest : Text}
    (hs : m (w ++ rest) = some (l, rest)) : (Link.retargeted pre g w l).countP p ≤ w.countP p := by
  rcases h.retargeted_cases hg hs with heq | ⟨url, hurl, -, -, hw, hr⟩
  · rw [heq]
  · have := hg.countP_le hurl p hslash hdot
    rw [hr, hw]
    simp only [List.countP_append]
    omega

/-- Lines that stay as they are when nothing follows stay so in front of any text: a link that reaches
over their end has its target behind it. -/
theorem replaceAll_append (h : Bracketed pre m) (hg : Tame g) {a : Text} (ha : a.getLast? = some '\n')
    (hfix : Text.replaceAll m (Link.retargeted pre g) a = a) (b : Text) :
    ∃ b', Text.replaceAll m (Link.retargeted pre g) (a ++ b) = a ++ b' := by
  refine Text.replaceAll_append_of_agrees (C := [[]]) (by simp)
    (fun w l rest hs => h.eq_or_incomparable hg hs) (fun u hu hne => ?_) (by simpa using hfix)
  apply Text.agrees_of_determined h.consuming h.determined
  intro w l rest heq hs hw
  rw [heq] at hs
  rcases h.retargeted_cases hg hs with hsame | ⟨url, hurl, -, -, hform, hr⟩
  · rwa [hsame]
  · have hnewline := (h.target_signs hs).2
    rw [hform, List.append_assoc] at hw
    rw [hr, List.append_assoc]
    refine (Text.prefix_of_prefix_append hw ((Text.getLast?_of_suffix hu hne).trans ha) ?_).trans
      (List.prefix_append _ _)
    simpa using hnewline

end Bracketed

end Markdown

end DocsMigration
