import DocsMigration.Markdown.Annotation
import DocsMigration.Proofs.ImageTags
import Mathlib.Data.List.TakeWhile
/-! Removing annotations. An attribute list and an icon both hold an m, so a removal that changes
anything leaves fewer of them. Lines without an icon are no part of one, whatever follows; lines
without an attribute list can still be the front of one that is closed far behind, and they can end in
the whitespace that is removed with a list that follows them. -/

namespace DocsMigration

namespace Markdown

def isEm (c : Char) : Bool := c == 'm'

namespace ButtonAttributes

def className : Text := ".md-button".toList

theorem matcher_eq (s : Text) : matcher s =
    match Text.trimStart s with
    | '{' :: t =>
      match Text.stripPrefix? className (Text.trimStart t) with
      | some u =>
        match u.dropWhile (· != '}') with
        | '}' :: rest => some ((), rest)
        | _ => none
      | none => none
    | _ => none :=
  rfl

theorem trimStart_className {ws : Text} (hws : ∀ c ∈ ws, Text.isSpace c) (t : Text) :
    Text.trimStart (ws ++ (className ++ t)) = className ++ t := by
  have hclass : className = '.' :: "md-button".toList := by decide
  rw [hclass]
  exact Text.trimStart_blank_append hws (by decide) _

theorem matcher_eq_some {s rest : Text} {v : Unit} : matcher s = some (v, rest) ↔
    ∃ ws ws' u, (∀ c ∈ ws, Text.isSpace c) ∧ (∀ c ∈ ws', Text.isSpace c) ∧ '}' ∉ u ∧
      s = ws ++ '{' :: (ws' ++ (className ++ (u ++ '}' :: rest))) := by
  constructor
  · intro h
    rw [matcher_eq] at h
    split at h
    · rename_i t ht
      split at h
      · rename_i u hu
        split at h
        · rename_i rest' hrest
          obtain rfl := (Prod.mk.inj (Option.some.inj h)).2
          obtain ⟨ws, hs, hws⟩ := Text.trimStart_spec s
          obtain ⟨ws', ht', hws'⟩ := Text.trimStart_spec t
          have hclass : className ++ u = Text.trimStart t := Text.stripPrefix?_eq_some.1 hu
          obtain ⟨hlist, hmem⟩ := Text.eq_of_dropWhile_bne hrest
          refine ⟨ws, ws', u.takeWhile (· != '}'), hws, hws', hmem, ?_⟩
          rw [hlist, hclass, ← ht', ← ht]
          exact hs
        · contradiction
      · contradiction
    · contradiction
  · rintro ⟨ws, ws', u, hws, hws', hu, rfl⟩
    rw [matcher_eq, Text.trimStart_blank_append hws (by decide)]
    simp only [trimStart_className hws', Text.stripPrefix?_eq_some.2 rfl, Text.dropWhile_bne hu]

theorem consuming_matcher : Text.Consuming matcher := by
  intro s v rest h
  obtain ⟨ws, ws', u, -, -, -, rfl⟩ := matcher_eq_some.1 h
  exact ⟨ws ++ '{' :: (ws' ++ (className ++ (u ++ ['}']))), by simp, by simp⟩

theorem countP_strip_le (p : Char → Bool) (s : Text) : (strip s).countP p ≤ s.countP p :=
  Text.countP_replaceAll_le consuming_matcher (by simp) s

theorem isEm_countP_pos {w rest : Text} {v : Unit} (h : matcher (w ++ rest) = some (v, rest)) :
    0 < w.countP isEm := by
  obtain ⟨ws, ws', u, -, -, -, heq⟩ := matcher_eq_some.1 h
  have hw : w = ws ++ '{' :: (ws' ++ (className ++ (u ++ ['}']))) :=
    List.append_cancel_right (heq.trans (by simp))
  have hclass : 'm' ∈ className := by decide
  exact List.countP_pos_iff.2 ⟨'m', by simp [hw, hclass], by decide⟩

theorem strip_eq_or_countP_lt (s : Text) :
    strip s = s ∨ (strip s).countP isEm < s.countP isEm :=
  Text.replaceAll_eq_or_countP_lt consuming_matcher
    (fun w v rest h => .inr (by simpa using isEm_countP_pos h)) s

theorem matcher_eq_none_of_strip {s u : Text} (h : strip s = s) (hu : u <:+ s) : matcher u = none := by
  by_contra hne
  have hlt := Text.countP_replaceAll_lt (p := isEm) (f := fun _ _ => []) consuming_matcher
    (fun w v rest h => by simpa using isEm_countP_pos h) ⟨u, hu, Option.isSome_iff_ne_none.2 hne⟩
  have : (strip s).countP isEm < s.countP isEm := hlt
  rw [h] at this
  omega

/-- Whether a text starts with an attribute list that is open or closed, behind whitespace. -/
def leads (s : Text) : Bool :=
  match Text.trimStart s with
  | '{' :: t => Text.startsWith (Text.trimStart t) className
  | _ => false

theorem leads_iff {s : Text} : leads s ↔ ∃ ws ws', (∀ c ∈ ws, Text.isSpace c) ∧
    (∀ c ∈ ws', Text.isSpace c) ∧ ws ++ '{' :: (ws' ++ className) <+: s := by
  constructor
  · intro h
    unfold leads at h
    split at h
    · rename_i t ht
      obtain ⟨ws, hs, hws⟩ := Text.trimStart_spec s
      obtain ⟨ws', ht', hws'⟩ := Text.trimStart_spec t
      obtain ⟨rest, hrest⟩ := List.isPrefixOf_iff_prefix.1 h
      refine ⟨ws, ws', hws, hws', rest, ?_⟩
      rw [hs, ht, ht', ← hrest]
      simp
    · contradiction
  · rintro ⟨ws, ws', hws, hws', rest, rfl⟩
    have hopen : Text.trimStart (ws ++ '{' :: (ws' ++ className) ++ rest) =
        '{' :: (ws' ++ (className ++ rest)) := by
      rw [List.append_assoc, List.cons_append, Text.trimStart_blank_append hws (by decide)]
      simp
    unfold leads
    rw [hopen]
    simp only [trimStart_className hws']
    exact List.isPrefixOf_iff_prefix.2 (List.prefix_append _ _)

theorem exists_matcher_eq_some {ws ws' : Text} (hws : ∀ c ∈ ws, Text.isSpace c)
    (hws' : ∀ c ∈ ws', Text.isSpace c) (u : Text) :
    ∃ rest, matcher (ws ++ '{' :: (ws' ++ (className ++ (u ++ ['}'])))) = some ((), rest) := by
  have hbrace : '}' ∈ u ++ ['}'] := by simp
  obtain ⟨t, rest, ht, hmem⟩ := List.eq_append_cons_of_mem hbrace
  rw [ht]
  exact ⟨rest, matcher_eq_some.2 ⟨ws, ws', t, hws, hws', hmem, rfl⟩⟩

theorem suffix_of_open {x ws u : Text} (hws : ∀ c ∈ ws, Text.isSpace c)
    (h : '{' :: u <:+ x ++ '-' :: ws) : '-' :: ws <:+ u := by
  rcases List.suffix_or_suffix_of_suffix h (List.suffix_append x _) with h | h
  · rcases List.mem_cons.1 (h.subset List.mem_cons_self) with hc | hc
    · exact absurd hc (by decide)
    · exact absurd (hws '{' hc) (by decide)
  · rcases List.suffix_cons_iff.1 h with h | h
    · exact absurd (List.cons.inj h).1 (by decide)
    · exact h

/-- Lines that end visibly in a dash and stay as they are in front of a closing brace stay so in front
of any text that does not start with an attribute list. -/
theorem strip_append {x ws b : Text} (hws : ∀ c ∈ ws, Text.isSpace c) (hend : ws.getLast? = some '\n')
    (hfix : strip (x ++ '-' :: ws ++ ['}']) = x ++ '-' :: ws ++ ['}']) (hb : ¬ leads b) :
    strip (x ++ '-' :: ws ++ b) = x ++ '-' :: ws ++ strip b := by
  apply Text.replaceAll_append
  intro u hu _
  by_contra hne
  obtain ⟨⟨v, rest⟩, hr⟩ := Option.ne_none_iff_exists'.1 hne
  obtain ⟨ws₁, ws₂, t, hws₁, hws₂, -, heq⟩ := matcher_eq_some.1 hr
  have hblank : ws₁ <+: u ++ b := heq ▸ List.prefix_append _ _
  rcases List.prefix_or_prefix_of_prefix (List.prefix_append u b) hblank with ⟨y, rfl⟩ | ⟨u', rfl⟩
  · -- All of `u` is whitespace, so the list starts in `b`.
    rw [List.append_assoc] at heq
    refine hb (leads_iff.2 ⟨y, ws₂, fun c hc => hws₁ c (List.mem_append_right u hc), hws₂, ?_⟩)
    rw [List.append_cancel_left heq]
    exact ⟨t ++ '}' :: rest, by simp⟩
  · rw [List.append_assoc] at heq
    replace heq := List.append_cancel_left heq
    cases u' with
    | nil =>
      refine hb (leads_iff.2 ⟨[], ws₂, by simp, hws₂, t ++ '}' :: rest, ?_⟩)
      simpa using heq.symm
    | cons c u' =>
      rw [List.cons_append, List.cons.injEq] at heq
      obtain ⟨rfl, heq⟩ := heq
      -- The brace stands in front of the dash, so the class name does as well.
      have hdash : '-' :: ws <:+ u' := suffix_of_open hws ((List.suffix_append ws₁ _).trans hu)
      have hlast : u'.getLast? = some '\n' := by
        rw [← Text.getLast?_of_suffix hdash (by simp), List.getLast?_cons, hend]
        rfl
      have hclass : ws₂ ++ className <+: u' ++ b := heq ▸ ⟨t ++ '}' :: rest, by simp⟩
      rcases List.prefix_or_prefix_of_prefix (List.prefix_append u' b) hclass with h | ⟨u'', rfl⟩
      · have hu' : u' <+: ws₂ := Text.prefix_of_prefix_append h hlast (by decide)
        have := hws₂ '-' (hu'.subset (hdash.subset List.mem_cons_self))
        exact absurd this (by decide)
      · obtain ⟨rest', hmatch⟩ := exists_matcher_eq_some hws₁ hws₂ u''
        have hsuffix : ws₁ ++ '{' :: (ws₂ ++ (className ++ (u'' ++ ['}']))) <:+
            x ++ '-' :: ws ++ ['}'] := by
          obtain ⟨y, hy⟩ := hu
          exact ⟨y, by simp [← hy]⟩
        rw [matcher_eq_none_of_strip hfix hsuffix] at hmatch
        contradiction

end ButtonAttributes

namespace Icon

theorem findSome?_families {family : Text} (h : family ∈ families) (t : Text) :
    families.findSome? (Text.stripPrefix? · (family ++ t)) = some t := by
  have hself (s : Text) : Text.stripPrefix? s (s ++ t) = some t := Text.stripPrefix?_eq_some.2 rfl
  simp only [families, List.mem_cons, List.not_mem_nil, or_false] at h
  rcases h with rfl | rfl
  · rw [families, List.findSome?_cons, hself]
  · have hother : Text.stripPrefix? "material-".toList ("fontawesome-".toList ++ t) = none := by
      simp [Text.stripPrefix?, List.isPrefixOf?]
    rw [families, List.findSome?_cons, hother, List.findSome?_cons, hself]

theorem after?_icon {family name : Text} (hfamily : family ∈ families) (hne : name ≠ [])
    (hname : ∀ c ∈ name, isNameChar c) (rest : Text) :
    after? (':' :: (family ++ (name ++ ':' :: rest))) = some rest := by
  have hcolon : isNameChar ':' = false := by decide
  rw [after?, findSome?_families hfamily]
  simp [List.dropWhile_append_of_pos hname, List.takeWhile_append_of_pos hname, hcolon, hne]

theorem exists_name_of_after? {s rest : Text} (h : after? s = some rest) : ∃ family name,
    family ∈ families ∧ name ≠ [] ∧ (∀ c ∈ name, isNameChar c) ∧
      s = ':' :: (family ++ (name ++ ':' :: rest)) := by
  unfold after? at h
  split at h
  · rename_i t
    split at h
    · rename_i u hu
      obtain ⟨family, hfamily, hstrip⟩ := List.exists_of_findSome?_eq_some hu
      split at h
      · rename_i rest' hrest
        split_ifs at h with hname
        obtain rfl := Option.some.inj h
        have hlist := List.takeWhile_append_dropWhile (p := isNameChar) (l := u)
        rw [hrest] at hlist
        refine ⟨family, u.takeWhile isNameChar, hfamily, by simpa using hname,
          List.all_eq_true.1 List.all_takeWhile, ?_⟩
        rw [hlist, Text.stripPrefix?_eq_some.1 hstrip]
      · contradiction
    · contradiction
  · contradiction

theorem after?_eq_some {s rest : Text} (h : after? s = some rest) :
    ∃ w, s = w ++ rest ∧ '\n' ∉ w ∧ 'm' ∈ w ∧ ∀ rest', after? (w ++ rest') = some rest' := by
  obtain ⟨family, name, hfamily, hne, hname, rfl⟩ := exists_name_of_after? h
  have hfamilies : ∀ f ∈ families, '\n' ∉ f ∧ 'm' ∈ f := by decide
  obtain ⟨hnewline, hem⟩ := hfamilies family hfamily
  refine ⟨':' :: (family ++ (name ++ [':'])), by simp, ?_, by simp [hem], fun rest' => ?_⟩
  · have : '\n' ∉ name := fun hm => absurd (hname '\n' hm) (by decide)
    simp [hnewline, this]
  · simpa using after?_icon hfamily hne hname rest'

theorem matcher_eq_some {s rest : Text} {v : Unit} :
    matcher s = some (v, rest) ↔ after? s = some rest := by
  simp [matcher]

theorem consuming_matcher : Text.Consuming matcher := by
  intro s v rest h
  obtain ⟨w, rfl, -, hem, -⟩ := after?_eq_some (matcher_eq_some.1 h)
  exact ⟨w, List.ne_nil_of_mem hem, rfl⟩

/-- A label with an icon: what is written for it is the label without the icon and whitespace behind
the icon. -/
theorem exists_icon_of_labelMatcher {s label rest : Text} (h : labelMatcher s = some (label, rest)) :
    ∃ t ws, s = '[' :: t ∧ after? t = some (ws ++ label ++ ']' :: rest) ∧ ∀ c ∈ ws, Text.isSpace c := by
  unfold labelMatcher at h
  split at h
  · rename_i s
    split at h
    · rename_i t ht
      have hws : t.takeWhile Text.isSpace ++ Text.trimStart t = t := List.takeWhile_append_dropWhile
      have hspaces := List.all_eq_true.1 (List.all_takeWhile (p := Text.isSpace) (l := t))
      split at h
      · rename_i rest' hrest
        obtain ⟨hlist, -⟩ := Text.eq_of_dropWhile_bne hrest
        have hform : t = t.takeWhile Text.isSpace ++ (Text.trimStart t).takeWhile (· != ']') ++
            ']' :: rest' := by
          conv_lhs => rw [← hws, ← hlist]
          simp
        dsimp only at h
        split_ifs at h with hlabel
        · obtain ⟨rfl, rfl⟩ := Prod.mk.inj (Option.some.inj h)
          exact ⟨s, _, rfl, ht.trans (congrArg some hform), hspaces⟩
        · obtain ⟨c, hc, heq⟩ := Option.map_eq_some_iff.1 h
          obtain ⟨rfl, rfl⟩ := Prod.mk.inj heq
          obtain ⟨ws, hlast⟩ := List.getLast?_eq_some_iff.1 hc
          have hnone : (Text.trimStart t).takeWhile (· != ']') = [] := by simpa using hlabel
          rw [hnone, hlast, List.append_nil] at hform
          exact ⟨s, ws, rfl, ht.trans (congrArg some hform),
            fun c' hc' => hspaces c' (hlast ▸ List.mem_append_left _ hc')⟩
      · contradiction
    · contradiction
  · contradiction

theorem labelMatcher_eq_some {s label rest : Text} (h : labelMatcher s = some (label, rest)) :
    ∃ icon body, s = '[' :: (icon ++ body) ++ rest ∧ 'm' ∈ icon ∧ (label ++ [']']).Sublist body ∧
      ∃ t, s = '[' :: t ∧ (after? t).isSome := by
  obtain ⟨t, ws, rfl, ht, -⟩ := exists_icon_of_labelMatcher h
  obtain ⟨icon, rfl, -, hem, -⟩ := after?_eq_some ht
  refine ⟨icon, ws ++ (label ++ [']']), by simp, hem, List.sublist_append_right _ _, _, rfl, ?_⟩
  rw [ht]
  rfl

theorem consuming_labelMatcher : Text.Consuming labelMatcher := by
  intro s label rest h
  obtain ⟨icon, body, hs, -, -, -⟩ := labelMatcher_eq_some h
  exact ⟨'[' :: (icon ++ body), by simp, hs⟩

section Counting

variable {p : Char → Bool} {w label rest : Text}

theorem countP_label_le (h : labelMatcher (w ++ rest) = some (label, rest)) :
    ('[' :: label ++ [']']).countP p ≤ w.countP p := by
  obtain ⟨icon, body, hs, -, hbody, -⟩ := labelMatcher_eq_some h
  rw [List.append_cancel_right hs]
  exact ((hbody.trans (List.sublist_append_right icon body)).cons_cons '[').countP_le

theorem countP_label_lt (h : labelMatcher (w ++ rest) = some (label, rest)) :
    ('[' :: label ++ [']']).countP isEm < w.countP isEm := by
  obtain ⟨icon, body, hs, hem, hbody, -⟩ := labelMatcher_eq_some h
  have hpos : 0 < icon.countP isEm := List.countP_pos_iff.2 ⟨'m', hem, by decide⟩
  have hle := hbody.countP_le (p := isEm)
  rw [List.append_cancel_right hs]
  simp only [List.cons_append, List.countP_cons, List.countP_append] at hle ⊢
  omega

theorem countP_strip_le (s : Text) : (strip s).countP p ≤ s.countP p := by
  refine (Text.countP_replaceAll_le consuming_matcher (by simp) _).trans ?_
  exact Text.countP_replaceAll_le consuming_labelMatcher (fun _ _ _ h => countP_label_le h) s

end Counting

theorem strip_eq_self {s : Text} (h : ∀ u, u <:+ s → after? u = none) : strip s = s := by
  have hlabel : ∀ u, u <:+ s → labelMatcher u = none := by
    intro u hu
    by_contra hne
    obtain ⟨⟨label, rest⟩, hr⟩ := Option.ne_none_iff_exists'.1 hne
    obtain ⟨-, -, -, -, -, t, rfl, ht⟩ := labelMatcher_eq_some hr
    simp [h t ((List.suffix_cons '[' t).trans hu)] at ht
  have hicon : ∀ u, u <:+ s → matcher u = none := by
    intro u hu
    simp [matcher, h u hu]
  rw [strip, Text.replaceAll_eq_self hlabel, Text.replaceAll_eq_self hicon]

theorem countP_strip_lt {s : Text} (h : ∃ u, u <:+ s ∧ (after? u).isSome) :
    (strip s).countP isEm < s.countP isEm := by
  have hicon (t : Text) (h : ∃ u, u <:+ t ∧ (matcher u).isSome) :
      (Text.replaceAll matcher (fun _ _ => []) t).countP isEm < t.countP isEm := by
    refine Text.countP_replaceAll_lt consuming_matcher (fun w v rest hm => ?_) h
    obtain ⟨w', hs, -, hem, -⟩ := after?_eq_some (matcher_eq_some.1 hm)
    rw [List.append_cancel_right hs]
    exact List.countP_pos_iff.2 ⟨'m', hem, by decide⟩
  unfold strip
  by_cases hlabel : ∃ u, u <:+ s ∧ (labelMatcher u).isSome
  · apply Nat.lt_of_le_of_lt (Text.countP_replaceAll_le consuming_matcher (by simp) _)
    exact Text.countP_replaceAll_lt consuming_labelMatcher (fun _ _ _ h => countP_label_lt h) hlabel
  · have hnone : ∀ u, u <:+ s → labelMatcher u = none := by
      intro u hu
      by_contra hne
      exact hlabel ⟨u, hu, Option.isSome_iff_ne_none.2 hne⟩
    rw [Text.replaceAll_eq_self hnone]
    apply hicon s
    obtain ⟨u, hu, hsome⟩ := h
    exact ⟨u, hu, by simpa [matcher] using hsome⟩

theorem after?_eq_none_of_strip {s u : Text} (h : strip s = s) (hu : u <:+ s) : after? u = none := by
  by_contra hne
  have hlt := countP_strip_lt ⟨u, hu, Option.isSome_iff_ne_none.2 hne⟩
  rw [h] at hlt
  omega

theorem strip_eq_or_countP_lt (s : Text) : strip s = s ∨ (strip s).countP isEm < s.countP isEm := by
  by_cases h : ∃ u, u <:+ s ∧ (after? u).isSome
  · exact .inr (countP_strip_lt h)
  · refine .inl (strip_eq_self fun u hu => ?_)
    by_contra hne
    exact h ⟨u, hu, Option.isSome_iff_ne_none.2 hne⟩

theorem strip_append {a b : Text} (ha : a.getLast? = some '\n') (hfix : strip a = a) :
    strip (a ++ b) = a ++ strip b := by
  have hicon (b : Text) : ∀ u, u <:+ a → u ≠ [] → after? (u ++ b) = none := by
    intro u hu hne
    by_contra hsome
    obtain ⟨rest, hr⟩ := Option.ne_none_iff_exists'.1 hsome
    obtain ⟨w, heq, hnewline, -, hdet⟩ := after?_eq_some hr
    have hw : w <+: u ++ b := heq ▸ List.prefix_append _ _
    rcases List.prefix_or_prefix_of_prefix (List.prefix_append u b) hw with h | ⟨u', rfl⟩
    · have hlast := (Text.getLast?_of_suffix hu hne).trans ha
      exact hnewline (h.subset (List.mem_of_getLast? hlast))
    · have hu' := hdet u'
      rw [after?_eq_none_of_strip hfix hu] at hu'
      contradiction
  have hlabel : ∀ u, u <:+ a → u ≠ [] → labelMatcher (u ++ b) = none := by
    intro u hu hne
    by_contra hsome
    obtain ⟨⟨label, rest⟩, hr⟩ := Option.ne_none_iff_exists'.1 hsome
    obtain ⟨-, -, -, -, -, t, ht, hsome⟩ := labelMatcher_eq_some hr
    obtain ⟨c, u, rfl⟩ := List.exists_cons_of_ne_nil hne
    obtain ⟨rfl, rfl⟩ := List.cons.inj ht
    have hlast := (Text.getLast?_of_suffix hu hne).trans ha
    rcases eq_or_ne u [] with rfl | hu'
    · exact absurd hlast (by decide)
    · simp [hicon b u ((List.suffix_cons _ u).trans hu) hu'] at hsome
  rw [strip, Text.replaceAll_append hlabel, Text.replaceAll_append fun u hu hne => ?_]
  · rfl
  · simp [matcher, hicon _ u hu hne]

end Icon

end Markdown

end DocsMigration
