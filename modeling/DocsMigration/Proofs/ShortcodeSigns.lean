import DocsMigration.Proofs.Nesting
import DocsMigration.Proofs.Occurrences
import DocsMigration.Proofs.Preservation
/-! The signs of the shortcodes that the block passes write, under the inline passes. Targets of links and
images hold no sign, so retargeting loses none and makes none. The passes that take text away are another
matter: a list of button attributes that is not closed takes everything up to the next closing brace with
it. Where taking text away brings no sign together, the signs survive exactly if none starts in a list or
in the whitespace behind the icon of a label. -/

namespace DocsMigration

namespace Markdown

open Text

namespace Shortcode

def name : Shortcode → Text
  | .callout => "callout".toList
  | .details => "details".toList
  | .tabs => "tabs".toList
  | .tab => "tab".toList

def leadSigns : List Text :=
  [callout, details, tabs, tab].flatMap fun kind =>
    [Marker.lead ++ ' ' :: kind.name, Marker.lead ++ " /".toList ++ kind.name]

def endSign : Text := " >\x7d\x7d".toList

def signs : List Text := leadSigns ++ [endSign]

def leads (s : Text) : List Text := occurrences leadSigns s

def ends (s : Text) : Nat := (occurrences [endSign] s).length

theorem leads_eq (s : Text) : leads s = (occurrences signs s).filter (· != endSign) := by
  have hsigns : leadSigns = signs.filter (· != endSign) := by decide
  rw [leads, hsigns, occurrences_filter]

theorem ends_eq (s : Text) : ends s = ((occurrences signs s).filter (· == endSign)).length := by
  have hsigns : [endSign] = signs.filter (· == endSign) := by decide
  rw [ends, hsigns, occurrences_filter]

/-- A text that has got no signs has the same starts and ends of markers only if it has lost none. -/
theorem kept_iff {s t : Text} (h : (occurrences signs t).Sublist (occurrences signs s)) :
    leads t = leads s ∧ ends t = ends s ↔ occurrences signs t = occurrences signs s := by
  rw [leads_eq, leads_eq, ends_eq, ends_eq]
  constructor
  · rintro ⟨hleads, hends⟩
    refine h.eq_of_length ?_
    rw [List.length_eq_length_filter_add (· == endSign), hends,
      List.length_eq_length_filter_add (· == endSign) (l := occurrences signs s)]
    exact congrArg (_ + ·) (congrArg List.length hleads)
  · intro heq
    rw [heq]
    exact ⟨rfl, rfl⟩

theorem nil_not_mem_signs : [] ∉ signs := by decide

theorem space_mem_of_mem_signs : ∀ p ∈ signs, ' ' ∈ p := by decide

theorem head?_of_mem_signs : ∀ p ∈ signs, p.head? = some '\x7b' ∨ p.head? = some ' ' := by decide

def brackets : List Char := ['[', ']', '(', ')', '"', '\'', ':']

theorem not_mem_of_mem_brackets {c : Char} (hc : c ∈ brackets) : ∀ p ∈ signs, c ∉ p := by
  have hall : ∀ d ∈ brackets, ∀ p ∈ signs, d ∉ p := Text.forall_mem_of_all (by decide)
  exact hall c hc

theorem occurrences_bracket {c : Char} (hc : c ∈ brackets) (a b : Text) :
    occurrences signs (a ++ c :: b) = occurrences signs a ++ occurrences signs b :=
  occurrences_append_cons nil_not_mem_signs (not_mem_of_mem_brackets hc) a b

theorem occurrences_behind {a : Text} (ha : ∀ c ∈ a, c ≠ '\x7b' ∧ c ≠ ' ') (s : Text) :
    occurrences signs (a ++ s) = occurrences signs s := by
  refine occurrences_append_of_head nil_not_mem_signs fun c hc p hp hhead => ?_
  rcases head?_of_mem_signs p hp with h | h
  · exact (ha c hc).1 (Option.some.inj (hhead.symm.trans h))
  · exact (ha c hc).2 (Option.some.inj (hhead.symm.trans h))

section Retargeting

variable {pre : Text} {m : Matcher Link} {g : Text → Option Text}

theorem occurrences_link (a : Text) {target : Text} (htarget : ' ' ∉ target) (b : Text) :
    occurrences signs (a ++ '(' :: (target ++ ')' :: b)) = occurrences signs a ++ occurrences signs b := by
  rw [occurrences_bracket (by decide), occurrences_bracket (by decide),
    occurrences_eq_nil space_mem_of_mem_signs htarget, List.nil_append]

theorem occurrences_retargeted (h : Bracketed pre m) (hg : Tame g) (s : Text) :
    occurrences signs (replaceAll m (Link.retargeted pre g) s) = occurrences signs s := by
  refine occurrences_replaceAll h.consuming (fun w l rest hs a b => ?_) s
  rcases h.retargeted_cases hg hs with heq | ⟨url, hurl, -, -, hw, hr⟩
  · rw [heq]
  · have htarget : ' ' ∉ l.target := fun hm => absurd (((h.spec _ _ _).1 hs).2.2.2 _ hm) (by decide)
    have hplain : ' ' ∉ url := fun hm => by
      rcases hg.mem hurl _ hm with hm | hm | hm
      · exact htarget hm
      · exact absurd hm (by decide)
      · exact absurd hm (by decide)
    have hform (t : Text) : a ++ (pre ++ '[' :: l.label ++ "](".toList ++ t ++ [')'] ++ b) =
        a ++ pre ++ '[' :: l.label ++ [']'] ++ '(' :: (t ++ ')' :: b) := by simp
    rw [hr, hw, hform, hform, occurrences_link _ hplain, occurrences_link _ htarget]

theorem occurrences_convertLinks (s : Text) :
    occurrences signs (Link.convert s) = occurrences signs s :=
  occurrences_retargeted bracketed_link tame_retarget s

theorem occurrences_convertTags (s : Text) :
    occurrences signs (ImageTag.convert s) = occurrences signs s := by
  refine occurrences_replaceAll ImageTag.consuming_matcher (fun w tag rest hs a b => ?_) s
  have hfits := ImageTag.fits_matcher hs
  obtain ⟨hw, heq | ⟨-, -, hr⟩⟩ := ImageTag.rooted_cases hs
  · exact congrArg (fun t => occurrences signs (a ++ (t ++ b))) heq
  · obtain ⟨x, hx⟩ := List.getLast?_eq_some_iff.1 hfits.getLast?
    obtain ⟨parents, hsource, hparents⟩ := dropParents_suffix tag.source
    have hquote : tag.quote ∈ brackets := by rcases hfits.quote with hq | hq <;> rw [hq] <;> decide
    have hform (t : Text) : a ++ (tag.before ++ t ++ [tag.quote] ++ b) =
        a ++ x ++ tag.quote :: (t ++ tag.quote :: b) := by simp [hx]
    have hpath : occurrences signs ('/' :: Image.dropParents tag.source) = occurrences signs tag.source := by
      have hroot := occurrences_behind (a := ['/']) (Text.forall_mem_of_all (by decide)) (Image.dropParents tag.source)
      have hsteps := occurrences_behind (a := parents) (fun c hc => by
        rcases hparents c hc with rfl | rfl <;> decide) (Image.dropParents tag.source)
      rw [← hsource] at hsteps
      exact hroot.trans hsteps.symm
    refine (congrArg (fun t => occurrences signs (a ++ (t ++ b))) hr).trans ?_
    rw [hw, hform, hform, occurrences_bracket hquote, occurrences_bracket hquote, hpath,
      ← occurrences_bracket hquote, ← occurrences_bracket hquote]

theorem occurrences_convertImages (s : Text) :
    occurrences signs (Image.convert s) = occurrences signs s :=
  (occurrences_convertTags _).trans (occurrences_retargeted bracketed_image tame_normalize s)

end Retargeting

section Removing

/-- What a sign can go on with from one of its inner characters; a list of attributes does not start like
that, with its whitespace or without. -/
def GoesOn : Text → Prop
  | [] => True
  | [c] => ¬ isSpace c ∧ c ≠ '\x7b'
  | c :: d :: _ => ¬ (isSpace c ∧ (isSpace d ∨ d = '\x7b')) ∧ ¬ (c = '\x7b' ∧ (isSpace d ∨ d = '.'))

instance (s : Text) : Decidable (GoesOn s) := by
  unfold GoesOn
  split <;> infer_instance

theorem goesOn_of_mem_signs {u v : Text} (hp : u ++ v ∈ signs) (hu : u ≠ []) : GoesOn v := by
  have hall : ∀ p ∈ signs, ∀ v ∈ p.tail.tails, GoesOn v := by decide
  obtain ⟨c, u, rfl⟩ := List.exists_cons_of_ne_nil hu
  exact hall _ hp v ((List.mem_tails _ _).2 (List.suffix_append u v))

theorem exists_start_of_list {w rest : Text} {v : Unit}
    (h : ButtonAttributes.matcher (w ++ rest) = some (v, rest)) : ∃ c d t, w = c :: d :: t ∧
      (isSpace c ∧ (isSpace d ∨ d = '\x7b') ∨ c = '\x7b' ∧ (isSpace d ∨ d = '.')) := by
  obtain ⟨ws, ws', u, hws, hws', -, heq⟩ := ButtonAttributes.matcher_eq_some.1 h
  have hw : w = ws ++ '\x7b' :: (ws' ++ (ButtonAttributes.className ++ (u ++ ['\x7d']))) :=
    List.append_cancel_right (heq.trans (by simp))
  rw [hw]
  match ws, ws' with
  | [], [] => exact ⟨'\x7b', '.', _, rfl, .inr ⟨rfl, .inr rfl⟩⟩
  | [], d :: _ => exact ⟨'\x7b', d, _, rfl, .inr ⟨rfl, .inl (hws' d List.mem_cons_self)⟩⟩
  | [c], _ => exact ⟨c, '\x7b', _, rfl, .inl ⟨hws c List.mem_cons_self, .inr rfl⟩⟩
  | c :: d :: _, _ => exact ⟨c, d, _, rfl, .inl ⟨hws c (by simp), .inl (hws d (by simp))⟩⟩

theorem removes_list {w rest : Text} {v : Unit}
    (h : ButtonAttributes.matcher (w ++ rest) = some (v, rest)) : Removes signs w [] where
  bars := by
    obtain ⟨c, d, t, rfl, hstart⟩ := exists_start_of_list h
    intro a s x hp ha hs
    have hgoes := goesOn_of_mem_signs hp ha
    match s with
    | [] => rfl
    | [c'] =>
      obtain ⟨rfl, -⟩ := List.cons_prefix_cons.1 hs
      rcases hstart with hc | hc
      · exact absurd hc.1 hgoes.1
      · exact absurd hc.1 hgoes.2
    | c' :: d' :: s =>
      obtain ⟨rfl, hbehind⟩ := List.cons_prefix_cons.1 hs
      obtain ⟨rfl, -⟩ := List.cons_prefix_cons.1 hbehind
      exact absurd hstart (not_or.2 hgoes)
  closed := fun x => rfl
  suffix := fun x => occurrences_suffix (List.suffix_append w x)

theorem removes_label {w label rest : Text} (h : Icon.labelMatcher (w ++ rest) = some (label, rest)) :
    Removes signs w ('[' :: label ++ [']']) ∧ Bars signs ('[' :: label ++ [']']) := by
  obtain ⟨t, ws, heq, ht, -⟩ := Icon.exists_icon_of_labelMatcher h
  obtain ⟨icon, rfl, -, -, -⟩ := Icon.after?_eq_some ht
  have hw : w = '[' :: (icon ++ ws) ++ (label ++ [']']) :=
    List.append_cancel_right (heq.trans (by simp))
  have hopen (s : Text) : occurrences signs ('[' :: s) = occurrences signs s :=
    occurrences_behind (a := ['[']) (Text.forall_mem_of_all (by decide)) s
  have hbracket := not_mem_of_mem_brackets (c := '[') (by decide)
  refine ⟨⟨hw ▸ bars_of_head hbracket, fun x => ?_, fun x => ?_⟩, bars_of_head hbracket⟩
  · have hclosed (x : Text) := occurrences_bracket (c := ']') (by decide) ('[' :: label) x
    rw [List.append_assoc, List.singleton_append, hclosed, hclosed, List.append_assoc]
    rfl
  · rw [List.cons_append, List.cons_append, hopen, hw]
    exact occurrences_suffix ⟨'[' :: (icon ++ ws), by simp⟩

theorem occurrences_icon {w rest : Text} {v : Unit} (h : Icon.matcher (w ++ rest) = some (v, rest)) :
    Bars signs w ∧ ∀ x, occurrences signs (w ++ x) = occurrences signs x := by
  obtain ⟨family, name, hfamily, -, hname, heq⟩ := Icon.exists_name_of_after? (Icon.matcher_eq_some.1 h)
  have hw : w = ':' :: (family ++ (name ++ [':'])) := List.append_cancel_right (heq.trans (by simp))
  have hfamilies : ∀ f ∈ Icon.families, f.all fun c => c ≠ '\x7b' ∧ c ≠ ' ' := by decide
  refine ⟨hw ▸ bars_of_head (not_mem_of_mem_brackets (by decide)), occurrences_behind fun c hc => ?_⟩
  rw [hw, List.mem_cons, List.mem_append, List.mem_append, List.mem_singleton] at hc
  rcases hc with rfl | hc | hc | rfl
  · decide
  · exact Text.forall_mem_of_all (hfamilies family hfamily) c hc
  · constructor <;>
    · rintro rfl
      exact absurd (hname _ hc) (by decide)
  · decide

def unlabelled (s : Text) : Text := replaceAll Icon.labelMatcher (fun _ label => '[' :: label ++ [']']) s

theorem occurrences_unlabelled (s : Text) :
    (occurrences signs (unlabelled s)).Sublist (occurrences signs s) ∧
      (occurrences signs (unlabelled s) = occurrences signs s ↔
        Spares signs (fun _ label => '[' :: label ++ [']']) (pieces Icon.labelMatcher s)) := by
  refine occurrences_replaceAll_iff Icon.consuming_labelMatcher (fun w label rest h => (removes_label h).1)
    (unjoined_of_bars fun w label hw => ?_)
  obtain ⟨rest, hrest⟩ := match_of_mem_pieces Icon.consuming_labelMatcher hw
  exact (removes_label hrest).2

theorem occurrences_stripIcons {s : Text} (h : Unjoined signs (fun _ _ => []) (pieces Icon.matcher s)) :
    occurrences signs (replaceAll Icon.matcher (fun _ _ => []) s) = occurrences signs s := by
  refine (occurrences_replaceAll_iff Icon.consuming_matcher (fun w v rest hs => ?_) h).2.2
    (spares_of_forall fun w v hw x => ?_)
  · exact ⟨(occurrences_icon hs).1, fun x => rfl, fun x => occurrences_suffix (List.suffix_append w x)⟩
  · obtain ⟨rest, hrest⟩ := match_of_mem_pieces Icon.consuming_matcher hw
    exact ((occurrences_icon hrest).2 x).symm

end Removing

end Shortcode

namespace Rewriters

open Shortcode

def blocks (s : Text) : Text := Tabs.convert (Admonition.convert (normalizeNewlines s))

def retargeted (r : Rewriters) (s : Text) : Text := optional r.links Link.convert (blocks s)

def unstyled (r : Rewriters) (s : Text) : Text := optional r.attributes ButtonAttributes.strip (r.retargeted s)

/-- Whether no sign of a shortcode comes together where a list or an icon is removed. -/
structure JoinsNothing (r : Rewriters) (s : Text) : Prop where
  attributes : r.attributes → Unjoined signs (fun _ _ => []) (pieces ButtonAttributes.matcher (r.retargeted s))
  icons : r.icons → Unjoined signs (fun _ _ => []) (pieces Icon.matcher (unlabelled (r.unstyled s)))

/-- Whether no sign of a shortcode starts in a list that is removed, or in the whitespace that is removed
with the icon of a label. -/
structure SparesSigns (r : Rewriters) (s : Text) : Prop where
  attributes : r.attributes → Spares signs (fun _ _ => []) (pieces ButtonAttributes.matcher (r.retargeted s))
  labels : r.icons → Spares signs (fun _ label => '[' :: label ++ [']'])
    (pieces Icon.labelMatcher (r.unstyled s))

theorem occurrences_optional (on : Bool) {f : Text → Text} {s : Text} {P : Prop}
    (h : on → (occurrences signs (f s)).Sublist (occurrences signs s) ∧
      (occurrences signs (f s) = occurrences signs s ↔ P)) :
    (occurrences signs (optional on f s)).Sublist (occurrences signs s) ∧
      (occurrences signs (optional on f s) = occurrences signs s ↔ (on → P)) := by
  cases on with
  | false => exact ⟨List.Sublist.refl _, iff_of_true rfl (fun hon => nomatch hon)⟩
  | true => exact ⟨(h rfl).1, (h rfl).2.trans ⟨fun hp _ => hp, fun hp => hp rfl⟩⟩

/-- Where removing lists and icons brings no sign together, a page keeps the shortcodes that the block
passes have written exactly if no sign starts in what is removed with a list or a label's icon. -/
theorem shortcodes_kept_iff (r : Rewriters) (s : Text) (hadmonitions : r.admonitions) (htabs : r.tabs)
    (h : r.JoinsNothing s) :
    leads (r.convertBody s) = leads (blocks s) ∧ ends (r.convertBody s) = ends (blocks s) ↔
      r.SparesSigns s := by
  have hbody : r.convertBody s = optional r.images Image.convert
      (optional r.icons Icon.strip (r.unstyled s)) := by
    rw [convertBody_eq, hadmonitions, htabs]
    rfl
  have hlinks : occurrences signs (r.retargeted s) = occurrences signs (blocks s) := by
    unfold retargeted optional
    split_ifs
    · exact occurrences_convertLinks _
    · rfl
  have himages (t : Text) : occurrences signs (optional r.images Image.convert t) = occurrences signs t := by
    unfold optional
    split_ifs
    · exact occurrences_convertImages t
    · rfl
  have hlists := occurrences_optional r.attributes fun hon => occurrences_replaceAll_iff
    ButtonAttributes.consuming_matcher (fun w v rest hs => removes_list hs) (h.attributes hon)
  have hicons := occurrences_optional r.icons (f := Icon.strip) (s := r.unstyled s) fun hon => by
    rw [Icon.strip, ← unlabelled, occurrences_stripIcons (h.icons hon)]
    exact occurrences_unlabelled (r.unstyled s)
  have hkept : occurrences signs (r.convertBody s) =
      occurrences signs (optional r.icons Icon.strip (r.unstyled s)) := by rw [hbody, himages]
  have hsub := hicons.1.trans hlists.1
  rw [kept_iff (by rw [hkept, ← hlinks]; exact hsub), hkept, ← hlinks]
  constructor
  · intro heq
    -- the number of signs only goes down, so it is the same after each pass
    have hfirst : occurrences signs (r.unstyled s) = occurrences signs (r.retargeted s) :=
      hlists.1.eq_of_length (hlists.1.length_le.antisymm (heq ▸ hicons.1.length_le))
    exact ⟨hlists.2.1 hfirst, hicons.2.1 (heq.trans hfirst.symm)⟩
  · intro hspares
    exact (hicons.2.2 hspares.labels).trans (hlists.2.2 hspares.attributes)

def styledPage : Text :=
  "[Start](start.md)\x7b .md-button \x7d :material-star:\n!!! tip\n    [:material-book: Read](a.md)\n".toList

theorem shortcodes_kept_styledPage :
    (({} : Rewriters).JoinsNothing styledPage ∧ ({} : Rewriters).SparesSigns styledPage) ∧
      leads (({} : Rewriters).convertBody styledPage) = leads (blocks styledPage) ∧
      ends (({} : Rewriters).convertBody styledPage) = ends (blocks styledPage) := by
  have hjoins : ({} : Rewriters).JoinsNothing styledPage :=
    ⟨fun _ => by decide +kernel, fun _ => by decide +kernel⟩
  have hspares : ({} : Rewriters).SparesSigns styledPage :=
    ⟨fun _ => by decide +kernel, fun _ => by decide +kernel⟩
  exact ⟨⟨hjoins, hspares⟩, (shortcodes_kept_iff {} styledPage rfl rfl hjoins).2 hspares⟩

def openList : Text := "\x7b .md-button\n!!! note\n    body\n".toList

/-- The list takes the start of the shortcode behind it, up to the first brace that closes anything. -/
theorem open_list_takes_opener :
    ¬ Marker.lead <:+: openList ∧ ¬ endSign <:+: openList ∧
    blocks openList =
      "\x7b .md-button\n\x7b\x7b< callout >\x7d\x7d\nbody\n\x7b\x7b< /callout >\x7d\x7d\n".toList ∧
    ({} : Rewriters).convertBody openList = "\x7d\nbody\n\x7b\x7b< /callout >\x7d\x7d\n".toList ∧
    leads (({} : Rewriters).convertBody openList) ≠ leads (blocks openList) ∧
    ends (({} : Rewriters).convertBody openList) ≠ ends (blocks openList) :=
  ⟨by decide, by decide, by decide +kernel, by decide +kernel, by decide +kernel, by decide +kernel⟩

end Rewriters

end Markdown

end DocsMigration
