import DocsMigration.Proofs.Occurrences
import DocsMigration.Proofs.Rescanning
/-! Which links are retargeted, by their labels. A label ends at the first closing bracket, so a link is
found for sure only if its label has no brackets. With brackets in the label, an image or a link among them,
the scan stops at an inner closing bracket; the link as a whole is retargeted only if the last match of the
text happens to end where it ends. -/

namespace DocsMigration

namespace Text

section Closed

variable {α : Type} {m : Matcher α} {f : Text → α → Text} {c : Char} {s t x : Text}

/-- Where every match and what is written for it end with the same sign, a text without that sign ends the
rendered text exactly if it ends the source. -/
theorem suffix_rendered_iff {ps : List (Piece α)}
    (hps : ∀ w v, .hit w v ∈ ps → w.getLast? = some c ∧ (f w v).getLast? = some c) (ht : c ∉ t)
    (x : Text) : t <:+ rendered f ps ++ x ↔ t <:+ sourceOf ps ++ x := by
  induction ps using List.reverseRecOn generalizing x with
  | nil => rfl
  | append_singleton ps piece ih =>
    have hfront := ih fun w v hw => hps w v (List.mem_append_left _ hw)
    rw [rendered, sourceOf, List.flatMap_append, List.flatMap_append, ← rendered, ← sourceOf]
    cases piece with
    | char d => simpa [Piece.render, Piece.source] using hfront (d :: x)
    | hit w v =>
      obtain ⟨hw, hv⟩ := hps w v (by simp)
      obtain ⟨w', rfl⟩ := List.getLast?_eq_some_iff.1 hw
      obtain ⟨r, hr⟩ := List.getLast?_eq_some_iff.1 hv
      have hends : ∀ y : Text, t <:+ y ++ c :: x ↔ t <:+ x := fun y =>
        ⟨fun h => suffix_of_not_mem h ht, fun h => (h.trans (List.suffix_cons c x)).trans (List.suffix_append _ _)⟩
      have hsource := hends (sourceOf ps ++ w')
      have hrendered := hends (rendered f ps ++ r)
      simp only [List.flatMap_cons, List.flatMap_nil, Piece.render, Piece.source, hr, List.append_nil]
      simp only [List.append_assoc, List.cons_append, List.nil_append] at hsource hrendered ⊢
      rw [hsource, hrendered]

end Closed

/-- Whether the square brackets of a text are balanced, when `depth` of them are open in front of it. -/
def balancedFrom : Nat → Text → Bool
  | depth, [] => depth = 0
  | depth, c :: s =>
    if c = '[' then balancedFrom (depth + 1) s
    else if c = ']' then 0 < depth && balancedFrom (depth - 1) s
    else balancedFrom depth s

def balanced (s : Text) : Bool := balancedFrom 0 s

theorem closes_of_balancedFrom {depth : Nat} {s : Text} (h : balancedFrom (depth + 1) s) : ']' ∈ s := by
  induction s generalizing depth with
  | nil => simp [balancedFrom] at h
  | cons c s ih =>
    unfold balancedFrom at h
    split_ifs at h with hopen hclose
    · exact List.mem_cons_of_mem _ (ih h)
    · exact hclose ▸ List.mem_cons_self
    · exact List.mem_cons_of_mem _ (ih h)

theorem closes_of_opens {depth : Nat} {y z : Text} (h : balancedFrom depth (y ++ '[' :: z)) : ']' ∈ z := by
  induction y generalizing depth with
  | nil => exact closes_of_balancedFrom (by simpa [balancedFrom] using h)
  | cons c y ih =>
    rw [List.cons_append, balancedFrom] at h
    split_ifs at h
    · exact ih h
    · exact ih (Bool.and_eq_true_iff.1 h).2
    · exact ih h

theorem not_mem_of_balanced {s : Text} (h : balanced s) (hopen : '[' ∉ s) : ']' ∉ s := by
  unfold balanced at h
  induction s with
  | nil => simp
  | cons c s ih =>
    rw [balancedFrom, if_neg (List.ne_of_not_mem_cons hopen).symm] at h
    split_ifs at h with hclose
    · simp at h
    · exact List.not_mem_cons_of_ne_of_not_mem (Ne.symm hclose) (ih h (List.not_mem_of_not_mem_cons hopen))

end Text

namespace Markdown

namespace Bracketed

variable {pre : Text} {m : Text.Matcher Link} {g : Text → Option Text} {s b : Text}

/-- A text that ends with a closing parenthesis is no part of a longer match, unless the rest of the match
closes a bracket. -/
theorem eq_nil_of_match (h : Bracketed pre m) {s d r : Text} {l : Link} (hs : s.getLast? = some ')')
    (hd : ']' ∉ d) (hl : m (s ++ d ++ r) = some (l, r)) : d = [] := by
  obtain ⟨s, rfl⟩ := List.getLast?_eq_some_iff.1 hs
  have hlabelled : s ++ ')' :: d =
      (pre ++ '[' :: l.label) ++ ("](".toList ++ l.target ++ ')' :: []) := by
    simpa [Link.render] using h.source hl
  have hparen : ')' ∉ "](".toList ++ l.target := by simpa using (h.target_signs hl).1
  rcases List.append_eq_append_iff.1 hlabelled with ⟨e, -, he⟩ | ⟨e, -, he⟩
  · -- the parenthesis would stand in front of the end of the label
    cases e with
    | nil => exact absurd (List.cons.inj he).1 (by decide)
    | cons c e =>
      obtain ⟨-, rfl⟩ := List.cons.inj he
      exact absurd (by simp) hd
  · rcases Text.eq_or_cut he.symm hparen with ⟨-, hnil⟩ | ⟨z, -, hz⟩
    · exact hnil
    · exact absurd (congrArg List.length hz) (by simp)

theorem match_append (h : Bracketed pre m) (hs : s.getLast? = some ')') (hb : ']' ∉ b)
    (hnone : m s = none) : m (s ++ b) = none := by
  refine Option.eq_none_iff_forall_ne_some.2 fun ⟨l, r⟩ hl => ?_
  obtain ⟨heq, hform⟩ := (h.spec _ _ _).1 hl
  have hinside : ∀ e, s = pre ++ Link.render l ++ e → False := by
    intro e he
    rw [(h.spec _ _ _).2 ⟨he, hform⟩] at hnone
    contradiction
  rcases List.append_eq_append_iff.1 heq with ⟨d, hd, rfl⟩ | ⟨e, he, -⟩
  · rw [← List.append_assoc] at hl
    obtain rfl := h.eq_nil_of_match hs (fun hm => hb (List.mem_append_left _ hm)) hl
    exact hinside [] (by simpa using hd.symm)
  · exact hinside e he

/-- Behind a closing parenthesis, a text without closing brackets has no part in any match. -/
theorem pieces_append (h : Bracketed pre m) (hs : s.getLast? = some ')') (hb : ']' ∉ b) :
    Text.pieces m (s ++ b) = Text.pieces m s ++ b.map .char := by
  have hbehind : Text.pieces m b = b.map .char := by
    refine Text.pieces_eq_map_char fun u hu => Option.eq_none_iff_forall_ne_some.2 fun ⟨l, r⟩ hl => ?_
    exact hb (hu.subset (((h.spec _ _ _).1 hl).1 ▸ by simp [Link.render]))
  have hall : ∀ s : Text, (s ≠ [] → s.getLast? = some ')') →
      Text.pieces m (s ++ b) = Text.pieces m s ++ b.map .char := by
    intro s
    induction s using Text.scan_induction h.consuming with
    | nil => exact fun _ => hbehind
    | char c s hc ih =>
      intro hlast
      have hnone : m (c :: (s ++ b)) = none := h.match_append (hlast (by simp)) hb hc
      rw [List.cons_append, Text.pieces_of_none hnone, Text.pieces_of_none hc, List.cons_append, ih]
      exact fun hne => (Text.getLast?_of_suffix (List.suffix_cons c s) hne).trans (hlast (by simp))
    | hit w l rest hw hl ih =>
      intro hlast
      rw [List.append_assoc, Text.pieces_of_some hw (h.determined w l rest hw hl (rest ++ b)),
        Text.pieces_of_some hw hl, List.cons_append, ih]
      exact fun hne => (Text.getLast?_of_suffix (List.suffix_append w rest) hne).trans (hlast (by simp [hw]))
  exact hall s fun _ => hs

theorem replaceAll_append_of_closed {f : Text → Link → Text} (h : Bracketed pre m)
    (hs : s.getLast? = some ')') (hb : ']' ∉ b) : Text.replaceAll m f (s ++ b) = Text.replaceAll m f s ++ b := by
  rw [Text.replaceAll, h.pieces_append hs hb, List.flatMap_append, Text.replaceAll, List.flatMap_map]
  simp [Text.Piece.render]

end Bracketed

namespace Link

/-- The link at the end of a text, if the scan finds one there. -/
def atEnd? (s : Text) : Option Link :=
  match (Text.pieces matcher s).getLast? with
  | some (.hit _ l) => some l
  | _ => none

theorem pieces_of_no_link {z : Text} {c : Char} (h : atEnd? (z ++ [c]) = none) :
    ∃ ps, Text.pieces matcher (z ++ [c]) = ps ++ [.char c] ∧ z = Text.sourceOf ps := by
  have hsource := Text.sourceOf_pieces bracketed_link.consuming (z ++ [c])
  rcases List.eq_nil_or_concat (Text.pieces matcher (z ++ [c])) with hnil | ⟨ps, piece, hps⟩
  · rw [hnil] at hsource
    exact absurd hsource (by simp [Text.sourceOf])
  · rw [List.concat_eq_append] at hps
    cases piece with
    | char d =>
      rw [hps] at hsource
      have hz : Text.sourceOf ps ++ [d] = z ++ [c] := by
        simpa [Text.sourceOf, Text.Piece.source] using hsource
      obtain ⟨hz, hd⟩ := List.append_inj' hz rfl
      exact ⟨ps, by rw [hps, (List.cons.inj hd).1], hz.symm⟩
    | hit w l =>
      rw [atEnd?, hps, List.getLast?_concat] at h
      contradiction

theorem pieces_of_link {s : Text} {l : Link} (h : atEnd? s = some l) :
    ∃ ps, Text.pieces matcher s = ps ++ [.hit (render l) l] ∧ s = Text.sourceOf ps ++ render l ∧
      ']' ∉ l.label ∧ ∀ c ∈ l.target, isTargetChar c := by
  unfold atEnd? at h
  split at h
  · rename_i w k hlast
    obtain rfl := Option.some.inj h
    obtain ⟨ps, hps⟩ := List.getLast?_eq_some_iff.1 hlast
    have hmem : .hit w k ∈ Text.pieces matcher s := by simp [hps]
    obtain ⟨rest, hrest⟩ := Text.match_of_mem_pieces bracketed_link.consuming hmem
    have hform := (matcher_eq_some.1 hrest).2
    obtain rfl : w = render k := bracketed_link.source hrest
    refine ⟨ps, hps, ?_, hform.1, hform.2.2⟩
    conv_lhs => rw [← Text.sourceOf_pieces bracketed_link.consuming s, hps]
    simp [Text.sourceOf, Text.Piece.source]
  · contradiction

theorem getLast?_render (l : Link) : (render l).getLast? = some ')' := by
  unfold render
  exact List.getLast?_concat

theorem getLast?_of_hit {s w : Text} {l : Link} (h : .hit w l ∈ Text.pieces matcher s) :
    w.getLast? = some ')' ∧ (retargeted [] retarget w l).getLast? = some ')' := by
  obtain ⟨rest, hrest⟩ := Text.match_of_mem_pieces bracketed_link.consuming h
  rw [(bracketed_link.match_moved settling_retarget hrest []).1, bracketed_link.source hrest]
  exact ⟨getLast?_render l, getLast?_render _⟩

theorem suffix_convert_of_pieces {s t x : Text} {ps : List (Text.Piece Link)} {piece : Text.Piece Link}
    (hps : Text.pieces matcher s = ps ++ [piece]) (ht : ')' ∉ t)
    (hx : piece.render (retargeted [] retarget) = x ++ [')']) :
    t ++ [')'] <:+ convert s ↔ t <:+ Text.sourceOf ps ++ x := by
  have hconvert : convert s = Text.rendered (retargeted [] retarget) ps ++ x ++ [')'] := by
    show (Text.pieces matcher s).flatMap (Text.Piece.render (retargeted [] retarget)) = _
    rw [hps, List.flatMap_append, List.flatMap_singleton, hx, List.append_assoc]
    rfl
  rw [hconvert, List.suffix_append_self_iff]
  refine Text.suffix_rendered_iff (c := ')') (fun w l hw => getLast?_of_hit (s := s) ?_) ht x
  rw [hps]
  exact List.mem_append_left _ hw

/-- How a converted text ends, up to its last sign, a closing parenthesis: as it did, unless a link is found
at the end, and then as it does with the new target. -/
theorem suffix_convert_iff {t z : Text} (ht : ')' ∉ t) : t ++ [')'] <:+ convert (z ++ [')']) ↔
    atEnd? (z ++ [')']) = none ∧ t <:+ z ∨
      ∃ l q, atEnd? (z ++ [')']) = some l ∧ z = q ++ l.target ∧ t <:+ q ++ (l.moved retarget).target := by
  cases hend : atEnd? (z ++ [')']) with
  | none =>
    obtain ⟨ps, hps, rfl⟩ := pieces_of_no_link hend
    rw [suffix_convert_of_pieces hps ht (x := []) rfl]
    simp
  | some l =>
    obtain ⟨ps, hps, hs, -⟩ := pieces_of_link hend
    have hclosed : z ++ [')'] = Text.sourceOf ps ++ '[' :: l.label ++ "](".toList ++ l.target ++ [')'] := by
      rw [hs]
      simp [render]
    have hz := List.append_cancel_right hclosed
    rw [suffix_convert_of_pieces hps ht (x := '[' :: l.label ++ "](".toList ++ (l.moved retarget).target)
      (retargeted_render [] l)]
    constructor
    · intro h
      exact .inr ⟨l, _, rfl, hz, by simpa using h⟩
    · rintro (⟨h, -⟩ | ⟨k, q, hk, hz', h⟩)
      · contradiction
      · obtain rfl := Option.some.inj hk
        rw [hz] at hz'
        rw [← List.append_cancel_right hz'] at h
        simpa using h

/-- Whether every target that opens in a label ends there too, or cannot be a target: behind its opening,
the label has a sign that is not one of a target. -/
def ClosesTargets (label : Text) : Prop :=
  ∀ w ∈ label.tails, "](".toList <+: w → w.all isTargetChar = false

instance (label : Text) : Decidable (ClosesTargets label) :=
  inferInstanceAs (Decidable (∀ w ∈ label.tails, "](".toList <+: w → w.all isTargetChar = false))

section Labels

variable {a b label u v : Text}

/-- A link whose label has brackets is not found at the end of its text: of the brackets that open in front
of the last target, each one is closed before that target opens. -/
theorem atEnd?_eq_none (hbalanced : Text.balanced label) (hbrackets : '[' ∈ label)
    (hclosed : ClosesTargets label) (ha : '[' ∉ a) (hu : '[' ∉ u) :
    atEnd? (a ++ '[' :: label ++ "](".toList ++ u ++ [')']) = none := by
  cases hend : atEnd? (a ++ '[' :: label ++ "](".toList ++ u ++ [')']) with
  | none => rfl
  | some l =>
    obtain ⟨ps, -, hs, hlabel, htarget⟩ := pieces_of_link hend
    have hplaces : (Text.sourceOf ps ++ '[' :: l.label) ++ ']' :: ('(' :: l.target) ++ [')'] =
        (a ++ '[' :: label) ++ ']' :: ('(' :: u) ++ [')'] := by simpa [render] using hs.symm
    rcases Text.cut_cases (List.append_cancel_right hplaces) with ⟨hsame, -⟩ | ⟨z, hz, hbehind⟩ | ⟨z, hz, hbehind⟩
    · -- the label of the match would be the whole label, or open inside
      have hclose : ']' ∈ l.label := by
        rcases Text.eq_or_cut hsame ha with ⟨-, rfl⟩ | ⟨y, -, rfl⟩
        · obtain ⟨y, z, hyz⟩ := List.append_of_mem hbrackets
          rw [hyz] at hbalanced ⊢
          exact List.mem_append_right y (List.mem_cons_of_mem _ (Text.closes_of_opens hbalanced))
        · exact Text.closes_of_opens hbalanced
      exact absurd hclose hlabel
    · -- the match would open in the target
      rcases List.append_eq_append_iff.1 hz with ⟨e, -, he⟩ | ⟨e, -, he⟩
      · have hmem : ']' ∈ '[' :: l.label := he ▸ List.mem_append_right e List.mem_cons_self
        exact absurd (List.mem_of_ne_of_mem (by decide) hmem) hlabel
      · have hmem : '[' ∈ ']' :: z := he ▸ List.mem_append_right e List.mem_cons_self
        have hz : '[' ∈ z := List.mem_of_ne_of_mem (by decide) hmem
        have hopen : '[' ∈ '(' :: u := hbehind ▸ List.mem_append_left _ hz
        exact absurd (List.mem_of_ne_of_mem (by decide) hopen) hu
    · -- the target of the match would open in the label
      cases z with
      | nil => exact absurd (List.cons.inj hbehind).1 (by decide)
      | cons c w =>
        obtain ⟨rfl, hw⟩ := List.cons.inj hbehind
        have hinside : Text.sourceOf ps ++ '[' :: (l.label ++ "](".toList ++ w) = a ++ '[' :: label := by
          simpa using hz.symm
        have htail : "](".toList ++ w ∈ label.tails := by
          rw [List.mem_tails]
          rcases Text.eq_or_cut hinside ha with ⟨-, hlab⟩ | ⟨y, -, hlab⟩
          · exact ⟨l.label, by rw [← hlab]; simp⟩
          · exact ⟨y ++ '[' :: l.label, by rw [hlab]; simp⟩
        obtain ⟨c, hc, hno⟩ := List.all_eq_false.1 (hclosed _ htail (List.prefix_append _ _))
        have hmarks : ∀ c ∈ "](".toList, isTargetChar c := Text.forall_mem_of_all (by decide)
        rcases List.mem_append.1 hc with hc | hc
        · exact absurd (hmarks c hc) hno
        · exact absurd (htarget c (hw ▸ List.mem_append_left _ hc)) hno

/-- Behind a closing parenthesis, a text that closes no bracket stays as it is. -/
theorem convert_append {z : Text} (hb : ']' ∉ b) : convert (z ++ ')' :: b) = convert (z ++ [')']) ++ b := by
  rw [List.append_cons]
  exact bracketed_link.replaceAll_append_of_closed List.getLast?_concat hb

theorem convert_plain (ha : '[' ∉ a) (hlabel : ']' ∉ label) (hne : u ≠ [])
    (hu : ∀ c ∈ u, isTargetChar c) (hv : retarget u = some v) :
    convert (a ++ '[' :: label ++ "](".toList ++ u ++ [')']) =
      a ++ '[' :: label ++ "](".toList ++ v ++ [')'] := by
  have hfront : ∀ x, x <:+ a → x ≠ [] → matcher (x ++ render ⟨label, u⟩) = none := by
    intro x hx hxne
    refine Option.eq_none_iff_forall_ne_some.2 fun ⟨l, rest⟩ hl => ?_
    obtain ⟨c, x, rfl⟩ := List.exists_cons_of_ne_nil hxne
    have hc : c = '[' := (List.cons.inj (matcher_eq_some.1 hl).1).1
    exact ha (hx.subset (hc ▸ List.mem_cons_self))
  have hmatch : matcher (render ⟨label, u⟩ ++ []) = some (⟨label, u⟩, []) :=
    matcher_eq_some.2 ⟨rfl, hlabel, hne, hu⟩
  have hconvert : convert (a ++ render ⟨label, u⟩) = a ++ render ⟨label, v⟩ := by
    rw [convert, Text.replaceAll_append hfront, ← List.append_nil (render ⟨label, u⟩),
      Text.replaceAll_of_some (by simp [render]) hmatch, hv]
    simp
  simpa [render] using hconvert

/-- When a link is retargeted, by its label. In any text whose end is a link to a page, with a text behind it
that closes no bracket, the link as a whole is retargeted exactly if the scan finds a link that ends
there and has a new target which ends as the page's does. A link whose label has no brackets is found, and
nothing else changes. A link whose label has brackets stays as it is, an image or a link in the label as
well as mere words in brackets, if no target that opens in the label reaches over its end and the link's own
target opens no bracket. -/
theorem retargeted_by_label (hbalanced : Text.balanced label) (ha : '[' ∉ a) (hb : ']' ∉ b) (hne : u ≠ [])
    (hu : ∀ c ∈ u, isTargetChar c) (hv : retarget u = some v) :
    ("](".toList ++ v ++ ')' :: b <:+ convert (a ++ '[' :: label ++ "](".toList ++ u ++ ')' :: b) ↔
      ∃ l q r, atEnd? (a ++ '[' :: label ++ "](".toList ++ u ++ [')']) = some l ∧
        a ++ '[' :: label ++ "](".toList ++ u = q ++ l.target ∧ retarget l.target = some r ∧
        "](".toList ++ v <:+ q ++ r) ∧
    ('[' ∉ label → convert (a ++ '[' :: label ++ "](".toList ++ u ++ ')' :: b) =
      a ++ '[' :: label ++ "](".toList ++ v ++ ')' :: b) ∧
    ('[' ∈ label → '[' ∉ u → ClosesTargets label →
      "](".toList ++ u ++ ')' :: b <:+ convert (a ++ '[' :: label ++ "](".toList ++ u ++ ')' :: b)) := by
  have hpage := getLast?_retarget hv
  have hparen : ∀ {t : Text}, ')' ∉ t → ')' ∉ "](".toList ++ t := by simp
  have huparen := paren_not_mem hu
  have hvparen := tame_retarget.not_mem hv huparen (by decide) (by decide)
  have hbehind : ∀ t : Text, t ++ ')' :: b <:+
        convert (a ++ '[' :: label ++ "](".toList ++ u ++ ')' :: b) ↔
      t ++ [')'] <:+ convert (a ++ '[' :: label ++ "](".toList ++ u ++ [')']) := by
    intro t
    rw [convert_append hb, List.append_cons t, List.suffix_append_self_iff]
  refine ⟨?_, fun hplain => ?_, fun hbrackets hopen hclosed => ?_⟩
  · rw [hbehind, suffix_convert_iff (hparen hvparen)]
    -- without a new target the text ends with a file extension, and the directory URL with a slash
    have hkept : ¬ "](".toList ++ v <:+ a ++ '[' :: label ++ "](".toList ++ u := by
      intro h
      have hlast := Text.getLast?_of_suffix h (by simp)
      rw [List.getLast?_append, List.getLast?_append, hpage.1, hpage.2] at hlast
      exact absurd (Option.some.inj hlast) (by decide)
    constructor
    · rintro (⟨-, h⟩ | ⟨l, q, hend, hq, h⟩)
      · exact absurd h hkept
      · cases hr : retarget l.target with
        | none =>
          rw [moved, hr, Option.getD_none, ← hq] at h
          exact absurd h hkept
        | some r =>
          rw [moved, hr] at h
          exact ⟨l, q, r, hend, hq, hr, h⟩
    · rintro ⟨l, q, r, hend, hq, hr, h⟩
      refine .inr ⟨l, q, hend, hq, ?_⟩
      rw [moved, hr]
      exact h
  · rw [convert_append hb, convert_plain ha (Text.not_mem_of_balanced hbalanced hplain) hne hu hv]
    simp
  · rw [hbehind, suffix_convert_iff (hparen huparen)]
    exact .inl ⟨atEnd?_eq_none hbalanced hbrackets hclosed ha hopen, ⟨a ++ '[' :: label, by simp⟩⟩

/-- A page linked by its name, by an image of it, and by a label whose inner target runs over its end. -/
theorem guide_retargeted_by_name :
    Text.balanced "![Shot](shot.png)".toList ∧ retarget "lab/guide.md".toList = some "lab/guide/".toList ∧
    convert "See [Guide](lab/guide.md) now".toList = "See [Guide](lab/guide/) now".toList ∧
    "](lab/guide.md) now".toList <:+ convert "See [![Shot](shot.png)](lab/guide.md) now".toList ∧
    "](lab/guide/) now".toList <:+ convert "See [a [b](c](lab/guide.md) now".toList := by
  have hname : Text.balanced "Guide".toList := by decide
  have himage : Text.balanced "![Shot](shot.png)".toList := by decide
  have hopen : Text.balanced "a [b](c".toList := by decide
  have hu : ∀ c ∈ "lab/guide.md".toList, isTargetChar c := Text.forall_mem_of_all (by decide)
  have hv : retarget "lab/guide.md".toList = some "lab/guide/".toList := by decide
  have hplain := (retargeted_by_label (a := "See ".toList) (b := " now".toList) hname (by decide) (by decide)
    (by decide) hu hv).2.1
  have hleft := (retargeted_by_label (a := "See ".toList) (b := " now".toList) himage (by decide) (by decide)
    (by decide) hu hv).2.2
  have hover := (retargeted_by_label (a := "See ".toList) (b := " now".toList) hopen (by decide) (by decide)
    (by decide) hu hv).1
  refine ⟨himage, hv, hplain (by decide), hleft (by decide) (by decide) (by decide), hover.2 ?_⟩
  exact ⟨⟨"a [b".toList, "c](lab/guide.md".toList⟩, "See [a [b](".toList, "c](lab/guide/".toList, by decide⟩

/-- A linked image is not retargeted: the label ends at the bracket that closes the image's own. -/
theorem linked_image_not_retargeted :
    Text.balanced "![Shot](shot.png)".toList ∧ "guide.md".toList.all isTargetChar ∧
    retarget "guide.md".toList = some "guide/".toList ∧
    ¬ "](guide/)".toList <:+ convert "[![Shot](shot.png)](guide.md)".toList := by
  decide

end Labels

end Link

end Markdown

end DocsMigration
