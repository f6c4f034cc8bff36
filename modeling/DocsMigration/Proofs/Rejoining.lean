import DocsMigration.Proofs.Annotations
/-! What a removal in one scan leaves. Every annotation of the text goes, or loses a part to one that
goes. But the parts around a removed annotation come to stand side by side, so that one that is written
into the unfinished beginning of another lets the outer one appear. This is the only way in which an
annotation is left, and the only way in which a second removal changes anything. -/

namespace DocsMigration

namespace Text

variable {α : Type} {m : Matcher α} {s t u : Text} {ps qs : List (Piece α)}

/-- What is left of the pieces of a text when every match is removed. -/
def remaining (ps : List (Piece α)) : Text := ps.flatMap (Piece.render fun _ _ => [])

@[simp] theorem remaining_append (ps qs : List (Piece α)) :
    remaining (ps ++ qs) = remaining ps ++ remaining qs :=
  List.flatMap_append

@[simp] theorem remaining_char_cons (c : Char) (ps : List (Piece α)) :
    remaining (.char c :: ps) = c :: remaining ps :=
  rfl

@[simp] theorem remaining_hit_cons (w : Text) (v : α) (ps : List (Piece α)) :
    remaining (.hit w v :: ps) = remaining ps :=
  rfl

@[simp] theorem remaining_map_char (u : Text) : remaining (u.map (.char (α := α))) = u := by
  induction u with
  | nil => rfl
  | cons c u ih => rw [List.map_cons, remaining_char_cons, ih]

/-- A text that is left at the front has been kept as a whole, or a match has been removed behind a part
of it. -/
theorem prefix_remaining (h : t <+: remaining ps) : t.map .char <+: ps ∨
    ∃ u w v qs, ps = u.map .char ++ .hit w v :: qs ∧ u <+: t ∧ u ≠ t ∧ t <+: u ++ remaining qs := by
  induction ps generalizing t with
  | nil =>
    rw [List.prefix_nil.1 h]
    exact .inl List.nil_prefix
  | cons p ps ih =>
    cases t with
    | nil => exact .inl List.nil_prefix
    | cons d t =>
      cases p with
      | char c =>
        obtain ⟨rfl, ht⟩ := List.cons_prefix_cons.1 h
        rcases ih ht with hkept | ⟨u, w, v, qs, rfl, hu, hne, hrest⟩
        · exact .inl (List.cons_prefix_cons.2 ⟨rfl, hkept⟩)
        · exact .inr ⟨d :: u, w, v, qs, rfl, List.cons_prefix_cons.2 ⟨rfl, hu⟩,
            fun h => hne (List.cons.inj h).2, List.cons_prefix_cons.2 ⟨rfl, hrest⟩⟩
      | hit w v => exact .inr ⟨[], w, v, ps, rfl, List.nil_prefix, (List.cons_ne_nil d t).symm, h⟩

theorem infix_remaining (hne : t ≠ []) (h : t <:+: remaining ps) : t.map .char <:+: ps ∨
    ∃ p u w v qs, ps = p ++ (u.map .char ++ .hit w v :: qs) ∧ u ≠ [] ∧ u <+: t ∧ u ≠ t ∧
      t <+: u ++ remaining qs := by
  induction ps with
  | nil => exact absurd (List.infix_nil.1 h) hne
  | cons p ps ih =>
    have behind (h : t <:+: remaining ps) : t.map .char <:+: p :: ps ∨
        ∃ p' u w v qs, p :: ps = p' ++ (u.map .char ++ .hit w v :: qs) ∧ u ≠ [] ∧ u <+: t ∧ u ≠ t ∧
          t <+: u ++ remaining qs := by
      rcases ih h with hkept | ⟨p', u, w, v, qs, rfl, hu⟩
      · exact .inl (hkept.trans (List.suffix_cons p ps).isInfix)
      · exact .inr ⟨p :: p', u, w, v, qs, rfl, hu⟩
    cases p with
    | hit w v => exact behind h
    | char c =>
      rcases List.infix_cons_iff.1 h with hfront | hbehind
      · have hstart : t <+: remaining (.char c :: ps) := hfront
        rcases prefix_remaining hstart with hkept | ⟨u, w, v, qs, heq, hu⟩
        · exact .inl hkept.isInfix
        · refine .inr ⟨[], u, w, v, qs, heq, ?_, hu⟩
          rintro rfl
          exact absurd (List.cons.inj heq).1 (by simp)
      · exact behind hbehind

theorem exists_of_pieces_eq_append (hm : Consuming m) (h : pieces m s = ps ++ qs) :
    ∃ x, x <:+ s ∧ pieces m x = qs := by
  induction s using scan_induction hm generalizing ps with
  | nil =>
    obtain ⟨-, rfl⟩ := List.nil_eq_append_iff.1 h
    exact ⟨[], List.suffix_rfl, rfl⟩
  | char c s hnone ih =>
    cases ps with
    | nil => exact ⟨c :: s, List.suffix_rfl, h⟩
    | cons p ps =>
      rw [pieces_of_none hnone] at h
      obtain ⟨x, hx, hpieces⟩ := ih (List.cons.inj h).2
      exact ⟨x, hx.trans (List.suffix_cons c s), hpieces⟩
  | hit w v rest hw hsome ih =>
    cases ps with
    | nil => exact ⟨w ++ rest, List.suffix_rfl, h⟩
    | cons p ps =>
      rw [pieces_of_some hw hsome] at h
      obtain ⟨x, hx, hpieces⟩ := ih (List.cons.inj h).2
      exact ⟨x, hx.trans (List.suffix_append w rest), hpieces⟩

theorem exists_of_pieces_eq_hit_cons (hm : Consuming m) {w : Text} {v : α}
    (h : pieces m s = .hit w v :: qs) :
    ∃ rest, s = w ++ rest ∧ m (w ++ rest) = some (v, rest) ∧ pieces m rest = qs := by
  cases s using scan_induction hm with
  | nil => exact absurd h (List.cons_ne_nil _ _).symm
  | char c s hnone =>
    rw [pieces_of_none hnone] at h
    exact absurd (List.cons.inj h).1 (by simp)
  | hit w' v' rest hw hsome =>
    rw [pieces_of_some hw hsome] at h
    obtain ⟨hhit, hrest⟩ := List.cons.inj h
    obtain ⟨rfl, rfl⟩ := Piece.hit.inj hhit
    exact ⟨rest, rfl, hsome, hrest⟩

theorem exists_of_pieces_eq_map_append (hm : Consuming m) (h : pieces m s = u.map .char ++ qs) :
    ∃ rest, s = u ++ rest ∧ pieces m rest = qs ∧ (u ≠ [] → m (u ++ rest) = none) := by
  induction u generalizing s with
  | nil => exact ⟨s, rfl, h, fun hne => absurd rfl hne⟩
  | cons c u ih =>
    rw [List.map_cons, List.cons_append] at h
    cases s using scan_induction hm with
    | nil => exact absurd h (List.cons_ne_nil _ _).symm
    | char d s hnone =>
      rw [pieces_of_none hnone] at h
      obtain ⟨hchar, hrest⟩ := List.cons.inj h
      obtain rfl := Piece.char.inj hchar
      obtain ⟨rest, rfl, hrest, -⟩ := ih hrest
      exact ⟨rest, rfl, hrest, fun _ => hnone⟩
    | hit w v rest hw hsome =>
      rw [pieces_of_some hw hsome] at h
      exact absurd (List.cons.inj h).1 (by simp)

/-- What a matcher has to do with the texts it looks for: it finds them whatever follows, and where a
match comes in before one has ended, what stands in front of it is unfinished. -/
structure Recognizes (m : Matcher α) (Token Unfinished : Text → Prop) : Prop where
  consuming : Consuming m
  ne_nil {t : Text} : Token t → t ≠ []
  isSome_append {t : Text} : Token t → ∀ rest, (m (t ++ rest)).isSome
  unfinished {t u w rest : Text} {v : α} : Token t → u <+: t → u ≠ [] → u ≠ t →
    m (w ++ rest) = some (v, rest) → m (u ++ (w ++ rest)) = none → Unfinished u

/-- Whether removing a match directly behind the unfinished beginning of a token lets the text kept behind
it complete the token. -/
def Rejoins (m : Matcher α) (Token Unfinished : Text → Prop) (s : Text) : Prop :=
  ∃ ps u w v qs t, pieces m s = ps ++ (u.map .char ++ .hit w v :: qs) ∧ Unfinished u ∧ Token t ∧
    t <+: u ++ remaining qs

section Tokens

variable {Token Unfinished : Text → Prop}

theorem not_kept (hm : Recognizes m Token Unfinished) (ht : Token t) :
    ¬ t.map .char <:+: pieces m s := by
  rintro ⟨ps, qs, h⟩
  rw [List.append_assoc] at h
  obtain ⟨x, -, hx⟩ := exists_of_pieces_eq_append hm.consuming h.symm
  obtain ⟨rest, -, -, hnone⟩ := exists_of_pieces_eq_map_append hm.consuming hx
  have hsome := hm.isSome_append ht rest
  rw [hnone (hm.ne_nil ht)] at hsome
  contradiction

theorem token_remaining_iff (hm : Recognizes m Token Unfinished) :
    (∃ t, Token t ∧ t <:+: remaining (pieces m s)) ↔ Rejoins m Token Unfinished s := by
  constructor
  · rintro ⟨t, ht, hinfix⟩
    rcases infix_remaining (hm.ne_nil ht) hinfix with hkept | ⟨ps, u, w, v, qs, h, hu, hut, hne, htoken⟩
    · exact absurd hkept (not_kept hm ht)
    · obtain ⟨x, -, hx⟩ := exists_of_pieces_eq_append hm.consuming h
      obtain ⟨y, -, hy, hnone⟩ := exists_of_pieces_eq_map_append hm.consuming hx
      obtain ⟨rest, rfl, hsome, -⟩ := exists_of_pieces_eq_hit_cons hm.consuming hy
      exact ⟨ps, u, w, v, qs, t, h, hm.unfinished ht hut hu hne hsome (hnone hu), ht, htoken⟩
  · rintro ⟨ps, u, w, v, qs, t, h, -, ht, hprefix⟩
    refine ⟨t, ht, ?_⟩
    rw [h, remaining_append, remaining_append, remaining_map_char, remaining_hit_cons]
    exact hprefix.isInfix.trans (List.suffix_append _ _).isInfix

theorem Rejoins.exists_adjoining (hm : Consuming m) (h : Rejoins m Token Unfinished s) :
    ∃ u w v rest, Unfinished u ∧ m (w ++ rest) = some (v, rest) ∧ u ++ w <:+: s := by
  obtain ⟨ps, u, w, v, qs, -, h, hu, -⟩ := h
  obtain ⟨x, hx, hpieces⟩ := exists_of_pieces_eq_append hm h
  obtain ⟨y, rfl, hy, -⟩ := exists_of_pieces_eq_map_append hm hpieces
  obtain ⟨rest, rfl, hsome, -⟩ := exists_of_pieces_eq_hit_cons hm hy
  refine ⟨u, w, v, rest, hu, hsome, ?_⟩
  exact List.IsInfix.trans ⟨[], rest, by simp⟩ hx.isInfix

end Tokens

end Text

namespace Markdown

namespace ButtonAttributes

def IsList (t : Text) : Prop := ∃ ws body, (∀ c ∈ ws, Text.isSpace c) ∧ '}' ∉ body ∧
  t = '{' :: (ws ++ (className ++ (body ++ ['}'])))

/-- The beginning of an attribute list, up to somewhere before the end of its class name. -/
def Unfinished (u : Text) : Prop := ∃ ws p, (∀ c ∈ ws, Text.isSpace c) ∧ p <+: className ∧
  p ≠ className ∧ u = '{' :: (ws ++ p)

theorem matcher_eq_some_iff {s rest : Text} {v : Unit} : matcher s = some (v, rest) ↔
    ∃ ws t, (∀ c ∈ ws, Text.isSpace c) ∧ IsList t ∧ s = ws ++ (t ++ rest) := by
  rw [matcher_eq_some]
  constructor
  · rintro ⟨ws, ws', u, hws, hws', hu, rfl⟩
    exact ⟨ws, _, hws, ⟨ws', u, hws', hu, rfl⟩, by simp⟩
  · rintro ⟨ws, -, hws, ⟨ws', u, hws', hu, rfl⟩, rfl⟩
    exact ⟨ws, ws', u, hws, hws', hu, by simp⟩

theorem matcher_list_append {t : Text} (ht : IsList t) (rest : Text) :
    matcher (t ++ rest) = some ((), rest) :=
  matcher_eq_some_iff.2 ⟨[], t, by simp, ht, rfl⟩

theorem isSome_of_open {ws y w rest : Text} {v : Unit} (hws : ∀ c ∈ ws, Text.isSpace c)
    (h : matcher (w ++ rest) = some (v, rest)) :
    (matcher ('{' :: (ws ++ className) ++ y ++ (w ++ rest))).isSome := by
  obtain ⟨_, _, -, ⟨_, _, -, -, rfl⟩, hw⟩ := matcher_eq_some_iff.1 h
  have hbrace : '}' ∈ y ++ (w ++ rest) := by simp [hw]
  obtain ⟨body, rest', hcut, hbody⟩ := List.eq_append_cons_of_mem hbrace
  have hlist : matcher ('{' :: (ws ++ className) ++ y ++ (w ++ rest)) = some ((), rest') :=
    matcher_eq_some.2 ⟨[], ws, body, by simp, hws, hbody, by
      rw [List.append_assoc, hcut]
      simp⟩
  rw [hlist]
  rfl

theorem recognizes : Text.Recognizes matcher IsList Unfinished where
  consuming := consuming_matcher
  ne_nil := by
    rintro t ⟨ws, body, -, -, rfl⟩
    exact List.cons_ne_nil _ _
  isSome_append := fun ht rest => by
    rw [matcher_list_append ht]
    rfl
  unfinished := by
    rintro t u w rest v ⟨ws, body, hws, hbody, rfl⟩ hut hu - hsome hnone
    have hopen : '{' :: (ws ++ className) <+: '{' :: (ws ++ (className ++ (body ++ ['}']))) :=
      ⟨body ++ ['}'], by simp⟩
    have hnot : ¬ '{' :: (ws ++ className) <+: u := by
      rintro ⟨y, rfl⟩
      have hmatch := isSome_of_open (y := y) hws hsome
      rw [hnone] at hmatch
      contradiction
    have hfront := (List.prefix_or_prefix_of_prefix hut hopen).resolve_right hnot
    obtain ⟨c, u, rfl⟩ := List.exists_cons_of_ne_nil hu
    obtain ⟨rfl, hrest⟩ := List.cons_prefix_cons.1 hfront
    rcases List.prefix_or_prefix_of_prefix hrest (List.prefix_append ws className) with h | ⟨p, rfl⟩
    · exact ⟨u, [], fun c hc => hws c (h.subset hc), List.nil_prefix, by decide, by simp⟩
    · refine ⟨ws, p, hws, (List.prefix_append_right_inj ws).1 hrest, ?_, rfl⟩
      rintro rfl
      exact hnot (List.prefix_refl _)

theorem strip_eq_self_iff {s : Text} : strip s = s ↔ ¬ ∃ t, IsList t ∧ t <:+: s := by
  constructor
  · rintro h ⟨t, ht, a, b, rfl⟩
    have hnone := matcher_eq_none_of_strip h ⟨a, (List.append_assoc a t b).symm⟩
    rw [matcher_list_append ht] at hnone
    contradiction
  · refine fun h => Text.replaceAll_eq_self fun u hu => ?_
    by_contra hne
    obtain ⟨⟨v, rest⟩, hsome⟩ := Option.ne_none_iff_exists'.1 hne
    obtain ⟨ws, t, -, ht, rfl⟩ := matcher_eq_some_iff.1 hsome
    exact h ⟨t, ht, List.IsInfix.trans ⟨ws, rest, by simp⟩ hu.isInfix⟩

end ButtonAttributes

namespace Icon

def IsIcon (t : Text) : Prop := ∃ family name, family ∈ families ∧ name ≠ [] ∧
  (∀ c ∈ name, isNameChar c) ∧ t = ':' :: (family ++ (name ++ [':']))

/-- The beginning of an icon shortcode, up to the end of its family at most. -/
def Unfinished (u : Text) : Prop := u ≠ [] ∧ ∃ family ∈ families, u <+: ':' :: family

theorem matcher_eq_some_iff {s rest : Text} {v : Unit} :
    matcher s = some (v, rest) ↔ ∃ t, IsIcon t ∧ s = t ++ rest := by
  rw [matcher_eq_some]
  constructor
  · intro h
    obtain ⟨family, name, hfamily, hne, hname, rfl⟩ := exists_name_of_after? h
    exact ⟨_, ⟨family, name, hfamily, hne, hname, rfl⟩, by simp⟩
  · rintro ⟨-, ⟨family, name, hfamily, hne, hname, rfl⟩, rfl⟩
    simpa using after?_icon hfamily hne hname rest

theorem matcher_icon_append {t : Text} (ht : IsIcon t) (rest : Text) :
    matcher (t ++ rest) = some ((), rest) :=
  matcher_eq_some_iff.2 ⟨t, ht, rfl⟩

theorem exists_eq_colon_cons {t : Text} (ht : IsIcon t) : ∃ t', t = ':' :: t' := by
  obtain ⟨family, name, -, -, -, rfl⟩ := ht
  exact ⟨_, rfl⟩

theorem recognizes : Text.Recognizes matcher IsIcon Unfinished where
  consuming := consuming_matcher
  ne_nil := by
    rintro t ⟨family, name, -, -, -, rfl⟩
    exact List.cons_ne_nil _ _
  isSome_append := fun ht rest => by
    rw [matcher_icon_append ht]
    rfl
  unfinished := by
    rintro t u w rest v ⟨family, name, hfamily, -, hname, rfl⟩ hut hu hne hsome hnone
    refine ⟨hu, family, hfamily, ?_⟩
    have hopen : ':' :: family <+: ':' :: (family ++ (name ++ [':'])) := ⟨name ++ [':'], by simp⟩
    rcases List.prefix_or_prefix_of_prefix hut hopen with h | ⟨n, rfl⟩
    · exact h
    · have hn : n <+: name ++ [':'] := by simpa using hut
      replace hn : n <+: name := (List.prefix_concat_iff.1 hn).resolve_left fun h => hne (by simp [h])
      rcases eq_or_ne n [] with rfl | hnonempty
      · simp
      · -- The colon of the icon behind it would end an icon with this name.
        obtain ⟨t, ht, hw⟩ := matcher_eq_some_iff.1 hsome
        obtain ⟨t, rfl⟩ := exists_eq_colon_cons ht
        have hicon : IsIcon (':' :: (family ++ (n ++ [':']))) :=
          ⟨family, n, hfamily, hnonempty, fun c hc => hname c (hn.subset hc), rfl⟩
        have hmatch := matcher_icon_append hicon (t ++ rest)
        have hcut : ':' :: (family ++ (n ++ [':'])) ++ (t ++ rest) = ':' :: family ++ n ++ (w ++ rest) := by
          simp [hw]
        rw [hcut, hnone] at hmatch
        contradiction

def unlabelled (s : Text) : Text :=
  Text.replaceAll labelMatcher (fun _ label => '[' :: label ++ [']']) s

theorem prefix_of_unlabelled {s t : Text} (ht : '[' ∉ t) (h : t <+: unlabelled s) : t <+: s := by
  induction s using Text.scan_induction consuming_labelMatcher generalizing t with
  | nil => exact h
  | char c s hnone ih =>
    rw [unlabelled, Text.replaceAll_of_none hnone] at h
    cases t with
    | nil => exact List.nil_prefix
    | cons d t =>
      obtain ⟨rfl, hrest⟩ := List.cons_prefix_cons.1 h
      exact List.cons_prefix_cons.2 ⟨rfl, ih (fun hm => ht (List.mem_cons_of_mem d hm)) hrest⟩
  | hit w label rest hw hsome ih =>
    rw [unlabelled, Text.replaceAll_of_some hw hsome] at h
    cases t with
    | nil => exact List.nil_prefix
    | cons d t =>
      obtain ⟨rfl, -⟩ := List.cons_prefix_cons.1 h
      exact absurd List.mem_cons_self ht

theorem infix_of_unlabelled {s t : Text} (hopen : '[' ∉ t) (hclose : ']' ∉ t) (h : t <:+: unlabelled s) :
    t <:+: s := by
  induction s using Text.scan_induction consuming_labelMatcher with
  | nil => exact h
  | char c s hnone ih =>
    rw [unlabelled, Text.replaceAll_of_none hnone] at h
    rcases List.infix_cons_iff.1 h with hfront | hbehind
    · refine (prefix_of_unlabelled hopen ?_).isInfix
      rwa [unlabelled, Text.replaceAll_of_none hnone]
    · exact (ih hbehind).trans (List.suffix_cons c s).isInfix
  | hit w label rest hw hsome ih =>
    rw [unlabelled, Text.replaceAll_of_some hw hsome] at h
    obtain ⟨t', ws, hs, hafter, -⟩ := exists_icon_of_labelMatcher hsome
    obtain ⟨icon, rfl, -⟩ := after?_eq_some hafter
    have hlabel : label <:+: w ++ rest := ⟨'[' :: (icon ++ ws), ']' :: rest, by simp [hs]⟩
    have hcut : t <:+: [] ++ '[' :: (label ++ ']' :: unlabelled rest) := by simpa [unlabelled] using h
    rcases Text.infix_or_infix_of_not_mem hcut hopen with h | h
    · rw [List.infix_nil.1 h]
      exact List.nil_infix
    · rcases Text.infix_or_infix_of_not_mem h hclose with h | h
      · exact h.trans hlabel
      · exact (ih h).trans (List.suffix_append w rest).isInfix

theorem strip_eq_self_iff {s : Text} : strip s = s ↔ ¬ ∃ t, IsIcon t ∧ t <:+: s := by
  constructor
  · rintro h ⟨t, ht, a, b, rfl⟩
    have hnone := after?_eq_none_of_strip h ⟨a, (List.append_assoc a t b).symm⟩
    rw [matcher_eq_some.1 (matcher_icon_append ht b)] at hnone
    contradiction
  · refine fun h => strip_eq_self fun u hu => ?_
    by_contra hne
    obtain ⟨rest, hsome⟩ := Option.ne_none_iff_exists'.1 hne
    obtain ⟨t, ht, rfl⟩ := matcher_eq_some_iff.1 (matcher_eq_some (v := ()).2 hsome)
    exact h ⟨t, ht, List.IsInfix.trans ⟨[], rest, by simp⟩ hu.isInfix⟩

theorem no_bracket_of_isIcon {t : Text} (ht : IsIcon t) : '[' ∉ t ∧ ']' ∉ t := by
  obtain ⟨family, name, hfamily, -, hname, rfl⟩ := ht
  have hfamilies : ∀ f ∈ families, '[' ∉ f ∧ ']' ∉ f := by decide
  obtain ⟨hopen, hclose⟩ := hfamilies family hfamily
  have hnameOpen : '[' ∉ name := fun hm => absurd (hname _ hm) (by decide)
  have hnameClose : ']' ∉ name := fun hm => absurd (hname _ hm) (by decide)
  simp [hopen, hclose, hnameOpen, hnameClose]

theorem no_bracket_of_unfinished {u : Text} (hu : Unfinished u) : '[' ∉ u ∧ ']' ∉ u := by
  obtain ⟨-, family, hfamily, hbegins⟩ := hu
  have hfamilies : ∀ f ∈ families, '[' ∉ ':' :: f ∧ ']' ∉ ':' :: f := by decide
  obtain ⟨hopen, hclose⟩ := hfamilies family hfamily
  exact ⟨fun hm => hopen (hbegins.subset hm), fun hm => hclose (hbegins.subset hm)⟩

end Icon

/-- What a removal makes of a text, where `scanned` is the text that its scan for tokens goes over. -/
structure LeavesRejoined (m : Text.Matcher Unit) (Token Unfinished : Text → Prop) (strip : Text → Text)
    (s scanned : Text) : Prop where
  /-- The scan meets no token that is not in the text. -/
  given : ∀ t, Token t → t <:+: scanned → t <:+: s
  /-- Every token it meets loses a character at least. -/
  taken : ∀ t, Token t → ¬ t.map .char <:+: Text.pieces m scanned
  /-- All that lies outside the matches is kept. -/
  kept : strip s = Text.remaining (Text.pieces m scanned)
  /-- A token is left just where one has been removed from within the beginning of another. -/
  left_iff : (∃ t, Token t ∧ t <:+: strip s) ↔ Text.Rejoins m Token Unfinished scanned
  /-- Only then does a second removal change anything. -/
  again_iff : strip (strip s) = strip s ↔ ¬ Text.Rejoins m Token Unfinished scanned
  /-- In the text itself a token then stands directly behind an unfinished beginning. -/
  adjoining : Text.Rejoins m Token Unfinished scanned →
    ∃ u w, Unfinished u ∧ m w = some ((), []) ∧ u ++ w <:+: s

theorem ButtonAttributes.leavesRejoined (s : Text) :
    LeavesRejoined matcher IsList Unfinished strip s s where
  given := fun _ _ h => h
  taken := fun _ ht => Text.not_kept recognizes ht
  kept := rfl
  left_iff := Text.token_remaining_iff recognizes
  again_iff := strip_eq_self_iff.trans (not_congr (Text.token_remaining_iff recognizes))
  adjoining := by
    intro h
    obtain ⟨u, w, v, rest, hu, hsome, hinfix⟩ := h.exists_adjoining consuming_matcher
    obtain ⟨ws, t, hws, ht, hw⟩ := matcher_eq_some_iff.1 hsome
    refine ⟨u, w, hu, matcher_eq_some_iff.2 ⟨ws, t, hws, ht, ?_⟩, hinfix⟩
    exact List.append_cancel_right (hw.trans (by simp))

theorem Icon.leavesRejoined (s : Text) :
    LeavesRejoined matcher IsIcon Unfinished strip s (unlabelled s) where
  given := fun _ ht => infix_of_unlabelled (no_bracket_of_isIcon ht).1 (no_bracket_of_isIcon ht).2
  taken := fun _ ht => Text.not_kept recognizes ht
  kept := rfl
  left_iff := Text.token_remaining_iff recognizes
  again_iff := strip_eq_self_iff.trans (not_congr (Text.token_remaining_iff recognizes))
  adjoining := by
    intro h
    obtain ⟨u, w, v, rest, hu, hsome, hinfix⟩ := h.exists_adjoining consuming_matcher
    obtain ⟨t, ht, hw⟩ := matcher_eq_some_iff.1 hsome
    obtain rfl : w = t := List.append_cancel_right hw
    obtain ⟨huOpen, huClose⟩ := no_bracket_of_unfinished hu
    obtain ⟨hwOpen, hwClose⟩ := no_bracket_of_isIcon ht
    refine ⟨u, w, hu, matcher_eq_some_iff.2 ⟨w, ht, by simp⟩, infix_of_unlabelled ?_ ?_ hinfix⟩
    · simp [huOpen, hwOpen]
    · simp [huClose, hwClose]

/-- Removing attribute lists and removing icons take every one that the text has. What is left holds one
just where a removed one stood within the beginning of another, and only then does a second removal
change the text. -/
theorem strip_leaves_only_rejoined (s : Text) :
    LeavesRejoined ButtonAttributes.matcher ButtonAttributes.IsList ButtonAttributes.Unfinished
        ButtonAttributes.strip s s ∧
      LeavesRejoined Icon.matcher Icon.IsIcon Icon.Unfinished Icon.strip s (Icon.unlabelled s) :=
  ⟨ButtonAttributes.leavesRejoined s, Icon.leavesRejoined s⟩

/-- So an annotation can be left, and a second removal can change the text. -/
theorem strip_not_free_of_annotations :
    (¬ ∀ s t, Icon.IsIcon t → ¬ t <:+: Icon.strip s) ∧
      (¬ ∀ s t, ButtonAttributes.IsList t → ¬ t <:+: ButtonAttributes.strip s) ∧
      (¬ ∀ s, Icon.strip (Icon.strip s) = Icon.strip s) ∧
      ¬ ∀ s, ButtonAttributes.strip (ButtonAttributes.strip s) = ButtonAttributes.strip s := by
  have hicon : Icon.strip ":mat:material-x:erial-y:".toList = ":material-y:".toList := by decide
  have hlist : ButtonAttributes.strip "\x7b \x7b.md-button\x7d.md-button \x7d".toList =
      "\x7b.md-button \x7d".toList := by decide
  refine ⟨fun h => ?_, fun h => ?_, fun h => ?_, fun h => ?_⟩
  · refine h ":mat:material-x:erial-y:".toList ":material-y:".toList
      ⟨"material-".toList, "y".toList, by decide, by decide, Text.forall_mem_of_all (by decide), by decide⟩ ?_
    rw [hicon]
  · refine h "\x7b \x7b.md-button\x7d.md-button \x7d".toList "\x7b.md-button \x7d".toList
      ⟨[], " ".toList, List.forall_mem_nil _, by decide, by decide⟩ ?_
    rw [hlist]
  · have := h ":mat:material-x:erial-y:".toList
    rw [hicon] at this
    exact absurd this (by decide)
  · have := h "\x7b \x7b.md-button\x7d.md-button \x7d".toList
    rw [hlist] at this
    exact absurd this (by decide)

end Markdown

end DocsMigration
