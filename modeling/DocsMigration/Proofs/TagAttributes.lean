import DocsMigration.Proofs.Rerooting
/-! The source of a tag among its other attributes. The scan looks for a source in the text of a tag and
knows nothing of attributes: it stops at a closing angle bracket inside a value, takes a source that a value
spells out for the source of the tag, and takes a tag that a value spells out for a tag. The source of a tag
is rooted, and nothing else, as long as the other values do none of this. -/

namespace DocsMigration

namespace Markdown

namespace ImageTag

section Rootings

/-- The sources that are rooted, each with its place, where `n` characters stand in front of the text. -/
def rootingsFrom : Nat → List (Text.Piece ImageTag) → List (Nat × Text)
  | _, [] => []
  | n, .char _ :: ps => rootingsFrom (n + 1) ps
  | n, .hit w tag :: ps =>
    if Image.normalize tag.source = none then rootingsFrom (n + w.length) ps
    else (n + tag.before.length, tag.source) :: rootingsFrom (n + w.length) ps

def rootings (s : Text) : List (Nat × Text) := rootingsFrom 0 (Text.pieces matcher s)

theorem rootingsFrom_add (n k : Nat) (ps : List (Text.Piece ImageTag)) :
    rootingsFrom (n + k) ps = (rootingsFrom k ps).map fun r => (n + r.1, r.2) := by
  induction ps generalizing k with
  | nil => rfl
  | cons piece ps ih =>
    cases piece with
    | char c => exact ih (k + 1)
    | hit w tag =>
      rw [rootingsFrom, rootingsFrom, Nat.add_assoc, Nat.add_assoc, ih]
      split_ifs <;> rfl

/-- The first rooting of a text: the value `v` behind `x`, up to the quote in front of `y`. -/
structure FirstRooting (s x v : Text) (q : Char) (y : Text) : Prop where
  eq : s = x ++ v ++ q :: y
  read : ∃ u before, x = u ++ before ∧ matcher (before ++ v ++ q :: y) = some (⟨before, v, q⟩, y)
  rooted : Image.normalize v ≠ none
  rootings : rootings s = (x.length, v) :: rootingsFrom (x.length + (v.length + 1)) (Text.pieces matcher y)
  convert : convert s = x ++ (Image.normalize v).getD v ++ q :: convert y

variable {s x v y w : Text} {q : Char}

theorem FirstRooting.getLast? (h : FirstRooting s x v q y) : x.getLast? = some q := by
  obtain ⟨u, before, rfl, hread⟩ := h.read
  rw [List.getLast?_append, (fits_matcher hread).getLast?]
  rfl

theorem FirstRooting.value (h : FirstRooting s x v q y) : v ≠ [] ∧ q ∉ v := by
  obtain ⟨u, before, -, hread⟩ := h.read
  exact ⟨(fits_matcher hread).ne_nil, (fits_matcher hread).not_mem⟩

theorem FirstRooting.behind (h : FirstRooting s x v q y)
    (hroot : ImageTag.rootings (w ++ s) = rootingsFrom w.length (Text.pieces matcher s))
    (hconvert : ImageTag.convert (w ++ s) = w ++ ImageTag.convert s) :
    FirstRooting (w ++ s) (w ++ x) v q y where
  eq := by simp [h.eq]
  read := by
    obtain ⟨u, before, rfl, hread⟩ := h.read
    exact ⟨w ++ u, before, by simp, hread⟩
  rooted := h.rooted
  rootings := by
    have hs := h.rootings
    rw [ImageTag.rootings] at hs
    rw [hroot, ← Nat.add_zero w.length, rootingsFrom_add, hs, List.map_cons, ← rootingsFrom_add,
      List.length_append]
    simp [Nat.add_assoc]
  convert := by simp [hconvert, h.convert]

theorem convert_of_some {tag : ImageTag} {rest : Text} (h : matcher s = some (tag, rest)) :
    convert s = tag.before ++ tag.moved.source ++ tag.quote :: convert rest := by
  obtain ⟨w, hw, rfl⟩ := consuming_matcher _ _ _ h
  obtain ⟨-, hrooted⟩ := rooted_eq h
  refine (Text.replaceAll_of_some hw h).trans ?_
  change rooted w tag ++ convert rest = _
  rw [hrooted]
  simp

/-- A text that is left alone, as nothing is rooted in it, or that is rooted somewhere for the first time. -/
def Accounted (s : Text) : Prop := (rootings s = [] ∧ convert s = s) ∨ ∃ x v q y, FirstRooting s x v q y

theorem Accounted.behind (h : Accounted s) (hroot : rootings (w ++ s) = rootingsFrom w.length (Text.pieces matcher s))
    (hconvert : convert (w ++ s) = w ++ convert s) : Accounted (w ++ s) := by
  rcases h with ⟨hnil, hsame⟩ | ⟨x, v, q, y, h⟩
  · refine .inl ⟨?_, by rw [hconvert, hsame]⟩
    rw [rootings] at hnil
    rw [hroot, ← Nat.add_zero w.length, rootingsFrom_add, hnil, List.map_nil]
  · exact .inr ⟨w ++ x, v, q, y, h.behind hroot hconvert⟩

theorem accounted (s : Text) : Accounted s := by
  induction s using Text.scan_induction consuming_matcher with
  | nil => exact .inl ⟨rfl, rfl⟩
  | char c s hc ih =>
    refine ih.behind (w := [c]) ?_ (Text.replaceAll_of_none hc)
    rw [rootings, List.singleton_append, Text.pieces_of_none hc]
    rfl
  | hit w tag rest hw htag ih =>
    have hfits := fits_matcher htag
    obtain ⟨hsource, -⟩ := rooted_eq htag
    have hpieces : rootings (w ++ rest) = if Image.normalize tag.source = none
        then rootingsFrom w.length (Text.pieces matcher rest)
        else (tag.before.length, tag.source) :: rootingsFrom w.length (Text.pieces matcher rest) := by
      rw [rootings, Text.pieces_of_some hw htag, rootingsFrom, Nat.zero_add, Nat.zero_add]
    by_cases hnone : Image.normalize tag.source = none
    · refine ih.behind (by rw [hpieces, if_pos hnone]) ?_
      rw [convert_of_some htag, moved, hnone, hsource]
      simp
    · refine .inr ⟨tag.before, tag.source, tag.quote, rest, hfits.eq, ⟨[], tag.before, rfl, ?_⟩, hnone, ?_, ?_⟩
      · rw [← hfits.eq]
        exact htag
      · rw [hpieces, if_neg hnone, hsource]
        simp
      · exact convert_of_some htag

theorem eq_of_first_slash {x' u u' r r' : Text} {c c' : Char} (hc : c ≠ '/') (hc' : c' ≠ '/')
    (h : x ++ c :: r = x' ++ c' :: r') (h' : x ++ '/' :: u = x' ++ '/' :: u') : x = x' := by
  have key : ∀ {x d u u' r s : Text} {c : Char}, c ≠ '/' → c :: r = d ++ s →
      x ++ '/' :: u = x ++ d ++ '/' :: u' → d = [] := by
    intro x d u u' r s c hc hd h
    rcases List.cons_eq_append_iff.1 hd with ⟨rfl, -⟩ | ⟨d, rfl, -⟩
    · rfl
    · rw [List.append_assoc] at h
      exact absurd (List.cons.inj (List.append_cancel_left h)).1.symm hc
  rcases List.append_eq_append_iff.1 h with ⟨d, rfl, hd⟩ | ⟨d, rfl, hd⟩
  · rw [key hc hd h', List.append_nil]
  · rw [key hc' hd h'.symm, List.append_nil]

theorem exists_of_rooted (hne : v ≠ []) (h : Image.normalize v ≠ none) :
    ∃ c t u, v = c :: t ∧ c ≠ '/' ∧ (Image.normalize v).getD v = '/' :: u := by
  obtain ⟨path, hpath⟩ := Option.ne_none_iff_exists'.1 h
  obtain ⟨c, t, rfl⟩ := List.exists_cons_of_ne_nil hne
  obtain ⟨hhead, rfl⟩ := normalize_eq_some hpath
  exact ⟨c, t, _, rfl, by simpa using hhead, by rw [hpath]; rfl⟩

theorem FirstRooting.convert_ne (h : FirstRooting s x v q y) : ImageTag.convert s ≠ s := by
  obtain ⟨c, t, u, rfl, hc, hroot⟩ := exists_of_rooted h.value.1 h.rooted
  intro heq
  rw [h.convert, hroot] at heq
  conv_rhs at heq => rw [h.eq]
  rw [List.append_assoc, List.append_assoc] at heq
  exact hc (List.cons.inj (List.append_cancel_left heq)).1.symm

theorem rootings_eq_nil_iff : rootings s = [] ↔ convert s = s := by
  rcases accounted s with ⟨hnil, hsame⟩ | ⟨x, v, q, y, h⟩
  · exact iff_of_true hnil hsame
  · exact iff_of_false (by rw [h.rootings]; simp) h.convert_ne

theorem rootingsFrom_eq_nil_iff {n : Nat} : rootingsFrom n (Text.pieces matcher s) = [] ↔ convert s = s := by
  rw [← Nat.add_zero n, rootingsFrom_add, List.map_eq_nil_iff]
  exact rootings_eq_nil_iff

theorem FirstRooting.unique {v' y' : Text} {q' : Char} (h : FirstRooting (x ++ v ++ q :: y) x v' q' y')
    (hx : x.getLast? = some q) (hv : q ∉ v) : v = v' ∧ q = q' ∧ y = y' := by
  obtain rfl : q = q' := Option.some.inj (hx.symm.trans h.getLast?)
  have heq := h.eq
  rw [List.append_assoc, List.append_assoc] at heq
  rcases Text.eq_or_cut (List.append_cancel_left heq) h.value.2 with ⟨hsame, hbehind⟩ | ⟨z, rfl, -⟩
  · exact ⟨hsame, rfl, hbehind⟩
  · exact absurd (List.mem_append_right v' List.mem_cons_self) hv

theorem firstRooting_of_rootings (hx : x.getLast? = some q) (hv : q ∉ v)
    (h : rootings (x ++ v ++ q :: y) = [(x.length, v)]) : FirstRooting (x ++ v ++ q :: y) x v q y := by
  rcases accounted (x ++ v ++ q :: y) with ⟨hnil, -⟩ | ⟨x', v', q', y', h'⟩
  · rw [hnil] at h
    contradiction
  · rw [h'.rootings] at h
    have hlen := (Prod.mk.inj (List.cons.inj h).1).1
    have hs := h'.eq
    rw [List.append_assoc, List.append_assoc] at hs
    obtain rfl : x = x' := List.append_inj_left hs hlen.symm
    obtain ⟨rfl, rfl, rfl⟩ := h'.unique hx hv
    exact h'

/-- A value is rooted, and nothing else is changed, exactly if the scan roots a source at its place and
nowhere else. -/
theorem convert_eq_iff (hx : x.getLast? = some q) (hne : v ≠ []) (hv : q ∉ v) :
    convert (x ++ v ++ q :: y) = x ++ (Image.normalize v).getD v ++ q :: y ↔
      rootings (x ++ v ++ q :: y) = if Image.normalize v = none then [] else [(x.length, v)] := by
  by_cases hn : Image.normalize v = none
  · rw [if_pos hn, hn, Option.getD_none]
    exact rootings_eq_nil_iff.symm
  rw [if_neg hn]
  obtain ⟨c, t, u, hvalue, hc, hroot⟩ := exists_of_rooted hne hn
  rcases accounted (x ++ v ++ q :: y) with ⟨hnil, hsame⟩ | ⟨x', v', q', y', h⟩
  · refine iff_of_false (fun heq => ?_) (by rw [hnil]; simp)
    rw [hsame, hroot, hvalue, List.append_assoc, List.append_assoc] at heq
    exact hc (List.cons.inj (List.append_cancel_left heq)).1
  constructor
  · intro heq
    obtain ⟨c', t', u', hvalue', hc', hroot'⟩ := exists_of_rooted h.value.1 h.rooted
    obtain rfl : x = x' := by
      have hs := h.eq
      have hresult := heq
      rw [h.convert, hroot, hroot'] at hresult
      rw [hvalue, hvalue'] at hs
      exact eq_of_first_slash hc hc' (by simpa using hs) (by simpa using hresult.symm)
    obtain ⟨rfl, rfl, rfl⟩ := h.unique hx hv
    rw [h.convert] at heq
    have hbehind : convert y = y := (List.cons.inj (List.append_cancel_left heq)).2
    rw [h.rootings, rootingsFrom_eq_nil_iff.2 hbehind]
  · intro heq
    have h := firstRooting_of_rootings hx hv heq
    have hnil := (List.cons.inj (h.rootings.symm.trans heq)).2
    rw [h.convert, rootingsFrom_eq_nil_iff.1 hnil]

end Rootings

/-- An attribute as it is written in a tag: a name of letters and hyphens, and a value in quotes that it does
not hold itself. -/
structure Attribute where
  name : Text
  quote : Char
  value : Text
  name_letters : ∀ c ∈ name, c.isAlpha ∨ c = '-'
  quote_sign : quote = '"' ∨ quote = '\''
  quote_not_mem : quote ∉ value

namespace Attribute

variable {f : Attribute} {mid w t rest : Text} {q : Char}

def opening (f : Attribute) : Text := ' ' :: (f.name ++ ['=', f.quote])

def render (f : Attribute) : Text := f.opening ++ f.value ++ [f.quote]

def IsSource (f : Attribute) : Prop := f.name.map Char.toLower = "src".toList

instance (f : Attribute) : Decidable f.IsSource := inferInstanceAs (Decidable (_ = _))

/-- Whether no source attribute is spelled out in the value, as far as the closing quote. -/
def Spares (f : Attribute) : Prop := ∀ u ∈ (f.value ++ [f.quote]).tails, valueStart? u = none

instance (f : Attribute) : Decidable f.Spares := inferInstanceAs (Decidable (∀ u ∈ _, _))

def rooted (f : Attribute) : Attribute where
  name := f.name
  quote := f.quote
  value := (Image.normalize f.value).getD f.value
  name_letters := f.name_letters
  quote_sign := f.quote_sign
  quote_not_mem := quote_not_mem_rooted f.quote_sign f.quote_not_mem

theorem exists_ofNat_of_mem_name {c : Char} (h : c ∈ f.name) :
    ∃ n < 128, c = Char.ofNat n ∧ (c.isAlpha ∨ c = '-') := by
  have hc := f.name_letters c h
  refine ⟨c.toNat, ?_, (Char.ofNat_toNat c).symm, hc⟩
  rcases hc with hc | rfl
  · have hrange : (decide ('A'.val ≤ c.val ∧ c.val ≤ 'Z'.val) ||
        (decide ('a'.val ≤ c.val) && decide (c.val ≤ 'z'.val))) = true := hc
    simp only [Bool.or_eq_true, Bool.and_eq_true, decide_eq_true_eq, UInt32.le_iff_toNat_le, Char.toNat_val,
      Char.reduceToNat] at hrange
    omega
  · decide

theorem not_mem_name {c : Char} (h : c ∈ f.name) : ¬ Text.isSpace c ∧ c ∉ "='\"<>".toList := by
  have hascii : ∀ n < 128, (Char.ofNat n).isAlpha ∨ Char.ofNat n = '-' →
      ¬ Text.isSpace (Char.ofNat n) ∧ Char.ofNat n ∉ "='\"<>".toList := by decide
  obtain ⟨n, hn, rfl, hc⟩ := exists_ofNat_of_mem_name h
  exact hascii n hn hc

theorem isSource_iff : f.IsSource ↔ Spells attributeName f.name := by
  have hascii : ∀ r ∈ "src".toList.zip attributeName, ∀ n < 128,
      (Char.ofNat n).toLower = r.1 ↔ Char.ofNat n ∈ r.2 := by decide
  have hletter : ∀ r ∈ "src".toList.zip attributeName, ∀ c ∈ f.name, c.toLower = r.1 ↔ c ∈ r.2 := by
    intro r hr c hc
    obtain ⟨n, hn, rfl, -⟩ := exists_ofNat_of_mem_name hc
    exact hascii r hr n hn
  unfold IsSource
  rcases hname : f.name with _ | ⟨x, _ | ⟨y, _ | ⟨z, _ | ⟨_, _⟩⟩⟩⟩
  case cons.cons.cons.nil =>
    have hx := hletter ('s', ['s', 'S', 'ſ']) (by decide) x (by simp [hname])
    have hy := hletter ('r', ['r', 'R']) (by decide) y (by simp [hname])
    have hz := hletter ('c', ['c', 'C']) (by decide) z (by simp [hname])
    rw [Spells, attributeName, List.forall₂_cons, List.forall₂_cons, List.forall₂_cons, ← hx, ← hy, ← hz]
    simp
  -- a name of another length
  all_goals simp [Spells, attributeName]

theorem opensValue_opening (h : f.IsSource) : OpensValue f.opening f.quote :=
  ⟨' ', f.name, [], [], rfl, by decide, isSource_iff.1 h, by simp, by simp, f.quote_sign⟩

theorem isSource_of_opening (h : f.opening = mid ++ w) (hw : OpensValue w q) : f.IsSource := by
  obtain ⟨c, name, ws, ws', rfl, hc, hname, hws, -, -⟩ := hw
  cases mid with
  | nil =>
    obtain ⟨rfl, heq⟩ := List.cons.inj h
    have heq : f.name ++ '=' :: [f.quote] = (name ++ ws) ++ '=' :: (ws' ++ [q]) := by simpa using heq
    have hequals : '=' ∉ f.name := fun hm => (not_mem_name hm).2 (by decide)
    rcases Text.eq_or_cut heq.symm hequals with ⟨hsame, -⟩ | ⟨z, hz, hquote⟩
    · have hnil : ws = [] := List.eq_nil_iff_forall_not_mem.2 fun d hd =>
        (not_mem_name (f := f) (hsame ▸ List.mem_append_right name hd)).1 (hws d hd)
      rw [isSource_iff, ← hsame, hnil, List.append_nil]
      exact hname
    · -- behind the equals sign of the attribute there is its quote only
      have hlen := congrArg List.length hquote
      simp only [List.length_append, List.length_cons, List.length_nil] at hlen
      omega
  | cons d mid =>
    obtain ⟨rfl, heq⟩ := List.cons.inj h
    have hmem : c ∈ f.name ++ ['=', f.quote] := by simp [heq]
    simp only [List.mem_append, List.mem_cons, List.not_mem_nil, or_false] at hmem
    rcases hmem with hmem | rfl | rfl
    · exact absurd hc (not_mem_name hmem).1
    · exact absurd hc (by decide)
    · rcases f.quote_sign with hq | hq <;> exact absurd (hq ▸ hc) (by decide)

theorem opening_before (hw : OpensValue w q) (h : f.opening ++ rest = mid ++ w ++ t) :
    f.opening <+: mid ++ w := by
  have hwhole : mid ++ w <+: f.opening ++ rest := h ▸ List.prefix_append (mid ++ w) t
  rcases List.prefix_or_prefix_of_prefix (List.prefix_append f.opening rest) hwhole with hp | hp
  · exact hp
  · have hform : f.opening = ' ' :: (f.name ++ ['=']) ++ [f.quote] := by simp [opening]
    rw [hform] at hp ⊢
    rcases List.prefix_concat_iff.1 hp with heq | hp
    · exact heq ▸ List.prefix_rfl
    · have hmem : q ∈ ' ' :: (f.name ++ ['=']) :=
        hp.subset (List.mem_append_right mid (List.mem_of_getLast? hw.getLast?))
      simp only [List.mem_cons, List.mem_append, List.not_mem_nil, or_false] at hmem
      rcases hmem with rfl | hmem | rfl
      · rcases hw.quote with hq | hq <;> exact absurd hq (by decide)
      · rcases hw.quote with rfl | rfl <;> exact absurd (by decide) (not_mem_name hmem).2
      · rcases hw.quote with hq | hq <;> exact absurd hq (by decide)

theorem not_infix_of_spares (h : f.Spares) (hw : OpensValue w q) : f.value ++ [f.quote] ≠ mid ++ w ++ t := by
  intro heq
  have hnone := h (w ++ t) ((List.mem_tails _ _).2 ⟨mid, by rw [heq, List.append_assoc]⟩)
  rw [hw.valueStart?] at hnone
  contradiction

/-- A value that opens somewhere behind the start of an attribute opens behind the attribute, if it is
another one that spells out no source. -/
theorem render_before (hsource : ¬ f.IsSource) (hspares : f.Spares) (hw : OpensValue w q)
    (h : f.render ++ rest = mid ++ w ++ t) : f.render <+: mid := by
  have hopening : f.opening.getLast? = some f.quote := by simp [opening, List.getLast?_cons]
  have heq : f.opening ++ (f.value ++ [f.quote] ++ rest) = mid ++ w ++ t := by simpa [render] using h
  rcases hw.eq_or_prefix hopening f.quote_sign (opening_before hw heq) with hsame | ⟨mid, rfl⟩
  · exact absurd (isSource_of_opening hsame hw) hsource
  have heq : f.value ++ [f.quote] ++ rest = mid ++ w ++ t := by simpa using heq
  have hbehind : f.value ++ [f.quote] <+: mid := by
    have hwhole : mid ++ w <+: f.value ++ [f.quote] ++ rest := heq ▸ List.prefix_append (mid ++ w) t
    rcases List.prefix_or_prefix_of_prefix (List.prefix_append _ rest) hwhole with hp | ⟨t, ht⟩
    · rcases hw.eq_or_prefix List.getLast?_concat f.quote_sign hp with hsame | hp
      · exact absurd (hsame.trans (List.append_nil _).symm) (not_infix_of_spares hspares hw)
      · exact hp
    · exact absurd ht.symm (not_infix_of_spares hspares hw)
  rw [render, List.append_assoc]
  exact (List.prefix_append_right_inj f.opening).2 hbehind

end Attribute

section Tags

variable {pre post : List Attribute} {src : Attribute} {a b p t rest : Text} {q : Char}

def written (fs : List Attribute) : Text := "<img".toList ++ fs.flatMap Attribute.render ++ ['>']

def front (pre : List Attribute) (src : Attribute) : Text :=
  "<img".toList ++ pre.flatMap Attribute.render ++ src.opening

theorem written_append (pre post : List Attribute) (src : Attribute) (b : Text) :
    written (pre ++ src :: post) ++ b =
      front pre src ++ src.value ++ src.quote :: (post.flatMap Attribute.render ++ '>' :: b) := by
  simp [written, front, Attribute.render]

theorem getLast?_front (a : Text) (pre : List Attribute) (src : Attribute) :
    (a ++ front pre src).getLast? = some src.quote := by
  simp [front, Attribute.opening, List.getLast?_append, List.getLast?_cons]

theorem spells_img : Spells tagName "img".toList :=
  .cons (by decide) (.cons (by decide) (.cons (by decide) .nil))

theorem not_mem_opening (f : Attribute) {c : Char} (hc : c ∈ "<>".toList) : c ∉ f.opening := by
  have hsigns : ∀ c ∈ "<>".toList, c ∈ "='\"<>".toList ∧ c ≠ ' ' ∧ c ≠ '=' ∧ c ≠ '"' ∧ c ≠ '\'' :=
    Text.forall_mem_of_all (by decide)
  obtain ⟨hsign, hspace, hequals, hdouble, hsingle⟩ := hsigns c hc
  have hname : c ∉ f.name := fun hm => (Attribute.not_mem_name hm).2 hsign
  have hquote : c ≠ f.quote := by rcases f.quote_sign with hq | hq <;> rwa [hq]
  simp [Attribute.opening, hname, hquote, hspace, hequals]

theorem mem_render_iff {f : Attribute} {c : Char} (hc : c ∈ "<>".toList) : c ∈ f.render ↔ c ∈ f.value := by
  have hopening := not_mem_opening f hc
  have hquote : c ≠ f.quote := by
    rintro rfl
    exact hopening (by simp [Attribute.opening])
  simp [Attribute.render, hopening, hquote]

theorem not_mem_attributes {fs : List Attribute} {c : Char} (hc : c ∈ "<>".toList) (h : ∀ f ∈ fs, c ∉ f.value) :
    c ∉ fs.flatMap Attribute.render := by
  rw [List.mem_flatMap]
  rintro ⟨f, hf, hm⟩
  exact h f hf ((mem_render_iff hc).1 hm)

theorem opens_front (hsrc : src.IsSource) (hpre : ∀ f ∈ pre, '>' ∉ f.value) :
    Opens (front pre src) src.quote := by
  refine ⟨"img".toList, pre.flatMap Attribute.render ++ src.opening, by simp [front], spells_img, ?_,
    pre.flatMap Attribute.render, src.opening, rfl, not_mem_attributes (by decide) hpre,
    Attribute.opensValue_opening hsrc⟩
  have hspace : ¬ Text.isWord ' ' := by decide
  cases pre <;> simpa [Attribute.render, Attribute.opening] using hspace

theorem attributes_before {mid w : Text} (hpre : ∀ f ∈ pre, ¬ f.IsSource ∧ f.Spares) (hw : OpensValue w q)
    (h : pre.flatMap Attribute.render ++ rest = mid ++ w ++ t) : pre.flatMap Attribute.render <+: mid := by
  induction pre generalizing mid with
  | nil => exact List.nil_prefix
  | cons f pre ih =>
    obtain ⟨⟨hsource, hspares⟩, hpre⟩ := List.forall_mem_cons.1 hpre
    rw [List.flatMap_cons, List.append_assoc] at h
    obtain ⟨mid, rfl⟩ := Attribute.render_before hsource hspares hw h
    rw [List.append_assoc, List.append_assoc] at h
    exact (List.prefix_append_right_inj f.render).2 (ih hpre (by simpa using List.append_cancel_left h))

/-- No value opens in front of an attribute, if the attributes in front of it are other ones that spell out
no source. -/
theorem front_before (hpre : ∀ f ∈ pre, ¬ f.IsSource ∧ f.Spares) (hp : Opens p q)
    (h : front pre src ++ rest = p ++ t) : front pre src <+: p := by
  obtain ⟨name, _, rfl, hname, -, mid, w, rfl, -, hw⟩ := hp
  have heq : "img".toList ++ (pre.flatMap Attribute.render ++ (src.opening ++ rest)) =
      name ++ (mid ++ w ++ t) := by simpa [front] using h
  obtain ⟨rfl, hbehind⟩ := eq_of_spells spells_img hname heq
  obtain ⟨mid, rfl⟩ := attributes_before hpre hw hbehind
  rw [List.append_assoc, List.append_assoc] at hbehind
  have hopening : src.opening <+: mid ++ w :=
    Attribute.opening_before hw (by simpa using List.append_cancel_left hbehind)
  simpa [front] using hopening

/-- The source of a tag is what is read exactly if no value in front of it ends the tag, and none of the
sources that the text in front of it spells out is closed. -/
theorem matcher_front_iff (hsrc : src.IsSource) (hne : src.value ≠ []) (rest : Text) :
    matcher (front pre src ++ src.value ++ src.quote :: rest) = some (⟨front pre src, src.value, src.quote⟩, rest) ↔
      (∀ f ∈ pre, '>' ∉ f.value) ∧ ∀ p q t, front pre src ++ src.value ++ src.quote :: rest = p ++ t →
        Opens p q → Closes q t → front pre src <+: p := by
  rw [matcher_eq_some_iff]
  constructor
  · rintro ⟨-, hopens, hfirst⟩
    refine ⟨fun f hf hm => hopens.bracket_not_mem ?_, hfirst⟩
    have hrender : '>' ∈ pre.flatMap Attribute.render :=
      List.mem_flatMap.2 ⟨f, hf, (mem_render_iff (by decide)).2 hm⟩
    exact List.mem_append_left _ (List.mem_append_right _ hrender)
  · rintro ⟨hbracket, hfirst⟩
    exact ⟨⟨rfl, src.quote_sign, getLast?_front [] pre src, hne, src.quote_not_mem⟩, opens_front hsrc hbracket,
      hfirst⟩

theorem convert_append_of_not_mem (ha : '<' ∉ a) (s : Text) : convert (a ++ s) = a ++ convert s := by
  refine Text.replaceAll_append fun u hu hne => Option.eq_none_iff_forall_ne_some.2 fun ⟨tag, rest⟩ h => ?_
  obtain ⟨name, t, heq, -⟩ := exists_name_of_matcher h
  obtain ⟨c, u, rfl⟩ := List.exists_cons_of_ne_nil hne
  obtain ⟨rfl, -⟩ := List.cons.inj heq
  exact ha (hu.subset List.mem_cons_self)

theorem convert_of_not_mem (ha : '<' ∉ a) : convert a = a := by
  simpa [convert] using convert_append_of_not_mem ha []

theorem eq_front_of_append {u before : Text} (ha : '<' ∉ a) (hpre : ∀ f ∈ pre, '<' ∉ f.value)
    (hopens : Opens before q) (heq : a ++ front pre src = u ++ before) : a = u ∧ front pre src = before := by
  obtain ⟨name, p, rfl, -⟩ := hopens
  have hfront : front pre src = '<' :: ("img".toList ++ pre.flatMap Attribute.render ++ src.opening) := by
    simp [front]
  have hinside : '<' ∉ "img".toList ++ pre.flatMap Attribute.render ++ src.opening := by
    simp [not_mem_attributes (c := '<') (by decide) hpre, not_mem_opening src (c := '<') (by decide)]
  rw [hfront] at heq ⊢
  rcases Text.eq_or_cut heq.symm ha with ⟨rfl, hbehind⟩ | ⟨z, -, hz⟩
  · exact ⟨rfl, by rw [hbehind]⟩
  · exact absurd (hz ▸ List.mem_append_right z List.mem_cons_self) hinside

theorem convert_of_front (ha : '<' ∉ a) (hb : '<' ∉ b) (hpost : ∀ f ∈ post, '<' ∉ f.value)
    (h : matcher (front pre src ++ src.value ++ src.quote :: (post.flatMap Attribute.render ++ '>' :: b)) =
      some (⟨front pre src, src.value, src.quote⟩, post.flatMap Attribute.render ++ '>' :: b)) :
    convert (a ++ written (pre ++ src :: post) ++ b) = a ++ written (pre ++ src.rooted :: post) ++ b := by
  have hbehind : '<' ∉ post.flatMap Attribute.render ++ '>' :: b := by
    simp [not_mem_attributes (c := '<') (by decide) hpost, hb]
  rw [List.append_assoc, written_append, convert_append_of_not_mem ha, convert_of_some h,
    convert_of_not_mem hbehind, List.append_assoc a, written_append]
  rfl

theorem convert_written_iff (hne : src.value ≠ []) :
    convert (a ++ written (pre ++ src :: post) ++ b) = a ++ written (pre ++ src.rooted :: post) ++ b ↔
      rootings (a ++ written (pre ++ src :: post) ++ b) =
        if Image.normalize src.value = none then [] else [((a ++ front pre src).length, src.value)] := by
  rw [List.append_assoc a, List.append_assoc a, written_append, written_append]
  simpa [front, Attribute.opening, Attribute.rooted] using
    convert_eq_iff (y := post.flatMap Attribute.render ++ '>' :: b) (getLast?_front a pre src) hne src.quote_not_mem

/-- If the source is the only value that is rooted, and no value in front of it holds an opening angle bracket,
it is the tag itself that has been read. -/
theorem matcher_of_rootings (ha : '<' ∉ a) (hpre : ∀ f ∈ pre, '<' ∉ f.value)
    (h : rootings (a ++ written (pre ++ src :: post) ++ b) = [((a ++ front pre src).length, src.value)]) :
    matcher (front pre src ++ src.value ++ src.quote :: (post.flatMap Attribute.render ++ '>' :: b)) =
      some (⟨front pre src, src.value, src.quote⟩, post.flatMap Attribute.render ++ '>' :: b) := by
  rw [List.append_assoc a, written_append, ← List.append_assoc, ← List.append_assoc] at h
  obtain ⟨u, before, hfront, hmatch⟩ :=
    (firstRooting_of_rootings (getLast?_front a pre src) src.quote_not_mem h).read
  obtain ⟨-, rfl⟩ := eq_front_of_append ha hpre (readsFirst_matcher hmatch).opens hfront
  exact hmatch

/-- The source of a tag is rooted, and nothing else is changed, exactly if the scan roots a value in its place
and nowhere else. It does so if no value in front of the source holds a closing angle bracket or spells out a
source, and no value behind it holds an opening angle bracket. If none of these values holds an opening angle
bracket, a source that has to be rooted is, exactly if no value in front of it holds a closing angle bracket
and none of the sources that are spelled out in front of it has a closed value. -/
theorem source_rooted_by_values (pre post : List Attribute) (src : Attribute) (ha : '<' ∉ a) (hb : '<' ∉ b)
    (hsrc : src.IsSource) (hne : src.value ≠ []) (hpre : ∀ f ∈ pre, ¬ f.IsSource) :
    (convert (a ++ written (pre ++ src :: post) ++ b) = a ++ written (pre ++ src.rooted :: post) ++ b ↔
      rootings (a ++ written (pre ++ src :: post) ++ b) =
        if Image.normalize src.value = none then [] else [((a ++ front pre src).length, src.value)]) ∧
    ((∀ f ∈ pre, f.Spares ∧ '>' ∉ f.value) → (∀ f ∈ post, '<' ∉ f.value) →
      convert (a ++ written (pre ++ src :: post) ++ b) = a ++ written (pre ++ src.rooted :: post) ++ b) ∧
    ((∀ f ∈ pre ++ post, '<' ∉ f.value) → Image.normalize src.value ≠ none →
      (convert (a ++ written (pre ++ src :: post) ++ b) = a ++ written (pre ++ src.rooted :: post) ++ b ↔
        (∀ f ∈ pre, '>' ∉ f.value) ∧ ∀ p q t, written (pre ++ src :: post) ++ b = p ++ t →
          Opens p q → Closes q t → front pre src <+: p)) := by
  refine ⟨convert_written_iff hne, fun hspares hpost => ?_, fun hvalues hrooted => ?_⟩
  · refine convert_of_front ha hb hpost ((matcher_front_iff hsrc hne _).2 ⟨fun f hf => (hspares f hf).2, ?_⟩)
    intro p q t heq hp _
    exact front_before (fun f hf => ⟨hpre f hf, (hspares f hf).1⟩) hp (by simpa using heq)
  · obtain ⟨hfront, hpost⟩ := List.forall_mem_append.1 hvalues
    rw [written_append, ← matcher_front_iff hsrc hne]
    refine ⟨fun heq => matcher_of_rootings ha hfront ?_, convert_of_front ha hb hpost⟩
    rw [convert_written_iff hne, if_neg hrooted] at heq
    exact heq

def description (value : Text) (h : '\'' ∉ value) : Attribute where
  name := "alt".toList
  quote := '\''
  value := value
  name_letters := Text.forall_mem_of_all (by decide)
  quote_sign := .inr rfl
  quote_not_mem := h

def logo : Attribute where
  name := "src".toList
  quote := '\''
  value := "logo.png".toList
  name_letters := Text.forall_mem_of_all (by decide)
  quote_sign := .inr rfl
  quote_not_mem := by decide

/-- A logo is rooted behind a plain description, and nothing else is; behind one with a bracket it is not. -/
theorem described_logo_rooted :
    logo.IsSource ∧ logo.value ≠ [] ∧ ¬ (description "Logo".toList (by decide)).IsSource ∧
    convert "See <img alt='Logo' src='logo.png'> now".toList = "See <img alt='Logo' src='/logo.png'> now".toList ∧
    rootings "See <img alt='Logo' src='logo.png'> now".toList = [(25, "logo.png".toList)] ∧
    convert "See <img alt='a > b' src='logo.png'> now".toList ≠
      "See <img alt='a > b' src='/logo.png'> now".toList := by
  have hsrc : logo.IsSource := by decide
  have hne : logo.value ≠ [] := by decide
  have hplain := source_rooted_by_values (a := "See ".toList) (b := " now".toList)
    [description "Logo".toList (by decide)] [] logo (by decide) (by decide) hsrc hne (by decide)
  have hbracket := source_rooted_by_values (a := "See ".toList) (b := " now".toList)
    [description "a > b".toList (by decide)] [] logo (by decide) (by decide) hsrc hne (by decide)
  have hrooted := hplain.2.1 (by decide) (by decide)
  refine ⟨hsrc, hne, by decide, hrooted, hplain.1.1 hrooted, fun heq => ?_⟩
  have hkept := ((hbracket.2.2 (by decide) (by decide)).1 heq).1
  exact absurd hkept (by decide)

/-- A source stays as it is behind a closing angle bracket in a description, and behind a source that is
spelled out in a description; a tag in a description is changed. -/
theorem descriptions_mislead :
    logo.IsSource ∧ ¬ (description "a > b".toList (by decide)).IsSource ∧
    convert (written [description "a > b".toList (by decide), logo]) ≠
      written [description "a > b".toList (by decide), logo.rooted] ∧
    convert "<img alt=\"see src='x.png'\" src='logo.png'>".toList ≠
      "<img alt=\"see src='x.png'\" src='/logo.png'>".toList ∧
    convert "<img src='logo.png' alt=\"<img src='x.png'\">".toList ≠
      "<img src='/logo.png' alt=\"<img src='x.png'\">".toList := by decide

end Tags

end ImageTag

end Markdown

end DocsMigration
