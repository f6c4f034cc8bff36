import DocsMigration.Proofs.Targets
import Mathlib.Data.List.TakeWhile
/-! Image tags and their sources. Unlike a link, a tag may hold source attributes that lack their
closing quote, and a quote far behind can complete one of them: so the match found at a place depends
on the text behind, but only on which quotes occur there. Where a source begins is settled by the text
in front of it, and whether a source is left alone by its first signs. -/

namespace DocsMigration

namespace Markdown

namespace ImageTag

theorem stripLetters?_append {sets : List (List Char)} (hsets : ∀ set ∈ sets, '\n' ∉ set) {u : Text}
    (hu : '\n' ∈ u) (x : Text) :
    stripLetters? sets (u ++ x) = (stripLetters? sets u).map (· ++ x) := by
  induction sets generalizing u with
  | nil => rfl
  | cons set sets ih =>
    cases u with
    | nil => simp at hu
    | cons c u =>
      rw [List.cons_append, stripLetters?, stripLetters?]
      split_ifs with hc
      · have hne : '\n' ≠ c := by
          rintro rfl
          exact hsets set List.mem_cons_self (List.contains_iff_mem.1 hc)
        exact ih (fun s hs => hsets s (List.mem_cons_of_mem set hs)) (by simpa [hne] using hu)
      · rfl

def Spells (sets : List (List Char)) (w : Text) : Prop := List.Forall₂ (fun set c => c ∈ set) sets w

theorem Spells.exists_mem {sets : List (List Char)} {w : Text} (h : Spells sets w) {c : Char} (hc : c ∈ w) :
    ∃ set ∈ sets, c ∈ set := by
  induction h with
  | nil => contradiction
  | @cons set d sets w hd _ ih =>
    rcases List.mem_cons.1 hc with rfl | hc
    · exact ⟨set, List.mem_cons_self, hd⟩
    · obtain ⟨set', hset, hmem⟩ := ih hc
      exact ⟨set', List.mem_cons_of_mem set hset, hmem⟩

theorem stripLetters?_eq_some_iff {sets : List (List Char)} {s t : Text} :
    stripLetters? sets s = some t ↔ ∃ w, Spells sets w ∧ s = w ++ t := by
  induction sets generalizing s with
  | nil => simp [stripLetters?, Spells]
  | cons set sets ih =>
    cases s with
    | nil => simp [stripLetters?, Spells]
    | cons c s =>
      have hletter : isLetter set c = true ↔ c ∈ set := List.contains_iff_mem
      rw [stripLetters?]
      constructor
      · intro h
        split_ifs at h with hc
        obtain ⟨w, hw, rfl⟩ := ih.1 h
        exact ⟨c :: w, .cons (hletter.1 hc) hw, rfl⟩
      · rintro ⟨w, hw, heq⟩
        cases hw with
        | cons hc hw =>
          obtain ⟨rfl, rfl⟩ := List.cons.inj heq
          rw [if_pos (hletter.2 hc)]
          exact ih.2 ⟨_, hw, rfl⟩

/-- A source attribute up to the quote that opens its value: a whitespace character, the name, and an equals
sign with whitespace around it. -/
def OpensValue (w : Text) (q : Char) : Prop :=
  ∃ c name ws ws', w = c :: (name ++ (ws ++ '=' :: (ws' ++ [q]))) ∧ Text.isSpace c ∧
    Spells attributeName name ∧ (∀ c ∈ ws, Text.isSpace c) ∧ (∀ c ∈ ws', Text.isSpace c) ∧
    (q = '"' ∨ q = '\'')

theorem OpensValue.exists_eq_concat {w : Text} {q : Char} (h : OpensValue w q) :
    ∃ u, w = u ++ [q] ∧ ∀ c ∈ u, Text.isSpace c ∨ c ∈ '=' :: attributeName.flatten := by
  obtain ⟨c, name, ws, ws', rfl, hc, hname, hspace, hspace', -⟩ := h
  refine ⟨c :: (name ++ (ws ++ '=' :: ws')), by simp, fun d hd => ?_⟩
  simp only [List.mem_cons, List.mem_append] at hd
  rcases hd with rfl | hd | hd | rfl | hd
  · exact .inl hc
  · obtain ⟨set, hset, hmem⟩ := hname.exists_mem hd
    exact .inr (List.mem_cons_of_mem _ (List.mem_flatten.2 ⟨set, hset, hmem⟩))
  · exact .inl (hspace d hd)
  · exact .inr List.mem_cons_self
  · exact .inl (hspace' d hd)

theorem OpensValue.getLast? {w : Text} {q : Char} (h : OpensValue w q) : w.getLast? = some q := by
  obtain ⟨u, rfl, -⟩ := h.exists_eq_concat
  exact List.getLast?_concat

theorem valueStart?_eq_some_iff {s t : Text} {q : Char} :
    valueStart? s = some (q, t) ↔ ∃ w, OpensValue w q ∧ s = w ++ t := by
  constructor
  · intro h
    unfold valueStart? at h
    split at h
    · rename_i c s
      split_ifs at h with hc
      split at h
      · rename_i u hu
        obtain ⟨name, hname, rfl⟩ := stripLetters?_eq_some_iff.1 hu
        obtain ⟨ws, hws, hspace⟩ := Text.trimStart_spec u
        split at h
        · rename_i v hv
          obtain ⟨ws', hws', hspace'⟩ := Text.trimStart_spec v
          have key : ∀ q t, Text.trimStart v = q :: t → (q = '"' ∨ q = '\'') →
              ∃ w, OpensValue w q ∧ c :: (name ++ u) = w ++ t := by
            intro q t hq hquote
            refine ⟨_, ⟨c, name, ws, ws', rfl, hc, hname, hspace, hspace', hquote⟩, ?_⟩
            rw [hws, hv, hws', hq]
            simp
          split at h
          · rename_i t hq
            obtain ⟨rfl, rfl⟩ := Prod.mk.inj (Option.some.inj h)
            exact key _ _ hq (.inl rfl)
          · rename_i t hq
            obtain ⟨rfl, rfl⟩ := Prod.mk.inj (Option.some.inj h)
            exact key _ _ hq (.inr rfl)
          · contradiction
        · contradiction
      · contradiction
    · contradiction
  · rintro ⟨w, ⟨c, name, ws, ws', rfl, hc, hname, hspace, hspace', hquote⟩, rfl⟩
    have hform : c :: (name ++ (ws ++ '=' :: (ws' ++ [q]))) ++ t =
        c :: (name ++ (ws ++ '=' :: (ws' ++ q :: t))) := by simp
    have hnq : ¬ Text.isSpace q := by rcases hquote with rfl | rfl <;> decide
    rw [hform, valueStart?, if_pos hc, stripLetters?_eq_some_iff.2 ⟨name, hname, rfl⟩]
    simp only [Text.trimStart_blank_append hspace (show ¬ Text.isSpace '=' by decide),
      Text.trimStart_blank_append hspace' hnq]
    rcases hquote with rfl | rfl <;> rfl

theorem OpensValue.valueStart? {w : Text} {q : Char} (h : OpensValue w q) (t : Text) :
    valueStart? (w ++ t) = some (q, t) :=
  valueStart?_eq_some_iff.2 ⟨w, h, rfl⟩

theorem OpensValue.quote {w : Text} {q : Char} (h : OpensValue w q) : q = '"' ∨ q = '\'' := by
  obtain ⟨c, name, ws, ws', -, -, -, -, -, hquote⟩ := h
  exact hquote

theorem attribute?_of_start {w t : Text} {q : Char} (h : valueStart? (w ++ t) = some (q, t)) :
    attribute? (w ++ t) = match Text.splitOnce? q t with
      | some (value, rest) => if value = [] then none else some (⟨w, value, q⟩, rest)
      | none => none := by
  have hquoted : quotedValue? q t = match Text.splitOnce? q t with
      | some (value, rest) => if value = [] then none else some (value, q :: rest)
      | none => none := by
    unfold quotedValue?
    cases hs : Text.splitOnce? q t with
    | none =>
      have hnil : t.dropWhile (· != q) = [] :=
        List.dropWhile_eq_nil_iff.2 (Text.bne_of_not_mem (Text.splitOnce?_eq_none.1 hs))
      simp [hnil]
    | some r =>
      obtain ⟨value, rest⟩ := r
      obtain ⟨rfl, hq⟩ := Text.splitOnce?_eq_some.1 hs
      simp [Text.takeWhile_bne hq, Text.dropWhile_bne hq]
  rw [attribute?, h]
  simp only [hquoted]
  cases Text.splitOnce? q t with
  | none => rfl
  | some r =>
    obtain ⟨value, rest⟩ := r
    by_cases hv : value = [] <;> simp [hv]

/-- What is read of a tag, and where: `before` ends in the opening quote. -/
structure Fits (tag : ImageTag) (s rest : Text) : Prop where
  eq : s = tag.before ++ tag.source ++ tag.quote :: rest
  quote : tag.quote = '"' ∨ tag.quote = '\''
  getLast? : tag.before.getLast? = some tag.quote
  ne_nil : tag.source ≠ []
  not_mem : tag.quote ∉ tag.source

theorem fits_attribute? {s rest : Text} {tag : ImageTag} (h : attribute? s = some (tag, rest)) :
    Fits tag s rest := by
  cases hv : valueStart? s with
  | none => simp [attribute?, hv] at h
  | some r =>
    obtain ⟨q, t⟩ := r
    obtain ⟨w, hw, rfl⟩ := valueStart?_eq_some_iff.1 hv
    rw [attribute?_of_start hv] at h
    split at h
    · rename_i value after hs
      split_ifs at h with hne
      obtain ⟨rfl, rfl⟩ := Prod.mk.inj (Option.some.inj h)
      obtain ⟨rfl, hmem⟩ := Text.splitOnce?_eq_some.1 hs
      exact ⟨by simp, hw.quote, hw.getLast?, hne, hmem⟩
    · contradiction

theorem Fits.behind {tag : ImageTag} {s rest : Text} (h : Fits tag s rest) (pre : Text) :
    Fits { tag with before := pre ++ tag.before } (pre ++ s) rest where
  eq := by simp [h.eq]
  quote := h.quote
  getLast? := by
    have : tag.before ≠ [] := by
      intro hnil
      simpa [hnil] using h.getLast?
    rw [List.getLast?_append_of_ne_nil _ this]
    exact h.getLast?
  ne_nil := h.ne_nil
  not_mem := h.not_mem

attribute [local irreducible] attribute? in
theorem findAttribute?_cons (c : Char) (s : Text) : findAttribute? (c :: s) =
    match attribute? (c :: s) with
    | some found => some found
    | none =>
      if c = '>' then none
      else (findAttribute? s).map fun (tag, rest) => ({ tag with before := c :: tag.before }, rest) :=
  rfl

theorem findAttribute?_nil : findAttribute? [] = none := rfl

theorem fits_findAttribute? {s rest : Text} {tag : ImageTag}
    (h : findAttribute? s = some (tag, rest)) : Fits tag s rest := by
  induction s generalizing tag with
  | nil => contradiction
  | cons c s ih =>
    rw [findAttribute?_cons] at h
    split at h
    · rename_i found hf
      obtain rfl := Option.some.inj h
      exact fits_attribute? hf
    · split_ifs at h
      obtain ⟨⟨tag', rest'⟩, hf, heq⟩ := Option.map_eq_some_iff.1 h
      obtain ⟨rfl, rfl⟩ := Prod.mk.inj heq
      exact (ih hf).behind [c]

theorem fits_matcher {s rest : Text} {tag : ImageTag} (h : matcher s = some (tag, rest)) :
    Fits tag s rest := by
  unfold matcher at h
  split at h
  · rename_i s
    split at h
    · rename_i t ht
      split_ifs at h
      obtain ⟨⟨tag', rest'⟩, hf, heq⟩ := Option.map_eq_some_iff.1 h
      obtain ⟨rfl, rfl⟩ := Prod.mk.inj heq
      obtain ⟨w, hspells, rfl⟩ := stripLetters?_eq_some_iff.1 ht
      have hw : (w ++ t).take 3 = w := by
        rw [show 3 = w.length from List.Forall₂.length_eq hspells, List.take_left']
        rfl
      have := (fits_findAttribute? hf).behind ('<' :: w)
      simpa [hw] using this
    · contradiction
  · contradiction

theorem consuming_matcher : Text.Consuming matcher := by
  intro s tag rest h
  exact ⟨tag.before ++ tag.source ++ [tag.quote], by simp, by simp [(fits_matcher h).eq]⟩

/-- The least texts that stand for `b`: none at all, and each quote that `b` has. -/
def closers (b : Text) : List Text := [] :: (['"', '\''].filter (· ∈ b)).map fun q => [q]

theorem mem_closers {b c : Text} (h : c ∈ closers b) :
    c = [] ∨ ∃ q, c = [q] ∧ (q = '"' ∨ q = '\'') ∧ q ∈ b := by
  simp only [closers, List.mem_cons, List.not_mem_nil, or_false, List.mem_map, List.mem_filter,
    decide_eq_true_eq] at h
  rcases h with rfl | ⟨q, ⟨hquote, hq⟩, rfl⟩
  · exact .inl rfl
  · exact .inr ⟨q, rfl, hquote, hq⟩

/-- How a reading of `u` goes on when `b` follows, compared with what its least texts tell. -/
inductive Reads (rd : Text → Option (ImageTag × Text)) (b u : Text) : Prop
  | silent (hb : rd (u ++ b) = none) (hC : ∀ c ∈ closers b, rd (u ++ c) = none)
  | inside (tag : ImageTag) (u' : Text) (hb : rd (u ++ b) = some (tag, u' ++ b))
      (hC : ∀ c ∈ closers b, rd (u ++ c) = some (tag, u' ++ c))
  /-- The value starts in `u` and goes on in `b`. -/
  | across (before value more rest : Text) (q : Char) (hu : u = before ++ value) (hne : value ≠ [])
      (hb : rd (u ++ b) = some (⟨before, value ++ more, q⟩, rest)) (hq : [q] ∈ closers b)
      (hC : rd (u ++ [q]) = some (⟨before, value, q⟩, []))
  /-- The value starts in `b`. -/
  | beyond (tag : ImageTag) (rest : Text) (hb : rd (u ++ b) = some (tag, rest)) (hu : u <+: tag.before)

theorem attribute?_of_none {s : Text} (h : valueStart? s = none) : attribute? s = none := by
  rw [attribute?, h]

def Starts (u w t : Text) (q : Char) : Prop := u = w ++ t ∧ t ≠ [] ∧ OpensValue w q

theorem starts_or_beyond {u x t : Text} {q : Char} (hu : u.getLast? = some '\n')
    (h : valueStart? (u ++ x) = some (q, t)) :
    (∃ w t', Starts u w t' q) ∨ ∃ w, u ++ x = u ++ w ++ t ∧ w ≠ [] := by
  obtain ⟨w, hw, heq⟩ := valueStart?_eq_some_iff.1 h
  have hne : w ≠ u := by
    rintro rfl
    rw [hw.getLast?] at hu
    rcases hw.quote with rfl | rfl <;> exact absurd hu (by decide)
  have hwhole : w <+: u ++ x := heq ▸ List.prefix_append _ _
  rcases List.prefix_or_prefix_of_prefix (List.prefix_append u x) hwhole with ⟨v, hv⟩ | ⟨t', ht'⟩
  · refine .inr ⟨v, by rw [hv, heq], ?_⟩
    rintro rfl
    exact hne (by simpa using hv.symm)
  · refine .inl ⟨w, t', ht'.symm, ?_, hw⟩
    rintro rfl
    exact hne (by simpa using ht')

theorem reads_of_starts {b u w t : Text} {q : Char} (h : Starts u w t q) : Reads attribute? b u := by
  obtain ⟨rfl, hne, hw⟩ := h
  have hq := hw.quote
  have hread (x : Text) : attribute? (w ++ t ++ x) = match Text.splitOnce? q (t ++ x) with
      | some (value, rest) => if value = [] then none else some (⟨w, value, q⟩, rest)
      | none => none := by
    rw [List.append_assoc]
    exact attribute?_of_start (hw.valueStart? _)
  by_cases hmem : q ∈ t
  · obtain ⟨value, rest, rfl, hv⟩ := List.eq_append_cons_of_mem hmem
    have hx (x : Text) : Text.splitOnce? q (value ++ q :: rest ++ x) = some (value, rest ++ x) :=
      Text.splitOnce?_eq_some.2 ⟨by simp, hv⟩
    by_cases hvalue : value = []
    · exact .silent (by rw [hread, hx]; simp [hvalue]) fun c _ => by rw [hread, hx]; simp [hvalue]
    · exact .inside ⟨w, value, q⟩ rest (by rw [hread, hx]; simp [hvalue])
        fun c _ => by rw [hread, hx]; simp [hvalue]
  · by_cases hb : q ∈ b
    · obtain ⟨more, rest, rfl, hm⟩ := List.eq_append_cons_of_mem hb
      have hsplit : Text.splitOnce? q (t ++ (more ++ q :: rest)) = some (t ++ more, rest) :=
        Text.splitOnce?_eq_some.2 ⟨by simp, by simp [hmem, hm]⟩
      have hclosed : Text.splitOnce? q (t ++ [q]) = some (t, []) :=
        Text.splitOnce?_eq_some.2 ⟨rfl, hmem⟩
      refine .across w t more rest q rfl hne (by rw [hread, hsplit]; simp [hne]) ?_
        (by rw [hread, hclosed]; simp [hne])
      rcases hq with rfl | rfl <;> simp [closers]
    · have hnone (x : Text) (hx : q ∉ x) : attribute? (w ++ t ++ x) = none := by
        rw [hread, Text.splitOnce?_eq_none.2 (by simp [hmem, hx])]
      refine .silent (hnone b hb) fun c hc => hnone c ?_
      rcases mem_closers hc with rfl | ⟨q', rfl, -, hq'⟩
      · simp
      · rw [List.mem_singleton]
        rintro rfl
        exact hb hq'

theorem attribute?_closer {b u c : Text} (hu : u.getLast? = some '\n')
    (hstart : ¬ ∃ w t q, Starts u w t q) (hc : c ∈ closers b) : attribute? (u ++ c) = none := by
  cases hv : valueStart? (u ++ c) with
  | none => exact attribute?_of_none hv
  | some r =>
    obtain ⟨q, t⟩ := r
    obtain ⟨w, heq, hw⟩ := (starts_or_beyond hu hv).resolve_left
      fun ⟨w, t', h⟩ => hstart ⟨w, t', q, h⟩
    have hnil : t = [] := by
      have hlen : c.length = w.length + t.length := by
        rw [List.append_assoc] at heq
        rw [List.append_cancel_left heq, List.length_append]
      have hpos := List.length_pos_iff.2 hw
      apply List.eq_nil_of_length_eq_zero
      rcases mem_closers hc with rfl | ⟨q', rfl, -, -⟩
      · simp at hlen
        omega
      · simp at hlen
        omega
    rw [heq] at hv ⊢
    rw [attribute?_of_start hv, hnil]
    rfl

theorem reads_attribute? {u : Text} (hu : u.getLast? = some '\n') (b : Text) :
    Reads attribute? b u := by
  by_cases hstart : ∃ w t q, Starts u w t q
  · obtain ⟨w, t, q, h⟩ := hstart
    exact reads_of_starts h
  · have hclosers : ∀ c ∈ closers b, attribute? (u ++ c) = none := fun _ hc =>
      attribute?_closer hu hstart hc
    cases hr : attribute? (u ++ b) with
    | none => exact .silent hr hclosers
    | some r =>
      obtain ⟨tag, rest⟩ := r
      refine .beyond tag rest hr ?_
      cases hv : valueStart? (u ++ b) with
      | none => simp [attribute?_of_none hv] at hr
      | some r =>
        obtain ⟨q, t⟩ := r
        obtain ⟨w, heq, -⟩ := (starts_or_beyond hu hv).resolve_left
          fun ⟨w, t', h⟩ => hstart ⟨w, t', q, h⟩
        rw [heq] at hv hr
        rw [attribute?_of_start hv] at hr
        split at hr
        · split_ifs at hr
          obtain ⟨rfl, -⟩ := Prod.mk.inj (Option.some.inj hr)
          exact List.prefix_append u w
        · contradiction

def behind (pre : Text) (r : ImageTag × Text) : ImageTag × Text :=
  ({ r.1 with before := pre ++ r.1.before }, r.2)

theorem Reads.behind {rd rd' : Text → Option (ImageTag × Text)} {b u : Text} (h : Reads rd b u)
    (pre : Text) (hread : ∀ x ∈ b :: closers b, rd' (pre ++ u ++ x) = (rd (u ++ x)).map (ImageTag.behind pre)) :
    Reads rd' b (pre ++ u) := by
  have hrb := hread b List.mem_cons_self
  have hrC := fun c hc => hread c (List.mem_cons_of_mem b hc)
  cases h with
  | silent hb hC => exact .silent (by rw [hrb, hb]; rfl) fun c hc => by rw [hrC c hc, hC c hc]; rfl
  | inside tag u' hb hC =>
    exact .inside _ u' (by rw [hrb, hb]; rfl) fun c hc => by rw [hrC c hc, hC c hc]; rfl
  | across before value more rest q hu hne hb hq hC =>
    exact .across (pre ++ before) value more rest q (by simp [hu]) hne (by rw [hrb, hb]; rfl) hq
      (by rw [hrC _ hq, hC]; rfl)
  | beyond tag rest hb hu =>
    exact .beyond _ rest (by rw [hrb, hb]; rfl) ((List.prefix_append_right_inj pre).2 hu)

theorem reads_findAttribute? {u : Text} (hu : ∀ c ∈ u.getLast?, c = '\n') (b : Text) :
    Reads findAttribute? b u := by
  induction u with
  | nil =>
    cases h : findAttribute? b with
    | none =>
      apply Reads.silent h
      intro c hc
      rcases mem_closers hc with rfl | ⟨q, rfl, -⟩
      · exact findAttribute?_nil
      · have hq : attribute? [q] = none := attribute?_of_none
          (by simp [valueStart?, stripLetters?, attributeName])
        rw [List.nil_append, findAttribute?_cons, hq]
        simp [findAttribute?_nil]
    | some r => exact .beyond r.1 r.2 h (List.nil_prefix)
  | cons c u ih =>
    have hlast : (c :: u).getLast? = some '\n' := by
      cases hd : (c :: u).getLast? with
      | none => simp at hd
      | some d => rw [hu d hd]
    have htail : ∀ d ∈ u.getLast?, d = '\n' := by
      intro d hd
      cases u with
      | nil => simp at hd
      | cons x u => exact hu d (by simpa using hd)
    have hsome {x : Text} {found : ImageTag × Text} (h : attribute? (c :: u ++ x) = some found) :
        findAttribute? (c :: u ++ x) = some found := by
      rw [List.cons_append] at h ⊢
      rw [findAttribute?_cons, h]
    cases reads_attribute? hlast b with
    | silent hb hC =>
      by_cases hc : c = '>'
      · have hnone {x : Text} (h : attribute? (c :: u ++ x) = none) : findAttribute? (c :: u ++ x) = none := by
          rw [List.cons_append] at h ⊢
          rw [findAttribute?_cons, h]
          simp [hc]
        exact .silent (hnone hb) fun c' hc' => hnone (hC c' hc')
      · apply (ih htail).behind [c]
        intro x hx
        have hnone : attribute? (c :: (u ++ x)) = none := by
          rcases List.mem_cons.1 hx with rfl | hx
          · exact hb
          · exact hC x hx
        change findAttribute? (c :: (u ++ x)) = _
        rw [findAttribute?_cons, hnone]
        simp only [if_neg hc]
        rfl
    | inside tag u' hb hC => exact .inside tag u' (hsome hb) fun c hc => hsome (hC c hc)
    | across before value more rest q hu hne hb hq hC =>
      exact .across before value more rest q hu hne (hsome hb) hq (hsome hC)
    | beyond tag rest hb hu => exact .beyond tag rest (hsome hb) hu

theorem matcher_spelled {w : Text} (hw : Spells tagName w) (t : Text) :
    matcher ('<' :: (w ++ t)) =
      if t.head?.any Text.isWord then none else (findAttribute? t).map (behind ('<' :: w)) := by
  have htake : (w ++ t).take 3 = w := by
    rw [show 3 = w.length from List.Forall₂.length_eq hw, List.take_left]
  rw [matcher, stripLetters?_eq_some_iff.2 ⟨w, hw, rfl⟩]
  simp only [htake]
  rfl

theorem reads_matcher {u : Text} (hu : u.getLast? = some '\n') (b : Text) : Reads matcher b u := by
  cases u with
  | nil => simp at hu
  | cons c u =>
    by_cases hc : c = '<'
    · subst hc
      have hnewline : '\n' ∈ u := by
        cases u with
        | nil => simp at hu
        | cons d u => exact List.mem_of_getLast? (by simpa using hu)
      have hstrip (x : Text) : stripLetters? tagName (u ++ x) =
          (stripLetters? tagName u).map (· ++ x) := stripLetters?_append (by decide) hnewline x
      cases ht : stripLetters? tagName u with
      | none =>
        have hnone (x : Text) : matcher ('<' :: u ++ x) = none := by
          rw [List.cons_append, matcher, hstrip, ht]
          rfl
        exact .silent (hnone b) fun c _ => hnone c
      | some t =>
        obtain ⟨w, hspells, rfl⟩ := stripLetters?_eq_some_iff.1 ht
        have hne : t ≠ [] := by
          rintro rfl
          obtain ⟨set, hset, hn⟩ := hspells.exists_mem (by simpa using hnewline)
          revert hn
          revert set
          decide
        obtain ⟨d, t, rfl⟩ := List.exists_cons_of_ne_nil hne
        have hread (x : Text) : matcher ('<' :: (w ++ d :: t) ++ x) = if Text.isWord d then none
            else (findAttribute? (d :: t ++ x)).map (behind ('<' :: w)) := by
          rw [List.cons_append, List.append_assoc, matcher_spelled hspells]
          rfl
        by_cases hd : Text.isWord d
        · exact .silent (by rw [hread, if_pos hd]) fun c _ => by rw [hread, if_pos hd]
        · have hlast : (d :: t).getLast? = some '\n' := by
            rw [← hu]
            exact Text.getLast?_of_suffix ⟨'<' :: w, rfl⟩ (by simp)
          refine (reads_findAttribute? (fun c hc => ?_) b).behind ('<' :: w) fun x _ => ?_
          · exact Option.some.inj (hc.symm.trans hlast)
          · exact (hread x).trans (if_neg hd)
    · have hnone (x : Text) : matcher (c :: u ++ x) = none := by
        unfold matcher
        split
        · simp_all
        · rfl
      exact .silent (hnone b) fun c _ => hnone c

def rooted (source : Text) (tag : ImageTag) : Text :=
  match Image.normalize tag.source with
  | some path => tag.before ++ path ++ [tag.quote]
  | none => source

theorem rooted_cases {w rest : Text} {tag : ImageTag} (h : matcher (w ++ rest) = some (tag, rest)) :
    w = tag.before ++ tag.source ++ [tag.quote] ∧ (rooted w tag = w ∨ tag.source.head? ≠ some '/' ∧
      tag.quote ∉ Image.dropParents tag.source ∧
        rooted w tag = tag.before ++ '/' :: Image.dropParents tag.source ++ [tag.quote]) := by
  have hfits := fits_matcher h
  have hw : w = tag.before ++ tag.source ++ [tag.quote] :=
    List.append_cancel_right (hfits.eq.trans (by simp))
  refine ⟨hw, ?_⟩
  unfold rooted
  cases hn : Image.normalize tag.source with
  | none => exact .inl rfl
  | some path =>
    obtain ⟨hhead, rfl⟩ := normalize_eq_some hn
    obtain ⟨parents, hs, -⟩ := dropParents_suffix tag.source
    exact .inr ⟨hhead, fun hm => hfits.not_mem (hs ▸ List.mem_append_right parents hm), rfl⟩

theorem eq_or_incomparable {w rest : Text} {tag : ImageTag}
    (h : matcher (w ++ rest) = some (tag, rest)) :
    rooted w tag = w ∨ (¬ rooted w tag <+: w ∧ ¬ w <+: rooted w tag) := by
  have hfits := fits_matcher h
  obtain ⟨hw, heq | ⟨-, hmem, hr⟩⟩ := rooted_cases h
  · exact .inl heq
  · have hslash : tag.quote ∉ '/' :: Image.dropParents tag.source := by
      have : tag.quote ≠ '/' := by rcases hfits.quote with hq | hq <;> rw [hq] <;> decide
      simp [this, hmem]
    rw [hr, hw]
    exact Text.eq_or_incomparable hslash hfits.not_mem tag.before []

theorem normalize_append_eq_none {s : Text} (h : Image.normalize s = none) (t : Text) :
    Image.normalize (s ++ t) = none := by
  have hstart {pre : Text} (h : Text.startsWith s pre) : Text.startsWith (s ++ t) pre :=
    List.isPrefixOf_iff_prefix.2 ((List.isPrefixOf_iff_prefix.1 h).trans (List.prefix_append s t))
  have hscheme (h : Url.hasScheme s) : Url.hasScheme (s ++ t) := by
    unfold Url.hasScheme at h ⊢
    split at h
    · rename_i c rest after hs
      obtain ⟨heq, hmem⟩ := Text.splitOnce?_eq_some.1 hs
      have hst : Text.splitOnce? ':' (s ++ t) = some (c :: rest, after ++ t) :=
        Text.splitOnce?_eq_some.2 ⟨by simp [heq], hmem⟩
      rw [hst]
      exact h
    · contradiction
  unfold Image.normalize Url.isExternal at h ⊢
  split_ifs at h with hif
  apply if_pos
  simp only [Bool.or_eq_true] at hif ⊢
  rcases hif with hif | hif | hif
  · exact .inl (hstart hif)
  · exact .inr (.inl (hstart hif))
  · exact .inr (.inr (hscheme hif))

theorem agrees_matcher {u : Text} (hu : u.getLast? = some '\n') (b : Text) :
    Text.Agrees matcher rooted (closers b) b u := by
  cases reads_matcher hu b with
  | silent hb hC => exact .silent hb hC
  | inside tag u' hb hC =>
    have hw : u = tag.before ++ tag.source ++ [tag.quote] ++ u' :=
      List.append_cancel_right ((fits_matcher hb).eq.trans (by simp))
    exact .inside _ u' tag (by simp) hw hb hC
  | across before value more rest q hu hne hb hq hC =>
    refine .across (before ++ (value ++ more) ++ [q]) rest _ (by simp)
      ((fits_matcher hb).eq.trans (by simp)) hb fun hfix => ?_
    have hsource : rooted (u ++ [q]) ⟨before, value, q⟩ = u ++ [q] := by
      have hr : Text.replaceAll matcher rooted (u ++ [q] ++ []) =
          rooted (u ++ [q]) ⟨before, value, q⟩ ++ Text.replaceAll matcher rooted [] :=
        Text.replaceAll_of_some (by simp) (by rw [List.append_nil]; exact hC)
      rw [List.append_nil, hfix _ hq] at hr
      simpa using hr.symm
    have hnone : Image.normalize value = none := by
      cases hn : Image.normalize value with
      | none => rfl
      | some path =>
        obtain ⟨hhead, rfl⟩ := normalize_eq_some hn
        simp only [rooted, hn, hu] at hsource
        have hvalue := List.append_cancel_left (List.append_cancel_right hsource)
        exact absurd (by rw [← hvalue]; rfl) hhead
    simp only [rooted, normalize_append_eq_none hnone more]
    exact ⟨more ++ [q], by simp [hu]⟩
  | beyond tag rest hb hu =>
    refine .across (tag.before ++ tag.source ++ [tag.quote]) rest tag (by simp)
      ((fits_matcher hb).eq.trans (by simp)) hb fun _ => ?_
    unfold rooted
    cases Image.normalize tag.source with
    | none => simpa using hu.trans (List.prefix_append _ _)
    | some path => simpa using hu.trans (List.prefix_append _ _)

/-- Lines that stay as they are, whichever quotes follow, stay so in front of any text with no other
quotes. -/
theorem convert_append {a b : Text} (ha : a.getLast? = some '\n')
    (hfix : ∀ c ∈ closers b, convert (a ++ c) = a ++ c) : ∃ b', convert (a ++ b) = a ++ b' :=
  Text.replaceAll_append_of_agrees (by simp [closers])
    (fun _ _ _ h => eq_or_incomparable h)
    (fun _ hu hne => agrees_matcher ((Text.getLast?_of_suffix hu hne).trans ha) b) hfix

end ImageTag

end Markdown

end DocsMigration
