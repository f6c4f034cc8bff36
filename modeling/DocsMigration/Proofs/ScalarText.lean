import DocsMigration.Proofs.Cuts
import DocsMigration.Text.Whitespace
import DocsMigration.Yaml.Layout
/-! The texts of scalars, as far as the lines they are written on are concerned. No text of a scalar
starts like a document marker, nor does any further line of it. Strings are the danger, for their text
is the author's; but only a literal block spreads over several lines, and it indents each of them. -/

namespace DocsMigration

namespace Yaml

def marker : Text := "---".toList

def Inside (s : Text) : Prop := ¬ '\n' :: marker <:+: s

/-- No line starts like a document marker. -/
def Unmarked (s : Text) : Prop := ¬ marker <+: s ∧ Inside s

theorem inside_of_not_mem {s : Text} (h : '\n' ∉ s) : Inside s := fun hi =>
  h (hi.subset List.mem_cons_self)

theorem inside_append {a b : Text} (ha : Inside a) (hb : Inside b) (hd : b.head? ≠ some '-') :
    Inside (a ++ b) := by
  intro h
  rcases List.infix_append_iff_ne_nil.1 h with h | h | ⟨p, q, hp, hq, hpq, -, hqb⟩
  · exact ha h
  · exact hb h
  · obtain ⟨c, p, rfl⟩ := List.exists_cons_of_ne_nil hp
    obtain ⟨d, q, rfl⟩ := List.exists_cons_of_ne_nil hq
    obtain ⟨b, rfl⟩ := hqb
    have hmem : d ∈ marker := by
      rw [(List.cons.inj hpq).2]
      simp
    simp_all [marker]

theorem inside_cons {c : Char} {s : Text} (hc : c ≠ '\n') (h : Inside s) : Inside (c :: s) := by
  intro hi
  rcases List.infix_cons_iff.1 hi with hi | hi
  · rw [List.cons_prefix_cons] at hi
    exact hc hi.1.symm
  · exact h hi

theorem inside_newline {s : Text} (h : Unmarked s) : Inside ('\n' :: s) := by
  intro hi
  rcases List.infix_cons_iff.1 hi with hi | hi
  · rw [List.cons_prefix_cons] at hi
    exact h.1 hi.2
  · exact h.2 hi

theorem unmarked_of_head {s : Text} (hd : s.head? ≠ some '-') (h : Inside s) : Unmarked s := by
  refine ⟨?_, h⟩
  rintro ⟨t, rfl⟩
  exact hd rfl

namespace Layout

theorem unmarked_spaces {p : Text} (n : Nat) (h : Unmarked p) : Unmarked (spaces n ++ p) := by
  induction n with
  | zero => exact h
  | succ n ih =>
    rw [spaces, List.replicate_succ, List.cons_append]
    exact unmarked_of_head (by simp) (inside_cons (by decide) ih.2)

theorem exists_freshLine_eq (n : Nat) (s : Text) :
    ∃ t b, isBreakChar b ∧ t <+: s ∧ freshLine n s = t ++ b :: spaces n := by
  unfold freshLine
  split_ifs with h
  · obtain ⟨b, hb, hbreak⟩ := (Option.any_eq_true _ _).1 h
    obtain ⟨t, rfl⟩ := List.getLast?_eq_some_iff.1 hb
    exact ⟨t, b, hbreak, List.prefix_append _ _, by simp⟩
  · exact ⟨s, '\n', by decide, List.prefix_rfl, by simp⟩

theorem inside_freshLine {s p : Text} (n : Nat) (hs : Inside s) (hp : Unmarked p) :
    Inside (freshLine n s ++ p) := by
  obtain ⟨t, b, hb, ht, heq⟩ := exists_freshLine_eq n s
  have hsp := unmarked_spaces n hp
  rw [heq, List.append_assoc, List.cons_append]
  refine inside_append (fun hi => hs (hi.trans ht.isInfix)) ?_ ?_
  · by_cases h : b = '\n'
    · exact h ▸ inside_newline hsp
    · exact inside_cons h hsp.2
  · rintro ⟨⟩
    revert hb
    decide

theorem prefix_freshLine (n : Nat) (s : Text) : s <+: freshLine n s := by
  unfold freshLine
  split_ifs
  · exact List.prefix_append _ _
  · exact ⟨'\n' :: spaces n, by simp⟩

def IsGraphic (c : Char) : Prop := 0x21 ≤ c.toNat ∧ c.toNat ≤ 0x7E

instance (c : Char) : Decidable (IsGraphic c) := inferInstanceAs (Decidable (_ ∧ _))

theorem isGraphic_of_isDigit {c : Char} (h : c.isDigit) : IsGraphic c := by
  obtain ⟨h0, h9⟩ := Char.isDigit_iff_toNat.1 h
  exact ⟨le_trans (by decide) h0, le_trans h9 (by decide)⟩

theorem IsGraphic.not_isSpace {c : Char} (h : IsGraphic c) : ¬ Text.isSpace c := by
  obtain ⟨h1, h2⟩ := h
  simp only [Text.isSpace, Bool.or_eq_true, Bool.and_eq_true, decide_eq_true_eq, beq_iff_eq]
  omega

theorem exists_ofNat_eq (n : Nat) : ∃ c s, Text.ofNat n = c :: s ∧ ∀ d ∈ c :: s, d.isDigit := by
  obtain ⟨c, s, h⟩ := List.exists_cons_of_ne_nil (Nat.toDigits_ne_nil (n := n) (b := 10))
  exact ⟨c, s, h, fun d hd => Nat.isDigit_of_mem_toDigits (by decide) (by decide) (h ▸ hd)⟩

/-- A text of graphic characters that does not start like a document marker, as every number and
every word is written. -/
structure GraphicText (s : Text) : Prop where
  ne_nil : s ≠ []
  graphic : ∀ c ∈ s, IsGraphic c
  unmarked : ¬ marker <+: s

theorem graphicText_cons {c : Char} {s : Text} (hc : c.isDigit) (hs : ∀ d ∈ s, IsGraphic d)
    (negative : Bool) : GraphicText ((if negative then ['-'] else []) ++ c :: s) where
  ne_nil := by simp
  graphic := by
    intro d hd
    have := isGraphic_of_isDigit hc
    have : IsGraphic '-' := by decide
    cases negative <;> simp at hd <;> grind
  unmarked := by
    have hdash : c ≠ '-' := by
      rintro rfl
      revert hc
      decide
    cases negative <;> simp [marker, hdash.symm]

theorem isGraphic_of_mem_ofNat {n : Nat} {c : Char} (h : c ∈ Text.ofNat n) : IsGraphic c :=
  isGraphic_of_isDigit (Nat.isDigit_of_mem_toDigits (by decide) (by decide) h)

theorem isGraphic_of_mem_decimalText {d : ShortDecimal} {c : Char}
    (h : c ∈ Binary64.decimalText d) : IsGraphic c := by
  have hdigits : c ∈ Text.ofNat d.digits → IsGraphic c := isGraphic_of_mem_ofNat
  have htake (n : Nat) (hc : c ∈ (Text.ofNat d.digits).take n) : IsGraphic c :=
    hdigits (List.mem_of_mem_take hc)
  have hdrop (n : Nat) (hc : c ∈ (Text.ofNat d.digits).drop n) : IsGraphic c :=
    hdigits (List.mem_of_mem_drop hc)
  have hpower (n : Nat) : c ∈ Text.ofNat n → IsGraphic c := isGraphic_of_mem_ofNat
  have hsign : c = '0' ∨ c = '.' ∨ c = 'e' ∨ c = '-' → IsGraphic c := by
    rintro (rfl | rfl | rfl | rfl) <;> decide
  have hzeros (n : Nat) (hc : c ∈ List.replicate n '0') : IsGraphic c := by
    rw [List.eq_of_mem_replicate hc]
    decide
  simp only [Binary64.decimalText] at h
  split_ifs at h <;> simp [-List.drop_one] at h <;> grind

theorem exists_head?_decimalText (d : ShortDecimal) :
    ∃ c, (Binary64.decimalText d).head? = some c ∧ c.isDigit := by
  obtain ⟨c, s, hcs, hd⟩ := exists_ofNat_eq d.digits
  have hc : c.isDigit := hd c List.mem_cons_self
  simp only [Binary64.decimalText, hcs]
  split_ifs
  · exact ⟨c, rfl, hc⟩
  · refine ⟨c, ?_, hc⟩
    rw [List.head?_append, List.head?_take, if_neg (by omega)]
    rfl
  · exact ⟨'0', rfl, by decide⟩
  · exact ⟨c, rfl, hc⟩
  · exact ⟨c, rfl, hc⟩
  · exact ⟨c, rfl, hc⟩
  · exact ⟨c, rfl, hc⟩

theorem graphicText_of_digit {s : Text} (hs : ∀ c ∈ s, IsGraphic c)
    (hd : ∃ c, s.head? = some c ∧ c.isDigit) (negative : Bool) :
    GraphicText ((if negative then ['-'] else []) ++ s) := by
  obtain ⟨c, hc, hd⟩ := hd
  obtain ⟨t, rfl⟩ := List.head?_eq_some_iff.1 hc
  exact graphicText_cons hd (fun k hk => hs k (List.mem_cons_of_mem c hk)) negative

theorem graphicText_integerText (n : Int) : GraphicText (integerText n) := by
  obtain ⟨c, s, hcs, hd⟩ := exists_ofNat_eq n.natAbs
  have := graphicText_of_digit (s := Text.ofNat n.natAbs) (fun k => isGraphic_of_mem_ofNat)
    ⟨c, by rw [hcs]; rfl, hd c List.mem_cons_self⟩ (decide (n < 0))
  simpa [integerText] using this

theorem graphicText_text (x : Binary64) : GraphicText x.text := by
  cases x with
  | nan => exact ⟨by decide, Text.forall_mem_of_all (by decide), by decide⟩
  | infinite negative => cases negative <;> exact ⟨by decide, Text.forall_mem_of_all (by decide), by decide⟩
  | finite negative mantissa exponent =>
    rw [Binary64.text]
    by_cases h : mantissa = 0
    · rw [if_pos h]
      exact graphicText_of_digit (Text.forall_mem_of_all (by decide)) ⟨'0', rfl, rfl⟩ negative
    · rw [if_neg h]
      exact graphicText_of_digit (fun k => isGraphic_of_mem_decimalText)
        (exists_head?_decimalText _) negative

theorem inside_append_of_not_mem {a p : Text} (ha : '\n' ∉ a) (h : Inside p) : Inside (a ++ p) := by
  induction a with
  | nil => exact h
  | cons c a ih =>
    simp only [List.mem_cons, not_or] at ha
    exact inside_cons (Ne.symm ha.1) (ih ha.2)

theorem newline_not_mem_hexText (width n : Nat) : '\n' ∉ hexText width n := by
  have hdigits (n : Nat) : ∀ c ∈ Nat.toDigits 16 n, c.toUpper ≠ '\n' := by
    induction n using Nat.strong_induction_on with
    | _ n ih =>
      have hdigit : ∀ d < 16, (Nat.digitChar d).toUpper ≠ '\n' := by decide
      rw [Nat.toDigits_eq_if (by decide)]
      split_ifs with h
      · simpa using hdigit n h
      · intro c hc
        rcases List.mem_append.1 hc with hc | hc
        · exact ih (n / 16) (by omega) c hc
        · rw [List.mem_singleton.1 hc]
          exact hdigit _ (Nat.mod_lt _ (by decide))
  intro h
  rcases List.mem_append.1 h with h | h
  · exact absurd (List.eq_of_mem_replicate h) (by decide)
  · obtain ⟨c, hc, h⟩ := List.mem_map.1 h
    exact hdigits n c hc h

theorem newline_not_mem_escaped (c : Char) : '\n' ∉ escaped c := by
  have hshort : ∀ e ∈ shortEscapes, '\n' ≠ e.2 := by decide
  unfold escaped
  split
  · rename_i d hd
    obtain ⟨l, r, hl, -⟩ := List.lookup_eq_some_iff.1 hd
    have := hshort (c, d) (by simp [hl])
    simpa using this
  · split_ifs <;> simp [newline_not_mem_hexText]

theorem newline_not_mem_doubleBody (s : Text) : '\n' ∉ doubleBody s := by
  intro h
  obtain ⟨c, -, hc⟩ := List.mem_flatMap.1 h
  split_ifs at hc with hif
  · exact newline_not_mem_escaped c hc
  · rw [← List.mem_singleton.1 hc] at hif
    exact hif (by decide)

theorem newline_not_mem_singleBody {s : Text} (h : '\n' ∉ s) (indent : Nat) (broken : Bool) :
    '\n' ∉ singleBody indent broken s := by
  have hspaces (n : Nat) : '\n' ∉ spaces n := by simp [spaces]
  induction s generalizing broken with
  | nil => cases broken <;> simp [singleBody, hspaces]
  | cons c s ih =>
    simp only [List.mem_cons, not_or] at h
    rw [singleBody]
    split_ifs <;> simp_all

theorem newline_not_mem_of_style {s : Text} (h : style s = .plain ∨ style s = .single) :
    '\n' ∉ s := by
  intro hm
  have hany : s.any (· == '\n') := by simpa using hm
  simp only [style, hany, if_true] at h
  split_ifs at h <;> simp at h

theorem newline_not_mem_literalHints (s : Text) : '\n' ∉ literalHints s := by
  unfold literalHints
  simp only [List.mem_append, not_or]
  refine ⟨by split_ifs <;> simp, ?_⟩
  split
  · simp
  · split_ifs
    · simp
    · split
      · simp
      · split_ifs <;> simp

theorem head?_literalBody (n : Nat) (s : Text) :
    (literalBody (n + 1) true s).head? ≠ some '-' := by
  cases s with
  | nil => simp [literalBody]
  | cons c s =>
    rw [literalBody]
    by_cases hc : isBreakChar c
    · rw [if_pos hc]
      rintro ⟨⟩
      revert hc
      decide
    · rw [if_neg hc, if_pos rfl]
      simp [spaces, List.replicate_succ]

theorem inside_literalBody (n : Nat) (broken : Bool) (s : Text) :
    Inside (literalBody (n + 1) broken s) := by
  induction s generalizing broken with
  | nil => exact inside_of_not_mem (by simp [literalBody])
  | cons c s ih =>
    rw [literalBody]
    by_cases hc : isBreakChar c
    · rw [if_pos hc]
      by_cases h : c = '\n'
      · exact h ▸ inside_newline (unmarked_of_head (head?_literalBody n s) (ih true))
      · exact inside_cons h (ih true)
    · rw [if_neg hc]
      have hnl : c ≠ '\n' := by
        rintro rfl
        exact hc (by decide)
      refine inside_append_of_not_mem ?_ (inside_cons hnl (ih false))
      cases broken <;> simp [spaces]

theorem allowsPlain_of_style {s : Text} (h : style s = .plain) : (features s).allowsPlain := by
  simp only [style] at h
  split_ifs at h
  simp_all

theorem not_marker_prefix_of_plain {s : Text} (h : style s = .plain) : ¬ marker <+: s := by
  intro hp
  have hstart : Text.startsWith s marker := List.isPrefixOf_iff_prefix.2 hp
  have hi : (features s).indicators := by
    change (Text.startsWith s marker || Text.startsWith s "...".toList || _) = true
    rw [hstart]
    rfl
  have := allowsPlain_of_style h
  simp_all [Features.allowsPlain]

theorem not_isBreakChar_of_plain {s : Text} (h : style s = .plain) : ∀ c ∈ s, ¬ isBreakChar c := by
  intro c hc hb
  have hlines : (features s).severalLines := List.any_eq_true.2 ⟨c, hc, hb⟩
  have := allowsPlain_of_style h
  simp_all [Features.allowsPlain]

theorem unmarked_stringText (indent : Nat) (isKey : Bool) (s : Text) :
    Unmarked (stringText indent isKey s) := by
  unfold stringText
  split
  · rename_i h
    exact ⟨not_marker_prefix_of_plain h, inside_of_not_mem (newline_not_mem_of_style (.inl h))⟩
  · rename_i h
    have := newline_not_mem_singleBody (newline_not_mem_of_style (.inr h)) (indent + 2) false
    have := newline_not_mem_doubleBody s
    split_ifs <;> exact unmarked_of_head (by simp) (inside_of_not_mem (by simp_all))
  · have := newline_not_mem_doubleBody s
    exact unmarked_of_head (by simp) (inside_of_not_mem (by simp_all))
  · have := newline_not_mem_literalHints s
    rw [List.cons_append]
    refine unmarked_of_head (by simp) (inside_cons (by decide) (inside_append_of_not_mem this ?_))
    exact inside_newline (unmarked_of_head (head?_literalBody _ s) (inside_literalBody _ true s))

theorem GraphicText.unmarkedText {s : Text} (h : GraphicText s) : Unmarked s := by
  refine ⟨h.unmarked, inside_of_not_mem fun hm => ?_⟩
  exact absurd (h.graphic _ hm) (by decide)

theorem graphicText_flatText {indent : Nat} {isKey : Bool} {v : Value} {t : Text}
    (h : flatText? indent isKey v = some t) (hv : ∀ s, v ≠ .string s) : GraphicText t := by
  unfold flatText? at h
  split at h
  case h_5 s => exact absurd rfl (hv s)
  case h_8 => contradiction
  all_goals obtain rfl := Option.some.inj h
  case h_2 b => cases b <;> exact ⟨by decide, Text.forall_mem_of_all (by decide), by decide⟩
  case h_3 n => exact graphicText_integerText n
  case h_4 x => exact graphicText_text x
  all_goals exact ⟨by decide, Text.forall_mem_of_all (by decide), by decide⟩

theorem unmarked_flatText (indent : Nat) (isKey : Bool) (v : Value) :
    Unmarked ((flatText? indent isKey v).getD []) := by
  cases h : flatText? indent isKey v with
  | none => exact unmarked_of_head (by simp) (inside_of_not_mem (by simp))
  | some t =>
    by_cases hv : ∃ s, v = .string s
    · obtain ⟨s, rfl⟩ := hv
      obtain rfl := Option.some.inj h
      exact unmarked_stringText indent isKey s
    · exact (graphicText_flatText h fun s hs => hv ⟨s, hs⟩).unmarkedText

theorem newline_not_mem_tagText (name : Text) : '\n' ∉ tagText name := by
  have hchars (s : Text) : '\n' ∉ tagChars s := by
    intro h
    obtain ⟨c, -, hc⟩ := List.mem_flatMap.1 h
    split_ifs at hc with htag
    · rw [← List.mem_singleton.1 hc] at htag
      revert htag
      decide
    · obtain ⟨n, -, hn⟩ := List.mem_flatMap.1 hc
      have := newline_not_mem_hexText 2 n
      simp_all
  unfold tagText
  split_ifs
  · decide
  · split
    · simpa using hchars _
    · simpa using hchars _

end Layout

end Yaml

end DocsMigration
