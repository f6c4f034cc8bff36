import DocsMigration.Proofs.Emission
/-! How the text written for a mapping ends. It ends in the text of the scalar that is written last,
and the line feed behind it; a string without quotes or in a literal block ends as the string itself
does, and any other scalar in a visible sign. So that scalar alone tells whether trimming the text
takes more than the last line feed. -/

namespace DocsMigration

namespace Yaml

namespace Layout

mutual

/-- The scalar or empty collection that is written last. -/
def lastPart : Value → Value
  | .tagged _ v => lastPart v
  | .sequence xs => lastItem (.sequence []) xs
  | .mapping es => lastValue (.mapping []) es
  | v => v
termination_by structural v => v

def lastItem (v : Value) : List Value → Value
  | [] => v
  | x :: rest => lastItem (lastPart x) rest
termination_by structural vs => vs

def lastValue (v : Value) : List (Value × Value) → Value
  | [] => v
  | e :: rest => lastValue (lastPartOf e) rest
termination_by structural es => es

def lastPartOf : Value × Value → Value
  | (_, v) => lastPart v
termination_by structural e => e

end

/-- A text that ends in the text of a scalar, behind a space. -/
def EndsIn (v : Value) (s : Text) : Prop :=
  ∃ pre indent t, flatText? indent false v = some t ∧ s = pre ++ ' ' :: t

theorem EndsIn.append {v : Value} {s : Text} (h : EndsIn v s) (a : Text) : EndsIn v (a ++ s) := by
  obtain ⟨pre, indent, t, ht, rfl⟩ := h
  exact ⟨a ++ pre, indent, t, ht, by simp⟩

theorem endsIn_addParts {v : Value} {part : Text} {parts : List Text}
    (h : ∀ p ∈ (part :: parts).getLast?, EndsIn v p) (indent : Nat) (s : Text) :
    EndsIn v (addParts indent (s ++ part) parts) := by
  induction parts generalizing s part with
  | nil => exact (h part rfl).append s
  | cons p parts ih => exact ih (by simpa using h) _

theorem endsIn_stack {v : Value} {parts : List Text} (hne : parts ≠ [])
    (h : ∀ p ∈ parts.getLast?, EndsIn v p) (compact : Bool) (indent : Nat) (opening : Text) :
    EndsIn v (stack compact indent opening parts) := by
  obtain ⟨part, parts, rfl⟩ := List.exists_cons_of_ne_nil hne
  exact endsIn_addParts h _ _

mutual

theorem endsIn_behind (indent : Nat) (slot : Slot) (opening : Text) (v : Value) :
    EndsIn (lastPart v) (behind indent slot opening v) := by
  match v with
  | .tagged name v =>
    rw [behind, lastPart]
    exact endsIn_behind indent slot _ v
  | .sequence xs =>
    have hitems (n : Nat) := endsIn_items n (.sequence []) xs
    rw [behind, lastPart]
    cases xs with
    | nil => exact ⟨opening, 0, _, rfl, rfl⟩
    | cons x xs => exact endsIn_stack (by simp [items]) (hitems _) _ _ _
  | .mapping es =>
    have hentries (n : Nat) := endsIn_entries n (.mapping []) es
    rw [behind, lastPart]
    cases es with
    | nil => exact ⟨opening, 0, _, rfl, rfl⟩
    | cons e es => exact endsIn_stack (by simp [entries]) (hentries _) _ _ _
  | .null | .bool _ | .int _ | .float _ | .string _ =>
    simp only [behind, lastPart]
    exact ⟨opening, indent, _, rfl, rfl⟩

theorem endsIn_items (indent : Nat) (v : Value) (vs : List Value) :
    ∀ p ∈ (items indent vs).getLast?, EndsIn (lastItem v vs) p := by
  match vs with
  | [] => simp [items]
  | x :: xs =>
    have hx := endsIn_behind indent .afterDash ['-'] x
    have hrest := endsIn_items indent (lastPart x) xs
    cases xs with
    | nil => simpa [items, lastItem] using hx
    | cons y ys => simpa [items, lastItem] using hrest

theorem endsIn_entries (indent : Nat) (v : Value) (es : List (Value × Value)) :
    ∀ p ∈ (entries indent es).getLast?, EndsIn (lastValue v es) p := by
  match es with
  | [] => simp [entries]
  | e :: es =>
    have he := endsIn_entry indent e
    have hrest := endsIn_entries indent (lastPartOf e) es
    cases es with
    | nil => simpa [entries, lastValue] using he
    | cons f fs => simpa [entries, lastValue] using hrest

theorem endsIn_entry (indent : Nat) (e : Value × Value) : EndsIn (lastPartOf e) (entry indent e) := by
  match e with
  | (k, v) =>
    have hv (slot : Slot) (opening : Text) := endsIn_behind indent slot opening v
    rw [entry, lastPartOf]
    split_ifs
    · exact hv _ _
    · exact (hv _ _).append _

end

/-- Whether a text, up to one line feed at its end, ends in something else than whitespace. -/
def endsVisibly (s : Text) : Bool :=
  (if s.getLast? = some '\n' then s.dropLast else s).getLast?.any (!Text.isSpace ·)

/-- A scalar that is written without quotes or as a literal block shows how it ends. -/
def isSettled : Value → Bool
  | .string s =>
    match style s with
    | .plain => endsVisibly s
    | .literal => endsVisibly s
    | _ => true
  | _ => true

/-- Text that is trimmed and given one line feed is the text that was written, each line ended. -/
def Sealed (s : Text) : Prop := Text.trimEnd (freshLine 0 s) ++ ['\n'] = freshLine 0 s

theorem trimEnd_concat (s : Text) (c : Char) :
    Text.trimEnd (s ++ [c]) = if Text.isSpace c then Text.trimEnd s else s ++ [c] := by
  unfold Text.trimEnd
  split_ifs with h <;> simp [h]

theorem isSpace_of_isBreakChar {c : Char} (h : isBreakChar c) : Text.isSpace c := by
  simp only [isBreakChar, Bool.or_eq_true, beq_iff_eq] at h
  rcases h with (((rfl | rfl) | rfl) | rfl) | rfl <;> decide

theorem trimEnd_concat_eq_self_iff (s : Text) (c : Char) :
    Text.trimEnd (s ++ [c]) = s ++ [c] ↔ ¬ Text.isSpace c := by
  rw [trimEnd_concat]
  refine ⟨fun h hc => ?_, fun hc => by rw [if_neg hc]⟩
  rw [if_pos hc] at h
  have hle : (Text.trimEnd s).length ≤ s.length := by
    simpa [Text.trimEnd] using (List.dropWhile_suffix (l := s.reverse) Text.isSpace).length_le
  rw [h, List.length_append, List.length_singleton] at hle
  omega

theorem sealed_concat_iff (s : Text) (c : Char) :
    Sealed (s ++ [c]) ↔
      if isBreakChar c then c = '\n' ∧ Text.trimEnd s = s else ¬ Text.isSpace c := by
  have hconcat (a b : Text) (d : Char) : a ++ ['\n'] = b ++ [d] ↔ d = '\n' ∧ a = b := by
    constructor
    · intro h
      obtain ⟨h1, h2⟩ := List.append_inj' h rfl
      exact ⟨(List.cons.inj h2).1.symm, h1⟩
    · rintro ⟨rfl, rfl⟩
      rfl
  unfold Sealed freshLine
  rw [List.getLast?_concat, spaces, List.replicate_zero, List.append_nil, Option.any_some]
  by_cases h : isBreakChar c
  · rw [if_pos h, if_pos h, trimEnd_concat, if_pos (isSpace_of_isBreakChar h), hconcat]
  · rw [if_neg h, if_neg h, trimEnd_concat, if_pos (by decide), hconcat, trimEnd_concat_eq_self_iff]
    simp

theorem literalBody_concat_break {c : Char} (hc : isBreakChar c) (n : Nat) (broken : Bool) (s : Text) :
    literalBody n broken (s ++ [c]) = literalBody n broken s ++ [c] := by
  induction s generalizing broken with
  | nil => simp [literalBody, hc]
  | cons d s ih =>
    rw [List.cons_append, literalBody, literalBody]
    split_ifs <;> simp [ih]

theorem exists_literalBody_concat (n : Nat) (broken : Bool) (s : Text) (c : Char) :
    ∃ t, literalBody n broken (s ++ [c]) = t ++ [c] := by
  induction s generalizing broken with
  | nil =>
    rw [List.nil_append, literalBody]
    split_ifs
    · exact ⟨[], rfl⟩
    · exact ⟨spaces n, rfl⟩
    · exact ⟨[], rfl⟩
  | cons d s ih =>
    rw [List.cons_append, literalBody]
    split_ifs with hd
    · obtain ⟨t, ht⟩ := ih true
      exact ⟨d :: t, by rw [ht]; rfl⟩
    all_goals
      obtain ⟨t, ht⟩ := ih false
      rw [ht]
    · exact ⟨spaces n ++ d :: t, by simp⟩
    · exact ⟨d :: t, rfl⟩

theorem sealed_of_isGraphic (pre t : Text) {c : Char} (hc : IsGraphic c) :
    Sealed (pre ++ ' ' :: (t ++ [c])) := by
  have hspace := hc.not_isSpace
  have hbreak : ¬ isBreakChar c := fun h => hspace (isSpace_of_isBreakChar h)
  rw [← List.cons_append, ← List.append_assoc, sealed_concat_iff, if_neg hbreak]
  exact hspace

theorem sealed_graphicText {t : Text} (ht : GraphicText t) (pre : Text) : Sealed (pre ++ ' ' :: t) := by
  obtain ⟨s, c, rfl⟩ := (List.eq_nil_or_concat' t).resolve_left ht.ne_nil
  have hc : IsGraphic c := ht.graphic c (by simp)
  exact sealed_of_isGraphic pre s hc

theorem endsVisibly_newline (s : Text) :
    endsVisibly (s ++ ['\n']) = s.getLast?.any (!Text.isSpace ·) := by
  simp [endsVisibly]

theorem endsVisibly_concat (s : Text) {c : Char} (hc : c ≠ '\n') :
    endsVisibly (s ++ [c]) = !Text.isSpace c := by
  simp [endsVisibly, hc]

theorem sealed_plain {s : Text} (hs : style s = .plain) (pre : Text) :
    Sealed (pre ++ ' ' :: s) ↔ endsVisibly s := by
  have hne : s ≠ [] := by
    rintro rfl
    revert hs
    decide
  obtain ⟨t, c, rfl⟩ := (List.eq_nil_or_concat' s).resolve_left hne
  have hbreak : ¬ isBreakChar c := not_isBreakChar_of_plain hs c (by simp)
  have hnl : c ≠ '\n' := by
    rintro rfl
    exact hbreak (by decide)
  rw [← List.cons_append, ← List.append_assoc, sealed_concat_iff, if_neg hbreak,
    endsVisibly_concat t hnl]
  simp

theorem sealed_literal (indent : Nat) {s : Text} (hs : s ≠ []) (pre : Text) :
    Sealed (pre ++ '\n' :: literalBody indent true s) ↔ endsVisibly s := by
  obtain ⟨t, c, rfl⟩ := (List.eq_nil_or_concat' s).resolve_left hs
  by_cases hbreak : isBreakChar c
  · rw [literalBody_concat_break hbreak, ← List.cons_append, ← List.append_assoc, sealed_concat_iff,
      if_pos hbreak]
    by_cases hnl : c = '\n'
    · subst hnl
      rw [endsVisibly_newline]
      rcases List.eq_nil_or_concat' t with rfl | ⟨t, d, rfl⟩
      · have hspace : Text.isSpace '\n' := by decide
        simp [literalBody, trimEnd_concat_eq_self_iff, hspace]
      · obtain ⟨u, hu⟩ := exists_literalBody_concat indent true t d
        rw [hu, ← List.cons_append, ← List.append_assoc, trimEnd_concat_eq_self_iff]
        simp
    · rw [endsVisibly_concat t hnl]
      simp [hnl, isSpace_of_isBreakChar hbreak]
  · obtain ⟨u, hu⟩ := exists_literalBody_concat indent true t c
    have hnl : c ≠ '\n' := by
      rintro rfl
      exact hbreak (by decide)
    rw [hu, ← List.cons_append, ← List.append_assoc, sealed_concat_iff, if_neg hbreak,
      endsVisibly_concat t hnl]
    simp

/-- The text that ends in a scalar survives trimming if and only if the scalar shows how it ends. -/
theorem EndsIn.sealed_iff {v : Value} {s : Text} (h : EndsIn v s) : Sealed s ↔ isSettled v := by
  obtain ⟨pre, indent, t, ht, rfl⟩ := h
  by_cases hv : ∃ s, v = .string s
  · obtain ⟨s, rfl⟩ := hv
    obtain rfl := Option.some.inj ht
    simp only [stringText, isSettled]
    cases hs : style s with
    | plain => exact sealed_plain hs pre
    | single =>
      have hquote : IsGraphic '\'' := by decide
      simpa [hs] using sealed_of_isGraphic pre ('\'' :: singleBody (indent + 2) false s) hquote
    | double =>
      have hquote : IsGraphic '"' := by decide
      simpa [hs] using sealed_of_isGraphic pre ('"' :: doubleBody s) hquote
    | literal =>
      have hne : s ≠ [] := by
        rintro rfl
        revert hs
        decide
      have := sealed_literal (indent + 2) hne (pre ++ ' ' :: '|' :: literalHints s)
      simpa using this
  · have hv : ∀ s, v ≠ .string s := fun s hs => hv ⟨s, hs⟩
    have hsettled : isSettled v := by
      unfold isSettled
      split
      · exact absurd rfl (hv _)
      · rfl
    exact iff_of_true (sealed_graphicText (graphicText_flatText ht hv) pre) hsettled

end Layout

open Layout

/-- Trimming takes nothing but the last line feed from a written mapping if and only if the scalar
that is written last shows how it ends. -/
theorem trimEnd_render_iff (m : Mapping) :
    Text.trimEnd (render m) ++ ['\n'] = render m ↔ isSettled (lastPart (.mapping m)) := by
  cases m with
  | nil => exact iff_of_true (by decide) rfl
  | cons e m =>
    rw [render_cons]
    exact (endsIn_addParts (endsIn_entries 0 (.mapping []) (e :: m)) 0 []).sealed_iff

end Yaml

end DocsMigration
