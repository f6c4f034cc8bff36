import DocsMigration.Proofs.ScalarText
/-! What the text written for a mapping looks like line by line. Whatever starts a line there is a key,
a sign with a blank behind it, or indentation, so no line starts like a document marker, and the text
can be put between two of them. -/

namespace DocsMigration

namespace Yaml

namespace Layout

/-- A text that may start a line wherever it stands, whatever is written behind it. -/
structure Startable (p : Text) : Prop where
  unmarked : Unmarked p
  /-- It is more than a part of a marker. -/
  sign : ∃ c ∈ p, c ≠ '-'

theorem Startable.of_prefix {p s : Text} (hp : Startable p) (hps : p <+: s) (hs : Inside s) :
    Startable s := by
  obtain ⟨c, hc, hne⟩ := hp.sign
  refine ⟨⟨fun hm => ?_, hs⟩, c, hps.subset hc, hne⟩
  rcases List.prefix_or_prefix_of_prefix hm hps with h | h
  · exact hp.unmarked.1 h
  · have := h.subset hc
    simp_all [marker]

def addParts (indent : Nat) (s : Text) (parts : List Text) : Text :=
  parts.foldl (fun s p => freshLine indent s ++ p) s

theorem inside_addParts {indent : Nat} {s : Text} {parts : List Text} (hs : Inside s)
    (hp : ∀ p ∈ parts, Startable p) : Inside (addParts indent s parts) := by
  induction parts generalizing s with
  | nil => exact hs
  | cons p parts ih =>
    have hline := inside_freshLine indent hs (hp p List.mem_cons_self).unmarked
    exact ih hline fun q hq => hp q (List.mem_cons_of_mem p hq)

theorem prefix_addParts (indent : Nat) (s : Text) (parts : List Text) :
    s <+: addParts indent s parts := by
  induction parts generalizing s with
  | nil => exact List.prefix_rfl
  | cons p parts ih =>
    exact ((prefix_freshLine indent s).trans (List.prefix_append _ _)).trans (ih _)

theorem stack_eq_addParts (compact : Bool) (indent : Nat) (opening part : Text) (parts : List Text) :
    stack compact indent opening (part :: parts) =
      addParts indent ((if compact then opening ++ [' '] else freshLine indent opening) ++ part)
        parts := rfl

theorem prefix_stack (compact : Bool) (indent : Nat) (opening : Text) (parts : List Text) :
    opening <+: stack compact indent opening parts := by
  cases parts with
  | nil => exact List.prefix_rfl
  | cons part parts =>
    rw [stack_eq_addParts]
    refine List.IsPrefix.trans ?_ (prefix_addParts _ _ _)
    split_ifs
    · exact ⟨' ' :: part, by simp⟩
    · exact (prefix_freshLine _ _).trans (List.prefix_append _ _)

theorem inside_stack {compact : Bool} {indent : Nat} {opening : Text} {parts : List Text}
    (ho : Inside opening) (hp : ∀ p ∈ parts, Startable p) :
    Inside (stack compact indent opening parts) := by
  cases parts with
  | nil => exact ho
  | cons part parts =>
    rw [stack_eq_addParts]
    have hpart := (hp part List.mem_cons_self).unmarked
    refine inside_addParts ?_ fun q hq => hp q (List.mem_cons_of_mem part hq)
    split_ifs
    · rw [List.append_assoc]
      exact inside_append ho (inside_cons (by decide) hpart.2) (by simp)
    · exact inside_freshLine _ ho hpart

theorem prefix_behind (indent : Nat) (slot : Slot) (opening : Text) (v : Value) :
    opening <+: behind indent slot opening v := by
  match v with
  | .tagged name v =>
    rw [behind]
    exact (List.prefix_append _ _).trans (prefix_behind indent slot _ v)
  | .sequence xs =>
    rw [behind]
    split_ifs
    · exact List.prefix_append _ _
    all_goals exact prefix_stack _ _ _ _
  | .mapping es =>
    rw [behind]
    split_ifs
    · exact List.prefix_append _ _
    · exact prefix_stack _ _ _ _
  | .null | .bool _ | .int _ | .float _ | .string _ =>
    simp only [behind]
    exact List.prefix_append _ _

theorem inside_blank {a b : Text} (ha : Inside a) (hb : Inside b) : Inside (a ++ ' ' :: b) :=
  inside_append ha (inside_cons (by decide) hb) (by simp)

theorem dash_prefix_behind (indent : Nat) (v : Value) :
    ['-', ' '] <+: behind indent .afterDash ['-'] v := by
  have hstack (n : Nat) (part : Text) (parts : List Text) :
      ['-', ' '] <+: stack true n ['-'] (part :: parts) :=
    List.IsPrefix.trans (List.prefix_append _ part) (prefix_addParts _ _ _)
  cases v with
  | tagged name v => exact List.IsPrefix.trans ⟨tagText name, rfl⟩ (prefix_behind _ _ _ v)
  | sequence xs =>
    cases xs with
    | nil => exact ⟨"[]".toList, rfl⟩
    | cons x xs => exact hstack _ _ _
  | mapping es =>
    cases es with
    | nil => exact ⟨"\x7b\x7d".toList, rfl⟩
    | cons e es => exact hstack _ _ _
  | _ => exact ⟨_, rfl⟩

theorem startable_colon {k : Text} (hk : Unmarked k) : Startable (k ++ [':']) := by
  refine ⟨⟨fun h => ?_, inside_append hk.2 (inside_of_not_mem (by decide)) (by decide)⟩,
    ':', by simp, by decide⟩
  rcases List.prefix_concat_iff.1 h with h | h
  · have : ':' ∈ marker := by simp [h]
    exact absurd this (by decide)
  · exact hk.1 h

theorem unmarked_simpleKeyText (indent : Nat) (k : Value) : Unmarked (simpleKeyText indent k) := by
  have hflat := unmarked_flatText indent true
  unfold simpleKeyText
  cases k with
  | tagged name v =>
    have := newline_not_mem_tagText name
    have hhead : (tagText name).head? = some '!' := by
      unfold tagText
      split_ifs
      · rfl
      · split <;> rfl
    obtain ⟨t, ht⟩ := List.head?_eq_some_iff.1 hhead
    refine unmarked_of_head ?_ (inside_append_of_not_mem ?_ (hflat v).2)
    · simp [splitTag, ht]
    · simpa [splitTag] using this
  | _ =>
    simp only [splitTag, List.isEmpty_nil, if_true, List.nil_append]
    exact hflat _

mutual

theorem inside_behind (indent : Nat) (slot : Slot) {opening : Text} (ho : Inside opening)
    (v : Value) : Inside (behind indent slot opening v) := by
  match v with
  | .tagged name v =>
    rw [behind]
    have htag := inside_of_not_mem (newline_not_mem_tagText name)
    exact inside_behind indent slot (inside_blank ho htag) v
  | .sequence xs =>
    rw [behind]
    split_ifs
    · exact inside_blank ho (inside_of_not_mem (by decide))
    all_goals exact inside_stack ho (startable_items _ xs)
  | .mapping es =>
    rw [behind]
    split_ifs
    · exact inside_blank ho (inside_of_not_mem (by decide))
    · exact inside_stack ho (startable_entries _ es)
  | .null | .bool _ | .int _ | .float _ | .string _ =>
    simp only [behind]
    exact inside_blank ho (unmarked_flatText _ _ _).2

theorem startable_items (indent : Nat) (vs : List Value) : ∀ p ∈ items indent vs, Startable p := by
  match vs with
  | [] => simp [items]
  | v :: vs =>
    have hi := inside_behind indent .afterDash (inside_of_not_mem (s := ['-']) (by decide)) v
    have hdash : Startable ['-', ' '] :=
      ⟨⟨by decide, inside_of_not_mem (by decide)⟩, ' ', by simp, by decide⟩
    intro p hp
    rw [items] at hp
    rcases List.mem_cons.1 hp with rfl | hp
    · exact hdash.of_prefix (dash_prefix_behind indent v) hi
    · exact startable_items indent vs p hp

theorem startable_entries (indent : Nat) (es : List (Value × Value)) :
    ∀ p ∈ entries indent es, Startable p := by
  match es with
  | [] => simp [entries]
  | e :: es =>
    have he := startable_entry indent e
    intro p hp
    rw [entries] at hp
    rcases List.mem_cons.1 hp with rfl | hp
    · exact he
    · exact startable_entries indent es p hp

theorem startable_entry (indent : Nat) (e : Value × Value) : Startable (entry indent e) := by
  match e with
  | (k, v) =>
    rw [entry]
    split_ifs
    · have hkey := startable_colon (unmarked_simpleKeyText indent k)
      exact hkey.of_prefix (prefix_behind _ _ _ v) (inside_behind _ _ hkey.unmarked.2 v)
    · have hk := inside_behind indent .afterMark (inside_of_not_mem (s := ['?']) (by decide)) k
      have hv := inside_behind indent .afterMark (inside_of_not_mem (s := [':']) (by decide)) v
      have hmark : Startable ['?'] := ⟨⟨by decide, inside_of_not_mem (by decide)⟩, '?', by simp, by decide⟩
      have hcolon : Startable [':'] := startable_colon (k := []) ⟨by decide, inside_of_not_mem (by decide)⟩
      refine hmark.of_prefix ?_ ?_
      · exact ((prefix_behind _ _ _ k).trans (prefix_freshLine _ _)).trans (List.prefix_append _ _)
      · exact inside_freshLine _ hk (hcolon.of_prefix (prefix_behind _ _ _ v) hv).unmarked

end

theorem colon_mem_entry (indent : Nat) (e : Value × Value) : ':' ∈ entry indent e := by
  obtain ⟨k, v⟩ := e
  rw [entry]
  split_ifs
  · exact (prefix_behind _ _ _ v).subset (by simp)
  · exact List.mem_append_right _ ((prefix_behind _ _ _ v).subset (by simp))

end Layout

open Layout

theorem render_cons (e : Value × Value) (m : Mapping) :
    render (e :: m) = freshLine 0 (addParts 0 (entry 0 e) (entries 0 m)) := rfl

/-- No line of a written mapping starts like a document marker. -/
theorem unmarked_render (m : Mapping) : Unmarked (render m) := by
  cases m with
  | nil => exact ⟨by decide, by unfold Inside; decide⟩
  | cons e m =>
    have he := startable_entry 0 e
    have hbody := @inside_addParts 0 _ _ he.unmarked.2 (startable_entries 0 m)
    have hnil : Unmarked [] := ⟨by decide, inside_of_not_mem (by simp)⟩
    rw [render_cons]
    refine (he.of_prefix ((prefix_addParts _ _ _).trans (prefix_freshLine _ _)) ?_).unmarked
    simpa using inside_freshLine 0 hbody hnil

theorem not_isBlank_render (m : Mapping) : ¬ Text.isBlank (render m) := by
  cases m with
  | nil => decide
  | cons e m =>
    have hcolon : ':' ∈ render (e :: m) := by
      rw [render_cons]
      exact ((prefix_addParts _ _ _).trans (prefix_freshLine _ _)).subset (colon_mem_entry 0 e)
    intro hb
    exact absurd (List.all_eq_true.1 hb ':' hcolon) (by decide)

end Yaml

end DocsMigration
