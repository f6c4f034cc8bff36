import DocsMigration.Text.Whitespace
import Mathlib.Tactic
/-! Cutting a text: behind a given prefix, at a separator, and into lines. Every cut can be undone by
putting the parts together again, and each part holds no separator. A pass that works on lines goes
through a page this way: what it does to a list of lines without line feeds it does to the text. -/

namespace DocsMigration

namespace Text

theorem forall_mem_of_all {s : Text} {P : Char → Prop} [DecidablePred P] (h : s.all (P ·)) :
    ∀ c ∈ s, P c := by
  simpa using h

theorem stripPrefix?_eq_some {pre s rest : Text} :
    stripPrefix? pre s = some rest ↔ pre ++ rest = s :=
  List.isPrefixOf?_eq_some_iff_append_eq

theorem stripSuffix?_eq_some {suf s rest : Text} :
    stripSuffix? suf s = some rest ↔ rest ++ suf = s :=
  List.isSuffixOf?_eq_some_iff_append_eq

theorem splitOnce?_eq_some {sep : Char} {s a b : Text} :
    splitOnce? sep s = some (a, b) ↔ s = a ++ sep :: b ∧ sep ∉ a := by
  induction s generalizing a b with
  | nil => simp [splitOnce?]
  | cons c s ih =>
    unfold splitOnce?
    by_cases h : c = sep
    · subst h
      cases a with
      | nil => simp
      | cons d a => grind
    · simp only [h, if_false, Option.map_eq_some_iff, Prod.mk.injEq, Prod.exists]
      constructor
      · rintro ⟨a', b', hs, rfl, rfl⟩
        obtain ⟨rfl, ha⟩ := ih.1 hs
        exact ⟨rfl, by simpa [ha] using Ne.symm h⟩
      · rintro ⟨hs, ha⟩
        cases a with
        | nil => exact absurd (List.cons.inj hs).1 h
        | cons d a =>
          obtain ⟨rfl, rfl⟩ := List.cons.inj hs
          exact ⟨a, b, ih.2 ⟨rfl, fun hm => ha (List.mem_cons_of_mem c hm)⟩, rfl, rfl⟩

theorem splitOnce?_eq_none {sep : Char} {s : Text} : splitOnce? sep s = none ↔ sep ∉ s := by
  induction s with
  | nil => simp [splitOnce?]
  | cons c s ih =>
    rw [splitOnce?]
    split_ifs with h
    · simp [h]
    · simp [ih, Ne.symm h]

section Span

variable {x : Char} {a b s : Text}

theorem bne_of_not_mem (h : x ∉ a) : ∀ c ∈ a, (c != x) = true := by
  intro c hc
  rw [bne_iff_ne]
  rintro rfl
  exact h hc

theorem takeWhile_bne (h : x ∉ a) (b : Text) : (a ++ x :: b).takeWhile (· != x) = a := by
  rw [List.takeWhile_append_of_pos (bne_of_not_mem h)]
  simp

theorem dropWhile_bne (h : x ∉ a) (b : Text) : (a ++ x :: b).dropWhile (· != x) = x :: b := by
  rw [List.dropWhile_append_of_pos (bne_of_not_mem h)]
  simp

theorem eq_of_dropWhile_bne (h : s.dropWhile (· != x) = x :: b) :
    s.takeWhile (· != x) ++ x :: b = s ∧ x ∉ s.takeWhile (· != x) := by
  refine ⟨?_, ?_⟩
  · rw [← h, List.takeWhile_append_dropWhile]
  · intro hm
    simpa using List.all_eq_true.1 List.all_takeWhile x hm

end Span

theorem utf8Size_cons (c : Char) (s : Text) : utf8Size (c :: s) = c.utf8Size + utf8Size s := by
  have hshift (size : Nat) : s.foldl (fun size c => size + c.utf8Size) size = size + utf8Size s := by
    unfold utf8Size
    induction s generalizing size with
    | nil => rfl
    | cons d s ih => rw [List.foldl_cons, List.foldl_cons, ih, ih (0 + d.utf8Size)]; omega
  rw [utf8Size, List.foldl_cons, hshift, Nat.zero_add]

theorem utf8Size_append (s t : Text) : utf8Size (s ++ t) = utf8Size s + utf8Size t := by
  induction s with
  | nil => exact (Nat.zero_add _).symm
  | cons c s ih => rw [List.cons_append, utf8Size_cons, utf8Size_cons, ih, Nat.add_assoc]

theorem length_le_utf8Size (s : Text) : s.length ≤ utf8Size s := by
  induction s with
  | nil => exact Nat.zero_le _
  | cons c s ih =>
    have hc := c.utf8Size_pos
    rw [utf8Size_cons, List.length_cons]
    omega

theorem trimStart_spec (s : Text) : ∃ ws, s = ws ++ trimStart s ∧ ∀ c ∈ ws, isSpace c :=
  ⟨s.takeWhile isSpace, List.takeWhile_append_dropWhile.symm,
    List.all_eq_true.1 List.all_takeWhile⟩

theorem trimStart_blank_append {ws : Text} (hws : ∀ c ∈ ws, isSpace c) {c : Char}
    (hc : ¬ isSpace c) (t : Text) : trimStart (ws ++ c :: t) = c :: t := by
  rw [trimStart, List.dropWhile_append_of_pos hws, List.dropWhile_cons_of_neg hc]

theorem infix_of_infix_append_right {p a s : Text} (h : p <:+: a ++ s) (ha : ∀ c ∈ a, c ∉ p) :
    p <:+: s := by
  induction a with
  | nil => exact h
  | cons c a ih =>
    have hc : ∀ d ∈ a, d ∉ p := fun d hd => ha d (List.mem_cons_of_mem c hd)
    rcases List.infix_cons_iff.1 h with h | h
    · rcases List.prefix_cons_iff.1 h with rfl | ⟨t, rfl, -⟩
      · exact List.nil_infix
      · exact absurd List.mem_cons_self (ha c List.mem_cons_self)
    · exact ih h hc

theorem infix_of_infix_append_left {p a s : Text} (h : p <:+: a ++ s) (hs : ∀ c ∈ s, c ∉ p) :
    p <:+: a := by
  have h' : p.reverse <:+: s.reverse ++ a.reverse := by
    rw [← List.reverse_append]
    exact List.reverse_infix.2 h
  exact List.reverse_infix.1 (infix_of_infix_append_right h' (by simpa using hs))

/-- A prefix that ends in a sign ends before a part that does not have the sign. -/
theorem prefix_of_prefix_append {u a b : Text} {x : Char} (h : u <+: a ++ b)
    (hu : u.getLast? = some x) (hb : x ∉ b) : u <+: a := by
  rcases List.prefix_or_prefix_of_prefix h (List.prefix_append a b) with h' | ⟨t, rfl⟩
  · exact h'
  · rw [List.prefix_append_right_inj] at h
    rcases List.eq_nil_or_concat' t with rfl | ⟨t, c, rfl⟩
    · simp
    · rw [← List.append_assoc, List.getLast?_concat] at hu
      obtain rfl := Option.some.inj hu
      exact absurd (h.subset (by simp)) hb

theorem prefix_of_not_mem {p a b : Text} {x : Char} (h : p <+: a ++ x :: b) (hp : x ∉ p) : p <+: a := by
  have h : p <+: a ++ [x] ++ b := by simpa using h
  rcases List.prefix_or_prefix_of_prefix h (List.prefix_append (a ++ [x]) _) with h' | h'
  · rcases List.prefix_concat_iff.1 h' with rfl | h'
    · exact absurd (by simp) hp
    · exact h'
  · exact absurd (h'.subset (by simp)) hp

theorem infix_or_infix_of_not_mem {t a b : Text} {x : Char} (h : t <:+: a ++ x :: b) (hx : x ∉ t) :
    t <:+: a ∨ t <:+: b := by
  induction a with
  | nil =>
    rcases List.infix_cons_iff.1 h with hfront | hbehind
    · exact .inl (prefix_of_not_mem (a := []) hfront hx).isInfix
    · exact .inr hbehind
  | cons c a ih =>
    rcases List.infix_cons_iff.1 h with hfront | hbehind
    · exact .inl (prefix_of_not_mem (a := c :: a) hfront hx).isInfix
    · exact (ih hbehind).imp_left fun h => h.trans (List.suffix_cons c a).isInfix

theorem suffix_of_not_mem {p a b : Text} {x : Char} (h : p <:+ a ++ x :: b) (hp : x ∉ p) : p <:+ b := by
  rw [← List.reverse_prefix] at h ⊢
  rw [List.reverse_append, List.reverse_cons, List.append_assoc] at h
  exact prefix_of_not_mem h (by simpa using hp)

/-- Two places of the same sign in a text are one, or one of them is in front of the other. -/
theorem cut_cases {x y a b : Text} {c : Char} (h : x ++ c :: y = a ++ c :: b) :
    x = a ∧ y = b ∨ (∃ z, x = a ++ c :: z ∧ b = z ++ c :: y) ∨ ∃ z, a = x ++ c :: z ∧ y = z ++ c :: b := by
  rcases List.append_eq_append_iff.1 h with ⟨d, rfl, hd⟩ | ⟨d, rfl, hd⟩
  · cases d with
    | nil => exact .inl ⟨by simp, (List.cons.inj hd).2⟩
    | cons e d =>
      obtain ⟨rfl, hy⟩ := List.cons.inj hd
      exact .inr (.inr ⟨d, rfl, hy⟩)
  · cases d with
    | nil => exact .inl ⟨by simp, (List.cons.inj hd).2.symm⟩
    | cons e d =>
      obtain ⟨rfl, hb⟩ := List.cons.inj hd
      exact .inr (.inl ⟨d, rfl, hb⟩)

theorem eq_or_cut {x y a b : Text} {c : Char} (h : x ++ c :: y = a ++ c :: b) (ha : c ∉ a) :
    x = a ∧ y = b ∨ ∃ z, x = a ++ c :: z ∧ b = z ++ c :: y := by
  rcases cut_cases h with h | h | ⟨z, rfl, -⟩
  · exact .inl h
  · exact .inr h
  · exact absurd (List.mem_append_right x List.mem_cons_self) ha

/-- A stretch without a sign stands in front of a place of that sign, or behind it. -/
theorem eq_append_or_cut {x w y a b : Text} {c : Char} (h : x ++ w ++ y = a ++ c :: b) (hw : c ∉ w) :
    (∃ z, a = x ++ w ++ z) ∨ ∃ z, x = a ++ c :: z ∧ b = z ++ w ++ y := by
  rw [List.append_assoc] at h
  rcases List.append_eq_append_iff.1 h with ⟨d, rfl, hd⟩ | ⟨d, rfl, hd⟩
  · obtain ⟨z, rfl⟩ := prefix_of_not_mem (hd ▸ List.prefix_append w y) hw
    exact .inl ⟨z, by simp⟩
  · cases d with
    | nil =>
      cases w with
      | nil => exact .inl ⟨[], by simp⟩
      | cons e w => exact absurd ((List.cons.inj hd).1 ▸ List.mem_cons_self) hw
    | cons e d =>
      obtain ⟨rfl, rfl⟩ := List.cons.inj hd
      exact .inr ⟨d, rfl, by simp⟩

theorem eq_or_cut_front {x w y a b : Text} {c : Char} (h : x ++ w ++ c :: y = a ++ c :: b) (ha : c ∉ a)
    (hw : c ∉ w) : x ++ w = a ∧ y = b ∨ ∃ z, x = a ++ c :: z := by
  rcases eq_append_or_cut h hw with ⟨z, rfl⟩ | ⟨z, hz, -⟩
  · rcases eq_or_cut h ha with ⟨hx, hy⟩ | ⟨z', hz', -⟩
    · exact .inl ⟨hx, hy⟩
    · exact absurd (hz' ▸ by simp : c ∈ x ++ w) fun hm => ha (List.mem_append_left z hm)
  · exact .inr ⟨z, hz⟩

theorem getLast?_of_suffix {u a : Text} (hu : u <:+ a) (hne : u ≠ []) : u.getLast? = a.getLast? := by
  obtain ⟨t, rfl⟩ := hu
  rw [List.getLast?_append_of_ne_nil _ hne]

theorem splitAt_eq_splitOn (sep : Char) (s : Text) : splitAt sep s = s.splitOn sep := by
  induction s with
  | nil => simp [splitAt]
  | cons c s ih =>
    rw [splitAt, List.splitOn_cons_eq_if_modifyHead, ih]
    by_cases h : c = sep
    · simp [h]
    · obtain ⟨part, parts, hp⟩ := List.exists_cons_of_ne_nil (List.splitOn_ne_nil sep s)
      simp [h, hp]

theorem lines_ne_nil (s : Text) : lines s ≠ [] := splitAt_ne_nil _ _

theorem lines_append_newline (a b : Text) : lines (a ++ '\n' :: b) = lines a ++ lines b := by
  simp only [lines, splitAt_eq_splitOn]
  exact List.splitOn_append_cons_self a b

theorem lines_unlines {ls : List Text} (hne : ls ≠ []) (h : ∀ l ∈ ls, '\n' ∉ l) :
    lines (unlines ls) = ls := by
  rw [lines, splitAt_eq_splitOn]
  exact List.splitOn_intercalate '\n' h hne

theorem unlines_append {ks ls : List Text} (hk : ks ≠ []) (hl : ls ≠ []) :
    unlines (ks ++ ls) = unlines ks ++ '\n' :: unlines ls := by
  induction ks with
  | nil => contradiction
  | cons k ks ih =>
    rcases eq_or_ne ks [] with rfl | hks
    · exact (unlines_cons k hl).trans (by simp [unlines])
    · rw [List.cons_append, unlines_cons k (by simp [hks]), unlines_cons k hks, ih hks]
      simp

theorem infix_unlines {ls : List Text} {l : Text} (h : l ∈ ls) : l <:+: unlines ls := by
  induction ls with
  | nil => contradiction
  | cons k ks ih =>
    rcases eq_or_ne ks [] with rfl | hks
    · obtain rfl := List.mem_singleton.1 h
      simp [unlines]
    · rw [unlines_cons k hks]
      rcases List.mem_cons.1 h with rfl | h
      · exact (List.prefix_append _ _).isInfix
      · exact (ih h).trans ⟨k ++ ['\n'], [], by simp⟩

theorem infix_of_mem_lines {s l : Text} (h : l ∈ lines s) : l <:+: s := by
  have := infix_unlines h
  rwa [unlines_lines] at this

theorem newline_not_mem_of_mem_lines {s l : Text} (h : l ∈ lines s) : '\n' ∉ l := by
  induction s generalizing l with
  | nil => simp_all [lines, splitAt]
  | cons c s ih =>
    unfold lines at h ih
    simp only [splitAt] at h
    split at h
    · rcases List.mem_cons.1 h with rfl | h
      · simp
      · exact ih h
    · obtain ⟨part, parts, hp⟩ := List.exists_cons_of_ne_nil (splitAt_ne_nil '\n' s)
      rw [hp] at h ih
      rcases List.mem_cons.1 h with rfl | h
      · have := ih List.mem_cons_self
        grind
      · exact ih (List.mem_cons_of_mem _ h)

end Text

end DocsMigration
