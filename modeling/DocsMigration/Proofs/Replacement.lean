import DocsMigration.Proofs.Cuts
import DocsMigration.Text.Scan
/-! Replacing every match of a text, for matchers that take something from the front of it. The scan
is unrolled match by match; what holds of each match then holds of the whole text: how many
characters of a kind are lost, where the text first changes, and that the text in front of a body is
replaced without a look at the body. -/

namespace DocsMigration

namespace Text

variable {α : Type} {m : Matcher α} {f : Text → α → Text}

/-- A match is not empty, and what it leaves is the text behind it. -/
def Consuming (m : Matcher α) : Prop :=
  ∀ s v rest, m s = some (v, rest) → ∃ w, w ≠ [] ∧ s = w ++ rest

theorem piecesFrom_eq_drop (n : Nat) (s : Text) : piecesFrom m n s = pieces m (s.drop n) := by
  induction s generalizing n with
  | nil => cases n <;> rfl
  | cons c s ih =>
    cases n with
    | zero => rfl
    | succ n => exact ih n

@[simp] theorem replaceAll_nil : replaceAll m f [] = [] := rfl

theorem pieces_of_none {c : Char} {s : Text} (h : m (c :: s) = none) :
    pieces m (c :: s) = .char c :: pieces m s := by
  simp [pieces, piecesFrom, h]

theorem pieces_of_some {w rest : Text} {v : α} (hw : w ≠ []) (h : m (w ++ rest) = some (v, rest)) :
    pieces m (w ++ rest) = .hit w v :: pieces m rest := by
  obtain ⟨c, w, rfl⟩ := List.exists_cons_of_ne_nil hw
  have hwidth : (c :: (w ++ rest)).length - rest.length = w.length + 1 := by
    simp only [List.length_cons, List.length_append]
    omega
  rw [List.cons_append] at h ⊢
  rw [pieces, piecesFrom, h]
  simp only [hwidth, piecesFrom_eq_drop]
  simp

theorem replaceAll_of_none {c : Char} {s : Text} (h : m (c :: s) = none) :
    replaceAll m f (c :: s) = c :: replaceAll m f s := by
  simp [replaceAll, pieces_of_none h, Piece.render]

theorem replaceAll_of_some {w rest : Text} {v : α} (hw : w ≠ []) (h : m (w ++ rest) = some (v, rest)) :
    replaceAll m f (w ++ rest) = f w v ++ replaceAll m f rest := by
  rw [replaceAll, pieces_of_some hw h, List.flatMap_cons]
  rfl

/-- Induction along the scan: over the characters, with a whole match at a time. -/
@[elab_as_elim]
theorem scan_induction (hm : Consuming m) {motive : Text → Prop} (nil : motive [])
    (char : ∀ c s, m (c :: s) = none → motive s → motive (c :: s))
    (hit : ∀ w v rest, w ≠ [] → m (w ++ rest) = some (v, rest) → motive rest → motive (w ++ rest)) :
    ∀ s, motive s := by
  intro s
  induction hn : s.length using Nat.strong_induction_on generalizing s with
  | _ n ih =>
    cases s with
    | nil => exact nil
    | cons c s =>
      cases h : m (c :: s) with
      | none => exact char c s h (ih s.length (by simp [← hn]) s rfl)
      | some r =>
        obtain ⟨v, rest⟩ := r
        obtain ⟨w, hw, heq⟩ := hm _ _ _ h
        rw [heq] at h hn ⊢
        have := List.length_pos_iff.2 hw
        exact hit w v rest hw h (ih rest.length (by simp at hn; omega) rest rfl)

theorem pieces_append {a b : Text} (h : ∀ u, u <:+ a → u ≠ [] → m (u ++ b) = none) :
    pieces m (a ++ b) = a.map .char ++ pieces m b := by
  induction a with
  | nil => rfl
  | cons c a ih =>
    have hc : m (c :: (a ++ b)) = none := h _ List.suffix_rfl (by simp)
    rw [List.cons_append, pieces_of_none hc, ih fun u hu => h u (hu.trans (List.suffix_cons c a)),
      List.map_cons, List.cons_append]

theorem pieces_eq_map_char {s : Text} (h : ∀ u, u <:+ s → m u = none) : pieces m s = s.map .char := by
  simpa [pieces, piecesFrom] using pieces_append (b := []) fun u hu _ => by simpa using h u hu

theorem replaceAll_append {a b : Text} (h : ∀ u, u <:+ a → u ≠ [] → m (u ++ b) = none) :
    replaceAll m f (a ++ b) = a ++ replaceAll m f b := by
  rw [replaceAll, pieces_append h, List.flatMap_append, List.flatMap_map, replaceAll]
  simp [Piece.render]

theorem replaceAll_eq_self {s : Text} (h : ∀ u, u <:+ s → m u = none) : replaceAll m f s = s := by
  simpa using replaceAll_append (b := []) fun u hu _ => by simpa using h u hu

theorem found_append {a b : Text} (h : ∀ u, u <:+ a → u ≠ [] → m (u ++ b) = none) :
    found m (a ++ b) = found m b := by
  simp [found, pieces_append h]

theorem found_of_none {c : Char} {s : Text} (h : m (c :: s) = none) : found m (c :: s) = found m s := by
  simp [found, pieces_of_none h]

theorem found_of_some {w rest : Text} {v : α} (hw : w ≠ []) (h : m (w ++ rest) = some (v, rest)) :
    found m (w ++ rest) = v :: found m rest := by
  simp [found, pieces_of_some hw h]

theorem replaceAll_eq_self_of_found (hm : Consuming m) {s : Text} (hf : ∀ v ∈ found m s, ∀ w, f w v = w) :
    replaceAll m f s = s := by
  induction s using scan_induction hm with
  | nil => rfl
  | char c s h ih =>
    rw [found_of_none h] at hf
    rw [replaceAll_of_none h, ih hf]
  | hit w v rest hw h ih =>
    rw [found_of_some hw h] at hf
    rw [replaceAll_of_some hw h, hf v List.mem_cons_self, ih fun v hv => hf v (List.mem_cons_of_mem _ hv)]

section Counting

variable {p : Char → Bool}

theorem countP_replaceAll_le (hm : Consuming m)
    (hf : ∀ w v rest, m (w ++ rest) = some (v, rest) → (f w v).countP p ≤ w.countP p) (s : Text) :
    (replaceAll m f s).countP p ≤ s.countP p := by
  induction s using scan_induction hm with
  | nil => simp
  | char c s h ih =>
    rw [replaceAll_of_none h, List.countP_cons, List.countP_cons]
    omega
  | hit w v rest hw h ih =>
    have := hf w v rest h
    rw [replaceAll_of_some hw h, List.countP_append, List.countP_append]
    omega

/-- If each match is left alone or loses characters of a kind, so is the whole text. -/
theorem replaceAll_eq_or_countP_lt (hm : Consuming m)
    (hf : ∀ w v rest, m (w ++ rest) = some (v, rest) → f w v = w ∨ (f w v).countP p < w.countP p)
    (s : Text) : replaceAll m f s = s ∨ (replaceAll m f s).countP p < s.countP p := by
  induction s using scan_induction hm with
  | nil => exact .inl rfl
  | char c s h ih =>
    rw [replaceAll_of_none h, List.countP_cons, List.countP_cons]
    rcases ih with ih | ih
    · exact .inl (by rw [ih])
    · exact .inr (by omega)
  | hit w v rest hw h ih =>
    rw [replaceAll_of_some hw h, List.countP_append, List.countP_append]
    rcases hf w v rest h with hv | hv <;> rcases ih with ih | ih
    · exact .inl (by rw [hv, ih])
    · exact .inr (by rw [hv]; omega)
    · exact .inr (by rw [ih]; omega)
    · exact .inr (by omega)

theorem countP_replaceAll_lt (hm : Consuming m)
    (hf : ∀ w v rest, m (w ++ rest) = some (v, rest) → (f w v).countP p < w.countP p) {s : Text}
    (h : ∃ u, u <:+ s ∧ (m u).isSome) : (replaceAll m f s).countP p < s.countP p := by
  induction s using scan_induction hm with
  | nil =>
    obtain ⟨u, hu, hsome⟩ := h
    obtain ⟨⟨v, rest⟩, hv⟩ := Option.isSome_iff_exists.1 hsome
    obtain ⟨w, hw, heq⟩ := hm _ _ _ hv
    rw [List.suffix_nil.1 hu, List.nil_eq_append_iff] at heq
    exact absurd heq.1 hw
  | char c s hc ih =>
    obtain ⟨u, hu, hsome⟩ := h
    have hsuffix : u <:+ s := by
      rcases List.suffix_cons_iff.1 hu with rfl | hu
      · simp [hc] at hsome
      · exact hu
    have := ih ⟨u, hsuffix, hsome⟩
    rw [replaceAll_of_none hc, List.countP_cons, List.countP_cons]
    omega
  | hit w v rest hw hv ih =>
    have := hf w v rest hv
    have := countP_replaceAll_le hm (fun w v rest h => (hf w v rest h).le) rest
    rw [replaceAll_of_some hw hv, List.countP_append, List.countP_append]
    omega

end Counting

/-- How a scan that has come to `u` goes on, when `b` follows `u` and when one of the texts `C`
does. -/
inductive Agrees (m : Matcher α) (f : Text → α → Text) (C : List Text) (b u : Text) : Prop
  /-- No match starts here. -/
  | silent (hb : m (u ++ b) = none) (hC : ∀ c ∈ C, m (u ++ c) = none)
  /-- The same match is found, whatever follows. -/
  | inside (w u' : Text) (v : α) (hw : w ≠ []) (hu : u = w ++ u') (hb : m (u ++ b) = some (v, u' ++ b))
      (hC : ∀ c ∈ C, m (u ++ c) = some (v, u' ++ c))
  /-- A match reaches into `b`, and its replacement does not touch `u`. -/
  | across (w rest : Text) (v : α) (hw : w ≠ []) (heq : u ++ b = w ++ rest)
      (hb : m (u ++ b) = some (v, rest))
      (hkeep : (∀ c ∈ C, replaceAll m f (u ++ c) = u ++ c) → u <+: f w v)

/-- A match in a text that stays as it is has not been changed, and what follows it stays as it is. -/
theorem kept_of_hit {w rest : Text} {v : α} (hw : w ≠ []) (h : m (w ++ rest) = some (v, rest))
    (hf : f w v = w ∨ (¬ f w v <+: w ∧ ¬ w <+: f w v))
    (hfix : replaceAll m f (w ++ rest) = w ++ rest) : f w v = w ∧ replaceAll m f rest = rest := by
  rw [replaceAll_of_some hw h] at hfix
  have hsame : f w v = w := by
    apply hf.resolve_right
    intro hne
    have hwhole : w <+: f w v ++ replaceAll m f rest := hfix ▸ List.prefix_append w rest
    rcases List.prefix_or_prefix_of_prefix (List.prefix_append _ _) hwhole with hp | hp
    · exact hne.1 hp
    · exact hne.2 hp
  rw [hsame] at hfix
  exact ⟨hsame, List.append_cancel_left hfix⟩

/-- A text stays as it is exactly if each match stays as it is, where no match is replaced by a text that
begins it or that it begins. -/
theorem replaceAll_eq_self_iff {P : α → Prop} (hm : Consuming m)
    (hf : ∀ w v rest, m (w ++ rest) = some (v, rest) → f w v = w ∨ (¬ f w v <+: w ∧ ¬ w <+: f w v))
    (hP : ∀ w v rest, m (w ++ rest) = some (v, rest) → (f w v = w ↔ P v)) {s : Text} :
    replaceAll m f s = s ↔ ∀ v ∈ found m s, P v := by
  induction s using scan_induction hm with
  | nil => exact iff_of_true rfl (by simp [found, pieces, piecesFrom])
  | char c s h ih => rw [replaceAll_of_none h, found_of_none h, ← ih, List.cons_inj_right]
  | hit w v rest hw h ih =>
    rw [found_of_some hw h, List.forall_mem_cons, ← ih, ← hP w v rest h]
    refine ⟨kept_of_hit hw h (hf w v rest h), fun ⟨hv, hrest⟩ => ?_⟩
    rw [replaceAll_of_some hw h, hv, hrest]

/-- A text that stays as it is in front of each of some texts stays as it is in front of another one,
if the scan agrees all along it. -/
theorem replaceAll_append_of_agrees {C : List Text} {a b : Text} (hC : C ≠ [])
    (hf : ∀ w v rest, m (w ++ rest) = some (v, rest) →
      f w v = w ∨ (¬ f w v <+: w ∧ ¬ w <+: f w v))
    (h : ∀ u, u <:+ a → u ≠ [] → Agrees m f C b u)
    (hfix : ∀ c ∈ C, replaceAll m f (a ++ c) = a ++ c) :
    ∃ b', replaceAll m f (a ++ b) = a ++ b' := by
  induction hn : a.length using Nat.strong_induction_on generalizing a with
  | _ n ih =>
    cases a with
    | nil => exact ⟨_, rfl⟩
    | cons x a =>
      cases h (x :: a) List.suffix_rfl (by simp) with
      | silent hb hC' =>
        have hrest : ∀ c ∈ C, replaceAll m f (a ++ c) = a ++ c := by
          intro c hc
          have hnone : m (x :: (a ++ c)) = none := hC' c hc
          have := hfix c hc
          rw [List.cons_append, replaceAll_of_none hnone] at this
          exact (List.cons.inj this).2
        obtain ⟨b', hb'⟩ := ih a.length (by simp [← hn])
          (fun u hu => h u (hu.trans (List.suffix_cons x a))) hrest rfl
        have hnone : m (x :: (a ++ b)) = none := hb
        exact ⟨b', by rw [List.cons_append, replaceAll_of_none hnone, hb']; rfl⟩
      | inside w u' v hw hu hb hC' =>
        rw [hu] at h hfix hb hC' hn ⊢
        simp only [List.append_assoc] at hfix hb hC' ⊢
        have hkept : ∀ c ∈ C, f w v = w ∧ replaceAll m f (u' ++ c) = u' ++ c := by
          intro c hc
          exact kept_of_hit hw (hC' c hc) (hf w v _ (hC' c hc)) (hfix c hc)
        obtain ⟨c, hc⟩ := List.exists_mem_of_ne_nil C hC
        have hlen := List.length_pos_iff.2 hw
        obtain ⟨b', hb'⟩ := ih u'.length (by simp at hn; omega)
          (fun u hu => h u (hu.trans (List.suffix_append w u'))) (fun c hc => (hkept c hc).2) rfl
        exact ⟨b', by rw [replaceAll_of_some hw hb, (hkept c hc).1, hb']⟩
      | across w rest v hw heq hb hkeep =>
        obtain ⟨t, ht⟩ := hkeep hfix
        rw [heq] at hb ⊢
        exact ⟨t ++ replaceAll m f rest, by rw [replaceAll_of_some hw hb, ← ht, List.append_assoc]⟩

end Text

end DocsMigration
