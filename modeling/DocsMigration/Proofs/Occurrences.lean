import DocsMigration.Proofs.Replacement
/-! Where signs occur in a text, and what becomes of them when matches are replaced. A replacement that
looks to the signs like the match it stands for changes no occurrence. One that takes text away can lose
the signs that start in the text taken, and can bring parts of a sign together; where it brings none
together, the signs stay the same exactly if each match can be replaced without a loss. -/

namespace DocsMigration

namespace Text

section Signs

variable {signs : List Text} {a b s t : Text} {c : Char}

def startingSigns (signs : List Text) (s : Text) : List Text := signs.filter (·.isPrefixOf s)

def occurrences (signs : List Text) : Text → List Text
  | [] => []
  | c :: s => startingSigns signs (c :: s) ++ occurrences signs s

theorem startingSigns_congr (h : ∀ p ∈ signs, p <+: s ↔ p <+: t) :
    startingSigns signs s = startingSigns signs t := by
  refine List.filter_congr fun p hp => ?_
  rw [Bool.eq_iff_iff, List.isPrefixOf_iff_prefix, List.isPrefixOf_iff_prefix]
  exact h p hp

theorem startingSigns_eq_nil (h : ∀ p ∈ signs, ¬ p <+: s) : startingSigns signs s = [] := by
  simpa [startingSigns] using h

theorem occurrences_filter (q : Text → Bool) (s : Text) :
    occurrences (signs.filter q) s = (occurrences signs s).filter q := by
  induction s with
  | nil => rfl
  | cons c s ih =>
    rw [occurrences, occurrences, List.filter_append, ih, startingSigns, startingSigns,
      List.filter_filter, List.filter_filter]
    simp only [Bool.and_comm]

theorem occurrences_suffix (h : t <:+ s) : occurrences signs t <:+ occurrences signs s := by
  obtain ⟨a, rfl⟩ := h
  induction a with
  | nil => exact List.suffix_rfl
  | cons c a ih => exact ih.trans (List.suffix_append _ _)

theorem occurrences_append_of_head (hne : [] ∉ signs) (ha : ∀ c ∈ a, ∀ p ∈ signs, p.head? ≠ some c) :
    occurrences signs (a ++ s) = occurrences signs s := by
  induction a with
  | nil => rfl
  | cons c a ih =>
    have hnone : startingSigns signs (c :: (a ++ s)) = [] := by
      refine startingSigns_eq_nil fun p hp hprefix => ?_
      cases p with
      | nil => exact hne hp
      | cons x p => exact ha c List.mem_cons_self _ hp (congrArg some (List.cons_prefix_cons.1 hprefix).1)
    rw [List.cons_append, occurrences, hnone, List.nil_append,
      ih fun c hc => ha c (List.mem_cons_of_mem _ hc)]

theorem occurrences_append_cons (hne : [] ∉ signs) (hc : ∀ p ∈ signs, c ∉ p) (a b : Text) :
    occurrences signs (a ++ c :: b) = occurrences signs a ++ occurrences signs b := by
  induction a with
  | nil =>
    refine occurrences_append_of_head (a := [c]) hne fun x hx p hp hhead => hc p hp ?_
    rw [← List.mem_singleton.1 hx]
    exact List.mem_of_mem_head? hhead
  | cons x a ih =>
    have hstart : startingSigns signs (x :: a ++ c :: b) = startingSigns signs (x :: a) :=
      startingSigns_congr fun p hp =>
        ⟨fun h => prefix_of_not_mem h (hc p hp), fun h => h.trans (List.prefix_append _ _)⟩
    rw [occurrences, List.append_assoc, ← ih, ← hstart]
    rfl

theorem occurrences_eq_nil (hc : ∀ p ∈ signs, c ∈ p) (hs : c ∉ s) : occurrences signs s = [] := by
  induction s with
  | nil => rfl
  | cons x s ih =>
    have hnone : startingSigns signs (x :: s) = [] :=
      startingSigns_eq_nil fun p hp hstart => hs (hstart.subset (hc p hp))
    rw [occurrences, hnone, ih fun h => hs (List.mem_cons_of_mem x h), List.nil_append]

end Signs

section Replacing

variable {α : Type} {m : Matcher α} {f g : Text → α → Text} {signs : List Text}

/-- Replacements that look like the matches wherever they stand change no occurrence. -/
theorem occurrences_replaceAll (hm : Consuming m)
    (hf : ∀ w v rest, m (w ++ rest) = some (v, rest) → ∀ a b,
      occurrences signs (a ++ (f w v ++ b)) = occurrences signs (a ++ (w ++ b))) (s : Text) :
    occurrences signs (replaceAll m f s) = occurrences signs s := by
  have hbehind : ∀ a, occurrences signs (a ++ replaceAll m f s) = occurrences signs (a ++ s) := by
    induction s using scan_induction hm with
    | nil => exact fun a => rfl
    | char c s h ih =>
      intro a
      rw [replaceAll_of_none h]
      simpa using ih (a ++ [c])
    | hit w v rest hw h ih =>
      intro a
      rw [replaceAll_of_some hw h, ← List.append_assoc, ih, List.append_assoc, hf w v rest h]
  exact hbehind []

def sourceOf (ps : List (Piece α)) : Text := ps.flatMap Piece.source

def rendered (f : Text → α → Text) (ps : List (Piece α)) : Text := ps.flatMap (Piece.render f)

theorem sourceOf_pieces (hm : Consuming m) (s : Text) : sourceOf (pieces m s) = s := by
  induction s using scan_induction hm with
  | nil => rfl
  | char c s h ih =>
    rw [pieces_of_none h, sourceOf, List.flatMap_cons, ← sourceOf, ih]
    rfl
  | hit w v rest hw h ih =>
    rw [pieces_of_some hw h, sourceOf, List.flatMap_cons, ← sourceOf, ih]
    rfl

theorem match_of_mem_pieces (hm : Consuming m) {s w : Text} {v : α} (h : .hit w v ∈ pieces m s) :
    ∃ rest, m (w ++ rest) = some (v, rest) := by
  induction s using scan_induction hm with
  | nil => contradiction
  | char c s hc ih =>
    rw [pieces_of_none hc] at h
    exact ih (by simpa using h)
  | hit w' v' rest hw hv ih =>
    rw [pieces_of_some hw hv, List.mem_cons] at h
    rcases h with h | h
    · obtain ⟨rfl, rfl⟩ := Piece.hit.inj h
      exact ⟨rest, hv⟩
    · exact ih h

/-- Whether no sign comes together where matches are replaced: each sign that starts at a character
outside the matches has stood there before. -/
def Unjoined (signs : List Text) (f : Text → α → Text) : List (Piece α) → Prop
  | [] => True
  | .char c :: ps => (∀ p ∈ signs, p <+: c :: rendered f ps → p <+: c :: sourceOf ps) ∧ Unjoined signs f ps
  | .hit _ _ :: ps => Unjoined signs f ps

/-- Whether each match can be replaced, with the text behind it as it stands in the source, without a
change of the signs. -/
def Spares (signs : List Text) (f : Text → α → Text) : List (Piece α) → Prop
  | [] => True
  | .char _ :: ps => Spares signs f ps
  | .hit w v :: ps =>
    occurrences signs (f w v ++ sourceOf ps) = occurrences signs (w ++ sourceOf ps) ∧ Spares signs f ps

instance decidableUnjoined (signs : List Text) (f : Text → α → Text) (ps : List (Piece α)) :
    Decidable (Unjoined signs f ps) :=
  match ps with
  | [] => .isTrue trivial
  | .char _ :: ps =>
    let _ := decidableUnjoined signs f ps
    inferInstanceAs (Decidable (_ ∧ _))
  | .hit _ _ :: ps => decidableUnjoined signs f ps

instance decidableSpares (signs : List Text) (f : Text → α → Text) (ps : List (Piece α)) :
    Decidable (Spares signs f ps) :=
  match ps with
  | [] => .isTrue trivial
  | .char _ :: ps => decidableSpares signs f ps
  | .hit _ _ :: ps =>
    let _ := decidableSpares signs f ps
    inferInstanceAs (Decidable (_ ∧ _))

def Bars (signs : List Text) (w : Text) : Prop :=
  ∀ u v x : Text, u ++ v ∈ signs → u ≠ [] → v <+: w ++ x → v = []

theorem bars_of_head {c : Char} {w : Text} (hc : ∀ p ∈ signs, c ∉ p) : Bars signs (c :: w) := by
  intro u v x hp _ hv
  cases v with
  | nil => rfl
  | cons y v =>
    obtain ⟨rfl, -⟩ := List.cons_prefix_cons.1 hv
    exact absurd (List.mem_append_right u List.mem_cons_self) (hc _ hp)

/-- A sign that has started in front of pieces whose matches bar it ends before the first match, so it
goes on in the same way whatever is written for the matches. -/
theorem prefix_rendered {ps : List (Piece α)} (h : ∀ w v, .hit w v ∈ ps → Bars signs (f w v)) {u v : Text}
    (hp : u ++ v ∈ signs) (hu : u ≠ []) (hv : v <+: rendered f ps) : v <+: rendered g ps := by
  induction ps generalizing u v with
  | nil => exact hv
  | cons piece ps ih =>
    rw [rendered, List.flatMap_cons] at hv ⊢
    cases piece with
    | char c =>
      cases v with
      | nil => exact List.nil_prefix
      | cons x v =>
        obtain ⟨rfl, hrest⟩ := List.cons_prefix_cons.1 hv
        exact List.cons_prefix_cons.2 ⟨rfl, ih (fun w v hw => h w v (List.mem_cons_of_mem _ hw))
          (u := u ++ [x]) (by simpa using hp) (by simp) hrest⟩
    | hit w a =>
      obtain rfl := h w a List.mem_cons_self u v _ hp hu hv
      exact List.nil_prefix

theorem sourceOf_eq_rendered (ps : List (Piece α)) : sourceOf ps = rendered (fun w _ => w) ps := by
  have hsame : (Piece.source : Piece α → Text) = Piece.render fun w _ => w := by
    funext piece
    cases piece <;> rfl
  rw [sourceOf, rendered, hsame]

theorem unjoined_of_bars {ps : List (Piece α)} (h : ∀ w v, .hit w v ∈ ps → Bars signs (f w v)) :
    Unjoined signs f ps := by
  induction ps with
  | nil => trivial
  | cons piece ps ih =>
    have hrest : ∀ w v, .hit w v ∈ ps → Bars signs (f w v) := fun w v hw =>
      h w v (List.mem_cons_of_mem _ hw)
    cases piece with
    | hit => exact ih hrest
    | char c =>
      refine ⟨fun p hp hprefix => ?_, ih hrest⟩
      cases p with
      | nil => exact List.nil_prefix
      | cons x p =>
        obtain ⟨rfl, hbehind⟩ := List.cons_prefix_cons.1 hprefix
        rw [sourceOf_eq_rendered]
        exact List.cons_prefix_cons.2 ⟨rfl, prefix_rendered hrest (u := [x]) hp (by simp) hbehind⟩

/-- What is asked of a replacement that takes text away: no sign reaches into the match or over the end of
its replacement, and the signs that are left are those at the end of the match. -/
structure Removes (signs : List Text) (w r : Text) : Prop where
  bars : Bars signs w
  closed : ∀ x, occurrences signs (r ++ x) = occurrences signs r ++ occurrences signs x
  suffix : ∀ x, occurrences signs (r ++ x) <:+ occurrences signs (w ++ x)

theorem occurrences_rendered {ps : List (Piece α)} (h : ∀ w v, .hit w v ∈ ps → Removes signs w (f w v))
    (hunjoined : Unjoined signs f ps) :
    (occurrences signs (rendered f ps)).Sublist (occurrences signs (sourceOf ps)) ∧
      (occurrences signs (rendered f ps) = occurrences signs (sourceOf ps) ↔ Spares signs f ps) := by
  induction ps with
  | nil => exact ⟨List.Sublist.refl _, iff_of_true rfl trivial⟩
  | cons piece ps ih =>
    have hrest : ∀ w v, .hit w v ∈ ps → Removes signs w (f w v) := fun w v hw =>
      h w v (List.mem_cons_of_mem _ hw)
    cases piece with
    | char c =>
      obtain ⟨hjoin, hunjoined⟩ := hunjoined
      obtain ⟨hsub, hiff⟩ := ih hrest hunjoined
      have hstart : startingSigns signs (c :: rendered f ps) = startingSigns signs (c :: sourceOf ps) := by
        refine startingSigns_congr fun p hp => ⟨hjoin p hp, fun hprefix => ?_⟩
        cases p with
        | nil => exact List.nil_prefix
        | cons x p =>
          obtain ⟨rfl, hbehind⟩ := List.cons_prefix_cons.1 hprefix
          rw [sourceOf_eq_rendered] at hbehind
          exact List.cons_prefix_cons.2 ⟨rfl, prefix_rendered (fun w v hw => (hrest w v hw).bars)
            (u := [x]) hp (by simp) hbehind⟩
      show (occurrences signs (c :: rendered f ps)).Sublist (occurrences signs (c :: sourceOf ps)) ∧
        (occurrences signs (c :: rendered f ps) = occurrences signs (c :: sourceOf ps) ↔ _)
      rw [occurrences, occurrences, hstart, List.append_right_inj]
      exact ⟨hsub.append_left _, hiff⟩
    | hit w v =>
      obtain ⟨hsub, hiff⟩ := ih hrest hunjoined
      obtain ⟨-, hclosed, hsuffix⟩ := h w v List.mem_cons_self
      obtain ⟨lost, hlost⟩ := hsuffix (sourceOf ps)
      show (occurrences signs (f w v ++ rendered f ps)).Sublist (occurrences signs (w ++ sourceOf ps)) ∧
        (occurrences signs (f w v ++ rendered f ps) = occurrences signs (w ++ sourceOf ps) ↔
          occurrences signs (f w v ++ sourceOf ps) = occurrences signs (w ++ sourceOf ps) ∧ _)
      rw [← hlost, hclosed, hclosed]
      have hkept := hsub.append_left (occurrences signs (f w v))
      refine ⟨hkept.trans (List.sublist_append_right _ _), fun heq => ?_, fun ⟨hnone, hspares⟩ => ?_⟩
      · -- nothing is lost behind the match either, as nothing that is lost comes back
        have hlength := congrArg List.length heq
        have hle := hsub.length_le
        simp only [List.length_append] at hlength
        obtain rfl : lost = [] := List.length_eq_zero_iff.1 (by omega)
        rw [List.nil_append, List.append_right_inj] at heq
        exact ⟨rfl, hiff.1 heq⟩
      · rw [hiff.2 hspares]
        exact hnone

theorem occurrences_replaceAll_iff (hm : Consuming m)
    (hf : ∀ w v rest, m (w ++ rest) = some (v, rest) → Removes signs w (f w v)) {s : Text}
    (hunjoined : Unjoined signs f (pieces m s)) :
    (occurrences signs (replaceAll m f s)).Sublist (occurrences signs s) ∧
      (occurrences signs (replaceAll m f s) = occurrences signs s ↔ Spares signs f (pieces m s)) := by
  have hpieces := occurrences_rendered (fun w v hw => by
    obtain ⟨rest, hrest⟩ := match_of_mem_pieces hm hw
    exact hf w v rest hrest) hunjoined
  rwa [sourceOf_pieces hm] at hpieces

theorem spares_of_forall {ps : List (Piece α)}
    (h : ∀ w v, .hit w v ∈ ps → ∀ x, occurrences signs (f w v ++ x) = occurrences signs (w ++ x)) :
    Spares signs f ps := by
  induction ps with
  | nil => trivial
  | cons piece ps ih =>
    have hrest := ih fun w v hw => h w v (List.mem_cons_of_mem _ hw)
    cases piece with
    | char => exact hrest
    | hit w v => exact ⟨h w v List.mem_cons_self _, hrest⟩

end Replacing

end Text

end DocsMigration
