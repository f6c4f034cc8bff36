import DocsMigration.Config.Expansion
import DocsMigration.Proofs.Occurrences
/-! Which dollar signs of a setting survive its expansion. Expanding the references in braces, and nothing else,
leaves every other character as it is. The expansion of a setting agrees with it in every environment exactly
if the setting has no reference in braces begun, or no bare dollar: one that begins no reference in braces
and stands in front of a name or of another dollar. -/

namespace DocsMigration

namespace Text

theorem contains_iff {s part : Text} : contains s part ↔ part <:+: s := by
  induction s with
  | nil => simp [contains]
  | cons c s ih => simp [contains, ih, List.infix_cons_iff]

end Text

namespace Expansion

open Text

variable {env : Environment} {s rest : Text} {c : Char}

section Braces

def braced? : Matcher (Text × Option Text)
  | '$' :: '{' :: s => (splitOnce? '}' s).map fun (inside, rest) => (reference inside, rest)
  | _ => none

def valueOfPiece (env : Environment) : Piece (Text × Option Text) → Except Text Text
  | .char c => .ok [c]
  | .hit _ (name, default) => valueOf env name default

/-- Expands the references in braces and keeps every other character. -/
def expandBraces (env : Environment) (s : Text) : Except Text Text := do
  let values ← (pieces braced? s).mapM (valueOfPiece env)
  return values.flatten

/-- A dollar that begins no reference in braces stands in front of a name or of another dollar. -/
def HasBare (s : Text) : Prop :=
  ∃ before after, pieces braced? s = before ++ .char '$' :: after ∧
    ∃ c ∈ (sourceOf after).head?, c = '$' ∨ isNameChar c

theorem braced?_eq_some {r : Text × Option Text} : braced? s = some (r, rest) ↔
    ∃ inside, s = '$' :: '{' :: (inside ++ '}' :: rest) ∧ '}' ∉ inside ∧ r = reference inside := by
  unfold braced?
  split
  · rename_i t
    simp only [Option.map_eq_some_iff, Prod.exists, Prod.mk.injEq, splitOnce?_eq_some, List.cons.injEq, true_and]
    constructor
    · rintro ⟨inside, after, ⟨rfl, hclose⟩, rfl, rfl⟩
      exact ⟨inside, rfl, hclose, rfl⟩
    · rintro ⟨inside, rfl, hclose, rfl⟩
      exact ⟨inside, rest, ⟨rfl, hclose⟩, rfl, rfl⟩
  · rename_i hno
    simp only [reduceCtorEq, false_iff, not_exists, not_and]
    rintro inside rfl
    exact absurd rfl (hno _)

theorem consuming_braced : Consuming braced? := by
  intro s r rest h
  obtain ⟨inside, rfl, -⟩ := braced?_eq_some.1 h
  exact ⟨'$' :: '{' :: (inside ++ ['}']), by simp, by simp⟩

theorem expandBraces_of_none (h : braced? (c :: s) = none) :
    expandBraces env (c :: s) = (expandBraces env s).map (c :: ·) := by
  rw [expandBraces, expandBraces, pieces_of_none h, List.mapM_cons]
  cases (pieces braced? s).mapM (valueOfPiece env) <;> rfl

theorem expandBraces_of_some {w : Text} {r : Text × Option Text} (hw : w ≠ [])
    (h : braced? (w ++ rest) = some (r, rest)) : expandBraces env (w ++ rest) =
      valueOf env r.1 r.2 >>= fun value => (expandBraces env rest).map (value ++ ·) := by
  rw [expandBraces, expandBraces, pieces_of_some hw h, List.mapM_cons, valueOfPiece]
  cases valueOf env r.1 r.2 with
  | error name => rfl
  | ok value => cases (pieces braced? rest).mapM (valueOfPiece env) <;> rfl

theorem expandBraces_braced {inside : Text} (hclose : '}' ∉ inside) (rest : Text) :
    expandBraces env ('$' :: '{' :: (inside ++ '}' :: rest)) =
      valueOf env (reference inside).1 (reference inside).2 >>= fun value =>
        (expandBraces env rest).map (value ++ ·) := by
  have heq : '$' :: '{' :: (inside ++ '}' :: rest) = ('$' :: '{' :: (inside ++ ['}'])) ++ rest := by simp
  rw [heq]
  exact expandBraces_of_some (by simp) (braced?_eq_some.2 ⟨inside, heq.symm, hclose, rfl⟩)

theorem hasBare_of_none (h : braced? (c :: s) = none) :
    HasBare (c :: s) ↔ (c = '$' ∧ ∃ d ∈ s.head?, d = '$' ∨ isNameChar d) ∨ HasBare s := by
  unfold HasBare
  rw [pieces_of_none h]
  constructor
  · rintro ⟨before, after, heq, hnext⟩
    cases before with
    | nil =>
      obtain ⟨hc, rfl⟩ := List.cons.inj heq
      rw [sourceOf_pieces consuming_braced] at hnext
      exact .inl ⟨Piece.char.inj hc, hnext⟩
    | cons x before => exact .inr ⟨before, after, (List.cons.inj heq).2, hnext⟩
  · rintro (⟨rfl, hnext⟩ | ⟨before, after, heq, hnext⟩)
    · exact ⟨[], _, rfl, by rwa [sourceOf_pieces consuming_braced]⟩
    · exact ⟨.char c :: before, after, by rw [heq, List.cons_append], hnext⟩

theorem hasBare_of_some {w : Text} {r : Text × Option Text} (hw : w ≠ [])
    (h : braced? (w ++ rest) = some (r, rest)) : HasBare (w ++ rest) ↔ HasBare rest := by
  unfold HasBare
  rw [pieces_of_some hw h]
  constructor
  · rintro ⟨before, after, heq, hnext⟩
    cases before with
    | nil => simp at heq
    | cons x before => exact ⟨before, after, (List.cons.inj heq).2, hnext⟩
  · rintro ⟨before, after, heq, hnext⟩
    exact ⟨.hit w r :: before, after, by rw [heq, List.cons_append], hnext⟩

theorem valueOf_eq_error {name missing : Text} {default : Option Text}
    (h : valueOf env name default = .error missing) :
    name = missing ∧ default = none ∧ env.lookup missing = none := by
  unfold valueOf at h
  split at h
  · simp at h
  · simp at h
  · rename_i hnone
    obtain rfl := Except.error.inj h
    exact ⟨rfl, rfl, hnone⟩

/-- Only a reference without a default to a variable that is missing cannot be expanded. -/
theorem exists_of_expandBraces_eq_error {name : Text} (h : expandBraces env s = .error name) :
    ∃ source, .hit source (name, none) ∈ pieces braced? s ∧ env.lookup name = none := by
  induction s using scan_induction consuming_braced with
  | nil => cases h
  | char c s hnone ih =>
    rw [expandBraces_of_none hnone] at h
    rw [pieces_of_none hnone]
    cases hs : expandBraces env s with
    | ok t => simp [hs, Except.map] at h
    | error missing =>
      obtain rfl : missing = name := by simpa [hs, Except.map] using h
      obtain ⟨source, hmem, hlookup⟩ := ih hs
      exact ⟨source, List.mem_cons_of_mem _ hmem, hlookup⟩
  | hit w r rest hw hsome ih =>
    rw [expandBraces_of_some hw hsome] at h
    rw [pieces_of_some hw hsome]
    obtain ⟨n, default⟩ := r
    cases hvalue : valueOf env n default with
    | error missing =>
      obtain rfl : missing = name := by simpa [hvalue, bind, Except.bind] using h
      obtain ⟨rfl, rfl, hlookup⟩ := valueOf_eq_error hvalue
      exact ⟨w, List.mem_cons_self, hlookup⟩
    | ok value =>
      cases hs : expandBraces env rest with
      | ok t => simp [hvalue, hs, bind, Except.bind, Except.map] at h
      | error missing =>
        obtain rfl : missing = name := by simpa [hvalue, hs, bind, Except.bind, Except.map] using h
        obtain ⟨source, hmem, hlookup⟩ := ih hs
        exact ⟨source, List.mem_cons_of_mem _ hmem, hlookup⟩

end Braces

section Expanding

theorem expandFrom_eq_drop (n : Nat) (s : Text) : expandFrom env n s = expandFrom env 0 (s.drop n) := by
  induction s generalizing n with
  | nil => cases n <;> rfl
  | cons c s ih =>
    cases n with
    | zero => rfl
    | succ n => exact ih n

theorem expandFrom_of_ne (hc : c ≠ '$') (s : Text) :
    expandFrom env 0 (c :: s) = (expandFrom env 0 s).map (c :: ·) := by
  simp [expandFrom, hc]

theorem expandFrom_braced {inside : Text} (hclose : '}' ∉ inside) (rest : Text) :
    expandFrom env 0 ('$' :: '{' :: (inside ++ '}' :: rest)) =
      valueOf env (reference inside).1 (reference inside).2 >>= fun value =>
        (expandFrom env 0 rest).map (value ++ ·) := by
  have hsplit : splitOnce? '}' (inside ++ '}' :: rest) = some (inside, rest) :=
    splitOnce?_eq_some.2 ⟨rfl, hclose⟩
  rw [expandFrom, if_neg (by simp)]
  simp only [hsplit]
  rw [expandFrom_eq_drop]
  have hdrop : ('{' :: (inside ++ '}' :: rest)).drop (inside.length + 2) = rest := by simp
  rw [hdrop]
  cases valueOf env (reference inside).1 (reference inside).2 <;> rfl

theorem expandFrom_doubled (s : Text) :
    expandFrom env 0 ('$' :: '$' :: s) = (expandFrom env 0 s).map ('$' :: ·) := by
  simp [expandFrom]

theorem expandFrom_bare (hc : isNameChar c) (s : Text) :
    expandFrom env 0 ('$' :: c :: s) =
      valueOf env ((c :: s).takeWhile isNameChar) none >>= fun value =>
        (expandFrom env 0 ((c :: s).dropWhile isNameChar)).map (value ++ ·) := by
  have hbrace : c ≠ '{' := by
    rintro rfl
    exact absurd hc (by decide)
  have hdollar : c ≠ '$' := by
    rintro rfl
    exact absurd hc (by decide)
  have hdrop : (c :: s).drop ((c :: s).takeWhile isNameChar).length = (c :: s).dropWhile isNameChar := by
    have hcut : ((c :: s).takeWhile isNameChar ++ (c :: s).dropWhile isNameChar).drop
        ((c :: s).takeWhile isNameChar).length = (c :: s).dropWhile isNameChar := List.drop_left
    rwa [List.takeWhile_append_dropWhile] at hcut
  rw [expandFrom, if_neg (by simp)]
  · dsimp only
    rw [if_neg (by simp [hc]), expandFrom_eq_drop, hdrop]
    cases valueOf env ((c :: s).takeWhile isNameChar) none <;> rfl
  · simp [hbrace]
  · simp [hdollar]

theorem expandFrom_plain (hs : braced? ('$' :: s) = none) (hnext : ∀ d ∈ s.head?, d ≠ '$' ∧ ¬ isNameChar d) :
    expandFrom env 0 ('$' :: s) = (expandFrom env 0 s).map ('$' :: ·) := by
  cases s with
  | nil => rfl
  | cons d t =>
    obtain ⟨hdollar, hname⟩ := hnext d rfl
    by_cases hbrace : d = '{'
    · subst hbrace
      have hopen : splitOnce? '}' t = none := by simpa [braced?] using hs
      rw [expandFrom, if_neg (by simp)]
      simp only [hopen]
      rw [expandFrom_eq_drop, expandFrom_of_ne (by decide)]
      cases h : expandFrom env 0 t <;> simp [h, Except.map]
    · rw [expandFrom, if_neg (by simp)]
      · simp [hname]
      · simp [hbrace]
      · simp [hdollar]

/-- What can follow a dollar: the rest of a reference in braces, a name, another dollar, or none of these. -/
inductive Behind : Text → Prop
  | braced (inside rest : Text) : '}' ∉ inside → Behind ('{' :: (inside ++ '}' :: rest))
  | bare (c : Char) (s : Text) : isNameChar c → Behind (c :: s)
  | doubled (s : Text) : Behind ('$' :: s)
  | plain (s : Text) : braced? ('$' :: s) = none → (∀ d ∈ s.head?, d ≠ '$' ∧ ¬ isNameChar d) → Behind s

theorem behind (s : Text) : Behind s := by
  cases h : braced? ('$' :: s) with
  | some found =>
    obtain ⟨inside, heq, hclose, -⟩ := braced?_eq_some.1 (h : _ = some (found.1, found.2))
    obtain ⟨-, rfl⟩ := List.cons.inj heq
    exact .braced inside found.2 hclose
  | none =>
    by_cases hplain : ∀ d ∈ s.head?, d ≠ '$' ∧ ¬ isNameChar d
    · exact .plain s h hplain
    · push Not at hplain
      obtain ⟨d, hd, hbare⟩ := hplain
      obtain ⟨t, rfl⟩ := List.head?_eq_some_iff.1 hd
      by_cases hdollar : d = '$'
      · exact hdollar ▸ .doubled t
      · exact .bare d t (hbare hdollar)

/-- Without a bare dollar the expansion is that of the references in braces. -/
theorem expandFrom_eq_expandBraces (h : ¬ HasBare s) (env : Environment) :
    expandFrom env 0 s = expandBraces env s := by
  induction s using scan_induction consuming_braced with
  | nil => rfl
  | char c s hnone ih =>
    rw [hasBare_of_none hnone, not_or] at h
    rw [expandBraces_of_none hnone, ← ih h.2]
    by_cases hc : c = '$'
    · subst hc
      refine expandFrom_plain hnone fun d hd => ?_
      exact not_or.1 fun hbare => h.1 ⟨rfl, d, hd, hbare⟩
    · exact expandFrom_of_ne hc s
  | hit w r rest hw hsome ih =>
    rw [hasBare_of_some hw hsome] at h
    obtain ⟨inside, heq, hclose, -⟩ := braced?_eq_some.1 hsome
    rw [heq, expandFrom_braced hclose, expandBraces_braced hclose, ih h]

end Expanding

section Differing

def Sets (env : Environment) (s : Text) : Prop := ∀ name, name <:+: s → env.lookup name = some ['x']

theorem lookup_map_const {names : List Text} {name : Text} (h : name ∈ names) (value : Text) :
    (names.map fun n => (n, value)).lookup name = some value := by
  induction names with
  | nil => contradiction
  | cons n names ih =>
    by_cases heq : name = n
    · simp [heq]
    · rw [List.map_cons, List.lookup_cons, beq_eq_false_iff_ne.2 heq]
      exact ih ((List.mem_cons.1 h).resolve_left heq)

theorem exists_sets (s : Text) : ∃ env, Sets env s := by
  refine ⟨(s.tails.flatMap List.inits).map fun name => (name, ['x']), fun name hname => lookup_map_const ?_ _⟩
  obtain ⟨t, hprefix, hsuffix⟩ := List.infix_iff_prefix_suffix.1 hname
  exact List.mem_flatMap.2 ⟨t, (List.mem_tails _ _).2 hsuffix, (List.mem_inits _ _).2 hprefix⟩

theorem Sets.suffix {t : Text} (h : Sets env s) (hs : t <:+ s) : Sets env t :=
  fun name hname => h name (hname.trans hs.isInfix)

theorem Sets.valueOf_eq {name : Text} (h : Sets env s) (hname : name <:+: s) (default : Option Text) :
    valueOf env name default = .ok ['x'] := by
  simp [valueOf, h name hname]

theorem prefix_of_splitDefault? {s name value : Text} (h : splitDefault? s = some (name, value)) : name <+: s := by
  fun_induction splitDefault? s generalizing name value with
  | case1 s =>
    obtain ⟨rfl, -⟩ := Prod.mk.inj (Option.some.inj h)
    exact List.nil_prefix
  | case2 c s hno ih =>
    obtain ⟨⟨name', value'⟩, hs, heq⟩ := Option.map_eq_some_iff.1 h
    obtain ⟨rfl, rfl⟩ := Prod.mk.inj heq
    exact List.cons_prefix_cons.2 ⟨rfl, ih hs⟩
  | case3 => cases h

theorem prefix_of_reference (inside : Text) : (reference inside).1 <+: inside := by
  unfold reference
  split
  · exact List.prefix_rfl
  · rename_i h
    exact prefix_of_splitDefault? h
  · exact List.prefix_rfl

theorem Sets.valueOf_reference {inside : Text} (h : Sets env s) (hinside : inside <:+: s) :
    valueOf env (reference inside).1 (reference inside).2 = .ok ['x'] :=
  h.valueOf_eq ((prefix_of_reference inside).isInfix.trans hinside) _

theorem Sets.exists_expandBraces (h : Sets env s) : ∃ t, expandBraces env s = .ok t := by
  induction s using scan_induction consuming_braced with
  | nil => exact ⟨[], rfl⟩
  | char c s hnone ih =>
    obtain ⟨t, ht⟩ := ih (h.suffix (List.suffix_cons c s))
    exact ⟨c :: t, by rw [expandBraces_of_none hnone, ht]; rfl⟩
  | hit w r rest hw hsome ih =>
    obtain ⟨t, ht⟩ := ih (h.suffix (List.suffix_append w rest))
    obtain ⟨inside, heq, hclose, -⟩ := braced?_eq_some.1 hsome
    rw [heq] at h ⊢
    have hinside : inside <:+: '$' :: '{' :: (inside ++ '}' :: rest) := ⟨['$', '{'], '}' :: rest, by simp⟩
    have hvalue := h.valueOf_reference hinside
    exact ⟨'x' :: t, by rw [expandBraces_braced hclose, hvalue, ht]; rfl⟩

theorem map_append_inj {v : Text} {a b : Except Text Text} (h : a.map (v ++ ·) = b.map (v ++ ·)) : a = b := by
  cases a <;> cases b <;> simp_all [Except.map]

theorem map_append_eq_ok {v u : Text} {a : Except Text Text} (h : a.map (v ++ ·) = .ok u) :
    ∃ t, u = v ++ t ∧ a = .ok t := by
  cases a with
  | error name => simp [Except.map] at h
  | ok t => exact ⟨t, (Except.ok.inj h).symm, rfl⟩

theorem eq_cons_of_map_eq_ok {u : Text} {a : Except Text Text} (h : a.map (c :: ·) = .ok u) :
    ∃ t, u = c :: t ∧ a = .ok t :=
  map_append_eq_ok (v := [c]) h

theorem Sets.expandFrom_bare_ne (h : Sets env (c :: s)) (hc : isNameChar c) (t : Text) :
    expandFrom env 0 ('$' :: c :: s) ≠ .ok ('$' :: t) := by
  rw [expandFrom_bare hc, h.valueOf_eq (List.takeWhile_prefix _).isInfix]
  intro heq
  obtain ⟨_, hhead, -⟩ := map_append_eq_ok heq
  simp at hhead

theorem replicate_append_cons (k : Nat) (c : Char) (t : Text) :
    List.replicate k c ++ c :: t = c :: (List.replicate k c ++ t) := by
  rw [← List.cons_append, ← List.replicate_succ, List.replicate_succ', List.append_assoc, List.singleton_append]

/-- A dollar that is left out is missed for good: as long as both expansions go on they give dollars, and the
first of them to give another sign is the one without it. -/
theorem Sets.expandFrom_ne (h : Sets env s) {t : Text} (ht : expandBraces env ('$' :: s) = .ok t) (k : Nat) :
    expandFrom env 0 s ≠ .ok (List.replicate k '$' ++ t) := by
  induction hn : s.length using Nat.strong_induction_on generalizing s t k with
  | _ n ih =>
    intro heq
    cases hs : braced? ('$' :: s) with
    | some found =>
      obtain ⟨inside, hcut, hclose, -⟩ := braced?_eq_some.1 (hs : _ = some (found.1, found.2))
      obtain ⟨-, rfl⟩ := List.cons.inj hcut
      rw [expandBraces_braced hclose, h.valueOf_reference ⟨['{'], '}' :: found.2, by simp⟩] at ht
      obtain ⟨_, rfl, -⟩ := map_append_eq_ok ht
      rw [expandFrom_of_ne (by decide)] at heq
      obtain ⟨_, hhead, -⟩ := eq_cons_of_map_eq_ok heq
      cases k <;> simp [List.replicate_succ] at hhead
    | none =>
      rw [expandBraces_of_none hs] at ht
      obtain ⟨t, rfl, htail⟩ := eq_cons_of_map_eq_ok ht
      rw [replicate_append_cons] at heq
      cases s with
      | nil => cases heq
      | cons c u =>
        have hu : Sets env u := h.suffix (List.suffix_cons c u)
        by_cases hc : c = '$'
        · subst hc
          cases behind u with
          | braced inside rest hclose =>
            rw [expandFrom_braced hclose, h.valueOf_reference ⟨['$', '{'], '}' :: rest, by simp⟩] at heq
            obtain ⟨_, hhead, -⟩ := map_append_eq_ok heq
            simp at hhead
          | bare d v hd =>
            exact hu.expandFrom_bare_ne hd _ heq
          | doubled v =>
            rw [expandFrom_doubled] at heq
            obtain ⟨_, hcons, hstep⟩ := eq_cons_of_map_eq_ok heq
            obtain rfl := (List.cons.inj hcons).2
            rw [expandBraces_of_none rfl] at htail
            obtain ⟨t, rfl, hv⟩ := eq_cons_of_map_eq_ok htail
            rw [replicate_append_cons, ← List.cons_append, ← List.replicate_succ] at hstep
            exact ih v.length (by simp [← hn]) (hu.suffix (List.suffix_cons _ v)) hv (k + 1) rfl hstep
          | plain _ hplain hnext =>
            rw [expandFrom_plain hplain hnext] at heq
            obtain ⟨_, hcons, hstep⟩ := eq_cons_of_map_eq_ok heq
            obtain rfl := (List.cons.inj hcons).2
            exact ih u.length (by simp [← hn]) hu htail k rfl hstep
        · rw [expandFrom_of_ne hc] at heq
          obtain ⟨_, hhead, -⟩ := eq_cons_of_map_eq_ok heq
          exact hc (List.cons.inj hhead).1.symm

/-- A bare dollar shows in an environment in which every name is set. -/
theorem Sets.expandFrom_ne_expandBraces (h : Sets env s) (hbare : HasBare s) :
    expandFrom env 0 s ≠ expandBraces env s := by
  induction s using scan_induction consuming_braced with
  | nil =>
    obtain ⟨before, after, heq, -⟩ := hbare
    cases before <;> cases heq
  | char c s hnone ih =>
    have hs : Sets env s := h.suffix (List.suffix_cons c s)
    obtain ⟨t, ht⟩ := hs.exists_expandBraces
    rw [hasBare_of_none hnone] at hbare
    rw [expandBraces_of_none hnone]
    intro heq
    by_cases hc : c = '$'
    · subst hc
      cases behind s with
      | braced inside rest hclose =>
        rw [braced?_eq_some.2 ⟨inside, rfl, hclose, rfl⟩] at hnone
        cases hnone
      | bare d v hd =>
        rw [ht] at heq
        exact hs.expandFrom_bare_ne hd t heq
      | doubled v =>
        rw [expandFrom_doubled] at heq
        have hstep := map_append_inj (v := ['$']) heq
        rw [ht] at hstep
        exact (hs.suffix (List.suffix_cons _ v)).expandFrom_ne ht 0 hstep
      | plain _ hplain hnext =>
        rw [expandFrom_plain hplain hnext] at heq
        refine ih hs (hbare.resolve_left ?_) (map_append_inj (v := ['$']) heq)
        rintro ⟨-, d, hd, hor⟩
        exact hor.elim (hnext d hd).1 (hnext d hd).2
    · rw [expandFrom_of_ne hc] at heq
      exact ih hs (hbare.resolve_left fun hhere => hc hhere.1) (map_append_inj (v := [c]) heq)
  | hit w r rest hw hsome ih =>
    rw [hasBare_of_some hw hsome] at hbare
    obtain ⟨inside, hcut, hclose, -⟩ := braced?_eq_some.1 hsome
    have hrest : Sets env rest := h.suffix (List.suffix_append w rest)
    rw [hcut] at h ⊢
    rw [expandFrom_braced hclose, expandBraces_braced hclose,
      h.valueOf_reference ⟨['$', '{'], '}' :: rest, by simp⟩]
    exact fun heq => ih hrest hbare (map_append_inj heq)

end Differing

theorem expandBraces_of_not_contains (h : ¬ contains s "$\x7b".toList) (env : Environment) :
    expandBraces env s = .ok s := by
  have hnone : ∀ u, u <:+ s → braced? u = none := by
    intro u hu
    rw [Option.eq_none_iff_forall_ne_some]
    rintro ⟨r, rest⟩ hsome
    obtain ⟨inside, rfl, -⟩ := braced?_eq_some.1 hsome
    exact h (contains_iff.2 (List.IsInfix.trans ⟨[], inside ++ '}' :: rest, rfl⟩ hu.isInfix))
  induction s with
  | nil => rfl
  | cons c s ih =>
    have hs : ¬ contains s "$\x7b".toList := by
      rw [contains_iff] at h ⊢
      exact fun hin => h (hin.trans (List.suffix_cons c s).isInfix)
    rw [expandBraces_of_none (hnone _ List.suffix_rfl),
      ih hs fun u hu => hnone u (hu.trans (List.suffix_cons c s))]
    rfl

/-- Exactly the references in braces are expanded, in every environment, if and only if the setting begins no
reference in braces or has no bare dollar. Then it cannot be expanded only if one of them has no default and
names a variable that is missing. -/
theorem bare_dollars_survive_iff (s : Text) :
    ((∀ env, expand env s = expandBraces env s) ↔ (contains s "$\x7b".toList → ¬ HasBare s)) ∧
      ((contains s "$\x7b".toList → ¬ HasBare s) → ∀ env name, expand env s = .error name →
        ∃ source, .hit source (name, none) ∈ pieces braced? s ∧ env.lookup name = none) := by
  have hagree (h : contains s "$\x7b".toList → ¬ HasBare s) (env : Environment) :
      expand env s = expandBraces env s := by
    rw [expand]
    split_ifs with hbegun
    · exact expandFrom_eq_expandBraces (h hbegun) env
    · exact (expandBraces_of_not_contains hbegun env).symm
  refine ⟨⟨fun hall hbegun hbare => ?_, hagree⟩, fun h env name herror => ?_⟩
  · obtain ⟨env, hsets⟩ := exists_sets s
    have heq := hall env
    rw [expand, if_pos hbegun] at heq
    exact hsets.expandFrom_ne_expandBraces hbare heq
  · exact exists_of_expandBraces_eq_error ((hagree h env).symm.trans herror)

def mixed : Text := "$\x7bA\x7d/$B".toList

/-- The reference behind the bare dollar is expanded along with the one in braces, and the setting cannot be
expanded if its variable is missing. -/
theorem bare_dollar_expanded :
    expand [("A".toList, "a".toList), ("B".toList, "b".toList)] mixed = .ok "a/b".toList ∧
    expandBraces [("A".toList, "a".toList), ("B".toList, "b".toList)] mixed = .ok "a/$B".toList ∧
    expand [("A".toList, "a".toList)] mixed = .error "B".toList ∧
    expandBraces [("A".toList, "a".toList)] mixed = .ok "a/$B".toList := by
  decide +kernel

end Expansion

end DocsMigration
