import DocsMigration.Proofs.Case
import DocsMigration.Text.Word
/-! What is in lower case stays as it is: no run of the case table leads to a character that a run leads
on from. And a word in lower case is a word, since every run leads to word characters. -/

namespace DocsMigration

namespace Text

namespace CaseRun

def low (r : CaseRun) : Nat := (r.first + r.distance).toNat

def high (r : CaseRun) : Nat := (r.last + r.distance).toNat

/-- Whether a run leads to no two neighbouring code points. -/
def sparse (r : CaseRun) : Bool := Nat.beq r.step 2 || Nat.beq r.first r.last

/-- Whether the run `q` leads on from no code point that `r` leads to: it lies below or above all of
them, or between them. -/
def misses (q r : CaseRun) : Bool :=
  Nat.blt r.high q.first || Nat.blt q.last r.low ||
    (Nat.beq q.step 2 && r.sparse && Nat.beq ((r.low + q.first) % 2) 1)

/-- Whether a run leads to the letter k, or else to word characters outside ASCII other than the
dotted capital I. -/
def staysWord (r : CaseRun) : Bool :=
  (Nat.beq r.low 107 && Nat.beq r.high 107) ||
    (Nat.ble 128 r.low && (Nat.blt r.high 0x130 || Nat.blt 0x130 r.low) &&
      wordRanges.any fun w => Nat.ble w.1 r.low && Nat.ble r.high w.2)

end CaseRun

theorem lowerRuns_miss : (lowerRuns.all fun r => lowerRuns.all (·.misses r)) = true := by
  decide +kernel

theorem lowerRuns_stayWord : lowerRuns.all CaseRun.staysWord = true := by decide +kernel

theorem lowerRuns_positive : ∀ r ∈ lowerRuns, 0 ≤ r.first + r.distance := by decide +kernel

theorem wordRanges_valid : ∀ w ∈ wordRanges, w.2 < 0xD800 ∨ 0xDFFF < w.1 ∧ w.2 < 0x110000 := by
  decide +kernel

variable {r q : CaseRun} {c d x : Char} {s : Text}

theorem exists_of_map? (hr : r ∈ lowerRuns) (h : r.map? c = some d) :
    ∃ n, d = Char.ofNat n ∧ r.low ≤ n ∧ n ≤ r.high ∧ (r.sparse → (n - r.low) % 2 = 0) := by
  have := lowerRuns_positive r hr
  unfold CaseRun.map? at h
  split_ifs at h with hc
  refine ⟨_, (Option.some.inj h).symm, ?_⟩
  unfold CaseRun.low CaseRun.high
  refine ⟨by omega, by omega, fun hsparse => ?_⟩
  rw [CaseRun.sparse, Bool.or_eq_true, Nat.beq_eq, Nat.beq_eq] at hsparse
  rcases hsparse with hstep | hone
  · rw [hstep] at hc
    omega
  · omega

theorem map?_eq_none_of_misses (h : q.misses r) (hlow : r.low ≤ d.toNat) (hhigh : d.toNat ≤ r.high)
    (hsparse : r.sparse → (d.toNat - r.low) % 2 = 0) : q.map? d = none := by
  simp only [CaseRun.misses, Bool.or_eq_true, Bool.and_eq_true, Nat.blt_eq, Nat.beq_eq] at h
  unfold CaseRun.map?
  rw [if_neg]
  rintro ⟨hfirst, hlast, hmod⟩
  rcases h with (habove | hbelow) | ⟨⟨hq, hr⟩, hodd⟩
  · omega
  · omega
  · have := hsparse hr
    rw [hq] at hmod
    omega

theorem cases_of_map? (hr : r ∈ lowerRuns) (h : r.map? c = some d) : d = 'k' ∨
    128 ≤ d.toNat ∧ d.toNat ≠ 0x130 ∧ inRanges wordRanges d ∧ ∀ q ∈ lowerRuns, q.map? d = none := by
  obtain ⟨n, rfl, hlow, hhigh, hsparse⟩ := exists_of_map? hr h
  have hword := List.all_eq_true.1 lowerRuns_stayWord r hr
  simp only [CaseRun.staysWord, Bool.or_eq_true, Bool.and_eq_true, Nat.beq_eq, Nat.ble_eq, Nat.blt_eq,
    List.any_eq_true] at hword
  rcases hword with ⟨hk, hk'⟩ | ⟨⟨hascii, hdotted⟩, w, hw, hfirst, hlast⟩
  · obtain rfl : n = 107 := by omega
    exact .inl rfl
  · have hvalid : n.isValidChar := by
      have := wordRanges_valid w hw
      unfold Nat.isValidChar
      omega
    have hn : (Char.ofNat n).toNat = n := by
      rw [Char.ofNat, dif_pos hvalid]
      rfl
    refine .inr ⟨by omega, by omega, ?_, fun q hq => ?_⟩
    · refine List.any_eq_true.2 ⟨w, hw, ?_⟩
      simp only [hn, Bool.and_eq_true, decide_eq_true_eq]
      omega
    · have hmiss := List.all_eq_true.1 (List.all_eq_true.1 lowerRuns_miss r hr) q hq
      exact map?_eq_none_of_misses hmiss (by omega) (by omega) (by rwa [hn])

/-- Whether a character is its own lower case wherever it stands; the capital sigma has two. -/
def IsLower (c : Char) : Prop := lowerChar c = [c] ∧ c ≠ 'Σ'

instance (c : Char) : Decidable (IsLower c) := inferInstanceAs (Decidable (_ ∧ _))

theorem mem_lowerChar_cases (h : x ∈ lowerChar c) : (c.toNat < 128 ∧ x = c.toLower) ∨
    x ∈ ['i', '\u0307'] ∨ (∃ r ∈ lowerRuns, r.map? c = some x) ∨ x = c ∧ IsLower c := by
  have hsigma : (lowerRuns.findSome? (·.map? 'Σ')).isSome := by decide +kernel
  by_cases hascii : c.toNat < 128
  · rw [lowerChar, if_pos hascii] at h
    exact .inl ⟨hascii, List.mem_singleton.1 h⟩
  by_cases hdotted : c.toNat = 0x130
  · rw [lowerChar, if_neg hascii, if_pos hdotted] at h
    exact .inr (.inl h)
  cases hc : lowerRuns.findSome? (·.map? c) with
  | some d =>
    rw [lowerChar, if_neg hascii, if_neg hdotted, hc] at h
    obtain rfl := List.mem_singleton.1 h
    exact .inr (.inr (.inl (List.exists_of_findSome?_eq_some hc)))
  | none =>
    have hself : lowerChar c = [c] := by rw [lowerChar, if_neg hascii, if_neg hdotted, hc]
    rw [hself] at h
    refine .inr (.inr (.inr ⟨List.mem_singleton.1 h, hself, ?_⟩))
    rintro rfl
    rw [hc] at hsigma
    contradiction

theorem isLower_of_mem_lowerChar (h : x ∈ lowerChar c) : IsLower x := by
  have hascii : ∀ n < 128, IsLower (Char.ofNat n).toLower := by decide
  rcases mem_lowerChar_cases h with ⟨hc, rfl⟩ | hi | ⟨r, hr, hm⟩ | ⟨rfl, hlower⟩
  · have := hascii c.toNat hc
    rwa [Char.ofNat_toNat] at this
  · rcases List.mem_pair.1 hi with rfl | rfl
    · decide
    · decide +kernel
  · rcases cases_of_map? hr hm with rfl | ⟨hx, hne, -, hnone⟩
    · decide
    · refine ⟨?_, ?_⟩
      · have : lowerRuns.findSome? (·.map? x) = none := List.findSome?_eq_none_iff.2 hnone
        rw [lowerChar, if_neg (by omega), if_neg hne, this]
      · rintro rfl
        exact absurd hnone (by decide +kernel)
  · exact hlower

theorem isWord_of_mem_lowerChar (hc : isWord c) (h : x ∈ lowerChar c) : isWord x := by
  have hascii : ∀ n < 128, isWord (Char.ofNat n) → isWord (Char.ofNat n).toLower := by decide
  rcases mem_lowerChar_cases h with ⟨hn, rfl⟩ | hi | ⟨r, hr, hm⟩ | ⟨rfl, -⟩
  · have := hascii c.toNat hn
    rw [Char.ofNat_toNat] at this
    exact this hc
  · rcases List.mem_pair.1 hi with rfl | rfl
    · decide
    · decide +kernel
  · rcases cases_of_map? hr hm with rfl | ⟨hx, -, hword, -⟩
    · decide
    · rwa [isWord, if_neg (by omega)]
  · exact hc

/-- The lower case of a text has a part for each of its characters: one of the two small sigmas for a
capital one, the character's own lower case for another. -/
theorem toLowerAfter_forall {P : Char → Char → Prop} (hfinal : P 'Σ' 'ς') (hsigma : P 'Σ' 'σ')
    (hlower : ∀ c, ∀ x ∈ lowerChar c, P c x) (s before : Text) :
    ∀ x ∈ toLowerAfter before s, ∃ c ∈ s, P c x := by
  induction s generalizing before with
  | nil => exact fun _ h => absurd h List.not_mem_nil
  | cons c s ih =>
    intro x h
    simp only [toLowerAfter, List.mem_append] at h
    rcases h with h | h
    · refine ⟨c, List.mem_cons_self, ?_⟩
      split_ifs at h with hc
      · obtain rfl := List.mem_singleton.1 h
        exact hc ▸ hfinal
      · obtain rfl := List.mem_singleton.1 h
        exact hc ▸ hsigma
      · exact hlower c x h
    · obtain ⟨d, hd, hP⟩ := ih _ x h
      exact ⟨d, List.mem_cons_of_mem c hd, hP⟩

theorem isLower_of_mem_toLower (h : x ∈ toLower s) : IsLower x := by
  obtain ⟨-, -, hx⟩ := toLowerAfter_forall (P := fun _ y => IsLower y) (by decide +kernel)
    (by decide +kernel) (fun _ _ => isLower_of_mem_lowerChar) s [] x h
  exact hx

theorem isWord_of_mem_toLower (hs : ∀ c ∈ s, isWord c) (h : x ∈ toLower s) : isWord x := by
  obtain ⟨c, hc, hx⟩ := toLowerAfter_forall (P := fun c y => isWord c → isWord y)
    (fun _ => by decide +kernel) (fun _ => by decide +kernel)
    (fun _ _ h hc => isWord_of_mem_lowerChar hc h) s [] x h
  exact hx (hs c hc)

theorem toLower_eq_self (h : ∀ c ∈ s, IsLower c) : toLower s = s := by
  have after : ∀ (s before : Text), (∀ c ∈ s, IsLower c) → toLowerAfter before s = s := by
    intro s
    induction s with
    | nil => exact fun _ _ => rfl
    | cons c s ih =>
      intro before h
      obtain ⟨hself, hne⟩ := h c List.mem_cons_self
      rw [toLowerAfter, if_neg hne, hself, ih _ fun d hd => h d (List.mem_cons_of_mem c hd)]
      rfl
  exact after s [] h

theorem toLower_toLower (s : Text) : toLower (toLower s) = toLower s :=
  toLower_eq_self fun _ => isLower_of_mem_toLower

theorem lowerChar_ne_nil (c : Char) : lowerChar c ≠ [] := by
  unfold lowerChar
  split_ifs
  · exact List.cons_ne_nil _ _
  · exact List.cons_ne_nil _ _
  · split <;> exact List.cons_ne_nil _ _

theorem toLower_ne_nil (h : s ≠ []) : toLower s ≠ [] := by
  obtain ⟨c, s, rfl⟩ := List.exists_cons_of_ne_nil h
  simp only [toLower, toLowerAfter, ne_eq, List.append_eq_nil_iff, not_and_or]
  left
  split_ifs
  · exact not_false
  · exact not_false
  · exact lowerChar_ne_nil c

end Text

end DocsMigration
