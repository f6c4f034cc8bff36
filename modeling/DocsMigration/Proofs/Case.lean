import DocsMigration.Text.Case
import Mathlib.Tactic
/-! Changing the case of a text replaces letters by letters. The characters below the capital A, which
are the control characters, the digits and most signs, are neither brought in nor taken out. -/

namespace DocsMigration

namespace Text

theorem toNat_ofNat (n : Nat) : (Char.ofNat n).toNat = n ∨ (Char.ofNat n).toNat = 0 := by
  unfold Char.ofNat
  by_cases h : n.isValidChar
  · left
    rw [dif_pos h]
    rfl
  · right
    rw [dif_neg h]
    rfl

theorem le_of_map? {r : CaseRun} {c d : Char} {n : Nat} (hn : (n : Int) ≤ r.first + r.distance)
    (h : r.map? c = some d) : d.toNat = 0 ∨ n ≤ d.toNat := by
  unfold CaseRun.map? at h
  split_ifs at h with hc
  obtain rfl := Option.some.inj h
  rcases toNat_ofNat (c.toNat + r.distance).toNat with he | he
  · right
    rw [he]
    omega
  · exact .inl he

theorem le_of_findSome?_map? {rs : List CaseRun} {c d : Char} {n : Nat}
    (hrs : ∀ r ∈ rs, (n : Int) ≤ r.first + r.distance) (h : rs.findSome? (·.map? c) = some d) :
    d.toNat = 0 ∨ n ≤ d.toNat := by
  obtain ⟨r, hr, hm⟩ := List.exists_of_findSome?_eq_some h
  exact le_of_map? (hrs r hr) hm

theorem ascii_toLower : ∀ n < 128, (Char.ofNat n).toLower.toNat < 65 →
    (Char.ofNat n).toLower = Char.ofNat n := by decide

theorem ascii_toUpper : ∀ n < 128, (Char.ofNat n).toUpper.toNat < 65 →
    (Char.ofNat n).toUpper = Char.ofNat n := by decide

theorem mem_lowerChar {x c : Char} (h0 : 0 < x.toNat) (hx : x.toNat < 65) (h : x ∈ lowerChar c) :
    x = c := by
  have runs : ∀ r ∈ lowerRuns, ((65 : Nat) : Int) ≤ r.first + r.distance := by decide +kernel
  unfold lowerChar at h
  split_ifs at h with h1 h2
  · obtain rfl := List.mem_singleton.1 h
    have := ascii_toLower c.toNat h1
    rw [Char.ofNat_toNat] at this
    exact this hx
  · rcases List.mem_cons.1 h with rfl | h
    · exact absurd hx (by decide)
    · obtain rfl := List.mem_singleton.1 h
      exact absurd hx (by decide)
  · split at h
    · rename_i d hd
      obtain rfl := List.mem_singleton.1 h
      have := le_of_findSome?_map? runs hd
      omega
    · exact List.mem_singleton.1 h

theorem mem_upperChar {x c : Char} (h0 : 0 < x.toNat) (hx : x.toNat < 65) (h : x ∈ upperChar c) :
    x = c := by
  have runs : ∀ r ∈ upperRuns, ((65 : Nat) : Int) ≤ r.first + r.distance := by decide +kernel
  have sequences : ∀ e ∈ upperSequences, ∀ n ∈ e.2, 65 ≤ n := by decide +kernel
  unfold upperChar at h
  split_ifs at h with h1
  · obtain rfl := List.mem_singleton.1 h
    have := ascii_toUpper c.toNat h1
    rw [Char.ofNat_toNat] at this
    exact this hx
  · split at h
    · rename_i ns hns
      obtain ⟨n, hn, rfl⟩ := List.mem_map.1 h
      obtain ⟨l, r, hl, -⟩ := List.lookup_eq_some_iff.1 hns
      have := sequences (c.toNat, ns) (by simp [hl]) n hn
      have := toNat_ofNat n
      omega
    · split at h
      · rename_i d hd
        obtain rfl := List.mem_singleton.1 h
        have := le_of_findSome?_map? runs hd
        omega
      · exact List.mem_singleton.1 h

/-- Lower case brings no sign, digit or control character into a text. -/
theorem mem_of_mem_toLower {x : Char} (h0 : 0 < x.toNat) (hx : x.toNat < 65) {s : Text}
    (h : x ∈ toLower s) : x ∈ s := by
  have after : ∀ (s before : Text), x ∈ toLowerAfter before s → x ∈ s := by
    intro s
    induction s with
    | nil => exact fun _ h => h
    | cons c s ih =>
      intro before h
      simp only [toLowerAfter, List.mem_append] at h
      rcases h with h | h
      · split_ifs at h
        · obtain rfl := List.mem_singleton.1 h
          exact absurd hx (by decide)
        · obtain rfl := List.mem_singleton.1 h
          exact absurd hx (by decide)
        · rw [mem_lowerChar h0 hx h]
          exact List.mem_cons_self
      · exact List.mem_cons_of_mem c (ih _ h)
  exact after s [] h

theorem mem_of_mem_capitalize {x : Char} (h0 : 0 < x.toNat) (hx : x.toNat < 65) {s : Text}
    (h : x ∈ capitalize s) : x ∈ s := by
  cases s with
  | nil => exact h
  | cons c s =>
    rcases List.mem_append.1 h with h | h
    · rw [mem_upperChar h0 hx h]
      exact List.mem_cons_self
    · exact List.mem_cons_of_mem c h

end Text

end DocsMigration
