import DocsMigration.Proofs.Blocks
/-! Which tabs share a group. The converted page is a row of stretches: a line that stays, or a group of
tabs. Each stretch is told by places in the page, so that it can be asked of two tab headers whether their
tabs stand in the same group. They do exactly if every line between them is a header or a member of a
block: the run of members behind a header is as long as it can be, and no header is a member, so a group
ends at the first line that is neither. -/

namespace DocsMigration

namespace Markdown

namespace Tabs

def IsHeaderAt (ls : List Text) (i : Nat) : Prop := (ls[i]?.bind label?).isSome

def IsMemberAt (ls : List Text) (i : Nat) : Prop := ∃ l, ls[i]? = some l ∧ IsMember l

instance (ls : List Text) (i : Nat) : Decidable (IsHeaderAt ls i) := inferInstanceAs (Decidable (_ = true))

instance (ls : List Text) (i : Nat) : Decidable (IsMemberAt ls i) :=
  decidable_of_iff (ls[i]?.any fun l => decide (IsMember l)) (by simp [IsMemberAt, Option.any_eq_true])

def tabAt (ls : List Text) (i : Nat) : Tab :=
  ⟨(ls[i]?.bind label?).getD [], (indentedBody ls (i + 1) blockIndent).lines⟩

/-- A part of a converted page, told by the places of its line or of its headers. -/
inductive Stretch where
  | line (i : Nat)
  | group (headers : List Nat)
deriving DecidableEq, Repr

namespace Stretch

def headers : Stretch → List Nat
  | .line _ => []
  | .group is => is

def render (ls : List Text) : Stretch → List Text
  | .line i => ls[i]?.toList
  | .group is => opener :: (is.flatMap fun i => renderTab (tabAt ls i)) ++ [closer, []]

def leading : List Stretch → List Nat
  | .group is :: _ => is
  | _ => []

def behindLeading : List Stretch → List Stretch
  | .group _ :: more => more
  | more => more

/-- A tab in front of some stretches joins the group that they start with. -/
def join (i : Nat) (next : List Stretch) : List Stretch := .group (i :: leading next) :: behindLeading next

@[simp] theorem leading_line (i : Nat) (ps : List Stretch) : leading (.line i :: ps) = [] := rfl

@[simp] theorem behindLeading_line (i : Nat) (ps : List Stretch) :
    behindLeading (.line i :: ps) = .line i :: ps := rfl

@[simp] theorem leading_join (i : Nat) (next : List Stretch) : leading (join i next) = i :: leading next :=
  rfl

@[simp] theorem behindLeading_join (i : Nat) (next : List Stretch) :
    behindLeading (join i next) = behindLeading next := rfl

end Stretch

def stretchesFrom (i : Nat) : List (Element Text) → List Stretch
  | [] => []
  | .line _ :: rest => .line i :: stretchesFrom (i + 1) rest
  | .block b :: rest => Stretch.join i (stretchesFrom (i + b.span) rest)

def stretches (ls : List Text) : List Stretch := stretchesFrom 0 (outline label? ls)

section Outline

variable {ls rest : List Text} {l label : Text} {i j k : Nat}

theorem IsMemberAt.not_isHeaderAt (h : IsMemberAt ls i) : ¬ IsHeaderAt ls i := by
  obtain ⟨l, hl, hm⟩ := h
  simp [IsHeaderAt, hl, unindented_label?.eq_none hm]

theorem not_isHeaderAt_of_nil (h : ls.drop i = []) (hij : i ≤ j) : ¬ IsHeaderAt ls j := by
  have hnone : ls[j]? = none := List.getElem?_eq_none ((List.drop_eq_nil_iff.1 h).trans hij)
  simp [IsHeaderAt, hnone]

theorem not_isHeaderAt_of_line (h : ls.drop i = l :: rest) (hl : label? l = none) : ¬ IsHeaderAt ls i := by
  simp [IsHeaderAt, (getElem?_of_drop h).1, hl]

/-- What the page holds at a header: its tab, and members up to line `next`, where `behind` starts. -/
structure TabSpan (ls : List Text) (i : Nat) (b : Block Text) (next : Nat) (behind : List Text) : Prop where
  tab : tabAt ls i = tabOf b
  header : IsHeaderAt ls i
  lt : i < next
  le : next ≤ ls.length
  member : ∀ k, i < k → k < next → IsMemberAt ls k
  drop : ls.drop next = behind
  first : ∀ l ∈ behind.head?, ¬ IsMember l

theorem stretchesFrom_block (h : ls.drop i = l :: rest) (hl : label? l = some label) :
    ∃ next, TabSpan ls i ⟨label, memberRun blockIndent rest⟩ next
        (rest.drop (memberRun blockIndent rest).length) ∧
      stretchesFrom i (outline label? (l :: rest)) = Stretch.join i
        (stretchesFrom next (outline label? (rest.drop (memberRun blockIndent rest).length))) := by
  obtain ⟨hat, hdrop⟩ := getElem?_of_drop h
  refine ⟨i + ((memberRun blockIndent rest).length + 1),
    ⟨?_, ?_, by omega, ?_, fun k hik hk => ?_, ?_, ?_⟩, ?_⟩
  · simp [tabAt, tabOf, Block.body, indentedBody, hat, hl, hdrop]
  · simp [IsHeaderAt, hat, hl]
  · have hrun := length_memberRun_le blockIndent rest
    have hlt := lt_length_of_drop h
    rw [← hdrop, List.length_drop] at hrun
    rw [← hdrop]
    omega
  · obtain ⟨m, hm, hmember⟩ := isSome_stripIndent_of_lt_memberRun (n := blockIndent)
      (k := k - (i + 1)) rest (by omega)
    refine ⟨m, ?_, hmember⟩
    rw [← hdrop, List.getElem?_drop] at hm
    rwa [show i + 1 + (k - (i + 1)) = k by omega] at hm
  · rw [← hdrop, List.drop_drop]
    congr 1
    omega
  · exact fun l hl => not_isMember_iff.2 (stripIndent_behind_memberRun blockIndent rest l hl)
  · rw [outline_cons_block hl]
    rfl

theorem stretchesFrom_line (hl : label? l = none) : stretchesFrom i (outline label? (l :: rest)) =
    .line i :: stretchesFrom (i + 1) (outline label? rest) := by
  rw [outline_cons_line hl]
  rfl

theorem leading_append_headers (ps : List Stretch) :
    Stretch.leading ps ++ (Stretch.behindLeading ps).flatMap Stretch.headers =
      ps.flatMap Stretch.headers := by
  cases ps with
  | nil => rfl
  | cons p ps => cases p <;> rfl

theorem headers_stretchesFrom (h : ls.drop i = rest) :
    (stretchesFrom i (outline label? rest)).flatMap Stretch.headers =
      (List.range' i (ls.length - i)).filter (IsHeaderAt ls ·) := by
  induction rest using outline_induction label? generalizing i with
  | nil =>
    rw [show ls.length - i = 0 from Nat.sub_eq_zero_of_le (List.drop_eq_nil_iff.1 h)]
    rfl
  | line l rest hl ih =>
    have hlt := lt_length_of_drop h
    rw [stretchesFrom_line hl, show ls.length - i = ls.length - (i + 1) + 1 by omega, List.range'_succ,
      List.filter_cons_of_neg (by simpa using not_isHeaderAt_of_line h hl)]
    exact ih (getElem?_of_drop h).2
  | block l rest label hl ih =>
    obtain ⟨next, hspan, hnext⟩ := stretchesFrom_block h hl
    have hlt := hspan.lt
    have hle := hspan.le
    have hmembers : (List.range' (i + 1) (next - (i + 1))).filter (IsHeaderAt ls ·) = [] := by
      refine List.filter_eq_nil_iff.2 fun k hk => ?_
      rw [List.mem_range'_1] at hk
      simpa using (hspan.member k (by omega) (by omega)).not_isHeaderAt
    have hplaces : List.range' i (ls.length - i) =
        i :: (List.range' (i + 1) (next - (i + 1)) ++ List.range' next (ls.length - next)) := by
      have hjoin := List.range'_append_1 (s := i + 1) (m := next - (i + 1)) (n := ls.length - next)
      rw [show i + 1 + (next - (i + 1)) = next by omega,
        show next - (i + 1) + (ls.length - next) = ls.length - (i + 1) by omega] at hjoin
      rw [hjoin, show ls.length - i = ls.length - (i + 1) + 1 by omega, List.range'_succ]
    rw [hnext, ← leading_append_headers (Stretch.join i _), Stretch.leading_join, Stretch.behindLeading_join,
      List.cons_append, leading_append_headers, ih hspan.drop, hplaces,
      List.filter_cons_of_pos (by simpa using hspan.header), List.filter_append, hmembers, List.nil_append]

theorem le_of_mem_headers (h : ls.drop i = rest)
    (hj : j ∈ (stretchesFrom i (outline label? rest)).flatMap Stretch.headers) : i ≤ j := by
  rw [headers_stretchesFrom h, List.mem_filter, List.mem_range'_1] at hj
  exact hj.1.1

/-- Each line from `i` on and in front of `j` is a tab header or a member. -/
def Unbroken (ls : List Text) (i j : Nat) : Prop := ∀ k, i ≤ k → k < j → IsHeaderAt ls k ∨ IsMemberAt ls k

namespace TabSpan

variable {b : Block Text} {next : Nat} {behind : List Text}

theorem unbroken_iff (h : TabSpan ls i b next behind) : Unbroken ls (i + 1) j ↔ Unbroken ls next j := by
  have hlt := h.lt
  refine ⟨fun hall k hk => hall k (by omega), fun hall k hk hkj => ?_⟩
  by_cases hin : k < next
  · exact .inr (h.member k hk hin)
  · exact hall k (by omega) hkj

theorem le_of_isHeaderAt (h : TabSpan ls i b next behind) (hij : i < j) (hj : IsHeaderAt ls j) : next ≤ j := by
  by_contra hlt
  exact (h.member j hij (by omega)).not_isHeaderAt hj

end TabSpan

/-- The group of the first tab goes on up to the first line that is neither a header nor a member. -/
theorem mem_leading_iff (h : ls.drop i = rest) (hfirst : ∀ l ∈ rest.head?, ¬ IsMember l) (hij : i ≤ j)
    (hj : IsHeaderAt ls j) :
    j ∈ Stretch.leading (stretchesFrom i (outline label? rest)) ↔ Unbroken ls i j := by
  induction rest using outline_induction label? generalizing i with
  | nil => exact absurd hj (not_isHeaderAt_of_nil h hij)
  | line l rest hl ih =>
    have hno := not_isHeaderAt_of_line h hl
    have hlt : i < j := by
      refine lt_of_le_of_ne hij ?_
      rintro rfl
      exact hno hj
    rw [stretchesFrom_line hl, Stretch.leading_line]
    refine iff_of_false List.not_mem_nil fun hall => ?_
    rcases hall i le_rfl hlt with hheader | ⟨m, hm, hmember⟩
    · exact hno hheader
    · rw [(getElem?_of_drop h).1] at hm
      obtain rfl := Option.some.inj hm
      exact hfirst l rfl hmember
  | block l rest label hl ih =>
    obtain ⟨next, hspan, hnext⟩ := stretchesFrom_block h hl
    rw [hnext, Stretch.leading_join, List.mem_cons]
    rcases hij.eq_or_lt with rfl | hlt
    · refine iff_of_true (.inl rfl) fun k hk hkj => ?_
      omega
    · have hopen : Unbroken ls i j ↔ Unbroken ls (i + 1) j := by
        refine ⟨fun hall k hk => hall k (by omega), fun hall k hk hkj => ?_⟩
        rcases hk.eq_or_lt with rfl | hk
        · exact .inl hspan.header
        · exact hall k hk hkj
      rw [hopen, hspan.unbroken_iff, ← ih hspan.drop hspan.first (hspan.le_of_isHeaderAt hlt hj)]
      simp [hlt.ne']

def Together (ps : List Stretch) (i j : Nat) : Prop := ∃ g, .group g ∈ ps ∧ i ∈ g ∧ j ∈ g

theorem together_line {ps : List Stretch} : Together (.line k :: ps) i j ↔ Together ps i j := by
  simp [Together]

theorem together_iff_leading (ps : List Stretch) : Together ps i j ↔
    i ∈ Stretch.leading ps ∧ j ∈ Stretch.leading ps ∨ Together (Stretch.behindLeading ps) i j := by
  cases ps with
  | nil => simp [Together, Stretch.leading, Stretch.behindLeading]
  | cons p ps => cases p <;> simp [Together, Stretch.leading, Stretch.behindLeading]

theorem together_iff_unbroken (h : ls.drop i = rest) (hij : i ≤ j) (hjk : j < k) (hj : IsHeaderAt ls j)
    (hk : IsHeaderAt ls k) :
    Together (stretchesFrom i (outline label? rest)) j k ↔ Unbroken ls (j + 1) k := by
  induction rest using outline_induction label? generalizing i with
  | nil => exact absurd hj (not_isHeaderAt_of_nil h hij)
  | line l rest hl ih =>
    have hlt : i + 1 ≤ j := by
      refine Nat.succ_le_of_lt (lt_of_le_of_ne hij ?_)
      rintro rfl
      exact not_isHeaderAt_of_line h hl hj
    rw [stretchesFrom_line hl, together_line, ih (getElem?_of_drop h).2 hlt]
  | block l rest label hl ih =>
    obtain ⟨next, hspan, hnext⟩ := stretchesFrom_block h hl
    rw [hnext, together_iff_leading, Stretch.leading_join, Stretch.behindLeading_join, List.mem_cons,
      List.mem_cons]
    rcases hij.eq_or_lt with rfl | hlt
    · -- no group behind that of this tab has the tab too
      have hnone : ¬ Together (Stretch.behindLeading (stretchesFrom next (outline label?
          (rest.drop (memberRun blockIndent rest).length)))) i k := by
        rintro ⟨g, hg, hi, -⟩
        refine absurd (le_of_mem_headers hspan.drop (j := i) ?_) (by have := hspan.lt; omega)
        rw [← leading_append_headers]
        exact List.mem_append_right _ (List.mem_flatMap.2 ⟨_, hg, hi⟩)
      rw [hspan.unbroken_iff, ← mem_leading_iff hspan.drop hspan.first (hspan.le_of_isHeaderAt hjk hk) hk]
      simp [hnone, hjk.ne']
    · rw [← ih hspan.drop (hspan.le_of_isHeaderAt hlt hj), together_iff_leading (stretchesFrom next _)]
      simp [hlt.ne', (hlt.trans hjk).ne']

end Outline

end Tabs

end Markdown

end DocsMigration
