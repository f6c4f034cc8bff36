import DocsMigration.Proofs.Conservation
import DocsMigration.Proofs.TabGroups
/-! What a line of spaces does to the blocks around it. Without a space, or with a whole level of them, it
is a member, and a pass finds what it finds with an empty line in its place. With fewer spaces it is no
member: a block that reaches it ends there, and loses the members behind it. That can be seen exactly if
one of those members can, and it parts two tabs of a group exactly if nothing else stands between them. -/

namespace DocsMigration

namespace Markdown

def emptied (s : Text) (i : Nat) : Text := Text.unlines ((Text.lines s).set i [])

theorem lines_emptied (s : Text) (i : Nat) : Text.lines (emptied s i) = (Text.lines s).set i [] := by
  refine Text.lines_unlines (fun h => Text.lines_ne_nil s ((List.set_eq_nil_iff i []).1 h)) fun l hl => ?_
  rcases List.mem_or_eq_of_mem_set hl with hl | rfl
  · exact Text.newline_not_mem_of_mem_lines hl
  · exact List.not_mem_nil

section Spaces

variable {n : Nat}

theorem isBlank_spaces (n : Nat) : Text.isBlank (List.replicate n ' ') := by
  rw [Text.isBlank, List.all_eq_true]
  intro c hc
  rw [List.eq_of_mem_replicate hc]
  decide

theorem stripIndent_spaces (n : Nat) : stripIndent blockIndent (List.replicate n ' ') =
    if n = 0 ∨ blockIndent ≤ n then some (List.replicate (n - blockIndent) ' ') else none := by
  cases n with
  | zero => rfl
  | succ n =>
    have hhead : (List.replicate (n + 1) ' ').head? ≠ some '\t' := by simp [List.replicate_succ]
    simp [stripIndent, hhead]

theorem isMember_spaces_iff : IsMember (List.replicate n ' ') ↔ n = 0 ∨ blockIndent ≤ n := by
  rw [IsMember, stripIndent_spaces]
  split_ifs with h <;> simp [h]

end Spaces

section Found

variable {η : Type} {header? : Text → Option η} {ls a b : List Text} {l : Text}

/-- The blocks that a pass finds and renders: the header of each, with the lines of its body that can be seen. -/
def found (header? : Text → Option η) (ls : List Text) : List (η × List Text) :=
  ((outline header? ls).filterMap Element.block?).map fun b => (b.header, visible b.body)

theorem found_cons_line (h : header? l = none) (ls : List Text) :
    found header? (l :: ls) = found header? ls := by
  rw [found, outline_cons_line h]
  rfl

theorem found_append (hb : ∀ l ∈ b.head?, ¬ IsMember l) (a : List Text) :
    found header? (a ++ b) = found header? a ++ found header? b := by
  simp only [found, outline_append hb, List.filterMap_append, List.map_append]

theorem found_drop_memberRun (hu : Unindented header?) (ls : List Text) :
    found header? (ls.drop (memberRun blockIndent ls).length) = found header? ls := by
  induction ls with
  | nil => rfl
  | cons l ls ih =>
    unfold memberRun
    split
    · rename_i k hk
      rw [found_cons_line (hu.eq_none (by simp [IsMember, hk]))]
      exact ih
    · rfl

theorem found_cons_block (hu : Unindented header?) {x : η} (h : header? l = some x) (ls : List Text) :
    found header? (l :: ls) = (x, visible (memberRun blockIndent ls)) :: found header? ls := by
  rw [← found_drop_memberRun hu ls, found, outline_cons_block h, List.filterMap_cons]
  rw [Element.block?, List.map_cons, Block.body, visible_dropBlankEnd]
  rfl

/-- Behind lines that reach nothing a page is found as if it stood alone. -/
theorem found_append_of_not_reaches (ha : ¬ Reaches header? a) (b : List Text) :
    found header? (a ++ b) = found header? a ++ found header? b := by
  induction a using List.reverseRecOn generalizing b with
  | nil => rfl
  | append_singleton a l ih =>
    rw [reaches_concat_iff, not_or, Option.not_isSome_iff_eq_none] at ha
    obtain ⟨hl, ha⟩ := ha
    rw [List.append_assoc, List.singleton_append]
    by_cases hm : IsMember l
    · have ih := ih fun h => ha ⟨h, hm⟩
      rw [ih, ih, found_cons_line hl, found_cons_line hl]
      simp [found]
    · have hhead (ks : List Text) : ∀ k ∈ (l :: ks).head?, ¬ IsMember k := by simpa using hm
      rw [found_append (hhead b), found_append (hhead []), found_cons_line hl, found_cons_line hl]
      simp [found]

/-- Lines that reach what follows end in a block, which takes the members in front of it. -/
theorem found_append_of_reaches (hu : Unindented header?) (ha : Reaches header? a) :
    ∃ front x body, ∀ b, found header? (a ++ b) =
      front ++ (x, body ++ visible (memberRun blockIndent b)) :: found header? b := by
  induction a using List.reverseRecOn with
  | nil => exact absurd ha not_reaches_nil
  | append_singleton a l ih =>
    simp only [List.append_assoc, List.singleton_append]
    rcases (reaches_concat_iff a l).1 ha with hl | ⟨ha, hm⟩
    · obtain ⟨x, hx⟩ := Option.isSome_iff_exists.1 hl
      refine ⟨found header? a, x, [], fun b => ?_⟩
      rw [found_append (by simpa using hu l x hx), found_cons_block hu hx, List.nil_append]
    · obtain ⟨k, hk⟩ := Option.isSome_iff_exists.1 hm
      obtain ⟨front, x, body, h⟩ := ih ha
      refine ⟨front, x, body ++ visible [k], fun b => ?_⟩
      have hrun : memberRun blockIndent (l :: b) = [k] ++ memberRun blockIndent b := by
        simp [memberRun, hk]
      rw [h, hrun, visible_append, found_cons_line (hu.eq_none hm), List.append_assoc]

/-- Two pages that differ in one line, no header in either, have the same blocks if no block reaches the
line, or if the members that can be seen are the same from the line on. -/
theorem found_append_cons_eq_iff (hu : Unindented header?) {k : Text} (hl : header? l = none)
    (hk : header? k = none) :
    found header? (a ++ k :: b) = found header? (a ++ l :: b) ↔ (Reaches header? a →
      visible (memberRun blockIndent (k :: b)) = visible (memberRun blockIndent (l :: b))) := by
  by_cases ha : Reaches header? a
  · obtain ⟨front, x, body, h⟩ := found_append_of_reaches hu ha
    simp [h, found_cons_line hl, found_cons_line hk, ha]
  · simp [found_append_of_not_reaches ha, found_cons_line hl, found_cons_line hk, ha]

/-- A block reaches line `i`, and one of the members behind the line can be seen. -/
def Divides (header? : Text → Option η) (ls : List Text) (i : Nat) : Prop :=
  Reaches header? (ls.take i) ∧ visible (memberRun blockIndent (ls.drop (i + 1))) ≠ []

instance (header? : Text → Option η) (ls : List Text) (i : Nat) : Decidable (Divides header? ls i) :=
  inferInstanceAs (Decidable (_ ∧ _))

theorem visible_memberRun_spaces (n : Nat) (ls : List Text) :
    visible (memberRun blockIndent (List.replicate n ' ' :: ls)) =
      if n = 0 ∨ blockIndent ≤ n then visible (memberRun blockIndent ls) else [] := by
  rw [memberRun, stripIndent_spaces]
  split_ifs with h
  · simp [visible, isBlank_spaces]
  · rfl

theorem found_set_nil_iff (hu : Unindented header?) (hspaces : ∀ n, header? (List.replicate n ' ') = none)
    {i n : Nat} (hi : ls[i]? = some (List.replicate n ' ')) :
    found header? (ls.set i []) = found header? ls ↔
      n = 0 ∨ blockIndent ≤ n ∨ ¬ Divides header? ls i := by
  obtain ⟨hlt, hget⟩ := List.getElem?_eq_some_iff.1 hi
  obtain ⟨a, b, rfl, rfl⟩ : ∃ a b, ls = a ++ List.replicate n ' ' :: b ∧ a.length = i :=
    ⟨ls.take i, ls.drop (i + 1), by rw [← hget, List.getElem_cons_drop, List.take_append_drop],
      List.length_take_of_le hlt.le⟩
  have hset : (a ++ List.replicate n ' ' :: b).set a.length [] = a ++ List.replicate 0 ' ' :: b := by
    simp
  have hdivides : Divides header? (a ++ List.replicate n ' ' :: b) a.length ↔
      Reaches header? a ∧ visible (memberRun blockIndent b) ≠ [] := by
    simp [Divides]
  rw [hset, hdivides, found_append_cons_eq_iff hu (hspaces n) (hspaces 0), visible_memberRun_spaces,
    visible_memberRun_spaces, if_pos (.inl rfl)]
  split_ifs with hn
  · simp only [implies_true, true_iff]
    tauto
  · tauto

end Found

theorem AdmonitionHeader.parse_spaces (n : Nat) : parse (List.replicate n ' ') = none := by
  rw [Option.eq_none_iff_forall_ne_some]
  intro h hp
  obtain ⟨rest, hline, -⟩ := parse_spec hp
  have hfirst : ∃ c ∈ h.fence.mark ++ rest, c ≠ ' ' := by
    cases h.fence <;> simp [Fence.mark]
  obtain ⟨c, hc, hne⟩ := hfirst
  exact hne (List.eq_of_mem_replicate (hline ▸ hc))

namespace Tabs

theorem label?_spaces (n : Nat) : label? (List.replicate n ' ') = none := by
  rw [Option.eq_none_iff_forall_ne_some]
  intro label h
  obtain ⟨rest, hline, -⟩ := label?_eq_some h
  have hfirst : '=' ∈ List.replicate n ' ' := by simp [hline]
  exact absurd (List.eq_of_mem_replicate hfirst) (by decide)

/-- Line `i` lies between two tab headers, and every other line between them is one too or a member. -/
def Parts (ls : List Text) (i : Nat) : Prop :=
  ∃ j < i, ∃ k < ls.length, i < k ∧ IsHeaderAt ls j ∧ IsHeaderAt ls k ∧
    ∀ m < k, j < m → m ≠ i → IsHeaderAt ls m ∨ IsMemberAt ls m

instance (ls : List Text) (i : Nat) : Decidable (Parts ls i) :=
  inferInstanceAs (Decidable (∃ j < i, ∃ k < ls.length, _ ∧ _))

/-- Two pages have their tab headers on the same lines, and the same pairs of tabs share a group. -/
structure SameGroups (ks ls : List Text) : Prop where
  header : ∀ j, IsHeaderAt ks j ↔ IsHeaderAt ls j
  together : ∀ j k, j < k → IsHeaderAt ls j → IsHeaderAt ls k →
    (Together (stretches ks) j k ↔ Together (stretches ls) j k)

section Groups

variable {ls : List Text} {l : Text} {i j k n : Nat}

theorem isHeaderAt_set_nil (hi : ls[i]? = some l) (hl : label? l = none) :
    IsHeaderAt (ls.set i []) j ↔ IsHeaderAt ls j := by
  rcases eq_or_ne i j with rfl | hij
  · have hlt := (List.getElem?_eq_some_iff.1 hi).1
    simp [IsHeaderAt, hi, hl, List.getElem?_set_self hlt, show label? [] = none from rfl]
  · rw [IsHeaderAt, List.getElem?_set_ne hij, IsHeaderAt]

theorem isMemberAt_set_nil (hi : ls[i]? = some l) :
    IsMemberAt (ls.set i []) j ↔ j = i ∨ IsMemberAt ls j := by
  rcases eq_or_ne i j with rfl | hij
  · have hlt := (List.getElem?_eq_some_iff.1 hi).1
    simp [IsMemberAt, List.getElem?_set_self hlt, show IsMember [] from rfl]
  · rw [IsMemberAt, List.getElem?_set_ne hij, IsMemberAt]
    simp [hij.symm]

theorem unbroken_set_nil_iff (hi : ls[i]? = some l) (hl : label? l = none) :
    Unbroken (ls.set i []) j k ↔
      ∀ m, j ≤ m → m < k → m ≠ i → IsHeaderAt ls m ∨ IsMemberAt ls m := by
  simp only [Unbroken, isHeaderAt_set_nil hi hl, isMemberAt_set_nil hi]
  refine forall_congr' fun m => ?_
  tauto

theorem sameGroups_set_nil_iff (hi : ls[i]? = some (List.replicate n ' ')) :
    SameGroups (ls.set i []) ls ↔ n = 0 ∨ blockIndent ≤ n ∨ ¬ Parts ls i := by
  have hl := label?_spaces n
  have hmember : IsMemberAt ls i ↔ n = 0 ∨ blockIndent ≤ n := by
    simp [IsMemberAt, hi, isMember_spaces_iff]
  have hheader : ¬ IsHeaderAt ls i := by simp [IsHeaderAt, hi, hl]
  have htogether {j k : Nat} (hjk : j < k) (hj : IsHeaderAt ls j) (hk : IsHeaderAt ls k) :
      (Together (stretches (ls.set i [])) j k ↔ Unbroken (ls.set i []) (j + 1) k) ∧
        (Together (stretches ls) j k ↔ Unbroken ls (j + 1) k) :=
    ⟨together_iff_unbroken (i := 0) rfl (Nat.zero_le j) hjk ((isHeaderAt_set_nil hi hl).2 hj)
      ((isHeaderAt_set_nil hi hl).2 hk), together_iff_unbroken (i := 0) rfl (Nat.zero_le j) hjk hj hk⟩
  rw [← or_assoc, ← hmember]
  constructor
  · intro h
    by_contra hcon
    rw [not_or, not_not] at hcon
    obtain ⟨hno, j, hji, k, -, hik, hj, hk, hbetween⟩ := hcon
    have hjk := hji.trans hik
    have hopen : Unbroken (ls.set i []) (j + 1) k :=
      (unbroken_set_nil_iff hi hl).2 fun m hjm hmk => hbetween m hmk hjm
    have hsame : Unbroken ls (j + 1) k := (htogether hjk hj hk).2.1
      ((h.together j k hjk hj hk).1 ((htogether hjk hj hk).1.2 hopen))
    exact (hsame i hji hik).elim hheader hno
  · intro h
    refine ⟨fun j => isHeaderAt_set_nil hi hl, fun j k hjk hj hk => ?_⟩
    rw [(htogether hjk hj hk).1, (htogether hjk hj hk).2, unbroken_set_nil_iff hi hl]
    refine ⟨fun hopen m hjm hmk => ?_, fun hopen m hjm hmk _ => hopen m hjm hmk⟩
    rcases eq_or_ne m i with rfl | hne
    · -- only a member may stand here: otherwise the line parts the two tabs
      refine .inr (h.resolve_right fun hno => hno ⟨j, hjm, k, ?_, hmk, hj, hk, ?_⟩)
      · by_contra hlen
        simp [IsHeaderAt, List.getElem?_eq_none (Nat.le_of_not_lt hlen)] at hk
      · exact fun m hmk hjm hne => hopen m hjm hmk hne
    · exact hopen m hjm hmk hne

end Groups

end Tabs

/-- A line of spaces that is emptied changes neither the blocks that the passes find, nor the lines to be
seen of their bodies, nor the groups of the tabs, unless it has fewer spaces than one level and divides a
block or parts two tabs. -/
theorem emptying_unnoticed_iff {s : Text} {i n : Nat}
    (hi : (Text.lines s)[i]? = some (List.replicate n ' ')) :
    (found AdmonitionHeader.parse (Text.lines (emptied s i)) =
        found AdmonitionHeader.parse (Text.lines s) ↔
      n = 0 ∨ blockIndent ≤ n ∨ ¬ Divides AdmonitionHeader.parse (Text.lines s) i) ∧
    (found Tabs.label? (Text.lines (emptied s i)) = found Tabs.label? (Text.lines s) ↔
      n = 0 ∨ blockIndent ≤ n ∨ ¬ Divides Tabs.label? (Text.lines s) i) ∧
    (Tabs.SameGroups (Text.lines (emptied s i)) (Text.lines s) ↔
      n = 0 ∨ blockIndent ≤ n ∨ ¬ Tabs.Parts (Text.lines s) i) := by
  rw [lines_emptied]
  exact ⟨found_set_nil_iff AdmonitionHeader.unindented_parse AdmonitionHeader.parse_spaces hi,
    found_set_nil_iff Tabs.unindented_label? Tabs.label?_spaces hi, Tabs.sameGroups_set_nil_iff hi⟩

def closedNote : Text := "!!! note\n    a\n  \n\nText".toList

theorem closedNote_unnoticed :
    (Text.lines closedNote)[2]? = some (List.replicate 2 ' ') ∧
      found AdmonitionHeader.parse (Text.lines (emptied closedNote 2)) =
        found AdmonitionHeader.parse (Text.lines closedNote) := by
  have hi : (Text.lines closedNote)[2]? = some (List.replicate 2 ' ') := by decide
  exact ⟨hi, (emptying_unnoticed_iff hi).1.2 (.inr (.inr (by decide)))⟩

def dividedNote : Text := "!!! note\n    a\n  \n    b".toList

def partedTabs : Text := "=== \"A\"\n    a\n \n=== \"B\"\n    b".toList

theorem short_lines_end_blocks :
    ((Text.lines dividedNote)[2]? = some (List.replicate 2 ' ') ∧
      found AdmonitionHeader.parse (Text.lines (emptied dividedNote 2)) ≠
        found AdmonitionHeader.parse (Text.lines dividedNote)) ∧
    (Text.lines partedTabs)[2]? = some (List.replicate 1 ' ') ∧
      ¬ Tabs.SameGroups (Text.lines (emptied partedTabs 2)) (Text.lines partedTabs) := by
  have hspace : (Text.lines partedTabs)[2]? = some (List.replicate 1 ' ') := by decide
  refine ⟨⟨by decide, ?_⟩, hspace, ?_⟩
  · have hemptied : found AdmonitionHeader.parse (Text.lines (emptied dividedNote 2)) =
        [(⟨.plain, "note".toList, none⟩, ["a".toList, "b".toList])] := by decide
    have hdivided : found AdmonitionHeader.parse (Text.lines dividedNote) =
        [(⟨.plain, "note".toList, none⟩, ["a".toList])] := by decide
    rw [hemptied, hdivided]
    decide
  · rw [lines_emptied, Tabs.sameGroups_set_nil_iff hspace]
    decide

end Markdown

end DocsMigration
