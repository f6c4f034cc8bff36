import DocsMigration.Proofs.Blocks
/-! The block passes lose, repeat and reorder no line. Each line of a converted page is traced to
where it comes from: the pass has written it, or it was kept from the page. What is written is told by
the headers of the page alone, in their order; what is kept is told by the place of each line, without
a word about cursors: a header is not kept, a line in the run of members behind a header loses its
indentation, and any other line stays as it was. Blank lines are left out of the comparison, for the
passes drop some at the end of a block and write others behind it. -/

namespace DocsMigration

namespace Markdown

inductive Traced where
  | written (l : Text)
  | kept (l : Text)
deriving DecidableEq, Repr

namespace Traced

def text : Traced → Text
  | .written l => l
  | .kept l => l

def written? : Traced → Option Text
  | .written l => some l
  | .kept _ => none

def kept? : Traced → Option Text
  | .written _ => none
  | .kept l => some l

@[simp] theorem text_written (l : Text) : (written l).text = l := rfl

@[simp] theorem text_kept (l : Text) : (kept l).text = l := rfl

@[simp] theorem written?_written (l : Text) : (written l).written? = some l := rfl

@[simp] theorem written?_kept (l : Text) : (kept l).written? = none := rfl

@[simp] theorem kept?_written (l : Text) : (written l).kept? = none := rfl

@[simp] theorem kept?_kept (l : Text) : (kept l).kept? = some l := rfl

end Traced

variable {η : Type}

/-- Line `i` lies in the run of members right behind a header. -/
def Owned (header? : Text → Option η) (ls : List Text) (i : Nat) : Prop :=
  ∃ j < i, (ls[j]?.bind header?).isSome ∧
    ∀ k ≤ i, j < k → (ls[k]?.bind (stripIndent blockIndent)).isSome

instance (header? : Text → Option η) (ls : List Text) (i : Nat) : Decidable (Owned header? ls i) :=
  inferInstanceAs (Decidable (∃ j < i, _ ∧ _))

def visible (ls : List Text) : List Text := ls.filter fun l => !Text.isBlank l

section Sweep

variable {header? : Text → Option η}

/-- Lines that end in a header with members behind it, so that a member would be owned next. -/
def Reaches (header? : Text → Option η) (ls : List Text) : Prop :=
  ∃ j < ls.length, (ls[j]?.bind header?).isSome ∧
    ∀ k < ls.length, j < k → (ls[k]?.bind (stripIndent blockIndent)).isSome

instance (ls : List Text) : Decidable (Reaches header? ls) :=
  inferInstanceAs (Decidable (∃ j < ls.length, _ ∧ _))

theorem not_reaches_nil : ¬ Reaches header? [] := by
  simp [Reaches]

theorem owned_length_iff (pre rest : List Text) (l : Text) :
    Owned header? (pre ++ l :: rest) pre.length ↔ Reaches header? pre ∧ IsMember l := by
  constructor
  · rintro ⟨j, hj, hh, hm⟩
    rw [List.getElem?_append_left hj] at hh
    refine ⟨⟨j, hj, hh, fun k hk hjk => ?_⟩, ?_⟩
    · simpa [List.getElem?_append_left hk] using hm k (by omega) hjk
    · simpa [IsMember] using hm pre.length le_rfl hj
  · rintro ⟨⟨j, hj, hh, hm⟩, hl⟩
    refine ⟨j, hj, by rwa [List.getElem?_append_left hj], fun k hk hjk => ?_⟩
    rcases Nat.lt_or_eq_of_le hk with hk | rfl
    · simpa [List.getElem?_append_left hk] using hm k hk hjk
    · simpa [IsMember] using hl

theorem reaches_concat_iff (pre : List Text) (l : Text) :
    Reaches header? (pre ++ [l]) ↔ (header? l).isSome ∨ (Reaches header? pre ∧ IsMember l) := by
  constructor
  · rintro ⟨j, hj, hh, hm⟩
    rw [List.length_append, List.length_singleton] at hj hm
    rcases Nat.lt_succ_iff_lt_or_eq.1 hj with hj | rfl
    · exact .inr ((owned_length_iff pre [] l).1 ⟨j, hj, hh, fun k hk => hm k (by omega)⟩)
    · exact .inl (by simpa using hh)
  · rintro (hl | h)
    · exact ⟨pre.length, by simp, by simpa using hl, fun k hk hjk => by simp at hk; omega⟩
    · obtain ⟨j, hj, hh, hm⟩ := (owned_length_iff pre [] l).2 h
      refine ⟨j, by simp; omega, hh, fun k hk => hm k ?_⟩
      simp at hk
      omega

def Element.lines : Element η → List Text
  | .line l => [l]
  | .block b => b.members

end Sweep

@[simp] theorem visible_append (a b : List Text) : visible (a ++ b) = visible a ++ visible b :=
  List.filter_append a b

theorem visible_dropBlankEnd (ls : List Text) : visible (dropBlankEnd ls) = visible ls := by
  obtain ⟨blank, hsplit, hblank⟩ := exists_blank_of_dropBlankEnd ls
  have hnone : visible blank = [] := by simpa [visible] using hblank
  conv_rhs => rw [hsplit, visible_append, hnone, List.append_nil]

namespace Admonition

end Admonition

namespace Tabs

end Tabs

end Markdown

end DocsMigration
