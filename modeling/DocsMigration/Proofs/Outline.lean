import DocsMigration.Markdown.Block
import DocsMigration.Proofs.Cuts
import Mathlib.Data.List.TakeWhile
/-! The outline of a page, line by line: a line that is no header stands for itself, a header takes
the run of members behind it. A header is never a member of another block, so the outline of two
parts is the two outlines as soon as the second part does not start with a member. -/

namespace DocsMigration

namespace Markdown

variable {η : Type} {header? : Text → Option η}

section Places

variable {ls rest : List Text} {l : Text} {i : Nat}

theorem getElem?_of_drop (h : ls.drop i = l :: rest) : ls[i]? = some l ∧ ls.drop (i + 1) = rest := by
  constructor
  · rw [← List.head?_drop, h, List.head?_cons]
  · rw [← List.drop_drop, h, List.drop_one, List.tail_cons]

theorem lt_length_of_drop (h : ls.drop i = l :: rest) : i < ls.length :=
  (List.getElem?_eq_some_iff.1 (getElem?_of_drop h).1).1

end Places

/-- A member of a block: empty, indented by one level, or led by a tab. -/
def IsMember (l : Text) : Prop := (stripIndent blockIndent l).isSome

instance (l : Text) : Decidable (IsMember l) := inferInstanceAs (Decidable (_ = true))

def Unindented (header? : Text → Option η) : Prop :=
  ∀ l h, header? l = some h → ¬ IsMember l

theorem not_isMember_iff {l : Text} : ¬ IsMember l ↔ stripIndent blockIndent l = none := by
  simp [IsMember]

theorem Unindented.eq_none (hu : Unindented header?) {l : Text} (h : IsMember l) : header? l = none := by
  rw [Option.eq_none_iff_forall_ne_some]
  exact fun a ha => hu l a ha h

theorem le_length_spaces_iff {n : Nat} {l : Text} :
    n ≤ (l.takeWhile (· = ' ')).length ↔ List.replicate n ' ' <+: l := by
  induction n generalizing l with
  | zero => simp
  | succ n ih =>
    cases l with
    | nil => simp
    | cons c l =>
      by_cases hc : c = ' '
      · simp [hc, List.replicate_succ, List.cons_prefix_cons, ih]
      · simp [hc, List.replicate_succ, List.cons_prefix_cons, Ne.symm hc]

/-- A line that belongs to a block: it is empty, has the indentation of the block in spaces, or is led by
a tab. -/
def Belongs (indent : Nat) (l : Text) : Prop :=
  l = [] ∨ List.replicate indent ' ' <+: l ∨ l.head? = some '\t'

instance (indent : Nat) (l : Text) : Decidable (Belongs indent l) :=
  inferInstanceAs (Decidable (_ ∨ _ ∨ _))

theorem isSome_stripIndent_iff {n : Nat} {l : Text} : (stripIndent n l).isSome ↔ Belongs n l := by
  rw [Belongs, ← le_length_spaces_iff, stripIndent]
  split_ifs with hempty hwide htab <;> simp_all

theorem stripIndent_eq_none_iff {n : Nat} {l : Text} : stripIndent n l = none ↔ ¬ Belongs n l := by
  rw [← isSome_stripIndent_iff, Option.not_isSome_iff_eq_none]

theorem isMember_iff {l : Text} : IsMember l ↔ l = [] ∨ "    ".toList <+: l ∨ l.head? = some '\t' :=
  isSome_stripIndent_iff

theorem not_isMember_cons {c : Char} {l : Text} (hs : c ≠ ' ') (ht : c ≠ '\t') :
    ¬ IsMember (c :: l) := by
  simp [IsMember, stripIndent, blockIndent, hs, ht]

theorem suffix_of_stripIndent {n : Nat} {l m : Text} (h : stripIndent n l = some m) : m <:+ l := by
  unfold stripIndent at h
  split_ifs at h with h1 h2 h3 <;> obtain rfl := Option.some.inj h
  · exact List.nil_suffix
  · exact List.drop_suffix _ _
  · exact List.dropWhile_suffix _

theorem map_stripIndent_take_memberRun (n : Nat) (ls : List Text) :
    (ls.take (memberRun n ls).length).map (stripIndent n) = (memberRun n ls).map some := by
  induction ls with
  | nil => rfl
  | cons l ls ih =>
    unfold memberRun
    split
    · rename_i m hm
      simp [hm, ih]
    · rfl

theorem stripIndent_behind_memberRun (n : Nat) (ls : List Text) :
    ∀ l ∈ (ls.drop (memberRun n ls).length).head?, stripIndent n l = none := by
  induction ls with
  | nil => simp [memberRun]
  | cons l ls ih =>
    unfold memberRun
    split
    · simpa using ih
    · rename_i hl
      simpa using hl

theorem isSome_stripIndent_of_lt_memberRun {n k : Nat} (ls : List Text) (hk : k < (memberRun n ls).length) :
    ∃ l, ls[k]? = some l ∧ (stripIndent n l).isSome := by
  have hat := congrArg (·[k]?) (map_stripIndent_take_memberRun n ls)
  simp only [List.getElem?_map, List.getElem?_take_of_lt hk, List.getElem?_eq_getElem hk, Option.map_some] at hat
  obtain ⟨l, hl, hstrip⟩ := Option.map_eq_some_iff.1 hat
  exact ⟨l, hl, by rw [hstrip]; rfl⟩

theorem length_memberRun_le (n : Nat) (ls : List Text) : (memberRun n ls).length ≤ ls.length := by
  induction ls with
  | nil => rfl
  | cons l ls ih =>
    unfold memberRun
    split
    · simpa using ih
    · simp

theorem outlineFrom_eq_drop (n : Nat) (ls : List Text) :
    outlineFrom header? n ls = outline header? (ls.drop n) := by
  induction ls generalizing n with
  | nil => cases n <;> rfl
  | cons l ls ih =>
    cases n with
    | zero => rfl
    | succ n => exact ih n

@[simp] theorem outline_nil : outline header? [] = [] := rfl

theorem outline_cons_line {l : Text} (h : header? l = none) (ls : List Text) :
    outline header? (l :: ls) = .line l :: outline header? ls := by
  simp [outline, outlineFrom, h]

theorem outline_cons_block {l : Text} {a : η} (h : header? l = some a) (ls : List Text) :
    outline header? (l :: ls) = .block ⟨a, memberRun blockIndent ls⟩ ::
      outline header? (ls.drop (memberRun blockIndent ls).length) := by
  rw [← outlineFrom_eq_drop]
  simp [outline, outlineFrom, h]

/-- Induction along the outline: over the lines, with a whole block at a time. -/
@[elab_as_elim]
theorem outline_induction (header? : Text → Option η) {motive : List Text → Prop}
    (nil : motive [])
    (line : ∀ l ls, header? l = none → motive ls → motive (l :: ls))
    (block : ∀ l ls a, header? l = some a →
      motive (ls.drop (memberRun blockIndent ls).length) → motive (l :: ls)) :
    ∀ ls, motive ls := by
  intro ls
  induction hn : ls.length using Nat.strong_induction_on generalizing ls with
  | _ n ih =>
    cases ls with
    | nil => exact nil
    | cons l ls =>
      cases h : header? l with
      | none => exact line l ls h (ih ls.length (by simp [← hn]) ls rfl)
      | some a =>
        refine block l ls a h (ih _ ?_ _ rfl)
        simp only [List.length_cons, List.length_drop] at hn ⊢
        omega

theorem memberRun_append {b : List Text} (hb : ∀ l ∈ b.head?, ¬ IsMember l) (a : List Text) :
    memberRun blockIndent (a ++ b) = memberRun blockIndent a := by
  induction a with
  | nil =>
    cases b with
    | nil => rfl
    | cons l b => simp [memberRun, not_isMember_iff.1 (hb l rfl)]
  | cons l a ih =>
    simp only [List.cons_append, memberRun]
    split
    · rw [ih]
    · rfl

/-- A block ends before a line that is no member, so the outline can be cut there. -/
theorem outline_append {b : List Text} (hb : ∀ l ∈ b.head?, ¬ IsMember l) (a : List Text) :
    outline header? (a ++ b) = outline header? a ++ outline header? b := by
  induction a using outline_induction header? with
  | nil => rfl
  | line l ls h ih => simp [outline_cons_line h, ih]
  | block l ls a h ih =>
    rw [List.cons_append, outline_cons_block h, outline_cons_block h, memberRun_append hb,
      List.drop_append_of_le_length (length_memberRun_le _ _), ih]
    rfl

theorem exists_of_mem_memberRun {n : Nat} {ls : List Text} {m : Text} (h : m ∈ memberRun n ls) :
    ∃ l ∈ ls, stripIndent n l = some m := by
  induction ls with
  | nil => contradiction
  | cons l ls ih =>
    unfold memberRun at h
    split at h
    · rename_i k hk
      rcases List.mem_cons.1 h with rfl | h
      · exact ⟨l, List.mem_cons_self, hk⟩
      · obtain ⟨l', hl', hs⟩ := ih h
        exact ⟨l', List.mem_cons_of_mem l hl', hs⟩
    · contradiction

theorem mem_outline {ls : List Text} {e : Element η} (h : e ∈ outline header? ls) :
    (∀ l, e = .line l → l ∈ ls ∧ header? l = none) ∧
      ∀ b, e = .block b → (∃ l ∈ ls, header? l = some b.header) ∧
        ∀ m ∈ b.members, ∃ l ∈ ls, m <:+ l := by
  induction ls using outline_induction header? with
  | nil => contradiction
  | line l ls hl ih =>
    rw [outline_cons_line hl] at h
    rcases List.mem_cons.1 h with rfl | h
    · simp [hl]
    · grind
  | block l ls a hl ih =>
    rw [outline_cons_block hl] at h
    rcases List.mem_cons.1 h with rfl | h
    · refine ⟨by simp, ?_⟩
      rintro b ⟨⟩
      refine ⟨⟨l, List.mem_cons_self, hl⟩, fun m hm => ?_⟩
      obtain ⟨k, hk, hs⟩ := exists_of_mem_memberRun hm
      exact ⟨k, List.mem_cons_of_mem l hk, suffix_of_stripIndent hs⟩
    · have hsub : ∀ k ∈ ls.drop (memberRun blockIndent ls).length, k ∈ l :: ls := fun k hk =>
        List.mem_cons_of_mem l (List.mem_of_mem_drop hk)
      grind

section BlankEnd

variable {ls kept blank : List Text}

theorem exists_blank_of_dropBlankEnd (ls : List Text) :
    ∃ blank, ls = dropBlankEnd ls ++ blank ∧ ∀ l ∈ blank, Text.isBlank l := by
  refine ⟨(ls.reverse.takeWhile Text.isBlank).reverse, ?_, fun l hl => ?_⟩
  · rw [dropBlankEnd, ← List.reverse_append, List.takeWhile_append_dropWhile, List.reverse_reverse]
  · exact List.all_eq_true.1 List.all_takeWhile l (List.mem_reverse.1 hl)

theorem not_isBlank_of_dropBlankEnd (ls : List Text) :
    ∀ l ∈ (dropBlankEnd ls).getLast?, ¬ Text.isBlank l := by
  intro l hl
  rw [dropBlankEnd, List.getLast?_reverse] at hl
  have hnot := List.head?_dropWhile_not Text.isBlank ls.reverse
  simp only [Option.mem_def] at hl
  rw [hl] at hnot
  simpa using hnot

/-- Dropping the blank lines at the end is the only way to cut a list into lines that do not end in a
blank one and blank lines behind them. -/
theorem dropBlankEnd_append (hblank : ∀ l ∈ blank, Text.isBlank l)
    (hlast : ∀ l ∈ kept.getLast?, ¬ Text.isBlank l) : dropBlankEnd (kept ++ blank) = kept := by
  rw [dropBlankEnd, List.reverse_append, List.dropWhile_append_of_pos (by simpa using hblank)]
  rcases List.eq_nil_or_concat' kept with rfl | ⟨front, l, rfl⟩
  · rfl
  · rw [List.reverse_concat, List.dropWhile_cons_of_neg (hlast l (by simp)), List.reverse_cons, List.reverse_reverse]

end BlankEnd

theorem mem_of_mem_dropBlankEnd {ls : List Text} {l : Text} (h : l ∈ dropBlankEnd ls) : l ∈ ls := by
  have := (List.dropWhile_suffix Text.isBlank).subset (List.mem_reverse.1 h)
  simpa using this

theorem exists_of_mem_body {ls : List Text} {b : Block η} (hb : .block b ∈ outline header? ls) {m : Text}
    (hm : m ∈ b.body) : ∃ l ∈ ls, m <:+ l :=
  ((mem_outline hb).2 b rfl).2 m (mem_of_mem_dropBlankEnd hm)

end Markdown

end DocsMigration
