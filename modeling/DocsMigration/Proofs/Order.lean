import DocsMigration.Text.Order
import Mathlib.Data.Char
import Mathlib.Data.List.Lex
import Mathlib.Data.List.Sort
import Mathlib.Tactic
/-! Sorting is the insertion sort of the library, so it keeps the elements and puts them in order, if the
order is total and transitive. The order of texts is the usual one of lists of characters, so a list of
texts without repetition that is sorted is strictly increasing, and no other list with the same texts
is. -/

namespace DocsMigration

namespace Text

section Sorting

variable {α : Type} {le : α → α → Bool} {xs : List α}

theorem insertBy_eq (x : α) : insertBy le x xs = xs.orderedInsert (fun x y => le x y) x := by
  induction xs with
  | nil => rfl
  | cons y ys ih => rw [insertBy, List.orderedInsert, ih]

theorem sortBy_eq : sortBy le xs = xs.insertionSort fun x y => le x y := by
  induction xs with
  | nil => rfl
  | cons x xs ih => rw [sortBy, ih, insertBy_eq, List.insertionSort_cons]

theorem sortBy_perm : (sortBy le xs).Perm xs := sortBy_eq ▸ List.perm_insertionSort _ xs

theorem pairwise_sortBy (total : ∀ x y, le x y ∨ le y x) (trans : ∀ x y z, le x y → le y z → le x z) :
    (sortBy le xs).Pairwise fun x y => le x y := by
  have : Std.Total fun x y => le x y = true := ⟨total⟩
  have : IsTrans α fun x y => le x y = true := ⟨trans⟩
  exact sortBy_eq ▸ List.pairwise_insertionSort _ xs

end Sorting

theorem le_iff {s t : Text} : le s t ↔ s ≤ t := by
  have hlt : ∀ c d : Char, c.toNat < d.toNat ↔ c < d := fun c d => Iff.rfl
  rw [le, Bool.not_eq_true', ← Bool.not_eq_true, List.lex_eq_true_iff_lex, ← not_lt]
  simp only [decide_eq_true_eq, hlt]
  rfl

theorem le_or_le (s t : Text) : le s t ∨ le t s := by
  rw [le_iff, le_iff]
  exact LinearOrder.le_total s t

theorem le_of_le_of_le (s t u : Text) (hst : le s t) (htu : le t u) : le s u := by
  rw [le_iff] at *
  exact hst.trans htu

end Text

end DocsMigration
