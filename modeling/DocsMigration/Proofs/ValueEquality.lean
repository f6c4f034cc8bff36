import DocsMigration.Yaml.Value
import Mathlib.Tactic
/-! Equality of YAML values is decidable. Unlike the agreement of keys it tells the two zeros apart and
minds the order of the entries. -/

namespace DocsMigration

namespace Yaml

mutual

def Value.same : Value → Value → Bool
  | .null, .null => true
  | .bool a, .bool b => a == b
  | .int a, .int b => a == b
  | .float a, .float b => a == b
  | .string a, .string b => a == b
  | .sequence xs, .sequence ys => Value.allSame xs ys
  | .mapping es, .mapping fs => Value.entriesSame es fs
  | .tagged t a, .tagged u b => t == u && Value.same a b
  | _, _ => false
termination_by structural x => x

def Value.allSame : List Value → List Value → Bool
  | [], [] => true
  | x :: xs, y :: ys => Value.same x y && Value.allSame xs ys
  | _, _ => false
termination_by structural xs => xs

def Value.entriesSame : List (Value × Value) → List (Value × Value) → Bool
  | [], [] => true
  | e :: es, f :: fs => Value.entrySame e f && Value.entriesSame es fs
  | _, _ => false
termination_by structural es => es

def Value.entrySame : Value × Value → Value × Value → Bool
  | (k, v), (k', v') => Value.same k k' && Value.same v v'
termination_by structural e => e

end

namespace Value

mutual

theorem same_iff (a b : Value) : same a b ↔ a = b := by
  match a with
  | .sequence xs => cases b <;> simp [same, allSame_iff xs]
  | .mapping es => cases b <;> simp [same, entriesSame_iff es]
  | .tagged t a => cases b <;> simp [same, same_iff a]
  | .null | .bool _ | .int _ | .float _ | .string _ => cases b <;> simp [same]

theorem allSame_iff (xs ys : List Value) : allSame xs ys ↔ xs = ys := by
  match xs with
  | [] => cases ys <;> simp [allSame]
  | x :: xs => cases ys <;> simp [allSame, same_iff x, allSame_iff xs]

theorem entriesSame_iff (es fs : List (Value × Value)) : entriesSame es fs ↔ es = fs := by
  match es with
  | [] => cases fs <;> simp [entriesSame]
  | e :: es => cases fs <;> simp [entriesSame, entrySame_iff e, entriesSame_iff es]

theorem entrySame_iff (e f : Value × Value) : entrySame e f ↔ e = f := by
  match e with
  | (k, v) => cases f; simp [entrySame, same_iff k, same_iff v]

end

instance : DecidableEq Value := fun a b => decidable_of_iff (same a b) (same_iff a b)

end Value

end Yaml

end DocsMigration
