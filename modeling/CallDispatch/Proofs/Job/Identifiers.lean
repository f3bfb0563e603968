import CallDispatch.Job.Activation
import Mathlib.Algebra.Ring.Nat
import Mathlib.Data.List.Nodup

/-!
# Identifiers of numbers

The identifier of a number has its last hexadecimal digits. So the identifiers of two numbers differ
if the numbers do, up to as many as there are texts of that width, and a source that answers with
one after the other does not repeat itself.
-/

namespace CallDispatch

namespace Activation

theorem hexDigit_inj {d e : Nat} (below : d < 16) (below' : e < 16)
    (same : Text.hexDigit d = Text.hexDigit e) : d = e := by
  have all : ∀ d < 16, ∀ e < 16, Text.hexDigit d = Text.hexDigit e → d = e := by decide
  exact all d below e below' same

/-- Digits tell two numbers apart as far as they go. -/
theorem mod_eq_of_digits {count n m : Nat} (same : digits count n = digits count m) :
    n % 16 ^ count = m % 16 ^ count := by
  induction count generalizing n m with
  | zero => rw [Nat.pow_zero, Nat.mod_one, Nat.mod_one]
  | succ count ih =>
    obtain ⟨higher, last⟩ := List.append_inj' same rfl
    have digit : n % 16 = m % 16 :=
      hexDigit_inj (Nat.mod_lt n (by decide)) (Nat.mod_lt m (by decide)) (List.cons.inj last).1
    rw [Nat.pow_succ', Nat.mod_mul, Nat.mod_mul, digit, ih higher]

/-- Two identifiers are the same only if their numbers are, as long as there are enough. -/
theorem id_inj {n m : Nat} (below : n < 16 ^ width) (below' : m < 16 ^ width)
    (same : id n = id m) : n = m := by
  have mod := mod_eq_of_digits (String.ofList_injective same)
  rwa [Nat.mod_eq_of_lt below, Nat.mod_eq_of_lt below'] at mod

/-- A source that answers with the identifiers in turn does not repeat itself while there are
any. -/
theorem nodup_ids {count : Nat} (enough : count ≤ 16 ^ width) :
    ((List.range count).map id).Nodup := by
  refine List.nodup_range.map_on fun n below m below' same => ?_
  have below := List.mem_range.mp below
  have below' := List.mem_range.mp below'
  exact id_inj (by omega) (by omega) same

end Activation

end CallDispatch
