import Relinow.Lib.Runs
import Mathlib.Order.MinMax

/-!
# The running maximum

A machine that remembers the largest value it has been given, and says of each
new one whether it is a record: larger than every value before it. Its memory is
an `Option`, empty before the first value, which is always a record.
-/

namespace RunningMax

open Runs

variable {α : Type} [LinearOrder α]

/-- The memory after one more value. -/
def next (high : Option α) (a : α) : Option α := some (high.elim a (max · a))

/-- Is the value larger than what is remembered? -/
def isRecord (high : Option α) (a : α) : Bool := high.all (· < a)

/-- **What is remembered is the maximum so far.** -/
theorem run_next (as : List α) : run next none as = as.max? := by
  cases as with
  | nil => rfl
  | cons a as =>
      have hrun : ∀ (as : List α) (m : α), run next (some m) as = some (as.foldl max m) := by
        intro as
        induction as with
        | nil => exact fun _ => rfl
        | cons b as ih => exact fun m => ih (max m b)
      exact hrun as a

/-- A record is larger than everything before it. -/
theorem isRecord_max {as : List α} {a : α} :
    isRecord as.max? a = true ↔ ∀ b ∈ as, b < a := by
  unfold isRecord
  cases h : as.max? with
  | none =>
      rw [List.max?_eq_none_iff] at h
      subst h
      simp
  | some m =>
      obtain ⟨hmem, hle⟩ := List.max?_eq_some_iff.mp h
      rw [Option.all_some, decide_eq_true_iff]
      exact ⟨fun hm b hb => lt_of_le_of_lt (hle b hb) hm, fun hall => hall m hmem⟩

end RunningMax
