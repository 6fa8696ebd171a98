import Mathlib.Tactic.Common

/-!
# A list cut into pieces

Whoever sends a long message over a link with short packets cuts it into pieces
of `n` items, the last of which may be shorter. There are as many pieces as `n`
goes into the length, rounded up; each is at most `n` long, and put together
they are the list again.

A loop takes the pieces off the front one by one, which is what `pieces_cons` and
`count_sub` are for.
-/

namespace Pieces

variable {α : Type} {n : Nat}

/-- How many pieces a list of `len` items makes. -/
def count (len n : Nat) : Nat := (len + n - 1) / n

/-- The pieces of a list, in order. -/
def pieces (n : Nat) (l : List α) : List (List α) :=
  (List.range (count l.length n)).map fun j => (l.drop (j * n)).take n

theorem length_pieces (n : Nat) (l : List α) : (pieces n l).length = count l.length n := by
  unfold pieces
  rw [List.length_map, List.length_range]

/-- No piece is longer than `n`. -/
theorem length_le_of_mem {l p : List α} (h : p ∈ pieces n l) : p.length ≤ n := by
  unfold pieces at h
  obtain ⟨j, _, rfl⟩ := List.mem_map.mp h
  exact List.length_take_le _ _

/-! ## Counting -/

theorem count_zero (hn : 0 < n) : count 0 n = 0 := by
  unfold count
  rw [Nat.zero_add]
  exact Nat.div_eq_of_lt (by omega)

/-- Taking one piece off leaves one piece fewer. -/
theorem count_sub {len : Nat} (hn : 0 < n) (hlen : 0 < len) :
    count len n = count (len - min n len) n + 1 := by
  unfold count
  rcases Nat.le_total len n with h | h
  · rw [Nat.min_eq_right h, Nat.sub_self, Nat.zero_add,
      show len + n - 1 = (len - 1) + n by omega, Nat.add_div_right _ hn,
      Nat.div_eq_of_lt (show len - 1 < n by omega), Nat.div_eq_of_lt (show n - 1 < n by omega)]
  · rw [Nat.min_eq_left h, show len + n - 1 = (len - n + n - 1) + n by omega,
      Nat.add_div_right _ hn]

/-- The pieces suffice, and one fewer would not. -/
theorem count_le_iff {len k : Nat} (hn : 0 < n) : count len n ≤ k ↔ len ≤ k * n := by
  unfold count
  rw [Nat.div_le_iff_le_mul_add_pred hn, Nat.mul_comm]
  omega

theorem count_pos {len : Nat} (hn : 0 < n) (hlen : 0 < len) : 0 < count len n := by
  rw [count_sub hn hlen]
  exact Nat.succ_pos _

/-! ## Taking pieces off the front -/

theorem pieces_nil (hn : 0 < n) : pieces n ([] : List α) = [] := by
  unfold pieces
  rw [List.length_nil, count_zero hn]
  rfl

theorem pieces_cons (hn : 0 < n) {l : List α} (hl : l ≠ []) :
    pieces n l = l.take n :: pieces n (l.drop n) := by
  have hlen : 0 < l.length := List.length_pos_iff.mpr hl
  have hcount : count l.length n = count (l.drop n).length n + 1 := by
    rw [count_sub hn hlen, List.length_drop]
    congr 2
    omega
  unfold pieces
  rw [hcount, List.range_succ_eq_map, List.map_cons, List.map_map, Nat.zero_mul, List.drop_zero]
  refine congrArg _ (List.map_congr_left fun j _ => ?_)
  show (l.drop ((j + 1) * n)).take n = ((l.drop n).drop (j * n)).take n
  rw [List.drop_drop, Nat.succ_mul, Nat.add_comm]

/-- **The pieces put together are the list.** -/
theorem flatten_pieces (hn : 0 < n) (l : List α) : (pieces n l).flatten = l := by
  induction h : l.length using Nat.strongRecOn generalizing l with
  | _ len ih =>
      by_cases hl : l = []
      · rw [hl, pieces_nil hn]
        rfl
      · have hlen : 0 < l.length := List.length_pos_iff.mpr hl
        have hless : (l.drop n).length < len := by
          rw [List.length_drop]
          omega
        rw [pieces_cons hn hl, List.flatten_cons, ih _ hless (l.drop n) rfl, List.take_append_drop]

end Pieces
