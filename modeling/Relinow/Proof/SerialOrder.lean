import Relinow.Packet

/-!
# The order of sequence ids

A sender counts packets without end and puts the count on the wire modulo
`2 ^ 16`. `relinow_is_seq_newer` recovers the order of two counts from what is
left of them, as long as these are at most 32767 apart. At exactly half the
space the sign of the difference no longer tells the directions apart, and the
answer is "no" both ways.
-/

namespace Relinow

/-- The id of the `n`-th packet. -/
def seqOf (n : Int) : U16 := BitVec.ofInt 16 n

/-- `n` modulo `2 ^ 16`. -/
theorem seqOf_toNat (n : Int) : ((seqOf n).toNat : Int) = n % 2 ^ 16 := by
  unfold seqOf
  rw [BitVec.toNat_ofInt]
  exact Int.toNat_of_nonneg (Int.emod_nonneg n (by decide))

theorem seqNext_seqOf (n : Int) : seqNext (seqOf n) = seqOf (n + 1) := by
  unfold seqNext seqOf
  rw [BitVec.ofInt_add]
  rfl

theorem isSeqNewer_seqOf {m n : Int} (h : |m - n| ≤ 32767) :
    isSeqNewer (seqOf m) (seqOf n) = true ↔ n < m :=
  SerialNumber.newer_ofInt (by omega)

theorem not_isSeqNewer_half {m n : Int} (h : |m - n| = 32768) :
    isSeqNewer (seqOf m) (seqOf n) = false :=
  SerialNumber.not_newer_half (by omega)

/-- Every id is that of some packet. -/
theorem seqOf_surjective (q : U16) : seqOf q.toInt = q := BitVec.ofInt_toInt

/-- Counting on from a packet's id goes through the ids of the packets after it. -/
theorem seqNext_iterate_seqOf (m : Int) (i : Nat) : seqNext^[i] (seqOf m) = seqOf (m + i) := by
  induction i with
  | zero => simp
  | succ i ih =>
      rw [Function.iterate_succ_apply', ih, seqNext_seqOf]
      congr 1
      push_cast
      omega

/--
**Serial comparison is the order on integers within half the space.**

The last two parts are about a run of `relinow_seq_next` from any id `q`: the
ids after `i` and after `j` steps compare as `i` and `j` do when these are at
most 32767 apart, and not at all when they are 32768 apart.
-/
theorem serial_comparison :
    (∀ n : Int, ((seqOf n).toNat : Int) = n % 2 ^ 16)
    ∧ (∀ m n : Int, |m - n| ≤ 32767 → (isSeqNewer (seqOf m) (seqOf n) = true ↔ n < m))
    ∧ (∀ m : Int, seqNext (seqOf m) = seqOf (m + 1))
    ∧ (∀ (q : U16) (i j : Nat), |(i : Int) - j| ≤ 32767 →
        (isSeqNewer (seqNext^[i] q) (seqNext^[j] q) = true ↔ j < i))
    ∧ ∀ (q : U16) (i j : Nat), |(i : Int) - j| = 32768 →
        isSeqNewer (seqNext^[i] q) (seqNext^[j] q) = false
        ∧ isSeqNewer (seqNext^[j] q) (seqNext^[i] q) = false := by
  refine ⟨seqOf_toNat, fun m n => isSeqNewer_seqOf, seqNext_seqOf, fun q i j h => ?_,
    fun q i j h => ?_⟩
  · have hdist : |q.toInt + i - (q.toInt + j)| ≤ 32767 := by rwa [add_sub_add_left_eq_sub]
    rw [← seqOf_surjective q, seqNext_iterate_seqOf, seqNext_iterate_seqOf,
      isSeqNewer_seqOf hdist]
    omega
  · have hdist : |q.toInt + i - (q.toInt + j)| = 32768 := by rwa [add_sub_add_left_eq_sub]
    have hback : |q.toInt + j - (q.toInt + i)| = 32768 := by rwa [abs_sub_comm]
    rw [← seqOf_surjective q, seqNext_iterate_seqOf, seqNext_iterate_seqOf]
    exact ⟨not_isSeqNewer_half hdist, not_isSeqNewer_half hback⟩

end Relinow
