import Mathlib.Data.BitVec
import Mathlib.Tactic.Ring

/-!
# Serial number arithmetic

Sequence numbers of `w` bits wrap around, so "newer" cannot mean "larger". The
usual convention reads the difference as a signed number: `a` is newer than `b`
when `a - b`, taken modulo `2 ^ w` and interpreted in two's complement, is
positive. That is a local order: it agrees with the order on the integers the
numbers stand for as long as these are less than half the space apart.
-/

namespace SerialNumber

variable {w : Nat}

/-- Numbers that fit are told apart. -/
theorem eq_of_ofNat_eq {a b : Nat} (ha : a < 2 ^ w) (hb : b < 2 ^ w)
    (h : BitVec.ofNat w a = BitVec.ofNat w b) : a = b := by
  have hval := congrArg BitVec.toNat h
  rwa [BitVec.toNat_ofNat, BitVec.toNat_ofNat, Nat.mod_eq_of_lt ha, Nat.mod_eq_of_lt hb] at hval

/-- `a` comes after `b`, by the sign of the wrapped difference. -/
def newer (a b : BitVec w) : Bool := decide (0 < (a - b).toInt)

/-- **Newer means between one and half the space ahead.** -/
theorem newer_iff {a b : BitVec w} :
    newer a b = true ↔ 1 ≤ (a - b).toNat ∧ 2 * (a - b).toNat < 2 ^ w := by
  unfold newer
  rw [decide_eq_true_iff, BitVec.toInt_eq_toNat_cond]
  have := (a - b).isLt
  split <;> omega

theorem newer_irrefl (a : BitVec w) : newer a a = false := by
  unfold newer
  simp

theorem ne_of_newer {a b : BitVec w} (h : newer a b = true) : a ≠ b := by
  rintro rfl
  rw [newer_irrefl] at h
  exact absurd h (by decide)

/-- Moving the reference one step closer shortens the distance by one. -/
theorem toNat_sub_add_one {a b : BitVec w} (h : a ≠ b) :
    (a - (b + 1#w)).toNat + 1 = (a - b).toNat := by
  have hw : 0 < w := by
    rcases Nat.eq_zero_or_pos w with rfl | h0
    · exact absurd (Subsingleton.elim a b) h
    · exact h0
  have h2 : 2 ^ 1 ≤ 2 ^ w := Nat.pow_le_pow_right (by omega) hw
  have hab : a.toNat ≠ b.toNat := fun he => h (BitVec.eq_of_toNat_eq he)
  have ha := a.isLt
  have hb := b.isLt
  have h1 : (1#w).toNat = 1 := by
    rw [BitVec.toNat_ofNat, Nat.mod_eq_of_lt (by omega)]
  rw [BitVec.toNat_sub, BitVec.toNat_sub, BitVec.toNat_add, h1]
  rcases Nat.lt_or_ge (b.toNat + 1) (2 ^ w) with hc | hc
  · rw [Nat.mod_eq_of_lt hc]
    -- `a` may lie on either side of the wrap
    rcases Nat.lt_or_ge a.toNat b.toNat with hl | hl
    · rw [Nat.mod_eq_of_lt (by omega), Nat.mod_eq_of_lt (by omega)]; omega
    · rw [show 2 ^ w - (b.toNat + 1) + a.toNat = (a.toNat - b.toNat - 1) + 2 ^ w by omega,
        show 2 ^ w - b.toNat + a.toNat = (a.toNat - b.toNat) + 2 ^ w by omega,
        Nat.add_mod_right, Nat.add_mod_right, Nat.mod_eq_of_lt (by omega),
        Nat.mod_eq_of_lt (by omega)]
      omega
  · -- the reference is the last number of the space and wraps to zero
    have hbe : b.toNat + 1 = 2 ^ w := by omega
    rw [hbe, Nat.mod_self, Nat.sub_zero, Nat.add_mod_left, Nat.mod_eq_of_lt ha,
      Nat.mod_eq_of_lt (by omega)]
    omega

/-- What lies beyond the next number stays newer when the reference advances to it. -/
theorem newer_of_ne_add_one {a b : BitVec w} (h : newer a b = true) (hne : a ≠ b + 1#w) :
    newer a (b + 1#w) = true := by
  rw [newer_iff] at h ⊢
  have hstep := toNat_sub_add_one (ne_of_newer (newer_iff.mpr h))
  have hpos : (a - (b + 1#w)).toNat ≠ 0 := by
    intro h0
    apply hne
    have hz : a - (b + 1#w) = 0#w := BitVec.eq_of_toNat_eq (by rw [h0]; simp)
    have hs := BitVec.sub_add_cancel a (b + 1#w)
    rw [hz, BitVec.zero_add] at hs
    exact hs.symm
  omega

/-! ## Numbers in a row -/

/-- Each number is the successor of the one before it. -/
def Consecutive (ids : List (BitVec w)) : Prop := ids.IsChain fun a b => b = a + 1#w

/-- How far two of them are apart. -/
theorem Consecutive.get_add {ids : List (BitVec w)} (h : Consecutive ids) {i : Nat} (d : Nat) :
    ∀ hd : i + d < ids.length, ids[i + d] = ids[i] + BitVec.ofNat w d := by
  induction d with
  | zero => exact fun _ => by simp
  | succ d ih =>
      intro hd
      have hstep := List.isChain_iff_getElem.mp h (i + d) hd
      rw [ih (Nat.lt_of_succ_lt hd), BitVec.add_assoc, ← BitVec.ofNat_add] at hstep
      exact hstep

/-- **As many as there are numbers are distinct.** -/
theorem Consecutive.nodup {ids : List (BitVec w)} (h : Consecutive ids)
    (hlen : ids.length ≤ 2 ^ w) : ids.Nodup := by
  refine List.pairwise_iff_getElem.mpr fun i j hi hj hij heq => ?_
  obtain ⟨d, rfl⟩ := Nat.exists_eq_add_of_le hij.le
  have hadd := h.get_add d hj
  rw [← heq] at hadd
  -- a distance that leads back to the same number is a multiple of the space
  have hzero : BitVec.ofNat w d = BitVec.ofNat w 0 := by
    have hsub := congrArg (· - ids[i]) hadd
    rw [BitVec.add_comm] at hsub
    simpa using hsub.symm
  have := eq_of_ofNat_eq (by omega) (Nat.two_pow_pos w) hzero
  omega

/-! ## What the numbers stand for

A sender that counts without wrapping puts the images of its integers on the wire.
-/

theorem ofInt_sub (a b : Int) :
    BitVec.ofInt w a - BitVec.ofInt w b = BitVec.ofInt w (a - b) := by
  rw [Int.sub_eq_add_neg, BitVec.ofInt_add, BitVec.ofInt_neg, BitVec.sub_eq_add_neg]

/-- **Newer means larger**, for integers less than half the space apart. -/
theorem newer_ofInt {a b : Int} (h : 2 * |a - b| < 2 ^ w) :
    newer (BitVec.ofInt w a) (BitVec.ofInt w b) = true ↔ b < a := by
  have habs := abs_lt.mp (show |a - b| < |a - b| + 1 by omega)
  have hcast : ((2 ^ w : Nat) : Int) = 2 ^ w := by push_cast; rfl
  have hself : (a - b).bmod (2 ^ w) = a - b := by
    refine Int.bmod_eq_of_le ?_ ?_ <;> rw [hcast] <;> omega
  unfold newer
  rw [decide_eq_true_iff, ofInt_sub, BitVec.toInt_ofInt, hself]
  omega

/-- **Half the space apart, neither is newer**: the wrapped difference is the most negative number,
whichever way it is taken. -/
theorem not_newer_half {a b : Int} (h : 2 * |a - b| = 2 ^ w) :
    newer (BitVec.ofInt w a) (BitVec.ofInt w b) = false := by
  have hcast : ((2 ^ w : Nat) : Int) = 2 ^ w := by push_cast; rfl
  have hpos : (0 : Int) < 2 ^ w := Int.pow_pos (by decide)
  have hmod : (a - b) % 2 ^ w = |a - b| := by
    rcases le_or_gt 0 (a - b) with h0 | h0
    · rw [abs_of_nonneg h0] at h ⊢
      exact Int.emod_eq_of_lt h0 (by omega)
    · rw [abs_of_neg h0] at h ⊢
      rw [← Int.add_emod_right, Int.emod_eq_of_lt (by omega) (by omega)]
      omega
  unfold newer
  rw [decide_eq_false_iff_not, ofInt_sub, BitVec.toInt_ofInt, Int.bmod_def, hcast, hmod,
    if_neg (by omega)]
  omega

/-- The wrapped difference is the difference, for integers less than the space apart. -/
theorem toNat_ofInt_sub {a b : Int} (hle : b ≤ a) (hlt : a - b < 2 ^ w) :
    ((BitVec.ofInt w a - BitVec.ofInt w b).toNat : Int) = a - b := by
  have hcast : ((2 ^ w : Nat) : Int) = 2 ^ w := by push_cast; rfl
  rw [ofInt_sub, BitVec.toNat_ofInt, hcast, Int.emod_eq_of_lt (by omega) hlt]
  exact Int.toNat_of_nonneg (by omega)

end SerialNumber
