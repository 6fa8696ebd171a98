import Relinow.Proof.InOrderQueue
import Mathlib.Order.Interval.Finset.Nat

/-!
# Arrivals in any order

The ids of a short stretch, no longer than the reorder buffer and the id expected
before it, arrive shuffled and repeated. Number them from the first to arrive. What
has arrived so far is a set of numbers, and the receive half of the engine is a
function of it: it expects the first number missing from the set, and its reorder
buffer holds the numbers beyond.

So once all have arrived, all have been delivered, in order, whatever the order they
came in. Only the very first arrival matters: the window opens at its id, and ids
before it are behind the window from then on.
-/

namespace Relinow

open SlotTable

/-! ## The first number missing -/

theorem add_ofNat_inj {q : U16} {i j : Nat} (hi : i < 2 ^ 16) (hj : j < 2 ^ 16)
    (h : q + BitVec.ofNat 16 i = q + BitVec.ofNat 16 j) : i = j :=
  SerialNumber.eq_of_ofNat_eq hi hj (by bv_omega)

theorem add_ofNat_succ (q : U16) (i : Nat) :
    seqNext (q + BitVec.ofNat 16 i) = q + BitVec.ofNat 16 (i + 1) := by
  unfold seqNext
  rw [BitVec.add_assoc, BitVec.ofNat_add]

/-- A run out of the buffer ends where its bound does, or at the first number missing. -/
theorem reorderRun_maximal (ctx : ReliableCtx) (q : U16) :
    ∀ n s : Nat, ∃ len ≤ n,
      reorderRun ctx n (q + BitVec.ofNat 16 s)
        = (List.range' s len).map (fun i => q + BitVec.ofNat 16 i)
      ∧ (∀ i, s ≤ i → i < s + len → q + BitVec.ofNat 16 i ∈ reorderSeqs ctx)
      ∧ (len = n ∨ q + BitVec.ofNat 16 (s + len) ∉ reorderSeqs ctx) := by
  intro n
  induction n with
  | zero => exact fun s => ⟨0, Nat.le_refl 0, rfl, fun i hs hi => absurd hs (by omega), Or.inl rfl⟩
  | succ n ih =>
      intro s
      rw [reorderRun]
      split
      · rename_i hc
        obtain ⟨len, hlen, hrun, hheld, hstop⟩ := ih (s + 1)
        refine ⟨len + 1, Nat.succ_le_succ hlen, ?_, fun i hs hi => ?_, ?_⟩
        · rw [add_ofNat_succ, hrun, List.range'_succ]
          rfl
        · by_cases his : i = s
          · exact his ▸ reorderContains_iff.mp hc
          · exact hheld i (by omega) (by omega)
        · rw [show s + (len + 1) = s + 1 + len by omega]
          exact hstop.imp_left (congrArg (· + 1))
      · rename_i hc
        exact ⟨0, Nat.zero_le _, rfl, fun i hs hi => absurd hs (by omega),
          Or.inr fun hm => hc (reorderContains_iff.mpr hm)⟩

/-- Of the numbers below `n`, those in `seen` have arrived, and `e` is the first one missing. The
number `i` has the id `q + i`. -/
structure Frontier (q : U16) (n : Nat) (ctx : ReliableCtx) (seen : Finset Nat) (e : Nat) :
    Prop where
  inv : RxInv ctx
  opened : ctx.hasRxWindow = true → ctx.expectedRxSeq = q + BitVec.ofNat 16 e
  closed : ctx.hasRxWindow = false → seen = ∅
  lt : ∀ i ∈ seen, i < n
  below : ∀ i < e, i ∈ seen
  missing : e ∉ seen
  held : ∀ d, d ∈ reorderSeqs ctx ↔ ∃ i ∈ seen, e < i ∧ d = q + BitVec.ofNat 16 i

section Frontier

variable {q : U16} {n e j : Nat} {ctx : ReliableCtx} {seen : Finset Nat}

theorem Frontier.le (h : Frontier q n ctx seen e) : e ≤ n := by
  rcases Nat.eq_zero_or_pos e with h0 | hpos
  · omega
  · have := h.lt (e - 1) (h.below (e - 1) (by omega))
    omega

/-- The number `i` is buffered when it has arrived beyond a gap. -/
theorem Frontier.mem_held (h : Frontier q n ctx seen e) (hn : n ≤ maxReorder + 1) {i : Nat}
    (hi : i < 2 ^ 16) : q + BitVec.ofNat 16 i ∈ reorderSeqs ctx ↔ i ∈ seen ∧ e < i := by
  have hmax : maxReorder = 8 := rfl
  rw [h.held]
  constructor
  · rintro ⟨i', hseen, hlt, heq⟩
    have := h.lt i' hseen
    obtain rfl := add_ofNat_inj hi (by omega) heq
    exact ⟨hseen, hlt⟩
  · rintro ⟨hseen, hlt⟩
    exact ⟨i, hseen, hlt, rfl⟩

/-- There is a free entry for a number beyond the gap that is not buffered. -/
theorem Frontier.hasEntry (h : Frontier q n ctx seen e) (hn : n ≤ maxReorder + 1) (hj : j < n)
    (hlt : e < j) (hnot : q + BitVec.ofNat 16 j ∉ reorderSeqs ctx) :
    (reorderSeqs ctx).card < maxReorder := by
  have hsub : (reorderSeqs ctx).toFinset
      ⊆ ((Finset.Ico 1 n).erase j).image (fun i => q + BitVec.ofNat 16 i) := by
    intro d hd
    obtain ⟨i, hseen, hlt, rfl⟩ := (h.held d).mp (Multiset.mem_toFinset.mp hd)
    have hne : i ≠ j := by
      rintro rfl
      exact hnot (Multiset.mem_toFinset.mp hd)
    exact Finset.mem_image_of_mem _
      (Finset.mem_erase.mpr ⟨hne, Finset.mem_Ico.mpr ⟨by omega, h.lt i hseen⟩⟩)
  -- neither the gap nor the number itself is held
  calc (reorderSeqs ctx).card
      = (reorderSeqs ctx).toFinset.card := (Multiset.toFinset_card_of_nodup h.inv.nodup).symm
    _ ≤ (((Finset.Ico 1 n).erase j).image (fun i => q + BitVec.ofNat 16 i)).card :=
        Finset.card_le_card hsub
    _ ≤ ((Finset.Ico 1 n).erase j).card := Finset.card_image_le
    _ = n - 1 - 1 := by
        rw [Finset.card_erase_of_mem (Finset.mem_Ico.mpr ⟨by omega, hj⟩), Nat.card_Ico]
    _ < maxReorder := by
        have hmax : maxReorder = 8 := rfl
        omega

/-- One id lies ahead of another if its number is larger. -/
theorem newer_iff_lt (q : U16) (he : e < 2 ^ 15) (hj : j < 2 ^ 15) :
    isSeqNewer (q + BitVec.ofNat 16 j) (q + BitVec.ofNat 16 e) = true ↔ e < j := by
  have hiff : isSeqNewer (q + BitVec.ofNat 16 j) (q + BitVec.ofNat 16 e) = true ↔ _ :=
    SerialNumber.newer_iff
  rw [hiff]
  rcases Nat.lt_or_ge e j with hlt | hge
  · have hdiff : (q + BitVec.ofNat 16 j - (q + BitVec.ofNat 16 e)).toNat = j - e := by bv_omega
    omega
  · have hdiff : (q + BitVec.ofNat 16 j - (q + BitVec.ofNat 16 e)).toNat
        = (2 ^ 16 - (e - j)) % 2 ^ 16 := by bv_omega
    omega

/-- What an arrival comes to: the numbers from `e` up to the next one missing are delivered. -/
theorem Frontier.after (h : Frontier q n ctx seen e) (hn : n ≤ maxReorder + 1) (hj : j < n)
    (e' : Nat) (hle : e ≤ e') (hseen : ∀ i < e', i ∈ insert j seen) (hmissing : e' ∉ insert j seen)
    (hds : deliverable ctx (q + BitVec.ofNat 16 j)
      = (List.range' e (e' - e)).map (fun i => q + BitVec.ofNat 16 i))
    (hexp : (reliableOnData ctx (q + BitVec.ofNat 16 j)).1.expectedRxSeq = q + BitVec.ofNat 16 e')
    (hearly : (reliableOnData ctx (q + BitVec.ofNat 16 j)).2.status = .outOfOrder ↔ e' < j) :
    Frontier q n (reliableOnData ctx (q + BitVec.ofNat 16 j)).1 (insert j seen) e' := by
  have hmax : maxReorder = 8 := rfl
  have hlt : ∀ i ∈ insert j seen, i < n := by
    intro i hi
    rcases Finset.mem_insert.mp hi with rfl | hi
    · exact hj
    · exact h.lt i hi
  refine ⟨(reliableOnData_refines h.inv _).2, fun _ => hexp, fun hc => ?_, hlt, hseen, hmissing,
    fun d => ?_⟩
  · rw [reliableOnData_opens] at hc
    exact absurd hc (by decide)
  · rw [h.inv.held_iff, hearly, h.held, hds]
    constructor
    · rintro (⟨rfl, hlt⟩ | ⟨⟨i, hi, hlt, rfl⟩, hnot⟩)
      · -- the arrival itself, when it came early
        exact ⟨j, Finset.mem_insert_self j seen, hlt, rfl⟩
      · -- what stays lies beyond what is delivered
        have hge : e' ≤ i := by
          by_contra hless
          exact hnot (List.mem_map_of_mem (List.mem_range'_1.mpr ⟨by omega, by omega⟩))
        have hne : i ≠ e' := by
          rintro rfl
          exact hmissing (Finset.mem_insert_of_mem hi)
        exact ⟨i, Finset.mem_insert_of_mem hi, by omega, rfl⟩
    · rintro ⟨i, hi, hlt', rfl⟩
      rcases Finset.mem_insert.mp hi with rfl | hseen'
      · exact Or.inl ⟨rfl, hlt'⟩
      · refine Or.inr ⟨⟨i, hseen', by omega, rfl⟩, fun hm => ?_⟩
        obtain ⟨i', hi', heq⟩ := List.mem_map.mp hm
        have hrange := List.mem_range'_1.mp hi'
        have hless := hlt i hi
        have := add_ofNat_inj (by omega) (by omega) heq
        omega

/-- An arrival that is not the first one missing delivers nothing. -/
theorem Frontier.stays (h : Frontier q n ctx seen e) (hn : n ≤ maxReorder + 1) (hj : j < n)
    (hw : ctx.hasRxWindow = true) (hne : j ≠ e)
    (hds : deliverable ctx (q + BitVec.ofNat 16 j) = [])
    (hexp : (reliableOnData ctx (q + BitVec.ofNat 16 j)).1.expectedRxSeq = ctx.expectedRxSeq)
    (hearly : (reliableOnData ctx (q + BitVec.ofNat 16 j)).2.status = .outOfOrder ↔ e < j) :
    ∃ e', e ≤ e' ∧ deliverable ctx (q + BitVec.ofNat 16 j)
        = (List.range' e (e' - e)).map (fun i => q + BitVec.ofNat 16 i)
      ∧ Frontier q n (reliableOnData ctx (q + BitVec.ofNat 16 j)).1 (insert j seen) e' := by
  have hnone : deliverable ctx (q + BitVec.ofNat 16 j)
      = (List.range' e (e - e)).map (fun i => q + BitVec.ofNat 16 i) := by
    rw [hds, Nat.sub_self]
    rfl
  refine ⟨e, Nat.le_refl e, hnone, h.after hn hj e (Nat.le_refl e) (fun i hi => ?_) ?_ hnone
    (hexp.trans (h.opened hw)) hearly⟩
  · exact Finset.mem_insert_of_mem (h.below i hi)
  · rw [Finset.mem_insert, not_or]
    exact ⟨Ne.symm hne, h.missing⟩

/-- The run out of the buffer ends at the next number missing. -/
theorem Frontier.run_to_gap (h : Frontier q n ctx seen e) (hn : n ≤ maxReorder + 1) (he : e < n) :
    ∃ len, reorderRun ctx maxReorder (seqNext (q + BitVec.ofNat 16 e))
        = (List.range' (e + 1) len).map (fun i => q + BitVec.ofNat 16 i)
      ∧ (∀ i, e + 1 ≤ i → i < e + 1 + len → i ∈ seen) ∧ e + 1 + len ∉ seen := by
  have hmax : maxReorder = 8 := rfl
  obtain ⟨len, hlen, hrun, hmem, hstop⟩ := reorderRun_maximal ctx q maxReorder (e + 1)
  rw [add_ofNat_succ]
  refine ⟨len, hrun, fun i hi hlt => ((h.mem_held hn (by omega)).mp (hmem i hi hlt)).1, ?_⟩
  intro hm
  have hless := h.lt _ hm
  -- a run as long as the buffer would end beyond `n`
  rcases hstop with rfl | hnot
  · omega
  · exact hnot ((h.mem_held hn (by omega)).mpr ⟨hm, by omega⟩)

/-- **An arrival below `n`** delivers the numbers up to the next one missing. -/
theorem Frontier.onData (h : Frontier q n ctx seen e) (hn : n ≤ maxReorder + 1) (hj : j < n)
    (hfirst : ctx.hasRxWindow = false → j = 0) :
    ∃ e', e ≤ e' ∧ deliverable ctx (q + BitVec.ofNat 16 j)
        = (List.range' e (e' - e)).map (fun i => q + BitVec.ofNat 16 i)
      ∧ Frontier q n (reliableOnData ctx (q + BitVec.ofNat 16 j)).1 (insert j seen) e' := by
  have hmax : maxReorder = 8 := rfl
  have hle := h.le
  have hafter := h.after hn hj
  have hstays := h.stays hn hj
  rw [← reliableOnData_delivered] at hafter hstays ⊢
  rcases reliableOnData_cases ctx (q + BitVec.ofNat 16 j) with ⟨hw, heq⟩ |
    ⟨hw, hq, ctx', ds, hrun, hfr, -, heq⟩ | ⟨hw, hnew, hin, heq⟩ |
    ⟨hw, hnew, -, -, ctx', hfr, -, heq⟩ | ⟨hw, hnew, hout, hfull, -⟩ | ⟨hw, hne, hold, heq⟩
  · -- the window opens at the first fragment
    obtain rfl := hfirst hw
    obtain rfl := h.closed hw
    have he : e = 0 := by
      by_contra hpos
      exact absurd (h.below 0 (by omega)) (Finset.notMem_empty 0)
    subst he
    rw [heq] at hafter ⊢
    refine ⟨1, by omega, rfl, hafter 1 (by omega) (fun i hi => ?_) (by simp) rfl
      (add_ofNat_succ q 0) (by simp)⟩
    obtain rfl : i = 0 := by omega
    exact Finset.mem_insert_self 0 ∅
  · -- the first one missing has come
    rw [h.opened hw] at hq
    obtain rfl := add_ofNat_inj (by omega) (by omega) hq
    obtain ⟨len, hds, hseen, hnext⟩ := h.run_to_gap hn hj
    rw [hds] at hrun
    rw [heq] at hafter ⊢
    have hdelivered : (q + BitVec.ofNat 16 j) :: ds
        = (List.range' j (j + 1 + len - j)).map (fun i => q + BitVec.ofNat 16 i) := by
      rw [hrun, show j + 1 + len - j = len + 1 by omega, List.range'_succ]
      rfl
    refine ⟨j + 1 + len, by omega, hdelivered, hafter _ (by omega) (fun i hi => ?_) ?_ hdelivered
      ?_ ⟨fun hs => absurd hs (by simp), fun hlt => by omega⟩⟩
    · rcases Nat.lt_trichotomy i j with hlt | rfl | hgt
      · exact Finset.mem_insert_of_mem (h.below i hlt)
      · exact Finset.mem_insert_self i seen
      · exact Finset.mem_insert_of_mem (hseen i hgt hi)
    · rw [Finset.mem_insert, not_or]
      exact ⟨by omega, hnext⟩
    · have hlength : ds.length = len := by rw [hrun, List.length_map, List.length_range']
      rw [hfr, hlength, BitVec.add_assoc, ← BitVec.ofNat_add,
        show j + (len + 1) = j + 1 + len by omega]
  · -- already buffered
    obtain ⟨-, hlt⟩ := (h.mem_held hn (by omega)).mp hin
    rw [heq] at hstays ⊢
    exact hstays hw (by omega) rfl rfl (by simp [hlt])
  · -- newly buffered
    rw [h.opened hw, newer_iff_lt q (by omega) (by omega)] at hnew
    rw [heq] at hstays ⊢
    exact hstays hw (by omega) rfl (by rw [hfr]) (by simp [hnew])
  · -- a full buffer would hold as many numbers as there are
    rw [h.opened hw, newer_iff_lt q (by omega) (by omega)] at hnew
    have hentry := h.hasEntry hn hj hnew hout
    omega
  · -- behind the window
    rw [h.opened hw] at hne hold
    have hlt : j < e := by
      by_contra hge
      rcases Nat.lt_or_eq_of_le (Nat.not_lt.mp hge) with hgt | rfl
      · rw [(newer_iff_lt q (by omega) (by omega)).mpr hgt] at hold
        exact absurd hold (by decide)
      · exact hne rfl
    rw [heq] at hstays ⊢
    exact hstays hw (by omega) rfl rfl (by simp; omega)

end Frontier

/-! ## The order of the first arrivals -/

/-- An id before the one the window opened at is behind the window, and changes nothing. -/
theorem Frontier.behind {s : U16} {d n e i : Nat} {ctx : ReliableCtx} {seen : Finset Nat}
    (h : Frontier (s + BitVec.ofNat 16 d) n ctx seen e) (hw : ctx.hasRxWindow = true)
    (hsize : d + n ≤ maxReorder + 1) (hi : i < d) :
    (reliableOnData ctx (s + BitVec.ofNat 16 i)).1 = ctx
      ∧ (reliableOnData ctx (s + BitVec.ofNat 16 i)).2.deliveredSeq = [] := by
  have hmax : maxReorder = 8 := rfl
  have hle := h.le
  have hexp : ctx.expectedRxSeq = s + BitVec.ofNat 16 (d + e) := by
    rw [h.opened hw, BitVec.add_assoc, ← BitVec.ofNat_add]
  have hold : isSeqNewer (s + BitVec.ofNat 16 i) ctx.expectedRxSeq ≠ true := by
    rw [hexp, ne_eq, newer_iff_lt s (by omega) (by omega)]
    omega
  rcases reliableOnData_cases ctx (s + BitVec.ofNat 16 i) with ⟨hno, _⟩ | ⟨_, hq, _⟩ |
    ⟨_, hnew, _⟩ | ⟨_, hnew, _⟩ | ⟨_, hnew, _⟩ | ⟨_, _, _, heq⟩
  · rw [hw] at hno
    exact absurd hno (by decide)
  · rw [hexp] at hq
    have := add_ofNat_inj (by omega) (by omega) hq
    omega
  · exact absurd hnew hold
  · exact absurd hnew hold
  · exact absurd hnew hold
  · rw [heq]
    exact ⟨rfl, rfl⟩

/-- Of the ids `s, …, s + (d + n - 1)`, the first to arrive is `s + d`. What has been delivered is
what has arrived from there up to the first number missing. -/
structure Arrived (s : U16) (d n : Nat) (ids : List U16) (h : List RxCall) (ctx : ReliableCtx)
    (seen : Finset Nat) (e : Nat) : Prop where
  frontier : Frontier (s + BitVec.ofNat 16 d) n ctx seen e
  opened : ctx.hasRxWindow = true
  delivered : deliveredSoFar h
    = (List.range' 0 e).map (fun i => s + BitVec.ofNat 16 d + BitVec.ofNat 16 i)
  all : ∀ j < n, s + BitVec.ofNat 16 d + BitVec.ofNat 16 j ∈ ids → j ∈ seen

theorem deliveredSoFar_feed (w : List RxCall × ReliableCtx) (q : U16) :
    deliveredSoFar (rxFeed w q).1
      = deliveredSoFar w.1 ++ (reliableOnData w.2 q).2.deliveredSeq := by
  unfold deliveredSoFar rxFeed
  rw [List.flatMap_append, List.flatMap_singleton]

/-- **One more arrival.** -/
theorem Arrived.feed {s : U16} {d n e : Nat} {ids : List U16} {w : List RxCall × ReliableCtx}
    {seen : Finset Nat} (h : Arrived s d n ids w.1 w.2 seen e) (hsize : d + n ≤ maxReorder + 1)
    {i : Nat} (hi : i < d + n) :
    ∃ seen' e', Arrived s d n (ids ++ [s + BitVec.ofNat 16 i]) (rxFeed w (s + BitVec.ofNat 16 i)).1
      (rxFeed w (s + BitVec.ofNat 16 i)).2 seen' e' := by
  have hmax : maxReorder = 8 := rfl
  have hfeed := deliveredSoFar_feed w (s + BitVec.ofNat 16 i)
  rcases Nat.lt_or_ge i d with hlt | hge
  · obtain ⟨hctx, hds⟩ := h.frontier.behind h.opened hsize hlt
    rw [hds, List.append_nil] at hfeed
    have hsame : (rxFeed w (s + BitVec.ofNat 16 i)).2 = w.2 := hctx
    rw [hsame]
    refine ⟨seen, e, h.frontier, h.opened, hfeed.trans h.delivered, fun j hj hm => ?_⟩
    rcases List.mem_append.mp hm with hm | hm
    · exact h.all j hj hm
    · -- an id before the window is none of the numbers
      rw [List.mem_singleton, BitVec.add_assoc, ← BitVec.ofNat_add] at hm
      have := add_ofNat_inj (by omega) (by omega) hm
      omega
  · obtain ⟨j, rfl⟩ : ∃ j, i = d + j := ⟨i - d, by omega⟩
    have hq : s + BitVec.ofNat 16 (d + j) = s + BitVec.ofNat 16 d + BitVec.ofNat 16 j := by
      rw [BitVec.add_assoc, ← BitVec.ofNat_add]
    rw [hq] at hfeed ⊢
    obtain ⟨e', hle, hds, hfront⟩ := h.frontier.onData (j := j) (by omega) (by omega)
      (fun hw => absurd (h.opened.symm.trans hw) (by decide))
    rw [reliableOnData_delivered, hds, h.delivered, ← List.map_append] at hfeed
    refine ⟨insert j seen, e', hfront, reliableOnData_opens _ _, ?_, fun j' hj' hm => ?_⟩
    · rw [hfeed]
      refine congrArg _ ?_
      have happ := @List.range'_append_1 0 e (e' - e)
      rwa [Nat.zero_add, Nat.add_sub_cancel' hle] at happ
    · rcases List.mem_append.mp hm with hm | hm
      · exact Finset.mem_insert_of_mem (h.all j' hj' hm)
      · rw [List.mem_singleton] at hm
        rw [add_ofNat_inj (by omega) (by omega) hm]
        exact Finset.mem_insert_self j seen

/-- The ids `s, s + 1, …, s + (k - 1)`. -/
def stretch (s : U16) (k : Nat) : List U16 := (List.range k).map fun i => s + BitVec.ofNat 16 i

theorem mem_stretch {s q : U16} {k : Nat} :
    q ∈ stretch s k ↔ ∃ i < k, q = s + BitVec.ofNat 16 i := by
  unfold stretch
  rw [List.mem_map]
  constructor
  · rintro ⟨i, hi, rfl⟩
    exact ⟨i, List.mem_range.mp hi, rfl⟩
  · rintro ⟨i, hi, rfl⟩
    exact ⟨i, List.mem_range.mpr hi, rfl⟩

theorem stretch_drop (s : U16) (d n : Nat) :
    (stretch s (d + n)).drop d
      = (List.range' 0 n).map (fun i => s + BitVec.ofNat 16 d + BitVec.ofNat 16 i) := by
  unfold stretch
  rw [← List.map_drop, List.range_add, List.drop_left' List.length_range, List.map_map,
    List.range_eq_range']
  refine List.map_congr_left fun i _ => ?_
  show s + BitVec.ofNat 16 (d + i) = s + BitVec.ofNat 16 d + BitVec.ofNat 16 i
  rw [BitVec.add_assoc, ← BitVec.ofNat_add]

/-- The first arrival opens the window. -/
theorem arrived_first (cfg : Option ReliableConfig) (s : U16) {d n : Nat} (hn : 0 < n)
    (hsize : d + n ≤ maxReorder + 1) :
    ∃ seen e, Arrived s d n [s + BitVec.ofNat 16 d] (rxHistory cfg [s + BitVec.ofNat 16 d]).1
      (rxHistory cfg [s + BitVec.ofNat 16 d]).2 seen e := by
  have hmax : maxReorder = 8 := rfl
  have hinit : Frontier (s + BitVec.ofNat 16 d) n (reliableInit cfg) ∅ 0 := by
    refine ⟨rxInv_init cfg, fun hw => absurd hw (by simp [reliableInit, ReliableCtx.zero]),
      fun _ => rfl, by simp, by simp, by simp, fun q => ?_⟩
    rw [reorderSeqs_init]
    simp
  obtain ⟨e', hle, hds, hfront⟩ := hinit.onData (j := 0) (by omega) hn (fun _ => rfl)
  rw [BitVec.add_zero] at hds hfront
  refine ⟨insert 0 ∅, e', hfront, reliableOnData_opens _ _, ?_, fun j hj hm => ?_⟩
  · have hone : deliveredSoFar (rxHistory cfg [s + BitVec.ofNat 16 d]).1
        = (reliableOnData (reliableInit cfg) (s + BitVec.ofNat 16 d)).2.deliveredSeq :=
      List.append_nil _
    rw [hone, reliableOnData_delivered, hds, Nat.sub_zero]
  · have hzero : j = 0 := by
      rw [List.mem_singleton] at hm
      exact add_ofNat_inj (by omega) (by omega) (hm.trans (BitVec.add_zero _).symm)
    rw [hzero]
    exact Finset.mem_insert_self 0 ∅

/-- **Every run of arrivals leaves the window at the first number missing.** -/
theorem rxHistory_arrived (cfg : Option ReliableConfig) (s : U16) {d n : Nat} (hn : 0 < n)
    (hsize : d + n ≤ maxReorder + 1) (qs : List U16) (hmem : ∀ q ∈ qs, q ∈ stretch s (d + n)) :
    ∃ seen e, Arrived s d n ((s + BitVec.ofNat 16 d) :: qs)
      (rxHistory cfg ((s + BitVec.ofNat 16 d) :: qs)).1
      (rxHistory cfg ((s + BitVec.ofNat 16 d) :: qs)).2 seen e := by
  induction qs using List.reverseRecOn with
  | nil => exact arrived_first cfg s hn hsize
  | append_singleton qs q ih =>
      obtain ⟨seen, e, h⟩ := ih fun a ha => hmem a (List.mem_append_left _ ha)
      obtain ⟨i, hi, rfl⟩ :=
        mem_stretch.mp (hmem q (List.mem_append_right _ (List.mem_singleton_self q)))
      rw [← List.cons_append, rxHistory_snoc]
      exact h.feed hsize hi

/-- **What is delivered in the end**: every id from the first arrival on. -/
theorem rxHistory_complete (cfg : Option ReliableConfig) (s : U16) {d k : Nat} (hd : d < k)
    (hk : k ≤ 1 + maxReorder) {qs : List U16} (hmem : ∀ q, q ∈ qs ↔ q ∈ stretch s k)
    (hfirst : qs.head? = some (s + BitVec.ofNat 16 d)) :
    deliveredSoFar (rxHistory cfg qs).1 = (stretch s k).drop d := by
  obtain ⟨rest, rfl⟩ := List.head?_eq_some_iff.mp hfirst
  obtain ⟨n, rfl⟩ : ∃ n, k = d + n := ⟨k - d, by omega⟩
  obtain ⟨seen, e, h⟩ := rxHistory_arrived cfg s (d := d) (n := n) (by omega) (by omega) rest
    fun q hq => (hmem q).mp (List.mem_cons_of_mem _ hq)
  -- nothing is missing any more
  have he : e = n := by
    by_contra hne
    have hle := h.frontier.le
    refine h.frontier.missing (h.all e (by omega) ((hmem _).mpr (mem_stretch.mpr
      ⟨d + e, by omega, ?_⟩)))
    rw [BitVec.add_assoc, ← BitVec.ofNat_add]
  rw [h.delivered, he, stretch_drop]

/--
**Only the first arrival matters.** Two fresh contexts receive the ids
`s, …, s + (k - 1)`, each at least once, in any two orders that begin with the same
id `s + d`. Both deliver the same list: the ids from `s + d` on. In particular all of
them, when both orders begin with `s`.
-/
theorem delivered_sameStart (cfg cfg' : Option ReliableConfig) (s : U16) {d k : Nat} (hd : d < k)
    (hk : k ≤ 1 + maxReorder) {qs qs' : List U16} (hmem : ∀ q, q ∈ qs ↔ q ∈ stretch s k)
    (hmem' : ∀ q, q ∈ qs' ↔ q ∈ stretch s k) (hfirst : qs.head? = some (s + BitVec.ofNat 16 d))
    (hfirst' : qs'.head? = some (s + BitVec.ofNat 16 d)) :
    deliveredSoFar (rxHistory cfg qs).1 = deliveredSoFar (rxHistory cfg' qs').1
    ∧ deliveredSoFar (rxHistory cfg qs).1 = (stretch s k).drop d := by
  have hall := rxHistory_complete cfg s hd hk hmem hfirst
  exact ⟨hall.trans (rxHistory_complete cfg' s hd hk hmem' hfirst').symm, hall⟩

/-- Around the wrap, with a repetition. -/
theorem delivered_sameStart_wrap :
    deliveredSoFar (rxHistory none [65535#16, 1#16, 0#16]).1
      = deliveredSoFar (rxHistory none [65535#16, 0#16, 65535#16, 1#16]).1 := by
  have hperm : [65535#16, 1#16, 0#16].Perm (stretch 65535#16 3) := by decide
  have hin : [65535#16, 0#16, 65535#16, 1#16] ⊆ stretch 65535#16 3 := by decide
  have hall : stretch 65535#16 3 ⊆ [65535#16, 0#16, 65535#16, 1#16] := by decide
  exact (delivered_sameStart none none 65535#16 (d := 0) (by decide) (by decide)
    (fun _ => hperm.mem_iff) (fun _ => ⟨fun hq => hin hq, fun hq => hall hq⟩) rfl rfl).1

/-- Ids 0 and 1, in one order and in the other: the second run never delivers 0. -/
theorem delivered_not_orderFree :
    ¬ ∀ (cfg cfg' : Option ReliableConfig) (s : U16) (k : Nat) (qs qs' : List U16),
      1 ≤ k → k ≤ 1 + maxReorder → (∀ q, q ∈ qs ↔ q ∈ stretch s k) →
      (∀ q, q ∈ qs' ↔ q ∈ stretch s k) →
      deliveredSoFar (rxHistory cfg qs).1 = deliveredSoFar (rxHistory cfg' qs').1
      ∧ deliveredSoFar (rxHistory cfg qs).1 = stretch s k := by
  intro h
  have hone : [0#16, 1#16].Perm (stretch 0#16 2) := by decide
  have htwo : [1#16, 0#16].Perm (stretch 0#16 2) := by decide
  have hdiffer : deliveredSoFar (rxHistory none [0#16, 1#16]).1
      ≠ deliveredSoFar (rxHistory none [1#16, 0#16]).1 := by decide +kernel
  exact hdiffer (h none none 0#16 2 _ _ (by decide) (by decide) (fun _ => hone.mem_iff)
    (fun _ => htwo.mem_iff)).1

end Relinow
