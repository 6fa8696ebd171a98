import Relinow.Proof.EngineRun

/-!
# Are pending ids distinct?

An id is the low half of a packet's number, so it comes round after 65536
packets. Nothing in `relinow_reliable_send` looks whether the packet that had it
last is still pending. A slot that is neither acknowledged nor given up while
that many packets go through the others shares its id with a new packet, and an
ACK for the one releases whichever slot the scan comes to first.
-/

namespace Relinow

open SlotTable Runs

/-- Before a send that finds a free slot, fewer than 65536 packets have been sent since any one
still pending. -/
def FewSince (w : EngineRun) : EngineCall → Prop
  | .send _ => (pendingSeqs w.ctx).card < maxPending → ∀ i n, w.Holds i n → w.sends < n + 2 ^ 16
  | _ => True

/-- A pending packet is at most one turn of the ids old. -/
structure Recent (w : EngineRun) : Prop where
  numbered : SlotsNumbered w
  within : ∀ i n, w.Holds i n → w.sends ≤ n + 2 ^ 16

theorem Recent.keeps {w w' : EngineRun} (h : Recent w) (hk : w.Keeps w') : Recent w' where
  numbered := h.numbered.keeps hk
  within i n hi := hk.sends ▸ h.within i n (hk.held i n hi).1

theorem Recent.send {w : EngineRun} (h : Recent w) {now : Nat} (hfew : FewSince w (.send now)) :
    Recent (w.send now) := by
  refine ⟨h.numbered.send now, ?_⟩
  rcases w.send_cases now with ⟨_, heq⟩ | ⟨i, hfree, heq⟩ <;> rw [heq]
  · exact h.within
  · intro j n hj
    have hroom : (pendingSeqs w.ctx).card < maxPending := by
      rw [card_pendingSeqs]
      exact card_live_lt_of_free hfree
    rcases (EngineRun.holds_fill rfl rfl).mp hj with ⟨_, rfl⟩ | ⟨_, hj⟩
    · exact Nat.succ_le_of_lt (Nat.lt_add_of_pos_right (by decide))
    · exact hfew hroom j n hj

/-- The next id is free if no pending packet is a whole turn old. -/
theorem Recent.next_mem {w : EngineRun} (h : Recent w) :
    w.ctx.nextTxSeq ∉ pendingSeqs w.ctx ↔ ∀ i n, w.Holds i n → w.sends < n + 2 ^ 16 := by
  unfold pendingSeqs
  rw [mem_keys, h.numbered.next]
  constructor
  · intro hno i n hi
    refine lt_of_le_of_ne (h.within i n hi) fun he => hno ⟨i, hi.1, ?_⟩
    rw [h.numbered.seqId i n hi, he, BitVec.ofNat_add]
    bv_omega
  · rintro hyoung ⟨i, hu, hid⟩
    have hlt := h.numbered.lt i _ ⟨hu, rfl⟩
    have hfew := hyoung i _ ⟨hu, rfl⟩
    rw [h.numbered.seqId i _ ⟨hu, rfl⟩] at hid
    -- two numbers less than a turn apart have different ids
    have hval := congrArg BitVec.toNat hid
    rw [BitVec.toNat_ofNat, BitVec.toNat_ofNat] at hval
    omega

/-- **What one call does to the distinctness of the ids.** -/
theorem Recent.step {w : EngineRun} (h : Recent w) (hnd : (pendingSeqs w.ctx).Nodup)
    (call : EngineCall) :
    ((pendingSeqs (w.step call).ctx).Nodup ↔ FewSince w call)
      ∧ (FewSince w call → Recent (w.step call)) := by
  cases call with
  | send now =>
      refine ⟨?_, fun hfew => h.send hfew⟩
      show (pendingSeqs (w.send now).ctx).Nodup ↔ _
      rcases w.send_cases now with ⟨hfull, heq⟩ | ⟨i, hfree, heq⟩ <;> rw [heq]
      · exact ⟨fun _ hroom => absurd hfull (ne_of_lt hroom), fun _ => hnd⟩
      · have hroom : (pendingSeqs w.ctx).card < maxPending := by
          rw [card_pendingSeqs]
          exact card_live_lt_of_free hfree
        have hks : pendingSeqs { w.ctx with
            pending := w.ctx.pending.put i (newPending w.ctx (clock now))
            nextTxSeq := seqNext w.ctx.nextTxSeq } = w.ctx.nextTxSeq ::ₘ pendingSeqs w.ctx :=
          keys_fill _ hfree rfl
        rw [hks, Multiset.nodup_cons, h.next_mem]
        exact ⟨fun hcons _ => hcons.1, fun hfew => ⟨hfew hroom, hnd⟩⟩
  | onAck a now =>
      have hk := w.onAck_keeps a now
      exact ⟨⟨fun _ => trivial, fun _ => Multiset.nodup_of_le hk.pending hnd⟩, fun _ => h.keeps hk⟩
  | poll now =>
      have hk := w.poll_keeps now
      exact ⟨⟨fun _ => trivial, fun _ => Multiset.nodup_of_le hk.pending hnd⟩, fun _ => h.keeps hk⟩
  | onData q =>
      have hk := w.onData_keeps q
      exact ⟨⟨fun _ => trivial, fun _ => Multiset.nodup_of_le hk.pending hnd⟩, fun _ => h.keeps hk⟩

/--
**When pending ids are distinct.** In every state of a run the slots in use hold
distinct ids if and only if, whenever a send found a free slot, fewer than 65536
packets had been sent since any one still pending.
-/
theorem pendingIds_distinct (cfg : Option ReliableConfig) (calls : List EngineCall) :
    (∀ k, (pendingSeqs (engineAfter cfg (calls.take k)).ctx).Nodup)
      ↔ Along EngineRun.step FewSince (EngineRun.start (reliableInit cfg)) calls := by
  have hinit : Recent (EngineRun.start (reliableInit cfg)) :=
    ⟨numbered_init cfg, fun i n hi => absurd hi (holds_start _ (pendingSeqs_init cfg) i n)⟩
  have hnd : (pendingSeqs (EngineRun.start (reliableInit cfg)).ctx).Nodup := by
    show (pendingSeqs (reliableInit cfg)).Nodup
    rw [pendingSeqs_init]
    exact Multiset.nodup_zero
  exact always_iff_along (G := fun w : EngineRun => (pendingSeqs w.ctx).Nodup)
    (A := fun _ => True) (fun w call _ h hg => h.step hg call) (fun _ _ => trivial) hinit hnd

/-! ## A packet that stays -/

/-- Packet 0 stays pending, while packet `k + 1` is sent and acknowledged. -/
def turn (k : Nat) : List EngineCall := [.send 0, .onAck (BitVec.ofNat 16 (k + 1)) 0]

/-- `n` packets go past packet 0. -/
def turns (n : Nat) : List EngineCall := .send 0 :: (List.range n).flatMap turn

theorem turns_succ (n : Nat) : turns (n + 1) = turns n ++ turn n := by
  unfold turns
  rw [List.range_succ, List.flatMap_append, List.flatMap_singleton]
  rfl

theorem turns_state (n : Nat) :
    pendingSeqs (engineAfter none (turns n)).ctx = {0#16}
      ∧ (engineAfter none (turns n)).ctx.nextTxSeq = BitVec.ofNat 16 (n + 1) := by
  induction n with
  | zero => exact ⟨by decide, rfl⟩
  | succ n ih =>
      obtain ⟨hks, hnext⟩ := ih
      rw [turns_succ, show turn n = [.send 0] ++ [.onAck (BitVec.ofNat 16 (n + 1)) 0] from rfl,
        ← List.append_assoc, engineAfter_snoc, engineAfter_snoc]
      show pendingSeqs (((engineAfter none (turns n)).send 0).onAck _ 0).ctx = _
        ∧ (((engineAfter none (turns n)).send 0).onAck _ 0).ctx.nextTxSeq = _
      rw [EngineRun.onAck_ctx, EngineRun.send_ctx]
      rcases reliableSend_cases (engineAfter none (turns n)).ctx (clock 0) with
        ⟨_, hfull⟩ | ⟨ctx, heq, hfr, hsent⟩
      · rw [hks] at hfull
        exact absurd hfull (by decide)
      · -- the ACK takes back the id the send has added
        rw [heq]
        rw [hks, hnext] at hsent
        have hfr' : ctx.nextTxSeq = BitVec.ofNat 16 (n + 1 + 1) := by
          rw [hfr, hnext, BitVec.ofNat_add (n + 1)]
          rfl
        rcases reliableOnAck_cases ctx (BitVec.ofNat 16 (n + 1)) (clock 0) with
          ⟨hno, _⟩ | ⟨ctx', heq', hfr2, hacked⟩
        · rw [hsent] at hno
          exact absurd (Multiset.mem_cons_self _ _) hno
        · rw [heq']
          rw [hsent, Multiset.cons_inj_right] at hacked
          refine ⟨hacked.symm, ?_⟩
          rw [hfr2]
          exact hfr'

/-- A send under an id that is pending makes two of it. -/
theorem send_not_nodup {w : EngineRun} (hroom : (pendingSeqs w.ctx).card < maxPending)
    (hm : w.ctx.nextTxSeq ∈ pendingSeqs w.ctx) (now : Nat) :
    ¬ (pendingSeqs (w.step (.send now)).ctx).Nodup := by
  show ¬ (pendingSeqs (w.send now).ctx).Nodup
  rw [w.send_ctx]
  rcases reliableSend_cases w.ctx (clock now) with ⟨_, hfull⟩ | ⟨ctx, heq, _, hsent⟩
  · omega
  · rw [heq, hsent, Multiset.nodup_cons]
    exact fun hnd => hnd.1 hm

/-- After 65535 packets more, the next one gets id 0 again. -/
theorem pendingIds_not_distinct :
    ¬ ∀ (cfg : Option ReliableConfig) (calls : List EngineCall),
      (pendingSeqs (engineAfter cfg calls).ctx).Nodup := by
  intro h
  obtain ⟨hks, hnext⟩ := turns_state 65535
  have hwrap : BitVec.ofNat 16 (65535 + 1) = 0#16 := by decide
  have hnd := h none (turns 65535 ++ [.send 0])
  rw [engineAfter_snoc] at hnd
  refine send_not_nodup ?_ ?_ 0 hnd
  · rw [hks, Multiset.card_singleton]
    decide
  · rw [hks, hnext, hwrap]
    exact Multiset.mem_singleton_self _

end Relinow
