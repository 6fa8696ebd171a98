import Relinow.Proof.StateTables

/-!
# The transmit queue mirrors the engine

A reliable channel writes each packet in flight down twice: in the engine's
`pending` table, and in the channel's `tx_queue`. The two are separate tables
of sixteen slots, updated by separate scans.

They hold the same ids, as multisets: ids come round after 65536 packets, and
nothing in either table keeps two entries from having one id. So a send that
found a free slot in the one finds a free slot in the other, and the result that
`relinow_state_reliable_send` throws away is never a failure.
-/

namespace Relinow

open SlotTable

/-- The ids in the transmit queue. -/
def queuedSeqs (channel : ChannelState) : Multiset U16 :=
  keys TxSlot.used TxSlot.seqId channel.txQueue

/-- The transmit queue holds what the engine has in flight. -/
def Mirrors (channel : ChannelState) : Prop := queuedSeqs channel = pendingSeqs channel.reliable

theorem Mirrors.congr {channel channel' : ChannelState} (h : Mirrors channel)
    (hq : channel'.txQueue = channel.txQueue)
    (hp : channel'.reliable.pending = channel.reliable.pending) : Mirrors channel' := by
  unfold Mirrors queuedSeqs pendingSeqs at h ⊢
  rw [hq, hp]
  exact h

/-! ## The two updates of the queue -/

/-- **Queueing** adds the id, or finds all sixteen slots taken. -/
theorem pushTx_cases (channel : ChannelState) (q : U16) :
    ((queuedSeqs channel).card = txQueueSize ∧ channel.pushTx q = (.queueFull, channel))
    ∨ ∃ queue, channel.pushTx q = (.ok, { channel with txQueue := queue })
        ∧ queuedSeqs { channel with txQueue := queue } = q ::ₘ queuedSeqs channel := by
  unfold ChannelState.pushTx queuedSeqs
  cases hf : firstIdx (fun s => !s.used) channel.txQueue with
  | none =>
      rw [card_keys]
      exact Or.inl ⟨freeIdx_none TxSlot.used hf, rfl⟩
  | some i => exact Or.inr ⟨_, rfl, keys_fill _ (freeIdx_some TxSlot.used hf) rfl⟩

/-- **Removing** takes one occurrence of the id out, or there is none. -/
theorem txRemoveSeq_cases (channel : ChannelState) (q : U16) :
    (q ∉ queuedSeqs channel ∧ txRemoveSeq channel q = channel)
    ∨ ∃ queue, txRemoveSeq channel q = { channel with txQueue := queue }
        ∧ queuedSeqs channel = q ::ₘ queuedSeqs { channel with txQueue := queue } := by
  unfold txRemoveSeq queuedSeqs
  cases hf : firstIdx (fun s => s.used && s.seqId == q) channel.txQueue with
  | none => exact Or.inl ⟨(keyIdx_none TxSlot.used TxSlot.seqId).mp hf, rfl⟩
  | some i =>
      refine Or.inr ⟨_, rfl, ?_⟩
      obtain ⟨hu, hk⟩ := keyIdx_some TxSlot.used TxSlot.seqId hf
      have hrel := keys_release TxSlot.seqId
        (x := { channel.txQueue[i] with used := false }) hu rfl
      rwa [hk] at hrel

/-! ## Every operation keeps the mirror -/

theorem mirrors_push {channel : ChannelState} (h : Mirrors channel) {ctx : ReliableCtx} {q : U16}
    (hroom : (pendingSeqs channel.reliable).card < maxPending)
    (hp : pendingSeqs ctx = q ::ₘ pendingSeqs channel.reliable) :
    (((channel.withEngine ctx).markInflight q).pushTx q).1 = .ok
      ∧ Mirrors (((channel.withEngine ctx).markInflight q).pushTx q).2 := by
  have hq : queuedSeqs ((channel.withEngine ctx).markInflight q) = pendingSeqs channel.reliable := h
  rcases pushTx_cases ((channel.withEngine ctx).markInflight q) q with
    ⟨hcard, _⟩ | ⟨queue, heq, hks⟩
  · -- the queue is as long as the table of packets in flight
    rw [hq] at hcard
    have hsize : txQueueSize = maxPending := rfl
    omega
  · rw [heq]
    refine ⟨rfl, ?_⟩
    show queuedSeqs { (channel.withEngine ctx).markInflight q with txQueue := queue }
      = pendingSeqs ctx
    rw [hks, hq, hp]

theorem mirrors_remove {channel : ChannelState} {q : U16}
    (h : queuedSeqs channel = q ::ₘ pendingSeqs channel.reliable) :
    Mirrors (txRemoveSeq channel q) := by
  rcases txRemoveSeq_cases channel q with ⟨hno, _⟩ | ⟨queue, heq, hks⟩
  · rw [h] at hno
    exact absurd (Multiset.mem_cons_self _ _) hno
  · rw [heq]
    rw [h, Multiset.cons_inj_right] at hks
    exact hks.symm

theorem clearInflight_queue (channel : ChannelState) (q : U16) :
    queuedSeqs (channel.clearInflight q) = queuedSeqs channel
      ∧ (channel.clearInflight q).reliable = channel.reliable := by
  obtain ⟨flag, h⟩ := clearInflight_eq channel q
  rw [h]
  exact ⟨rfl, rfl⟩

theorem pushRx_queue (channel : ChannelState) (q : U16) :
    (channel.pushRx q).2.txQueue = channel.txQueue
      ∧ (channel.pushRx q).2.reliable = channel.reliable := by
  rcases pushRx_cases channel q with ⟨_, h⟩ | ⟨queue, _, h⟩ <;> rw [h] <;> exact ⟨rfl, rfl⟩

theorem pushAllRx_queue (ds : List U16) (channel : ChannelState) :
    (ChannelState.pushAllRx ds channel).2.txQueue = channel.txQueue
      ∧ (ChannelState.pushAllRx ds channel).2.reliable = channel.reliable := by
  obtain ⟨queue, ⟨_, _, h⟩ | ⟨_, h⟩⟩ := pushAllRx_cases ds channel <;> rw [h] <;>
    exact ⟨rfl, rfl⟩

theorem inMode_mirrors {channel : ChannelState} (h : Mirrors channel) {mode : U8} {silent : Output}
    {r : Ret StateErr ChannelState Output} (hr : Mirrors r.st) :
    Mirrors (channel.inMode mode silent r).st := by
  unfold ChannelState.inMode
  split
  · exact h
  · exact hr

theorem reliableSend_mirrors {channel : ChannelState} (h : Mirrors channel) (now : U32) :
    Mirrors ((ChannelOp.reliableSend now).act channel).st := by
  refine inMode_mirrors h ?_
  dsimp only
  rcases reliableSend_cases channel.reliable now with ⟨heq, _⟩ | ⟨ctx', heq, _, hp⟩
  · rw [heq]
    exact h
  · rw [heq]
    have hroom := card_live_le Pending.inUse ctx'.pending
    rw [← card_pendingSeqs, hp, Multiset.card_cons] at hroom
    exact (mirrors_push h (by omega) hp).2

theorem reliableOnAck_mirrors {channel : ChannelState} (h : Mirrors channel) (a : U16) (now : U32) :
    Mirrors ((ChannelOp.reliableOnAck a now).act channel).st := by
  refine inMode_mirrors h ?_
  obtain ⟨hq, hr⟩ :=
    clearInflight_queue (channel.withEngine (Relinow.reliableOnAck channel.reliable a now)) a
  rcases reliableOnAck_cases channel.reliable a now with ⟨hno, heq⟩ | ⟨ctx', heq, _, hp⟩
  · -- an ACK that names nothing in flight names nothing in the queue either
    rw [heq] at hq hr ⊢
    rcases txRemoveSeq_cases ((channel.withEngine channel.reliable).clearInflight a) a with
      ⟨_, hsame⟩ | ⟨queue, _, hks⟩
    · rw [hsame]
      unfold Mirrors
      rw [hq, hr]
      exact h
    · have hmem : a ∈ queuedSeqs channel := by
        have : a ∈ queuedSeqs ((channel.withEngine channel.reliable).clearInflight a) := by
          rw [hks]
          exact Multiset.mem_cons_self _ _
        rwa [hq] at this
      rw [show queuedSeqs channel = pendingSeqs channel.reliable from h] at hmem
      exact absurd hmem hno
  · rw [heq] at hq hr ⊢
    refine mirrors_remove ?_
    rw [hq, hr]
    show queuedSeqs channel = a ::ₘ pendingSeqs ctx'
    rw [← hp]
    exact h

theorem reliablePoll_mirrors {channel : ChannelState} (h : Mirrors channel) (now : U32) :
    Mirrors ((ChannelOp.reliablePoll now).act channel).st := by
  refine inMode_mirrors h ?_
  dsimp only
  rcases reliablePoll_cases channel.reliable now with ⟨heq, _⟩ |
    ⟨i, ctx', _, _, ⟨_, heq, hp⟩ | ⟨_, heq, _, hp⟩⟩
  · rw [heq]
    exact h
  · rw [heq]
    obtain ⟨hq, hr⟩ :=
      clearInflight_queue (channel.withEngine ctx') channel.reliable.pending[i].seqId
    refine mirrors_remove ?_
    rw [hq, hr]
    show queuedSeqs channel = _ ::ₘ pendingSeqs ctx'
    rw [← hp]
    exact h
  · rw [heq]
    show queuedSeqs channel = pendingSeqs ctx'
    rw [hp]
    exact h

theorem reliableOnData_mirrors {channel : ChannelState} (h : Mirrors channel) (q : U16) :
    Mirrors ((ChannelOp.reliableOnData q).act channel).st := by
  refine inMode_mirrors h ?_
  obtain ⟨hq, hr⟩ := pushAllRx_queue (Relinow.reliableOnData channel.reliable q).2.deliveredSeq
    (channel.withEngine (Relinow.reliableOnData channel.reliable q).1)
  have hp : (Relinow.reliableOnData channel.reliable q).1.pending = channel.reliable.pending := by
    rw [reliableOnData_tx]
  dsimp only
  split
  · exact h.congr hq (by rw [hr]; exact hp)
  · exact h.congr hq (by dsimp only; rw [hr]; exact hp)

/-- **Every operation but the direct one on the queue keeps the mirror.** -/
theorem ChannelOp.act_mirrors {channel : ChannelState} (h : Mirrors channel) {op : ChannelOp}
    (hop : ∀ q, op ≠ .enqueueTx q) : Mirrors (op.act channel).st := by
  cases op with
  | enqueueTx q => exact absurd rfl (hop q)
  | nextSequence => exact h
  | getChannelMode => exact h
  | markInflight q => exact h
  | clearInflight q =>
      obtain ⟨hq, hr⟩ := clearInflight_queue channel q
      show queuedSeqs (channel.clearInflight q) = pendingSeqs (channel.clearInflight q).reliable
      rw [hq, hr]
      exact h
  | clearInflightAny => exact h
  | enqueueRx q =>
      obtain ⟨hq, hr⟩ := pushRx_queue channel q
      exact h.congr hq (congrArg ReliableCtx.pending hr)
  | setReliableConfig cfg => exact inMode_mirrors h rfl
  | reliableSend now => exact reliableSend_mirrors h now
  | reliableOnAck a now => exact reliableOnAck_mirrors h a now
  | reliablePoll now => exact reliablePoll_mirrors h now
  | reliableOnData q => exact reliableOnData_mirrors h q
  | reliableGetRttMs => exact inMode_mirrors h h
  | unreliableSend => exact inMode_mirrors h h
  | unreliableOnData q =>
      refine inMode_mirrors h ?_
      dsimp only
      split
      · exact h
      · split <;> exact h
  | prioritySend => exact inMode_mirrors h h
  | priorityOnData q =>
      refine inMode_mirrors h ?_
      split <;> exact h
  | getStats => exact h

theorem openedChannel_mirrors (c mode priority : U8) : Mirrors (openedChannel c mode priority) := by
  unfold Mirrors openedChannel
  dsimp only
  split <;> rfl

/--
**The transmit queue mirrors the pending table**, after any calls that leave the
queue to the engine. So whenever the engine takes a packet, the queue takes it
too: the result that `relinow_state_reliable_send` ignores is `ok`.
-/
theorem txQueue_mirrors (calls : List StateCall)
    (hcalls : ∀ call ∈ calls, ∀ p c q, call.op ≠ .enqueueTx p c q) :
    (∀ r : ChannelRef, ((stateAfter calls).channel r).inUse = true →
        ((stateAfter calls).channel r).mode = modeReliable →
        queuedSeqs ((stateAfter calls).channel r)
          = pendingSeqs ((stateAfter calls).channel r).reliable)
    ∧ ∀ (p c : U8) (now : U32) (r : ChannelRef),
        findChannelMut (stateAfter calls) p c = some r →
        ((stateAfter calls).channel r).mode = modeReliable →
        (reliableSend ((stateAfter calls).channel r).reliable now).rc = .ok →
        let channel := (stateAfter calls).channel r
        let sent := reliableSend channel.reliable now
        let state := (stateAfter calls).setChannel r { channel with reliable := sent.st }
        let state := (stateMarkInflight state p c sent.out.seqId).st
        (stateEnqueueTx state p c sent.out.seqId).rc = .ok := by
  have hall : ∀ r, Mirrors ((stateAfter calls).channel r) := by
    have hops : ∀ call ∈ calls, ∀ p c o, call.op = ChannelOp.at p c o → ∀ q, o ≠ .enqueueTx q := by
      rintro call hmem p c o ho q rfl
      exact hcalls call hmem p c q ho
    exact @stateAfter_channels (fun op => ∀ q, op ≠ .enqueueTx q) Mirrors (fun _ _ => by simp)
      (fun _ _ hop h => ChannelOp.act_mirrors h hop) (fun _ _ h => h) rfl openedChannel_mirrors
      calls hops
  refine ⟨fun r _ _ => hall r, fun p c now r hr _ hrc => ?_⟩
  rcases reliableSend_cases ((stateAfter calls).channel r).reliable now with
    ⟨heq, _⟩ | ⟨ctx', heq, _, hp⟩
  · rw [heq] at hrc
    exact absurd hrc (by simp)
  · dsimp only
    rw [heq]
    -- the engine had room for one more, and the queue is as long
    have hroom := card_live_le Pending.inUse ctx'.pending
    rw [← card_pendingSeqs, hp, Multiset.card_cons] at hroom
    have h1 := found_setChannel hr (withEngine_name ((stateAfter calls).channel r) ctx')
    have h2 := found_setChannel hr ((withEngine_name ((stateAfter calls).channel r) ctx').trans
      (markInflight_name _ ((stateAfter calls).channel r).reliable.nextTxSeq))
    have hmark := markInflight_found h1 ((stateAfter calls).channel r).reliable.nextTxSeq
    rw [channel_setChannel, setChannel_setChannel] at hmark
    show (stateEnqueueTx (stateMarkInflight ((stateAfter calls).setChannel r
      (((stateAfter calls).channel r).withEngine ctx')) p c _).st p c _).rc = .ok
    rw [hmark, enqueueTx_found h2, channel_setChannel]
    exact (mirrors_push (hall r) (by omega) hp).1

/-- A peer, a reliable channel and two sends. -/
def twoSends : List StateCall :=
  [⟨.addPeer (Vector.replicate 6 0#8), false⟩, ⟨.openChannel 0#8 1#8 modeReliable 0#8, false⟩,
    ⟨.reliableSend 0#8 1#8 0#32, false⟩, ⟨.reliableSend 0#8 1#8 0#32, false⟩]

theorem twoSends_mirror :
    queuedSeqs ((stateAfter twoSends).channel (0, 0))
      = pendingSeqs ((stateAfter twoSends).channel (0, 0)).reliable :=
  (txQueue_mirrors twoSends (by simp [twoSends])).1 (0, 0) (by decide +kernel) (by decide +kernel)

end Relinow
