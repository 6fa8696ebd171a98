import Relinow.Proof.StateTables

/-!
# Two clocks

Two runs get the same calls, but the second has a clock that is ahead by `d`, in
32 bits. Here are the states of the two runs side by side. They differ in
timestamps only: a packet in flight was last sent `d` later, and what a free slot
has there is left open, since it is not read before it is written.

Each operation reads a timestamp by subtracting it from the time of the call, and
there the offset goes away. So it returns the same in both runs, and leaves them
side by side.
-/

namespace Relinow

open SlotTable

/-- A pending slot in the second run. -/
inductive SlotShift (d : U32) (slot : Pending) : Pending → Prop where
  | mk (lastSendMs : U32) (h : slot.inUse = true → lastSendMs = slot.lastSendMs + d) :
      SlotShift d slot { slot with lastSendMs := lastSendMs }

/-- An engine in the second run. -/
inductive CtxShift (d : U32) (ctx : ReliableCtx) : ReliableCtx → Prop where
  | mk (pending : Vector Pending maxPending)
      (h : ∀ i : Fin maxPending, SlotShift d ctx.pending[i] pending[i]) :
      CtxShift d ctx { ctx with pending := pending }

/-- A channel in the second run. -/
inductive ChannelShift (d : U32) (channel : ChannelState) : ChannelState → Prop where
  | mk (ctx : ReliableCtx) (h : CtxShift d channel.reliable ctx) :
      ChannelShift d channel (channel.withEngine ctx)

/-- The state layer in the second run. No peer has heartbeats, whose timestamps start at zero in
both runs. -/
structure StateShift (d : U32) (state state' : State) : Prop where
  peers : ∀ i : Fin maxPeers,
    state'.peers[i] = { state.peers[i] with channels := state'.peers[i].channels }
  silent : ∀ i : Fin maxPeers, state.peers[i].heartbeatIntervalMs = 0#16
  channels : ∀ r : ChannelRef, ChannelShift d (state.channel r) (state'.channel r)

/-- A call returns the same in both runs, and leaves what `R` relates. -/
structure RetShift {ε σ α : Type} (R : σ → σ → Prop) (r r' : Ret ε σ α) : Prop where
  rc : r'.rc = r.rc
  st : R r.st r'.st
  out : r'.out = r.out

/-- **The offset goes away.** -/
theorem elapsed_shift (d now last : U32) : (now + d) - (last + d) = now - last := by
  bv_omega

/-! ## The engine -/

section Engine

variable {d : U32} {slot slot' : Pending} {ctx ctx' : ReliableCtx}

theorem SlotShift.refl (hu : slot.inUse = false) : SlotShift d slot slot :=
  SlotShift.mk slot.lastSendMs fun h => absurd (hu.symm.trans h) (by decide)

theorem SlotShift.inUse (h : SlotShift d slot slot') : slot'.inUse = slot.inUse := by
  obtain ⟨last, _⟩ := h
  rfl

theorem SlotShift.seqId (h : SlotShift d slot slot') : slot'.seqId = slot.seqId := by
  obtain ⟨last, _⟩ := h
  rfl

theorem SlotShift.retries (h : SlotShift d slot slot') : slot'.retries = slot.retries := by
  obtain ⟨last, _⟩ := h
  rfl

/-- The age of a packet in flight. -/
theorem SlotShift.elapsed (h : SlotShift d slot slot') (hu : slot.inUse = true) (now : U32) :
    (now + d) - slot'.lastSendMs = now - slot.lastSendMs := by
  obtain ⟨last, hlast⟩ := h
  dsimp only
  rw [hlast hu, elapsed_shift]

/-- A slot expires in both runs at once. -/
theorem SlotShift.expired (h : SlotShift d slot slot') (now : U32) :
    slot'.expired (now + d) = slot.expired now := by
  have helapsed := fun hu => h.elapsed hu now
  obtain ⟨last, hlast⟩ := h
  unfold Pending.expired
  cases hu : slot.inUse with
  | false => rfl
  | true =>
      dsimp only at helapsed ⊢
      rw [helapsed hu]

theorem SlotShift.release (h : SlotShift d slot slot') :
    SlotShift d { slot with inUse := false } { slot' with inUse := false } := by
  obtain ⟨last, _⟩ := h
  exact SlotShift.mk last fun h => Bool.noConfusion h

/-- A retransmission stamps the slot anew. -/
theorem SlotShift.restamp (h : SlotShift d slot slot') (now : U32) (timeoutMs : U16)
    (retries : U8) :
    SlotShift d { slot with retries := retries, lastSendMs := now, timeoutMs := timeoutMs }
      { slot' with retries := retries, lastSendMs := now + d, timeoutMs := timeoutMs } := by
  obtain ⟨last, _⟩ := h
  exact SlotShift.mk (now + d) fun _ => rfl

/-- Scans that do not look at timestamps stop at the same slot. -/
theorem firstIdx_shift {pending pending' : Vector Pending maxPending}
    (h : ∀ i : Fin maxPending, SlotShift d pending[i] pending'[i]) (test : Bool → U16 → Bool) :
    firstIdx (fun slot => test slot.inUse slot.seqId) pending'
      = firstIdx (fun slot => test slot.inUse slot.seqId) pending :=
  firstIdx_congr fun i => by rw [(h i).inUse, (h i).seqId]

theorem CtxShift.of_empty (h : ∀ i : Fin maxPending, ctx.pending[i].inUse = false) :
    CtxShift d ctx ctx :=
  CtxShift.mk ctx.pending fun i => SlotShift.refl (h i)

theorem CtxShift.send (h : CtxShift d ctx ctx') (now : U32) :
    RetShift (CtxShift d) (reliableSend ctx now) (reliableSend ctx' (now + d)) := by
  obtain ⟨pending, hp⟩ := h
  have hfree := firstIdx_shift hp fun used _ => !used
  unfold reliableSend findFreePendingSlot
  dsimp only
  rw [hfree]
  cases firstIdx (fun slot : Pending => !slot.inUse) ctx.pending with
  | none => exact ⟨rfl, CtxShift.mk pending hp, rfl⟩
  | some i =>
      refine ⟨rfl, CtxShift.mk _ (forall_put₂ (SlotShift d) hp i ?_), rfl⟩
      exact SlotShift.mk (now + d) fun _ => rfl

/-- The sample is the same, and so is the estimate. -/
theorem CtxShift.onAck (h : CtxShift d ctx ctx') (a : U16) (now : U32) :
    CtxShift d (reliableOnAck ctx a now) (reliableOnAck ctx' a (now + d)) := by
  obtain ⟨pending, hp⟩ := h
  have hfind := firstIdx_shift hp fun used q => used && q == a
  unfold reliableOnAck findPendingSlot
  dsimp only
  rw [hfind]
  cases hf : firstIdx (fun slot : Pending => slot.inUse && slot.seqId == a) ctx.pending with
  | none => exact CtxShift.mk pending hp
  | some i =>
      obtain ⟨hu, -⟩ := keyIdx_some Pending.inUse Pending.seqId hf
      dsimp only
      rw [(hp i).elapsed hu now]
      exact CtxShift.mk _ (forall_put₂ (SlotShift d) hp i (hp i).release)

theorem CtxShift.poll (h : CtxShift d ctx ctx') (now : U32) :
    CtxShift d (reliablePoll ctx now).1 (reliablePoll ctx' (now + d)).1
      ∧ (reliablePoll ctx' (now + d)).2 = (reliablePoll ctx now).2 := by
  obtain ⟨pending, hp⟩ := h
  have hscan : firstIdx (Pending.expired (now + d)) pending
      = firstIdx (Pending.expired now) ctx.pending :=
    firstIdx_congr fun i => (hp i).expired now
  unfold reliablePoll
  dsimp only
  rw [hscan]
  cases firstIdx (Pending.expired now) ctx.pending with
  | none => exact ⟨CtxShift.mk pending hp, rfl⟩
  | some i =>
      dsimp only
      have hslot := hp i
      by_cases hr : ctx.cfg.maxRetries ≤ ctx.pending[i].retries
      · rw [if_pos hr, if_pos (hslot.retries ▸ hr)]
        exact ⟨CtxShift.mk _ (forall_put₂ (SlotShift d) hp i hslot.release), by rw [hslot.seqId]⟩
      · rw [if_neg hr, if_neg (hslot.retries ▸ hr)]
        refine ⟨CtxShift.mk _ (forall_put₂ (SlotShift d) hp i ?_), by rw [hslot.seqId]⟩
        rw [hslot.retries]
        exact hslot.restamp now _ _

/-- The receive half does not see the pending table. -/
theorem reorderFlush_pending (pending : Vector Pending maxPending) (n : Nat) :
    ∀ ctx : ReliableCtx, reorderFlush n { ctx with pending := pending }
      = ({ (reorderFlush n ctx).1 with pending := pending }, (reorderFlush n ctx).2) := by
  induction n with
  | zero => exact fun _ => rfl
  | succ n ih =>
      intro ctx
      unfold reorderFlush reorderTakeExpected
      dsimp only
      cases firstIdx (fun e : Reorder => e.inUse && e.seqId == ctx.expectedRxSeq) ctx.reorder with
      | none => rfl
      | some i =>
          have hrest := ih { ctx with
            reorder := ctx.reorder.put i { ctx.reorder[i] with inUse := false }
            expectedRxSeq := seqNext ctx.expectedRxSeq }
          dsimp only at hrest ⊢
          rw [hrest]

theorem reliableOnData_pending (ctx : ReliableCtx) (pending : Vector Pending maxPending) (q : U16) :
    reliableOnData { ctx with pending := pending } q
      = ({ (reliableOnData ctx q).1 with pending := pending }, (reliableOnData ctx q).2) := by
  unfold reliableOnData reorderContains reorderInsert
  dsimp only
  split
  · rfl
  · split
    · have hflush := reorderFlush_pending pending maxReorder
        { ctx with expectedRxSeq := seqNext ctx.expectedRxSeq }
      dsimp only at hflush
      rw [hflush]
    · split
      · split
        · rfl
        · cases firstIdx (fun e : Reorder => !e.inUse) ctx.reorder <;> rfl
      · rfl

theorem reliableOnData_keepsPending (ctx : ReliableCtx) (q : U16) :
    (reliableOnData ctx q).1.pending = ctx.pending :=
  congrArg (fun r => r.1.pending) (reliableOnData_pending ctx ctx.pending q)

theorem CtxShift.onData (h : CtxShift d ctx ctx') (q : U16) :
    CtxShift d (reliableOnData ctx q).1 (reliableOnData ctx' q).1
      ∧ (reliableOnData ctx' q).2 = (reliableOnData ctx q).2 := by
  obtain ⟨pending, hp⟩ := h
  rw [reliableOnData_pending ctx pending q]
  refine ⟨CtxShift.mk pending ?_, rfl⟩
  rw [reliableOnData_keepsPending]
  exact hp

end Engine

/-! ## The channel -/

/-- The call as the second run makes it. -/
def ChannelOp.shift (d : U32) : ChannelOp → ChannelOp
  | .reliableSend nowMs => .reliableSend (nowMs + d)
  | .reliableOnAck a nowMs => .reliableOnAck a (nowMs + d)
  | .reliablePoll nowMs => .reliablePoll (nowMs + d)
  | op => op

section Channel

variable {d : U32} {channel channel' : ChannelState}

/-- What is done to the rest of the channel does not see the engine. -/
theorem ChannelShift.map {f : ChannelState → ChannelState}
    (hf : ∀ (channel : ChannelState) (ctx : ReliableCtx),
      f (channel.withEngine ctx) = (f channel).withEngine ctx)
    (h : ChannelShift d channel channel') : ChannelShift d (f channel) (f channel') := by
  obtain ⟨ctx, hctx⟩ := h
  rw [hf]
  refine ChannelShift.mk ctx ?_
  have hself := congrArg ChannelState.reliable (hf channel channel.reliable)
  change (f channel).reliable = channel.reliable at hself
  rw [hself]
  exact hctx

theorem ChannelShift.withEngine (h : ChannelShift d channel channel') {ctx ctx' : ReliableCtx}
    (hctx : CtxShift d ctx ctx') :
    ChannelShift d (channel.withEngine ctx) (channel'.withEngine ctx') := by
  obtain ⟨_, _⟩ := h
  exact ChannelShift.mk ctx' hctx

theorem ChannelShift.engine (h : ChannelShift d channel channel') :
    CtxShift d channel.reliable channel'.reliable := by
  obtain ⟨_, hctx⟩ := h
  exact hctx

theorem ChannelShift.of_empty
    (h : ∀ i : Fin maxPending, channel.reliable.pending[i].inUse = false) :
    ChannelShift d channel channel :=
  ChannelShift.mk channel.reliable (CtxShift.of_empty h)

theorem ChannelShift.name (h : ChannelShift d channel channel') : SameName channel channel' := by
  obtain ⟨_, _⟩ := h
  exact withEngine_name _ _

theorem ChannelShift.markInflight (h : ChannelShift d channel channel') (q : U16) :
    ChannelShift d (channel.markInflight q) (channel'.markInflight q) :=
  h.map (f := fun channel => channel.markInflight q) fun _ _ => rfl

theorem ChannelShift.clearInflight (h : ChannelShift d channel channel') (q : U16) :
    ChannelShift d (channel.clearInflight q) (channel'.clearInflight q) := by
  refine h.map (f := fun channel => channel.clearInflight q) fun channel ctx => ?_
  unfold ChannelState.clearInflight ChannelState.withEngine
  dsimp only
  split <;> rfl

theorem ChannelShift.txRemoveSeq (h : ChannelShift d channel channel') (q : U16) :
    ChannelShift d (txRemoveSeq channel q) (txRemoveSeq channel' q) := by
  refine h.map (f := fun channel => Relinow.txRemoveSeq channel q) fun channel ctx => ?_
  unfold Relinow.txRemoveSeq ChannelState.withEngine
  dsimp only
  split <;> rfl

theorem ChannelShift.pushTx (h : ChannelShift d channel channel') (q : U16) :
    (channel'.pushTx q).1 = (channel.pushTx q).1
      ∧ ChannelShift d (channel.pushTx q).2 (channel'.pushTx q).2 := by
  obtain ⟨ctx, hctx⟩ := h
  unfold ChannelState.pushTx ChannelState.withEngine
  dsimp only
  split <;> exact ⟨rfl, ChannelShift.mk ctx hctx⟩

theorem ChannelShift.pushRx (h : ChannelShift d channel channel') (q : U16) :
    (channel'.pushRx q).1 = (channel.pushRx q).1
      ∧ ChannelShift d (channel.pushRx q).2 (channel'.pushRx q).2 := by
  obtain ⟨ctx, hctx⟩ := h
  unfold ChannelState.pushRx ChannelState.withEngine
  dsimp only
  split <;> exact ⟨rfl, ChannelShift.mk ctx hctx⟩

theorem pushAllRx_shift (ds : List U16) :
    ∀ {channel channel' : ChannelState}, ChannelShift d channel channel' →
      (ChannelState.pushAllRx ds channel').1 = (ChannelState.pushAllRx ds channel).1
        ∧ ChannelShift d (ChannelState.pushAllRx ds channel).2
          (ChannelState.pushAllRx ds channel').2 := by
  induction ds with
  | nil => exact fun h => ⟨rfl, h⟩
  | cons q ds ih =>
      intro channel channel' h
      obtain ⟨hrc, hst⟩ := h.pushRx q
      rw [ChannelState.pushAllRx, ChannelState.pushAllRx, hrc]
      split
      · exact ⟨hrc, hst⟩
      · exact ih hst

/-- The channel takes over what its engine expects next. -/
theorem ChannelShift.expect (h : ChannelShift d channel channel') :
    ChannelShift d { channel with expectedRxSeq := channel.reliable.expectedRxSeq }
      { channel' with expectedRxSeq := channel'.reliable.expectedRxSeq } := by
  obtain ⟨ctx, ⟨pending, hp⟩⟩ := h
  exact ChannelShift.mk _ (CtxShift.mk pending hp)

/-- A check of the mode turns out alike. -/
theorem inMode_shift (h : ChannelShift d channel channel') {mode : U8} {silent : Output}
    {r r' : Ret StateErr ChannelState Output} (hr : RetShift (ChannelShift d) r r') :
    RetShift (ChannelShift d) (channel.inMode mode silent r) (channel'.inMode mode silent r') := by
  unfold ChannelState.inMode
  rw [h.name.mode]
  split
  · exact ⟨rfl, h, rfl⟩
  · exact hr

/-- What neither reads the engine nor writes to it does the same in both runs. -/
theorem RetShift.of_withEngine (act : ChannelState → Ret StateErr ChannelState Output)
    (hact : ∀ (channel : ChannelState) (ctx : ReliableCtx),
      act (channel.withEngine ctx) = ⟨(act channel).rc, (act channel).st.withEngine ctx,
        (act channel).out⟩) (h : ChannelShift d channel channel') :
    RetShift (ChannelShift d) (act channel) (act channel') := by
  have hst : ChannelShift d (act channel).st (act channel').st :=
    h.map (f := fun channel => (act channel).st) fun channel ctx => by rw [hact]
  obtain ⟨ctx, _⟩ := h
  exact ⟨by rw [hact], hst, by rw [hact]⟩

/-- **An operation on a channel** does the same in both runs. -/
theorem ChannelOp.act_shift (h : ChannelShift d channel channel') (op : ChannelOp) :
    RetShift (ChannelShift d) (op.act channel) ((op.shift d).act channel') := by
  have hengine := h.engine
  cases op with
  | reliableSend now =>
      refine inMode_shift h ?_
      obtain ⟨hrc, hst, hout⟩ := hengine.send now
      dsimp only
      rw [hrc, hout]
      split
      · exact ⟨rfl, h, rfl⟩
      · exact ⟨rfl, (((h.withEngine hst).markInflight _).pushTx _).2, rfl⟩
  | reliableOnAck a now =>
      refine inMode_shift h ⟨rfl, ?_, rfl⟩
      exact ((h.withEngine (hengine.onAck a now)).clearInflight a).txRemoveSeq a
  | reliablePoll now =>
      refine inMode_shift h ?_
      obtain ⟨hst, hout⟩ := hengine.poll now
      have hpolled := h.withEngine hst
      dsimp only
      rw [hout]
      split
      · exact ⟨rfl, hpolled.markInflight _, rfl⟩
      · exact ⟨rfl, (hpolled.clearInflight _).txRemoveSeq _, rfl⟩
      · exact ⟨rfl, hpolled, rfl⟩
  | reliableOnData q =>
      refine inMode_shift h ?_
      obtain ⟨hst, hout⟩ := hengine.onData q
      obtain ⟨hrc, hqueued⟩ := pushAllRx_shift
        (Relinow.reliableOnData channel.reliable q).2.deliveredSeq (h.withEngine hst)
      dsimp only
      rw [hout, hrc]
      split
      · exact ⟨rfl, hqueued, rfl⟩
      · exact ⟨rfl, hqueued.expect, rfl⟩
  | reliableGetRttMs =>
      refine inMode_shift h ⟨rfl, h, ?_⟩
      obtain ⟨ctx, ⟨pending, hp⟩⟩ := h
      rfl
  | setReliableConfig cfg =>
      -- the new engine has nothing in flight, and so no time stamp
      refine inMode_shift h ⟨rfl, ?_, rfl⟩
      obtain ⟨ctx, hctx⟩ := h
      exact ChannelShift.of_empty fun i => by
        show (Vector.replicate maxPending Pending.zero)[i].inUse = false
        rw [get_replicate]
        rfl
  | markInflight q => exact ⟨rfl, h.markInflight q, rfl⟩
  | clearInflight q => exact ⟨rfl, h.clearInflight q, rfl⟩
  | enqueueTx q => exact ⟨(h.pushTx q).1, (h.pushTx q).2, rfl⟩
  | enqueueRx q => exact ⟨(h.pushRx q).1, (h.pushRx q).2, rfl⟩
  -- the other operations do not look at the engine
  | unreliableOnData q =>
      refine RetShift.of_withEngine (ChannelOp.unreliableOnData q).act (fun channel ctx => ?_) h
      unfold ChannelOp.act ChannelState.inMode ChannelState.withEngine
      dsimp only
      split
      · rfl
      · split
        · rfl
        · split <;> rfl
  | priorityOnData q =>
      refine RetShift.of_withEngine (ChannelOp.priorityOnData q).act (fun channel ctx => ?_) h
      unfold ChannelOp.act ChannelState.inMode ChannelState.withEngine
      dsimp only
      split
      · rfl
      · split <;> rfl
  | unreliableSend =>
      refine RetShift.of_withEngine ChannelOp.unreliableSend.act (fun channel ctx => ?_) h
      unfold ChannelOp.act ChannelState.inMode ChannelState.withEngine
      dsimp only
      split <;> rfl
  | prioritySend =>
      refine RetShift.of_withEngine ChannelOp.prioritySend.act (fun channel ctx => ?_) h
      unfold ChannelOp.act ChannelState.inMode ChannelState.withEngine
      dsimp only
      split <;> rfl
  | nextSequence => exact RetShift.of_withEngine ChannelOp.nextSequence.act (fun _ _ => rfl) h
  | getChannelMode => exact RetShift.of_withEngine ChannelOp.getChannelMode.act (fun _ _ => rfl) h
  | clearInflightAny =>
      exact RetShift.of_withEngine ChannelOp.clearInflightAny.act (fun _ _ => rfl) h
  | getStats => exact RetShift.of_withEngine ChannelOp.getStats.act (fun _ _ => rfl) h

end Channel

/-! ## The state -/

theorem channel_zero_shift (d : U32) : ChannelShift d ChannelState.zero ChannelState.zero :=
  ChannelShift.of_empty fun i => by
    show (Vector.replicate maxPending Pending.zero)[i].inUse = false
    rw [get_replicate]
    rfl

theorem stateInit_shift (d : U32) : StateShift d stateInit stateInit where
  peers _ := rfl
  silent i := by
    unfold stateInit
    rw [get_replicate]
    rfl
  channels r := by
    have hzero : stateInit.channel r = ChannelState.zero := by
      unfold State.channel stateInit PeerState.zero
      dsimp only
      rw [get_replicate, get_replicate]
    rw [hzero]
    exact channel_zero_shift d

section Tables

variable {d : U32} {state state' : State}

namespace StateShift

theorem peerInUse (h : StateShift d state state') (i : Fin maxPeers) :
    state'.peers[i].inUse = state.peers[i].inUse := by
  rw [h.peers i]

/-- Channels are found in the same places. -/
theorem found (h : StateShift d state state') (p c : U8) :
    findChannelMut state' p c = findChannelMut state p c :=
  findChannelMut_congr h.peerInUse fun r =>
    ⟨(h.channels r).name.inUse, (h.channels r).name.channelId⟩

theorem setPeer (h : StateShift d state state') (i : Fin maxPeers) {peer peer' : PeerState}
    (hpeer : peer' = { peer with channels := peer'.channels })
    (hsilent : peer.heartbeatIntervalMs = 0#16)
    (hchannels : ∀ j : Fin maxChannelsPerPeer, ChannelShift d peer.channels[j] peer'.channels[j]) :
    StateShift d (state.setPeer i peer) (state'.setPeer i peer') where
  peers j := by
    rw [setPeer_get, setPeer_get]
    split
    · exact hpeer
    · exact h.peers j
  silent j := by
    rw [setPeer_get]
    split
    · exact hsilent
    · exact h.silent j
  channels r := by
    rw [setPeer_channel, setPeer_channel]
    split
    · exact hchannels r.2
    · exact h.channels r

/-- The peer's own fields are written alike. -/
theorem setFields (h : StateShift d state state') (i : Fin maxPeers) {f : PeerState → PeerState}
    (hf : ∀ (peer : PeerState) (channels : Vector ChannelState maxChannelsPerPeer),
      f { peer with channels := channels } = { f peer with channels := channels })
    (hsilent : ∀ peer, peer.heartbeatIntervalMs = 0#16 → (f peer).heartbeatIntervalMs = 0#16) :
    StateShift d (state.setPeer i (f state.peers[i])) (state'.setPeer i (f state'.peers[i])) := by
  have hkeep : ∀ peer : PeerState, (f peer).channels = peer.channels := by
    intro peer
    have hself : f peer = { f peer with channels := peer.channels } := hf peer peer.channels
    rw [hself]
  refine h.setPeer i ?_ (hsilent _ (h.silent i)) fun j => ?_
  · rw [hkeep]
    conv_lhs => rw [h.peers i]
    exact hf _ _
  · rw [hkeep, hkeep]
    exact h.channels (i, j)

theorem setChannel (h : StateShift d state state') (r : ChannelRef)
    {channel channel' : ChannelState} (hc : ChannelShift d channel channel') :
    StateShift d (state.setChannel r channel) (state'.setChannel r channel') where
  peers i := by
    rw [setChannel_peer state', setChannel_peer state, h.peers i]
  silent i := by
    rw [setChannel_peer]
    exact h.silent i
  channels r' := by
    rw [setChannel_get, setChannel_get]
    split
    · exact hc
    · exact h.channels r'

/-- **An operation on the state** does the same in both runs. -/
theorem run (h : StateShift d state state') (p c : U8) (op : ChannelOp) :
    RetShift (StateShift d) (op.run state p c) ((op.shift d).run state' p c) := by
  cases hf : findChannelMut state p c with
  | none =>
      have habsent : (op.shift d).absent p = op.absent p := by cases op <;> rfl
      rw [op.run_absent hf, (op.shift d).run_absent ((h.found p c).trans hf), habsent]
      exact ⟨rfl, h, rfl⟩
  | some r =>
      rw [op.run_eq hf, (op.shift d).run_eq ((h.found p c).trans hf)]
      obtain ⟨hrc, hst, hout⟩ := op.act_shift (h.channels r)
      exact ⟨hrc, h.setChannel r hst, hout⟩

end StateShift

/-- What the operation hands back tells what the function did. -/
theorem RetShift.of_mapOut {α : Type} (f : α → Output) (hf : ∀ a b, f a = f b → a = b)
    {r r' : Ret StateErr State α}
    (h : RetShift (StateShift d) (r.mapOut f) (r'.mapOut f)) : RetShift (StateShift d) r r' :=
  ⟨h.rc, h.st, hf _ _ h.out⟩

/-- A channel is opened with nothing in flight. -/
theorem openedChannel_empty (c mode priority : U8) (i : Fin maxPending) :
    (openedChannel c mode priority).reliable.pending[i].inUse = false := by
  unfold openedChannel
  dsimp only
  split
  all_goals
    show (Vector.replicate maxPending Pending.zero)[i].inUse = false
    rw [get_replicate]
    rfl

namespace StateShift

theorem reliableSend (h : StateShift d state state') (p c : U8) (now : U32) :
    RetShift (StateShift d) (stateReliableSend state p c now)
      (stateReliableSend state' p c (now + d)) :=
  RetShift.of_mapOut Output.tx (fun _ _ => Output.tx.inj) (h.run p c (.reliableSend now))

theorem reliableOnAck (h : StateShift d state state') (p c : U8) (a : U16) (now : U32) :
    RetShift (StateShift d) (stateReliableOnAck state p c a now)
      (stateReliableOnAck state' p c a (now + d)) :=
  RetShift.of_mapOut (fun _ : Unit => Output.none) (fun _ _ _ => rfl)
    (h.run p c (.reliableOnAck a now))

theorem reliablePoll (h : StateShift d state state') (p c : U8) (now : U32) :
    RetShift (StateShift d) (stateReliablePoll state p c now)
      (stateReliablePoll state' p c (now + d)) :=
  RetShift.of_mapOut Output.tx (fun _ _ => Output.tx.inj) (h.run p c (.reliablePoll now))

theorem reliableOnData (h : StateShift d state state') (p c : U8) (q : U16) :
    RetShift (StateShift d) (stateReliableOnData state p c q) (stateReliableOnData state' p c q) :=
  RetShift.of_mapOut Output.rx (fun _ _ => Output.rx.inj) (h.run p c (.reliableOnData q))

theorem unreliableSend (h : StateShift d state state') (p c : U8) :
    RetShift (StateShift d) (stateUnreliableSend state p c) (stateUnreliableSend state' p c) :=
  RetShift.of_mapOut Output.seq (fun _ _ => Output.seq.inj) (h.run p c .unreliableSend)

theorem unreliableOnData (h : StateShift d state state') (p c : U8) (q : U16) :
    RetShift (StateShift d) (stateUnreliableOnData state p c q)
      (stateUnreliableOnData state' p c q) :=
  RetShift.of_mapOut (fun _ : Unit => Output.none) (fun _ _ _ => rfl)
    (h.run p c (.unreliableOnData q))

theorem prioritySend (h : StateShift d state state') (p c : U8) :
    RetShift (StateShift d) (statePrioritySend state p c) (statePrioritySend state' p c) :=
  RetShift.of_mapOut Output.sent (fun _ _ => Output.sent.inj) (h.run p c .prioritySend)

theorem priorityOnData (h : StateShift d state state') (p c : U8) (q : U16) :
    RetShift (StateShift d) (statePriorityOnData state p c q) (statePriorityOnData state' p c q) :=
  RetShift.of_mapOut Output.deliver (fun _ _ => Output.deliver.inj) (h.run p c (.priorityOnData q))

theorem setReliableConfig (h : StateShift d state state') (p c : U8) (cfg : ReliableConfig) :
    RetShift (StateShift d) (stateSetReliableConfig state p c cfg)
      (stateSetReliableConfig state' p c cfg) :=
  RetShift.of_mapOut (fun _ : Unit => Output.none) (fun _ _ _ => rfl)
    (h.run p c (.setReliableConfig cfg))

/-- What is read of a channel, but for its engine, is the same. -/
theorem getChannelMode (h : StateShift d state state') (p c : U8) :
    stateGetChannelMode state' p c = stateGetChannelMode state p c := by
  unfold stateGetChannelMode
  cases hf : findChannelMut state p c with
  | none => rw [lookupChannel_absent hf, lookupChannel_absent ((h.found p c).trans hf)]
  | some r =>
      rw [lookupChannel_found hf, lookupChannel_found ((h.found p c).trans hf)]
      dsimp only
      rw [(h.channels r).name.mode]

/-- **The estimate of the round trip** is the same. -/
theorem getRttMs (h : StateShift d state state') (p c : U8) :
    stateReliableGetRttMs state' p c = stateReliableGetRttMs state p c := by
  unfold stateReliableGetRttMs
  cases hf : findChannelMut state p c with
  | none => rw [lookupChannel_absent hf, lookupChannel_absent ((h.found p c).trans hf)]
  | some r =>
      rw [lookupChannel_found hf, lookupChannel_found ((h.found p c).trans hf)]
      have hchannel := h.channels r
      revert hchannel
      generalize state'.channel r = channel'
      rintro ⟨ctx, ⟨pending, _⟩⟩
      rfl

theorem onPong (h : StateShift d state state') (p : U8) :
    StateShift d (stateOnPong state p).st (stateOnPong state' p).st := by
  unfold stateOnPong
  split
  · rename_i hp
    have hin := h.peerInUse ⟨p.toNat, hp⟩
    dsimp only
    by_cases hu : state.peers[(⟨p.toNat, hp⟩ : Fin maxPeers)].inUse = true
    · rw [if_neg (by rw [hu]; decide), if_neg (by rw [hin, hu]; decide)]
      exact h.setFields ⟨p.toNat, hp⟩ (f := fun peer => { peer with missedPongs := 0#8 })
        (fun _ _ => rfl) fun _ h => h
    · rw [if_pos (by simpa using hu), if_pos (by rw [hin]; simpa using hu)]
      exact h
  · exact h

/-- Without heartbeats a poll of them does nothing. -/
theorem statePollHeartbeat_silent (h : ∀ i : Fin maxPeers,
    state.peers[i].heartbeatIntervalMs = 0#16) (p : U8) (now : U32) :
    (statePollHeartbeat state p now).st = state
      ∧ (statePollHeartbeat state p now).out = ⟨false, false⟩ := by
  unfold statePollHeartbeat
  split
  · rename_i hp
    dsimp only
    rw [if_pos (by rw [Bool.or_eq_true, beq_iff_eq]; exact Or.inr (h ⟨p.toNat, hp⟩))]
    exact ⟨rfl, rfl⟩
  · exact ⟨rfl, rfl⟩

/-- A channel is opened in the same slot, or changes its priority there. -/
theorem openChannel (h : StateShift d state state') (p c mode priority : U8) :
    RetShift (StateShift d) (stateOpenChannel state p c mode priority)
      (stateOpenChannel state' p c mode priority) := by
  unfold stateOpenChannel
  split
  · rename_i hp
    -- the scans read names only, and find the same slots
    have hin := h.peerInUse ⟨p.toNat, hp⟩
    have hname := fun j => (h.channels (⟨p.toNat, hp⟩, j)).name
    have hfind : findChannelIdx state'.peers[(⟨p.toNat, hp⟩ : Fin maxPeers)] c
        = findChannelIdx state.peers[(⟨p.toNat, hp⟩ : Fin maxPeers)] c :=
      firstIdx_congr fun j => congrArg₂ (fun used id => used && id == c) (hname j).inUse
        (hname j).channelId
    have hfree :
        firstIdx (fun ch => !ch.inUse) state'.peers[(⟨p.toNat, hp⟩ : Fin maxPeers)].channels
        = firstIdx (fun ch => !ch.inUse) state.peers[(⟨p.toNat, hp⟩ : Fin maxPeers)].channels :=
      firstIdx_congr fun j => congrArg not (hname j).inUse
    dsimp only
    rw [hin, hfind, hfree]
    split
    · exact ⟨rfl, h, rfl⟩
    · split
      · exact ⟨rfl, h, rfl⟩
      · split
        · exact ⟨rfl, h, rfl⟩
        · split
          · rename_i j _
            have hmode : state'.peers[(⟨p.toNat, hp⟩ : Fin maxPeers)].channels[j].mode
                = state.peers[(⟨p.toNat, hp⟩ : Fin maxPeers)].channels[j].mode := (hname j).mode
            by_cases hm : state.peers[(⟨p.toNat, hp⟩ : Fin maxPeers)].channels[j].mode = mode
            · rw [if_neg (by simpa using hm), if_neg (by rw [hmode]; simpa using hm)]
              exact ⟨rfl, h.setChannel _ ((h.channels (⟨p.toNat, hp⟩, j)).map
                (f := fun channel => { channel with priority := priority }) fun _ _ => rfl), rfl⟩
            · rw [if_pos (by simpa using hm), if_pos (by rw [hmode]; simpa using hm)]
              exact ⟨rfl, h, rfl⟩
          · split
            · -- a fresh channel has nothing in flight
              refine ⟨rfl, h.setChannel _ (ChannelShift.of_empty fun k => ?_), rfl⟩
              exact openedChannel_empty c mode priority k
            · exact ⟨rfl, h, rfl⟩
  · exact ⟨rfl, h, rfl⟩

/-- One round of the scan, in terms of the channel it looks at. -/
theorem schedulerScan_round (peer : Fin maxPeers) (p : U8) (now : U32) (n : Nat) (state : State)
    (idx : Fin maxChannelsPerPeer)
    (hidx : idx = Fin.ofNat maxChannelsPerPeer (state.peers[peer].lastPolledChannelIdx.toNat + 1
      + (maxChannelsPerPeer - (n + 1)))) :
    schedulerScan peer p now (n + 1) state =
      if (state.channel (peer, idx)).inUse && (state.channel (peer, idx)).mode == modeReliable then
        let polled := stateReliablePoll state p (state.channel (peer, idx)).channelId now
        if polled.out.event != .none then
          (polled.st.setPeer peer
              { polled.st.peers[peer] with lastPolledChannelIdx := BitVec.ofNat 8 idx.val },
            some ((state.channel (peer, idx)).channelId, polled.out))
        else schedulerScan peer p now n polled.st
      else schedulerScan peer p now n state := by
  subst hidx
  rfl

/-- **The scan of the scheduler** makes the same rounds, and stops at the same channel. -/
theorem schedulerScan (peer : Fin maxPeers) (p : U8) (now : U32) (n : Nat) :
    ∀ {state state' : State}, StateShift d state state' →
      StateShift d (schedulerScan peer p now n state).1
          (Relinow.schedulerScan peer p (now + d) n state').1
        ∧ (Relinow.schedulerScan peer p (now + d) n state').2
          = (Relinow.schedulerScan peer p now n state).2 := by
  induction n with
  | zero => exact fun h => ⟨h, rfl⟩
  | succ n ih =>
      intro state state' h
      have hlast : state'.peers[peer].lastPolledChannelIdx
          = state.peers[peer].lastPolledChannelIdx := by rw [h.peers peer]
      rw [schedulerScan_round peer p now n state _ rfl,
        schedulerScan_round peer p (now + d) n state' _ (by rw [hlast])]
      -- both scans look at the channel after the one polled last
      generalize Fin.ofNat maxChannelsPerPeer (state.peers[peer].lastPolledChannelIdx.toNat + 1
        + (maxChannelsPerPeer - (n + 1))) = idx
      have hname := (h.channels (peer, idx)).name
      rw [hname.inUse, hname.mode, hname.channelId]
      split
      · obtain ⟨-, hst, hout⟩ := h.reliablePoll p (state.channel (peer, idx)).channelId now
        dsimp only
        rw [hout]
        split
        · refine ⟨hst.setFields peer (f := fun peer =>
            { peer with lastPolledChannelIdx := BitVec.ofNat 8 idx.val }) ?_ fun _ h => h, rfl⟩
          exact fun _ _ => rfl
        · exact ih hst
      · exact ih h

theorem schedulerNext (h : StateShift d state state') (p : U8) (now : U32) :
    RetShift (StateShift d) (stateSchedulerNext state p now)
      (stateSchedulerNext state' p (now + d)) := by
  unfold stateSchedulerNext
  split
  · rename_i hp
    dsimp only
    rw [h.peerInUse ⟨p.toNat, hp⟩]
    split
    · exact ⟨rfl, h, rfl⟩
    · obtain ⟨hst, hout⟩ := h.schedulerScan ⟨p.toNat, hp⟩ p now maxChannelsPerPeer
      exact ⟨rfl, hst, hout⟩
  · exact ⟨rfl, h, rfl⟩

theorem configureHeartbeat (h : StateShift d state state') (p : U8) (miss : U8) :
    RetShift (StateShift d) (stateConfigureHeartbeat state p 0#16 miss)
      (stateConfigureHeartbeat state' p 0#16 miss) := by
  unfold stateConfigureHeartbeat
  split
  · rename_i hp
    have hin := h.peerInUse ⟨p.toNat, hp⟩
    dsimp only
    by_cases hu : state.peers[(⟨p.toNat, hp⟩ : Fin maxPeers)].inUse = true
    · rw [if_neg (by rw [hu]; decide), if_neg (by rw [hin, hu]; decide)]
      refine ⟨rfl, ?_, rfl⟩
      exact h.setFields ⟨p.toNat, hp⟩ (f := fun peer =>
        { peer with
          heartbeatIntervalMs := 0#16
          heartbeatMissCountMax := miss
          missedPongs := 0#8
          lastPingSentMs := 0#32 }) (fun _ _ => rfl) fun _ _ => rfl
    · rw [if_pos (by simpa using hu), if_pos (by rw [hin]; simpa using hu)]
      exact ⟨rfl, h, rfl⟩
  · exact ⟨rfl, h, rfl⟩

end StateShift

end Tables

end Relinow
