import Relinow.Proof.StateSpec

/-!
# A channel as an object

The state layer is a table of tables, and an operation on a channel finds its
way through both by scans, some of them several times in one call. Seen from
inside the channel none of that shows: the operation reads and writes one
record. `ChannelOp.act` is that view, and `ChannelOp.run_eq` says that an
operation on the state is the same operation on the record its first scan finds,
written back where it was found.

So an operation depends on nothing but its own channel and touches nothing else.
-/

namespace Relinow

open SlotTable

/-- What an operation hands back beside its return code. -/
inductive Output where
  | none
  | mode (mode : U8)
  | seq (seqId : U16)
  | tx (result : TxResult)
  | rx (result : RxResult)
  | sent (result : PrioritySent)
  | deliver (shouldDeliver : Bool)
  | rtt (ms : U16)
  | stats (stats : Stats)
  deriving DecidableEq, Repr

/-- The operations addressed to one channel of one peer. -/
inductive ChannelOp where
  | nextSequence
  | getChannelMode
  | markInflight (seqId : U16)
  | clearInflight (seqId : U16)
  | clearInflightAny
  | enqueueTx (seqId : U16)
  | enqueueRx (seqId : U16)
  | setReliableConfig (cfg : ReliableConfig)
  | reliableSend (nowMs : U32)
  | reliableOnAck (ackId : U16) (nowMs : U32)
  | reliablePoll (nowMs : U32)
  | reliableOnData (seqId : U16)
  | reliableGetRttMs
  | unreliableSend
  | unreliableOnData (seqId : U16)
  | prioritySend
  | priorityOnData (seqId : U16)
  | getStats
  deriving DecidableEq, Repr

/-- The same call in the alphabet of all operations. -/
def ChannelOp.at (p c : U8) : ChannelOp → StateOp
  | .nextSequence => .nextSequence p c
  | .getChannelMode => .getChannelMode p c
  | .markInflight q => .markInflight p c q
  | .clearInflight q => .clearInflight p c q
  | .clearInflightAny => .clearInflightAny p c
  | .enqueueTx q => .enqueueTx p c q
  | .enqueueRx q => .enqueueRx p c q
  | .setReliableConfig cfg => .setReliableConfig p c cfg
  | .reliableSend nowMs => .reliableSend p c nowMs
  | .reliableOnAck a nowMs => .reliableOnAck p c a nowMs
  | .reliablePoll nowMs => .reliablePoll p c nowMs
  | .reliableOnData q => .reliableOnData p c q
  | .reliableGetRttMs => .reliableGetRttMs p c
  | .unreliableSend => .unreliableSend p c
  | .unreliableOnData q => .unreliableOnData p c q
  | .prioritySend => .prioritySend p c
  | .priorityOnData q => .priorityOnData p c q
  | .getStats => .getStats p c

/-- **Every operation is on a channel or on a peer.** -/
theorem StateOp.byChannel {motive : StateOp → Prop}
    (channel : ∀ p c (op : ChannelOp), motive (op.at p c))
    (findPeer : ∀ mac, motive (.findPeer mac)) (addPeer : ∀ mac, motive (.addPeer mac))
    (openChannel : ∀ p c mode priority, motive (.openChannel p c mode priority))
    (configureHeartbeat : ∀ p interval miss, motive (.configureHeartbeat p interval miss))
    (pollHeartbeat : ∀ p now, motive (.pollHeartbeat p now)) (onPong : ∀ p, motive (.onPong p))
    (schedulerNext : ∀ p now, motive (.schedulerNext p now)) (op : StateOp) : motive op := by
  cases op with
  | findPeer mac => exact findPeer mac
  | addPeer mac => exact addPeer mac
  | openChannel p c mode priority => exact openChannel p c mode priority
  | configureHeartbeat p interval miss => exact configureHeartbeat p interval miss
  | pollHeartbeat p now => exact pollHeartbeat p now
  | onPong p => exact onPong p
  | schedulerNext p now => exact schedulerNext p now
  | nextSequence p c => exact channel p c .nextSequence
  | getChannelMode p c => exact channel p c .getChannelMode
  | markInflight p c q => exact channel p c (.markInflight q)
  | clearInflight p c q => exact channel p c (.clearInflight q)
  | clearInflightAny p c => exact channel p c .clearInflightAny
  | enqueueTx p c q => exact channel p c (.enqueueTx q)
  | enqueueRx p c q => exact channel p c (.enqueueRx q)
  | setReliableConfig p c cfg => exact channel p c (.setReliableConfig cfg)
  | reliableSend p c now => exact channel p c (.reliableSend now)
  | reliableOnAck p c a now => exact channel p c (.reliableOnAck a now)
  | reliablePoll p c now => exact channel p c (.reliablePoll now)
  | reliableOnData p c q => exact channel p c (.reliableOnData q)
  | reliableGetRttMs p c => exact channel p c .reliableGetRttMs
  | unreliableSend p c => exact channel p c .unreliableSend
  | unreliableOnData p c q => exact channel p c (.unreliableOnData q)
  | prioritySend p c => exact channel p c .prioritySend
  | priorityOnData p c q => exact channel p c (.priorityOnData q)
  | getStats p c => exact channel p c .getStats

def Ret.mapOut {ε σ α β : Type} (f : α → β) (r : Ret ε σ α) : Ret ε σ β := ⟨r.rc, r.st, f r.out⟩

/-- A reading operation as one that leaves the state alone. -/
def readRet {α : Type} (state : State) (f : α → Output) (r : Except StateErr α) :
    Ret StateErr State Output :=
  match r with
  | .ok a => ⟨.ok, state, f a⟩
  | .error e => ⟨e, state, .none⟩

/-- An operation on channel `c` of peer `p`, with what it hands back. -/
def ChannelOp.run (state : State) (p c : U8) : ChannelOp → Ret StateErr State Output
  | .nextSequence => (stateNextSequence state p c).mapOut .seq
  | .getChannelMode => readRet state .mode (stateGetChannelMode state p c)
  | .markInflight q => (stateMarkInflight state p c q).mapOut fun _ => .none
  | .clearInflight q => (stateClearInflight state p c q).mapOut fun _ => .none
  | .clearInflightAny => (stateClearInflightAny state p c).mapOut fun _ => .none
  | .enqueueTx q => (stateEnqueueTx state p c q).mapOut fun _ => .none
  | .enqueueRx q => (stateEnqueueRx state p c q).mapOut fun _ => .none
  | .setReliableConfig cfg => (stateSetReliableConfig state p c cfg).mapOut fun _ => .none
  | .reliableSend nowMs => (stateReliableSend state p c nowMs).mapOut .tx
  | .reliableOnAck a nowMs => (stateReliableOnAck state p c a nowMs).mapOut fun _ => .none
  | .reliablePoll nowMs => (stateReliablePoll state p c nowMs).mapOut .tx
  | .reliableOnData q => (stateReliableOnData state p c q).mapOut .rx
  | .reliableGetRttMs => readRet state .rtt (stateReliableGetRttMs state p c)
  | .unreliableSend => (stateUnreliableSend state p c).mapOut .seq
  | .unreliableOnData q => (stateUnreliableOnData state p c q).mapOut fun _ => .none
  | .prioritySend => (statePrioritySend state p c).mapOut .sent
  | .priorityOnData q => (statePriorityOnData state p c q).mapOut .deliver
  | .getStats => readRet state .stats (stateGetStats state p c)

theorem readRet_effect {α : Type} (state : State) (f : α → Output) (r : Except StateErr α) :
    (readRet state f r).effect = (readRc r, state) := by
  cases r <;> rfl

theorem ChannelOp.at_run (state : State) (p c : U8) (op : ChannelOp) :
    (op.at p c).run state = (op.run state p c).effect := by
  cases op with
  | getChannelMode => exact (readRet_effect state _ _).symm
  | reliableGetRttMs => exact (readRet_effect state _ _).symm
  | getStats => exact (readRet_effect state _ _).symm
  | _ => rfl

/-! ## The view from inside -/

/-- The channel with its engine moved on. -/
def ChannelState.withEngine (channel : ChannelState) (ctx : ReliableCtx) : ChannelState :=
  { channel with reliable := ctx }

def ChannelState.markInflight (channel : ChannelState) (seqId : U16) : ChannelState :=
  { channel with hasInflight := true, inflightSeq := seqId }

def ChannelState.clearInflight (channel : ChannelState) (seqId : U16) : ChannelState :=
  if channel.hasInflight && channel.inflightSeq == seqId then
    { channel with hasInflight := false }
  else channel

/-- The transmit queue with one more id, unless it is full. -/
def ChannelState.pushTx (channel : ChannelState) (seqId : U16) : StateErr × ChannelState :=
  match firstIdx (fun s => !s.used) channel.txQueue with
  | some i => (.ok, { channel with txQueue := channel.txQueue.put i ⟨true, seqId⟩ })
  | none => (.queueFull, channel)

/-- The receive queue with one more id, unless it is full. -/
def ChannelState.pushRx (channel : ChannelState) (seqId : U16) : StateErr × ChannelState :=
  match firstIdx (fun s => !s.used) channel.rxQueue with
  | some i => (.ok, { channel with rxQueue := channel.rxQueue.put i ⟨true, seqId⟩ })
  | none => (.queueFull, channel)

/-- The receive queue with more ids, up to the first that finds no room. -/
def ChannelState.pushAllRx : List U16 → ChannelState → StateErr × ChannelState
  | [], channel => (.ok, channel)
  | d :: ds, channel =>
      if (channel.pushRx d).1 != .ok then channel.pushRx d else pushAllRx ds (channel.pushRx d).2

/-- An operation that only one mode has. -/
def ChannelState.inMode (channel : ChannelState) (mode : U8) (silent : Output)
    (r : Ret StateErr ChannelState Output) : Ret StateErr ChannelState Output :=
  if channel.mode != mode then ⟨.wrongMode, channel, silent⟩ else r

/-- In a channel of the mode, the operation is its body. -/
theorem inMode_same {channel : ChannelState} {mode : U8} (h : channel.mode = mode)
    (silent : Output) (r : Ret StateErr ChannelState Output) :
    channel.inMode mode silent r = r :=
  if_neg (by rw [h, bne_self_eq_false]; decide)

/-- In one of another mode it is refused. -/
theorem inMode_other {channel : ChannelState} {mode : U8} (h : channel.mode ≠ mode)
    (silent : Output) (r : Ret StateErr ChannelState Output) :
    channel.inMode mode silent r = ⟨.wrongMode, channel, silent⟩ :=
  if_pos (by simpa using h)

/-- What an operation does to the channel it is addressed to. -/
def ChannelOp.act (channel : ChannelState) : ChannelOp → Ret StateErr ChannelState Output
  | .nextSequence =>
      ⟨.ok, { channel with nextTxSeq := seqNext channel.nextTxSeq }, .seq channel.nextTxSeq⟩
  | .getChannelMode => ⟨.ok, channel, .mode channel.mode⟩
  | .markInflight q => ⟨.ok, channel.markInflight q, .none⟩
  | .clearInflight q => ⟨.ok, channel.clearInflight q, .none⟩
  | .clearInflightAny => ⟨.ok, { channel with hasInflight := false }, .none⟩
  | .enqueueTx q => ⟨(channel.pushTx q).1, (channel.pushTx q).2, .none⟩
  | .enqueueRx q => ⟨(channel.pushRx q).1, (channel.pushRx q).2, .none⟩
  | .setReliableConfig cfg => channel.inMode modeReliable .none
      ⟨.ok,
        { channel with
          reliable := reliableInit (some cfg)
          hasInflight := false
          txQueue := Vector.replicate txQueueSize ⟨false, 0#16⟩
          rxQueue := Vector.replicate rxQueueSize ⟨false, 0#16⟩ }, .none⟩
  | .reliableSend nowMs => channel.inMode modeReliable (.tx ⟨.none, 0#16⟩) <|
      let sent := Relinow.reliableSend channel.reliable nowMs
      if sent.rc != .ok then ⟨.queueFull, channel, .tx ⟨.none, 0#16⟩⟩
      else
        let marked := (channel.withEngine sent.st).markInflight sent.out.seqId
        ⟨.ok, (marked.pushTx sent.out.seqId).2, .tx sent.out⟩
  | .reliableOnAck a nowMs => channel.inMode modeReliable .none
      ⟨.ok,
        txRemoveSeq
          ((channel.withEngine (Relinow.reliableOnAck channel.reliable a nowMs)).clearInflight a) a,
        .none⟩
  | .reliablePoll nowMs => channel.inMode modeReliable (.tx ⟨.none, 0#16⟩) <|
      let polled := Relinow.reliablePoll channel.reliable nowMs
      let channel := channel.withEngine polled.1
      match polled.2.event with
      | .retransmit => ⟨.ok, channel.markInflight polled.2.seqId, .tx polled.2⟩
      | .failed =>
          ⟨.ok, txRemoveSeq (channel.clearInflight polled.2.seqId) polled.2.seqId, .tx polled.2⟩
      | _ => ⟨.ok, channel, .tx polled.2⟩
  | .reliableOnData q => channel.inMode modeReliable (.rx ⟨.delivered, [], 0#16⟩) <|
      let got := Relinow.reliableOnData channel.reliable q
      let queued := ChannelState.pushAllRx got.2.deliveredSeq (channel.withEngine got.1)
      if queued.1 != .ok then ⟨queued.1, queued.2, .rx got.2⟩
      else
        ⟨.ok, { queued.2 with expectedRxSeq := queued.2.reliable.expectedRxSeq }, .rx got.2⟩
  | .reliableGetRttMs => channel.inMode modeReliable .none
      ⟨.ok, channel, .rtt (reliableCurrentRttMs channel.reliable)⟩
  | .unreliableSend => channel.inMode modeUnreliable (.seq 0#16)
      ⟨.ok, { channel with nextTxSeq := seqNext channel.nextTxSeq }, .seq channel.nextTxSeq⟩
  | .unreliableOnData q => channel.inMode modeUnreliable .none <|
      let stats := { channel.stats with totalRx := channel.stats.totalRx + 1#32 }
      if !channel.hasRxSeq then
        ⟨.ok, { channel with stats := stats, hasRxSeq := true, expectedRxSeq := q }, .none⟩
      else if isSeqNewer q channel.expectedRxSeq then
        let diff := q - channel.expectedRxSeq
        ⟨.ok,
          { channel with
            stats := { stats with totalLost := stats.totalLost + diff.setWidth 32 }
            expectedRxSeq := q }, .none⟩
      else ⟨.ok, { channel with stats := stats }, .none⟩
  | .prioritySend => channel.inMode modePriority (.sent ⟨0#16, false, 0#16⟩)
      ⟨.ok,
        { channel with
          nextTxSeq := seqNext channel.nextTxSeq
          hasInflight := true
          inflightSeq := channel.nextTxSeq },
        .sent ⟨channel.nextTxSeq, channel.hasInflight,
          if channel.hasInflight then channel.inflightSeq else 0#16⟩⟩
  | .priorityOnData q => channel.inMode modePriority (.deliver false) <|
      if !channel.hasRxSeq || isSeqNewer q channel.expectedRxSeq then
        ⟨.ok, { channel with hasRxSeq := true, expectedRxSeq := q }, .deliver true⟩
      else ⟨.ok, channel, .deliver false⟩
  | .getStats => ⟨.ok, channel, .stats channel.stats⟩

/-- An operation keeps its channel in use, under its id and in its mode. -/
structure SameName (channel channel' : ChannelState) : Prop where
  inUse : channel'.inUse = channel.inUse
  channelId : channel'.channelId = channel.channelId
  mode : channel'.mode = channel.mode

theorem SameName.refl (channel : ChannelState) : SameName channel channel := ⟨rfl, rfl, rfl⟩

theorem SameName.trans {a b d : ChannelState} (h : SameName a b) (h' : SameName b d) :
    SameName a d :=
  ⟨h'.inUse.trans h.inUse, h'.channelId.trans h.channelId, h'.mode.trans h.mode⟩

theorem withEngine_name (channel : ChannelState) (ctx : ReliableCtx) :
    SameName channel (channel.withEngine ctx) := ⟨rfl, rfl, rfl⟩

theorem markInflight_name (channel : ChannelState) (q : U16) :
    SameName channel (channel.markInflight q) := ⟨rfl, rfl, rfl⟩

theorem clearInflight_eq (channel : ChannelState) (q : U16) :
    ∃ flag, channel.clearInflight q = { channel with hasInflight := flag } := by
  unfold ChannelState.clearInflight
  split
  · exact ⟨false, rfl⟩
  · exact ⟨channel.hasInflight, rfl⟩

theorem pushTx_eq (channel : ChannelState) (q : U16) :
    ∃ queue, (channel.pushTx q).2 = { channel with txQueue := queue } := by
  unfold ChannelState.pushTx
  split
  · exact ⟨_, rfl⟩
  · exact ⟨channel.txQueue, rfl⟩

/-- **The receive queue takes an id**, or has no room for it. -/
theorem pushRx_cases (channel : ChannelState) (q : U16) :
    (rxRoom channel = 0 ∧ channel.pushRx q = (.queueFull, channel))
    ∨ ∃ queue, rxRoom channel = free RxSlot.used queue + 1
        ∧ channel.pushRx q = (.ok, { channel with rxQueue := queue }) := by
  unfold ChannelState.pushRx rxRoom
  cases hf : firstIdx (fun s => !s.used) channel.rxQueue with
  | none =>
      have hcard := freeIdx_none RxSlot.used hf
      have := card_live_add_free RxSlot.used channel.rxQueue
      exact Or.inl ⟨by omega, rfl⟩
  | some i => exact Or.inr ⟨_, free_fill RxSlot.used (freeIdx_some RxSlot.used hf) rfl, rfl⟩

/-- **It takes all ids if there is room**, and otherwise fills up and fails. -/
theorem pushAllRx_cases (ds : List U16) : ∀ channel : ChannelState, ∃ queue,
    (ds.length ≤ rxRoom channel ∧ rxRoom channel = free RxSlot.used queue + ds.length
        ∧ ChannelState.pushAllRx ds channel = (.ok, { channel with rxQueue := queue }))
    ∨ (rxRoom channel < ds.length
        ∧ ChannelState.pushAllRx ds channel = (.queueFull, { channel with rxQueue := queue })) := by
  induction ds with
  | nil => exact fun channel => ⟨channel.rxQueue, Or.inl ⟨Nat.zero_le _, rfl, rfl⟩⟩
  | cons d ds ih =>
      intro channel
      rw [List.length_cons, ChannelState.pushAllRx]
      rcases pushRx_cases channel d with ⟨hroom, hq⟩ | ⟨queue, hroom, hq⟩
      · rw [hq, if_pos (by simp)]
        exact ⟨channel.rxQueue, Or.inr ⟨by omega, rfl⟩⟩
      · -- the rest of the ids find the queue one slot shorter
        obtain ⟨queue', hcases⟩ := ih { channel with rxQueue := queue }
        have hleft : rxRoom { channel with rxQueue := queue } = free RxSlot.used queue := rfl
        rw [hleft] at hcases
        rw [hq, if_neg (by simp)]
        refine ⟨queue', ?_⟩
        rcases hcases with ⟨hle, hroom', heq⟩ | ⟨hlt, heq⟩
        · exact Or.inl ⟨by omega, by omega, heq⟩
        · exact Or.inr ⟨by omega, heq⟩

theorem pushRx_name (channel : ChannelState) (q : U16) :
    SameName channel (channel.pushRx q).2 := by
  rcases pushRx_cases channel q with ⟨_, h⟩ | ⟨queue, _, h⟩ <;> rw [h] <;> exact ⟨rfl, rfl, rfl⟩

theorem txRemoveSeq_eq (channel : ChannelState) (q : U16) :
    ∃ queue, txRemoveSeq channel q = { channel with txQueue := queue } := by
  unfold txRemoveSeq
  split
  · exact ⟨channel.txQueue, rfl⟩
  · exact ⟨_, rfl⟩

/-- The operations that advance the counter of the channel itself. -/
def ChannelOp.advances : ChannelOp → Bool
  | .nextSequence | .unreliableSend | .prioritySend => true
  | _ => false

/-- The operations that set the counter of its engine. -/
def ChannelOp.advancesEngine : ChannelOp → Bool
  | .reliableSend _ | .setReliableConfig _ => true
  | _ => false

/-- The operations that hear what the engine is not concerned with. -/
def ChannelOp.hears : ChannelOp → Bool
  | .unreliableOnData _ | .priorityOnData _ => true
  | _ => false

/-- What an operation leaves as it was. -/
structure ChannelOp.Leaves (op : ChannelOp) (channel channel' : ChannelState) : Prop where
  name : SameName channel channel'
  counter : op.advances = false → channel'.nextTxSeq = channel.nextTxSeq
  engine : op.advancesEngine = false →
    channel'.reliable.nextTxSeq = channel.reliable.nextTxSeq
  heard : op.hears = false →
    channel'.hasRxSeq = channel.hasRxSeq ∧ channel'.stats = channel.stats

theorem ChannelOp.Leaves.refl (op : ChannelOp) (channel : ChannelState) :
    op.Leaves channel channel :=
  ⟨SameName.refl channel, fun _ => rfl, fun _ => rfl, fun _ => ⟨rfl, rfl⟩⟩

/-- Writes to the queues, the marks and the engine. -/
theorem ChannelOp.Leaves.engineSide {op : ChannelOp} {channel : ChannelState} {ctx : ReliableCtx}
    (hctx : op.advancesEngine = false → ctx.nextTxSeq = channel.reliable.nextTxSeq)
    {flag : Bool} {q expected : U16} {tx : Vector TxSlot txQueueSize}
    {rx : Vector RxSlot rxQueueSize} :
    op.Leaves channel
      { channel with
        reliable := ctx
        hasInflight := flag
        inflightSeq := q
        txQueue := tx
        rxQueue := rx
        expectedRxSeq := expected } :=
  ⟨⟨rfl, rfl, rfl⟩, fun _ => rfl, hctx, fun _ => ⟨rfl, rfl⟩⟩

/-- Writes to the counter of the channel itself and the marks. -/
theorem ChannelOp.Leaves.counting {op : ChannelOp} {channel : ChannelState} {next q : U16}
    {flag : Bool} (h : op.advances = true) :
    op.Leaves channel
      { channel with nextTxSeq := next, hasInflight := flag, inflightSeq := q } :=
  ⟨⟨rfl, rfl, rfl⟩, fun hno => absurd (h.symm.trans hno) (by simp), fun _ => rfl,
    fun _ => ⟨rfl, rfl⟩⟩

/-- Writes to what the channel has heard. -/
theorem ChannelOp.Leaves.hearing {op : ChannelOp} {channel : ChannelState} {seen : Bool} {q : U16}
    {stats : Stats} (h : op.hears = true) :
    op.Leaves channel
      { channel with hasRxSeq := seen, expectedRxSeq := q, stats := stats } :=
  ⟨⟨rfl, rfl, rfl⟩, fun _ => rfl, fun _ => rfl, fun hno => absurd (h.symm.trans hno) (by simp)⟩

theorem ChannelOp.Leaves.inMode {op : ChannelOp} {channel : ChannelState} {mode : U8}
    {silent : Output} {r : Ret StateErr ChannelState Output} (h : op.Leaves channel r.st) :
    op.Leaves channel (channel.inMode mode silent r).st := by
  unfold ChannelState.inMode
  split
  · exact Leaves.refl op channel
  · exact h

/-- **What each operation leaves alone.** -/
theorem ChannelOp.act_leaves (channel : ChannelState) (op : ChannelOp) :
    op.Leaves channel (op.act channel).st := by
  cases op with
  | nextSequence => exact Leaves.counting rfl
  | getChannelMode => exact Leaves.refl _ channel
  | markInflight q => exact Leaves.engineSide fun _ => rfl
  | clearInflight q =>
      obtain ⟨flag, heq⟩ := clearInflight_eq channel q
      show Leaves _ channel (channel.clearInflight q)
      rw [heq]
      exact Leaves.engineSide fun _ => rfl
  | clearInflightAny => exact Leaves.engineSide fun _ => rfl
  | enqueueTx q =>
      obtain ⟨queue, heq⟩ := pushTx_eq channel q
      show Leaves _ channel (channel.pushTx q).2
      rw [heq]
      exact Leaves.engineSide fun _ => rfl
  | enqueueRx q =>
      show Leaves _ channel (channel.pushRx q).2
      rcases pushRx_cases channel q with ⟨_, heq⟩ | ⟨queue, _, heq⟩ <;> rw [heq]
      · exact Leaves.refl _ channel
      · exact Leaves.engineSide fun _ => rfl
  | setReliableConfig cfg => exact Leaves.inMode (Leaves.engineSide fun h => Bool.noConfusion h)
  | reliableSend now =>
      refine Leaves.inMode ?_
      dsimp only
      split
      · -- a full engine leaves the channel alone
        exact Leaves.refl _ channel
      · obtain ⟨queue, heq⟩ := pushTx_eq ((channel.withEngine
            (Relinow.reliableSend channel.reliable now).st).markInflight
              (Relinow.reliableSend channel.reliable now).out.seqId)
            (Relinow.reliableSend channel.reliable now).out.seqId
        rw [heq]
        exact Leaves.engineSide fun h => Bool.noConfusion h
  | reliableOnAck a now =>
      refine Leaves.inMode ?_
      obtain ⟨flag, hclear⟩ := clearInflight_eq
        (channel.withEngine (Relinow.reliableOnAck channel.reliable a now)) a
      obtain ⟨queue, heq⟩ := txRemoveSeq_eq ((channel.withEngine
        (Relinow.reliableOnAck channel.reliable a now)).clearInflight a) a
      rw [heq, hclear]
      exact Leaves.engineSide fun _ => reliableOnAck_next channel.reliable a now
  | reliablePoll now =>
      have hnext := reliablePoll_next channel.reliable now
      refine Leaves.inMode ?_
      dsimp only
      split
      · exact Leaves.engineSide fun _ => hnext
      · obtain ⟨flag, hclear⟩ := clearInflight_eq
          (channel.withEngine (Relinow.reliablePoll channel.reliable now).1)
          (Relinow.reliablePoll channel.reliable now).2.seqId
        obtain ⟨queue, heq⟩ := txRemoveSeq_eq ((channel.withEngine
          (Relinow.reliablePoll channel.reliable now).1).clearInflight
          (Relinow.reliablePoll channel.reliable now).2.seqId)
          (Relinow.reliablePoll channel.reliable now).2.seqId
        rw [heq, hclear]
        exact Leaves.engineSide fun _ => hnext
      · exact Leaves.engineSide fun _ => hnext
  | reliableOnData q =>
      have hnext := congrArg ReliableCtx.nextTxSeq (reliableOnData_tx channel.reliable q)
      refine Leaves.inMode ?_
      obtain ⟨queue, hcases⟩ := pushAllRx_cases
        (Relinow.reliableOnData channel.reliable q).2.deliveredSeq
        (channel.withEngine (Relinow.reliableOnData channel.reliable q).1)
      dsimp only
      rcases hcases with ⟨_, _, heq⟩ | ⟨_, heq⟩ <;> rw [heq] <;> split <;>
        exact Leaves.engineSide fun _ => hnext
  | reliableGetRttMs => exact Leaves.inMode (Leaves.refl _ channel)
  | unreliableSend => exact Leaves.inMode (Leaves.counting rfl)
  | unreliableOnData q =>
      refine Leaves.inMode ?_
      dsimp only
      split
      · exact Leaves.hearing rfl
      · split <;> exact Leaves.hearing rfl
  | prioritySend => exact Leaves.inMode (Leaves.counting rfl)
  | priorityOnData q =>
      refine Leaves.inMode ?_
      split
      · exact Leaves.hearing rfl
      · exact Leaves.refl _ channel
  | getStats => exact Leaves.refl _ channel

theorem ChannelOp.act_name (channel : ChannelState) (op : ChannelOp) :
    SameName channel (op.act channel).st :=
  (op.act_leaves channel).name

/-! ## The view is faithful -/

section Found

variable {state : State} {p c : U8} {r : ChannelRef}

theorem lookupChannel_found (h : findChannelMut state p c = some r) :
    lookupChannel state p c = .ok (state.channel r) := by
  obtain ⟨hi, hu, hf⟩ := findChannelMut_eq_some.mp h
  obtain ⟨i, j⟩ := r
  have hp : p.toNat < maxPeers := hi ▸ i.isLt
  obtain rfl : i = ⟨p.toNat, hp⟩ := Fin.ext hi
  have hu' : state.peers[p.toNat].inUse = true := hu
  have hf' : findChannelIdx state.peers[p.toNat] c = some j := hf
  unfold lookupChannel
  rw [dif_pos hp]
  dsimp only
  rw [if_neg (by rw [hu']; decide), hf']
  rfl

theorem lookupChannel_absent (h : findChannelMut state p c = none) :
    lookupChannel state p c =
      .error (if p.toNat < maxPeers then .notFound else .invalidArg) := by
  unfold lookupChannel
  by_cases hp : p.toNat < maxPeers
  · rw [dif_pos hp, if_pos hp]
    dsimp only
    by_cases hu : state.peers[p.toNat].inUse = true
    · have hf : findChannelIdx state.peers[p.toNat] c = none :=
        (channelAt_none_scan (i := ⟨p.toNat, hp⟩) rfl hu).mp (channelAt_eq_none.mpr h)
      rw [if_neg (by rw [hu]; decide), hf]
    · rw [if_pos (by simpa using hu)]
  · rw [dif_neg hp, if_neg hp]

/-- A rewritten channel is found where it was. -/
theorem found_setChannel (h : findChannelMut state p c = some r) {channel : ChannelState}
    (hn : SameName (state.channel r) channel) :
    findChannelMut (state.setChannel r channel) p c = some r := by
  rw [findChannelMut_setChannel hn.inUse hn.channelId]
  exact h

theorem markInflight_found (h : findChannelMut state p c = some r) (q : U16) :
    stateMarkInflight state p c q =
      ⟨.ok, state.setChannel r ((state.channel r).markInflight q), ()⟩ := by
  unfold stateMarkInflight ChannelState.markInflight
  rw [h]
  dsimp only
  split
  · rename_i hm
    rw [Bool.and_eq_true] at hm
    rw [← hm.2]
  · rfl

theorem clearInflight_found (h : findChannelMut state p c = some r) (q : U16) :
    stateClearInflight state p c q =
      ⟨.ok, state.setChannel r ((state.channel r).clearInflight q), ()⟩ := by
  unfold stateClearInflight ChannelState.clearInflight
  rw [h]
  dsimp only
  split
  · rfl
  · rw [setChannel_channel]

theorem enqueueTx_found (h : findChannelMut state p c = some r) (q : U16) :
    stateEnqueueTx state p c q =
      ⟨((state.channel r).pushTx q).1, state.setChannel r ((state.channel r).pushTx q).2, ()⟩ := by
  unfold stateEnqueueTx ChannelState.pushTx
  rw [h]
  dsimp only
  cases firstIdx (fun s => !s.used) (state.channel r).txQueue with
  | none => rw [setChannel_channel]
  | some i => rfl

theorem enqueueRx_found (h : findChannelMut state p c = some r) (q : U16) :
    stateEnqueueRx state p c q =
      ⟨((state.channel r).pushRx q).1, state.setChannel r ((state.channel r).pushRx q).2, ()⟩ := by
  unfold stateEnqueueRx ChannelState.pushRx
  rw [h]
  dsimp only
  cases firstIdx (fun s => !s.used) (state.channel r).rxQueue with
  | none => rw [setChannel_channel]
  | some i => rfl

/-- Each round of the queueing loop finds the channel the first one found. -/
theorem enqueueDelivered_found (ds : List U16) :
    ∀ {state : State}, findChannelMut state p c = some r →
      enqueueDelivered p c ds state =
        ⟨(ChannelState.pushAllRx ds (state.channel r)).1,
          state.setChannel r (ChannelState.pushAllRx ds (state.channel r)).2, ()⟩ := by
  induction ds with
  | nil =>
      intro state _
      show (⟨.ok, state, ()⟩ : Ret StateErr State Unit) = ⟨.ok, state.setChannel r _, ()⟩
      rw [ChannelState.pushAllRx, setChannel_channel]
  | cons d ds ih =>
      intro state h
      rw [enqueueDelivered, ChannelState.pushAllRx, enqueueRx_found h d]
      dsimp only
      split
      · rfl
      · rw [ih (found_setChannel h (pushRx_name _ d)), channel_setChannel, setChannel_setChannel]

/-- What was done to a record, written back where the record was found. -/
def Ret.writeBack {α : Type} (state : State) (r : ChannelRef) (act : Ret StateErr ChannelState α) :
    Ret StateErr State α :=
  ⟨act.rc, state.setChannel r act.st, act.out⟩

/-- The operations of one mode check it on the record they found. -/
theorem inMode_found {α : Type} {mode : U8} {f : α → Output} {silent : α}
    {act : Ret StateErr ChannelState Output} {g : Ret StateErr State α}
    (hact : (state.channel r).mode = mode → g.mapOut f = act.writeBack state r) :
    (if (state.channel r).mode != mode then ⟨.wrongMode, state, silent⟩ else g).mapOut f =
      ((state.channel r).inMode mode (f silent) act).writeBack state r := by
  unfold ChannelState.inMode
  by_cases hm : (state.channel r).mode = mode
  · rw [if_neg (by simpa using hm), if_neg (by simpa using hm)]
    exact hact hm
  · rw [if_pos (by simpa using hm), if_pos (by simpa using hm)]
    unfold Ret.writeBack
    rw [setChannel_channel]
    rfl

theorem reliableSend_found (h : findChannelMut state p c = some r) (now : U32) :
    (ChannelOp.reliableSend now).run state p c =
      ((ChannelOp.reliableSend now).act (state.channel r)).writeBack state r := by
  show (stateReliableSend state p c now).mapOut Output.tx = _
  unfold stateReliableSend
  rw [h]
  refine inMode_found fun _ => ?_
  dsimp only
  rcases reliableSend_cases (state.channel r).reliable now with ⟨hs, _⟩ | ⟨ctx', hs, _, _⟩
  · rw [hs]
    show _ = (⟨.queueFull, state.channel r, _⟩ : Ret StateErr ChannelState Output).writeBack state r
    unfold Ret.writeBack
    rw [setChannel_channel]
    rfl
  · rw [hs]
    have h1 := found_setChannel h (withEngine_name (state.channel r) ctx')
    have h2 := found_setChannel h ((withEngine_name (state.channel r) ctx').trans
      (markInflight_name _ (state.channel r).reliable.nextTxSeq))
    have hmark := markInflight_found h1 (state.channel r).reliable.nextTxSeq
    rw [channel_setChannel, setChannel_setChannel] at hmark
    have hpush := enqueueTx_found h2 (state.channel r).reliable.nextTxSeq
    rw [channel_setChannel, setChannel_setChannel] at hpush
    show (⟨.ok, (stateEnqueueTx (stateMarkInflight (state.setChannel r
      ((state.channel r).withEngine ctx')) p c _).st p c _).st, _⟩ : Ret StateErr State Output) = _
    rw [hmark, hpush]
    rfl

theorem reliableOnAck_found (h : findChannelMut state p c = some r) (a : U16) (now : U32) :
    (ChannelOp.reliableOnAck a now).run state p c =
      ((ChannelOp.reliableOnAck a now).act (state.channel r)).writeBack state r := by
  show (stateReliableOnAck state p c a now).mapOut (fun _ => Output.none) = _
  unfold stateReliableOnAck
  rw [h]
  refine inMode_found fun _ => ?_
  dsimp only
  have h1 := found_setChannel h
    (withEngine_name (state.channel r) (reliableOnAck (state.channel r).reliable a now))
  have hclear := clearInflight_found h1 a
  rw [channel_setChannel, setChannel_setChannel] at hclear
  show (⟨.ok, ((stateClearInflight (state.setChannel r ((state.channel r).withEngine _)) p c
    a).st.setChannel r (txRemoveSeq ((stateClearInflight (state.setChannel r
      ((state.channel r).withEngine _)) p c a).st.channel r) a)), _⟩ :
    Ret StateErr State Output) = _
  rw [hclear, channel_setChannel, setChannel_setChannel]
  rfl

theorem reliablePoll_found (h : findChannelMut state p c = some r) (now : U32) :
    (ChannelOp.reliablePoll now).run state p c =
      ((ChannelOp.reliablePoll now).act (state.channel r)).writeBack state r := by
  show (stateReliablePoll state p c now).mapOut Output.tx = _
  unfold stateReliablePoll
  rw [h]
  refine inMode_found fun _ => ?_
  dsimp only
  -- the later scans find the channel the first one found
  have h1 := found_setChannel h
    (withEngine_name (state.channel r) (reliablePoll (state.channel r).reliable now).1)
  generalize reliablePoll (state.channel r).reliable now = polled at h1 ⊢
  obtain ⟨ctx', event, q⟩ := polled
  cases event with
  | retransmit =>
      have hmark := markInflight_found h1 q
      rw [channel_setChannel, setChannel_setChannel] at hmark
      show (⟨.ok, (stateMarkInflight (state.setChannel r ((state.channel r).withEngine ctx')) p c
        q).st, _⟩ : Ret StateErr State Output) = _
      rw [hmark]
      rfl
  | failed =>
      have hclear := clearInflight_found h1 q
      rw [channel_setChannel, setChannel_setChannel] at hclear
      show (⟨.ok, ((stateClearInflight (state.setChannel r ((state.channel r).withEngine ctx')) p c
        q).st.setChannel r (txRemoveSeq ((stateClearInflight (state.setChannel r
          ((state.channel r).withEngine ctx')) p c q).st.channel r) q)), _⟩
            : Ret StateErr State Output) = _
      rw [hclear, channel_setChannel, setChannel_setChannel]
      rfl
  | none => rfl
  | new => rfl

/-- How an arrival ends once its ids are queued. -/
theorem queued_found {queued : Ret StateErr State Unit} {rc : StateErr} {channel : ChannelState}
    (h : queued = ⟨rc, state.setChannel r channel, ()⟩) (got : RxResult) :
    (if queued.rc != .ok then ⟨queued.rc, queued.st, got⟩
      else
        ⟨.ok, queued.st.setChannel r
          { queued.st.channel r with
            expectedRxSeq := (queued.st.channel r).reliable.expectedRxSeq }, got⟩ :
      Ret StateErr State RxResult).mapOut Output.rx =
    (if rc != .ok then ⟨rc, channel, .rx got⟩
      else
        ⟨.ok, { channel with expectedRxSeq := channel.reliable.expectedRxSeq }, .rx got⟩ :
      Ret StateErr ChannelState Output).writeBack state r := by
  subst h
  dsimp only
  rw [channel_setChannel, setChannel_setChannel]
  split <;> rfl

theorem reliableOnData_found (h : findChannelMut state p c = some r) (q : U16) :
    (ChannelOp.reliableOnData q).run state p c =
      ((ChannelOp.reliableOnData q).act (state.channel r)).writeBack state r := by
  show (stateReliableOnData state p c q).mapOut Output.rx = _
  unfold stateReliableOnData
  rw [h]
  refine inMode_found fun _ => ?_
  dsimp only
  have h1 := found_setChannel h
    (withEngine_name (state.channel r) (reliableOnData (state.channel r).reliable q).1)
  have hpush :=
    enqueueDelivered_found (reliableOnData (state.channel r).reliable q).2.deliveredSeq h1
  rw [channel_setChannel, setChannel_setChannel] at hpush
  exact queued_found hpush (reliableOnData (state.channel r).reliable q).2

/-- **An operation on the state is the operation on the record it finds**, written back. -/
theorem ChannelOp.run_eq (h : findChannelMut state p c = some r) (op : ChannelOp) :
    op.run state p c = (op.act (state.channel r)).writeBack state r := by
  -- a call that only reads writes the channel back as it was
  have hsame : ∀ (rc : StateErr) (out : Output), (⟨rc, state, out⟩ : Ret StateErr State Output) =
      (⟨rc, state.channel r, out⟩ : Ret StateErr ChannelState Output).writeBack state r := by
    intro rc out
    unfold Ret.writeBack
    rw [setChannel_channel]
  cases op with
  | nextSequence =>
      unfold ChannelOp.run stateNextSequence
      rw [h]
      rfl
  | getChannelMode =>
      unfold ChannelOp.run stateGetChannelMode
      rw [lookupChannel_found h]
      exact hsame .ok _
  | markInflight q => exact congrArg (Ret.mapOut fun _ => Output.none) (markInflight_found h q)
  | clearInflight q => exact congrArg (Ret.mapOut fun _ => Output.none) (clearInflight_found h q)
  | clearInflightAny =>
      unfold ChannelOp.run stateClearInflightAny
      rw [h]
      rfl
  | enqueueTx q => exact congrArg (Ret.mapOut fun _ => Output.none) (enqueueTx_found h q)
  | enqueueRx q => exact congrArg (Ret.mapOut fun _ => Output.none) (enqueueRx_found h q)
  | setReliableConfig cfg =>
      unfold ChannelOp.run stateSetReliableConfig
      rw [h]
      exact inMode_found fun _ => rfl
  | reliableSend now => exact reliableSend_found h now
  | reliableOnAck a now => exact reliableOnAck_found h a now
  | reliablePoll now => exact reliablePoll_found h now
  | reliableOnData q => exact reliableOnData_found h q
  | reliableGetRttMs =>
      unfold ChannelOp.run stateReliableGetRttMs
      rw [lookupChannel_found h]
      dsimp only
      unfold ChannelOp.act ChannelState.inMode
      split
      · exact hsame .wrongMode _
      · exact hsame .ok _
  | unreliableSend =>
      unfold ChannelOp.run stateUnreliableSend
      rw [h]
      exact inMode_found fun _ => rfl
  | unreliableOnData q =>
      unfold ChannelOp.run stateUnreliableOnData
      rw [h]
      refine inMode_found fun _ => ?_
      dsimp only
      split
      · rfl
      · split <;> rfl
  | prioritySend =>
      unfold ChannelOp.run statePrioritySend
      rw [h]
      exact inMode_found fun _ => rfl
  | priorityOnData q =>
      unfold ChannelOp.run statePriorityOnData
      rw [h]
      refine inMode_found fun _ => ?_
      split
      · rfl
      · exact hsame .ok _
  | getStats =>
      unfold ChannelOp.run stateGetStats
      rw [lookupChannel_found h]
      exact hsame .ok _

end Found

/-- What an operation returns when its channel is not open. Of the three reading operations the
return code also tells a peer index out of range. -/
def ChannelOp.absent (p : U8) : ChannelOp → StateErr × Output
  | .getChannelMode | .reliableGetRttMs | .getStats =>
      (if p.toNat < maxPeers then .notFound else .invalidArg, .none)
  | .nextSequence | .unreliableSend => (.notFound, .seq 0#16)
  | .reliableSend _ | .reliablePoll _ => (.notFound, .tx ⟨.none, 0#16⟩)
  | .reliableOnData _ => (.notFound, .rx ⟨.delivered, [], 0#16⟩)
  | .prioritySend => (.notFound, .sent ⟨0#16, false, 0#16⟩)
  | .priorityOnData _ => (.notFound, .deliver false)
  | _ => (.notFound, .none)

/-- **An operation on a channel that is not open changes nothing.** -/
theorem ChannelOp.run_absent {state : State} {p c : U8} (h : findChannelMut state p c = none)
    (op : ChannelOp) : op.run state p c = ⟨(op.absent p).1, state, (op.absent p).2⟩ := by
  cases op with
  | getChannelMode =>
      unfold ChannelOp.run stateGetChannelMode
      rw [lookupChannel_absent h]
      rfl
  | reliableGetRttMs =>
      unfold ChannelOp.run stateReliableGetRttMs
      rw [lookupChannel_absent h]
      rfl
  | getStats =>
      unfold ChannelOp.run stateGetStats
      rw [lookupChannel_absent h]
      rfl
  | nextSequence => unfold ChannelOp.run stateNextSequence; rw [h]; rfl
  | markInflight q => unfold ChannelOp.run stateMarkInflight; rw [h]; rfl
  | clearInflight q => unfold ChannelOp.run stateClearInflight; rw [h]; rfl
  | clearInflightAny => unfold ChannelOp.run stateClearInflightAny; rw [h]; rfl
  | enqueueTx q => unfold ChannelOp.run stateEnqueueTx; rw [h]; rfl
  | enqueueRx q => unfold ChannelOp.run stateEnqueueRx; rw [h]; rfl
  | setReliableConfig cfg => unfold ChannelOp.run stateSetReliableConfig; rw [h]; rfl
  | reliableSend now => unfold ChannelOp.run stateReliableSend; rw [h]; rfl
  | reliableOnAck a now => unfold ChannelOp.run stateReliableOnAck; rw [h]; rfl
  | reliablePoll now => unfold ChannelOp.run stateReliablePoll; rw [h]; rfl
  | reliableOnData q => unfold ChannelOp.run stateReliableOnData; rw [h]; rfl
  | unreliableSend => unfold ChannelOp.run stateUnreliableSend; rw [h]; rfl
  | unreliableOnData q => unfold ChannelOp.run stateUnreliableOnData; rw [h]; rfl
  | prioritySend => unfold ChannelOp.run statePrioritySend; rw [h]; rfl
  | priorityOnData q => unfold ChannelOp.run statePriorityOnData; rw [h]; rfl

/-- **An operation rewrites the channel it finds**, or finds none and changes nothing. -/
theorem ChannelOp.run_cases (state : State) (p c : U8) (op : ChannelOp) :
    (channelAt state p c = none
        ∧ op.run state p c = ⟨(op.absent p).1, state, (op.absent p).2⟩)
    ∨ ∃ channel state', Rewrites state p c channel (op.act channel).st state'
        ∧ op.run state p c = ⟨(op.act channel).rc, state', (op.act channel).out⟩ := by
  cases h : findChannelMut state p c with
  | none => exact Or.inl ⟨channelAt_eq_none.mpr h, op.run_absent h⟩
  | some r =>
      have hn := op.act_name (state.channel r)
      exact Or.inr ⟨state.channel r, _, ⟨r, h, rfl, hn.inUse, hn.channelId, rfl⟩, op.run_eq h⟩

/-! ## Isolation -/

/-- From `state` to `state'` at most channel `c` of peer `p` has changed. -/
structure OnlyChannel (p c : U8) (state state' : State) : Prop where
  /-- Other peers are as they were. -/
  peers : ∀ i : Fin maxPeers, i.val ≠ p.toNat → state'.peers[i] = state.peers[i]
  /-- So are all fields of the peer itself, but for its channels. -/
  fields : ∀ i : Fin maxPeers,
    state'.peers[i] = { state.peers[i] with channels := state'.peers[i].channels }
  /-- So is every channel slot but the one that is found under the id. -/
  slots : ∀ r : ChannelRef, findChannelMut state p c ≠ some r →
    state'.channel r = state.channel r
  /-- So is what is found under every other id. -/
  others : ∀ c', c' ≠ c → channelAt state' p c' = channelAt state p c'

theorem OnlyChannel.refl (p c : U8) (state : State) : OnlyChannel p c state state :=
  ⟨fun _ _ => rfl, fun _ => rfl, fun _ _ => rfl, fun _ _ => rfl⟩

theorem onlyChannel_setChannel {state : State} {p c : U8} {r : ChannelRef} {channel : ChannelState}
    (h : findChannelMut state p c = some r) (hn : SameName (state.channel r) channel) :
    OnlyChannel p c state (state.setChannel r channel) where
  peers i hi := by
    have hne : r.1 ≠ i := by
      rintro rfl
      exact hi (findChannelMut_eq_some.mp h).1
    unfold State.setChannel State.setPeer
    dsimp only
    rw [put_ne hne]
  fields i := setChannel_peer state r channel i
  slots r' hr' := channel_setChannel_ne fun he => hr' (he ▸ h)
  others c' hc' := by
    rw [channelAt_setChannel h hn.inUse hn.channelId, Function.update_of_ne hc']

theorem ChannelOp.run_onlyChannel (state : State) (p c : U8) (op : ChannelOp) :
    OnlyChannel p c state (op.run state p c).st := by
  cases h : findChannelMut state p c with
  | none =>
      rw [op.run_absent h]
      exact OnlyChannel.refl p c state
  | some r =>
      rw [op.run_eq h]
      exact onlyChannel_setChannel h (op.act_name _)

/-- What an operation returns and leaves in its channel, read off the channel alone. -/
theorem ChannelOp.run_channelAt (state : State) (p c : U8) (op : ChannelOp) :
    (op.run state p c).rc
        = (channelAt state p c).elim (op.absent p).1 (fun channel => (op.act channel).rc)
      ∧ (op.run state p c).out
        = (channelAt state p c).elim (op.absent p).2 (fun channel => (op.act channel).out)
      ∧ channelAt (op.run state p c).st p c
        = (channelAt state p c).map fun channel => (op.act channel).st := by
  rcases op.run_cases state p c with ⟨hno, heq⟩ | ⟨channel, state', hrw, heq⟩
  · rw [heq, hno]
    exact ⟨rfl, rfl, rfl⟩
  · rw [heq, hrw.before]
    refine ⟨rfl, rfl, ?_⟩
    show channelAt state' p c = some (op.act channel).st
    rw [hrw.after, Function.update_self]

/--
**Channels are isolated.** In any state the operations lead to, an operation on
channel `c` of peer `p` changes at most that channel; and in two such states that
agree on it, the operation returns the same code and outputs and leaves the same
channel behind.
-/
theorem channel_isolated (calls calls' : List StateCall) (p c : U8) (op : ChannelOp) :
    OnlyChannel p c (stateAfter calls) (op.run (stateAfter calls) p c).st
    ∧ (channelAt (stateAfter calls) p c = channelAt (stateAfter calls') p c →
        (op.run (stateAfter calls) p c).rc = (op.run (stateAfter calls') p c).rc
        ∧ (op.run (stateAfter calls) p c).out = (op.run (stateAfter calls') p c).out
        ∧ channelAt (op.run (stateAfter calls) p c).st p c
            = channelAt (op.run (stateAfter calls') p c).st p c) := by
  refine ⟨op.run_onlyChannel _ p c, fun h => ?_⟩
  obtain ⟨hrc, hout, hat⟩ := op.run_channelAt (stateAfter calls) p c
  obtain ⟨hrc', hout', hat'⟩ := op.run_channelAt (stateAfter calls') p c
  rw [hrc, hout, hat, hrc', hout', hat', h]
  exact ⟨rfl, rfl, rfl⟩

end Relinow
