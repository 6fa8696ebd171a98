import Relinow.Proof.NodeState

/-!
# No size exceeds its array

The arrays of a node are filled with lengths that come from the wire, from the
caller and from what has been gathered so far. `Bounded` is what keeps them
within the arrays: a cached payload is no longer than the configured maximum, the
message in reassembly no longer than its buffer, the list of tracked fragments no
longer than the pending table. It needs no assumption on what a call is given.

The index the scheduler remembers is a matter of the state layer, and follows
from its writes.
-/

namespace Relinow

open SlotTable Runs

/-- Every length and index a node keeps is one its arrays have room for. -/
structure Bounded (node : Node) : Prop where
  maxPayload_pos : 0 < node.maxPayload.toNat
  maxPayload : node.maxPayload.toNat ≤ maxPayloadLimit
  txCache : ∀ i : Fin maxPending, node.txCache[i].payload.length ≤ node.maxPayload.toNat
  rxCache : ∀ i : Fin rxCacheSize, node.rxCache[i].payload.length ≤ node.maxPayload.toNat
  reassembly : node.reassemblyBuf.length ≤ maxReassembly
  tracked : node.fragmentedTxSeq.length ≤ maxPending
  peerIndex : node.peerIndex.toNat < maxPeers

/-- Every peer's scheduler index is one of its channel table. -/
def PolledInRange (state : State) : Prop :=
  ∀ i : Fin maxPeers, state.peers[i].lastPolledChannelIdx.toNat < maxChannelsPerPeer

/-! ## The scheduler's index -/

theorem polledInRange_init : PolledInRange stateInit := by
  intro i
  unfold stateInit
  rw [get_replicate]
  decide

theorem PolledInRange.setPeer {state : State} (h : PolledInRange state) (i : Fin maxPeers)
    {peer : PeerState} (hp : peer.lastPolledChannelIdx.toNat < maxChannelsPerPeer) :
    PolledInRange (state.setPeer i peer) :=
  forall_put (fun peer : PeerState => peer.lastPolledChannelIdx.toNat < maxChannelsPerPeer) h i hp

theorem PolledInRange.setChannel {state : State} (h : PolledInRange state) (r : ChannelRef)
    (channel : ChannelState) : PolledInRange (state.setChannel r channel) := by
  intro i
  rw [setChannel_peer]
  exact h i

/-- **Every write leaves the index in range**: only the scheduler changes it, to a slot it has
just visited. -/
theorem PolledInRange.write {ops : ChannelOp → Prop} {state state' : State}
    (h : PolledInRange state) (hw : Write ops state state') : PolledInRange state' := by
  cases hw with
  | channel p c r op _ _ => exact h.setChannel r _
  | priority r priority => exact h.setChannel r _
  | fields i peer _ _ _ hl =>
      refine h.setPeer i ?_
      rcases hl with hl | hl
      · rw [hl]
        exact h i
      · exact hl
  | peer i mac _ _ => exact h.setPeer i (Nat.zero_lt_succ _)
  | opened r c mode priority _ _ _ _ _ => exact h.setChannel r _

/-! ## The buffers -/

namespace Bounded

variable {node : Node}

theorem setState (h : Bounded node) (state : State) : Bounded { node with state := state } :=
  ⟨h.maxPayload_pos, h.maxPayload, h.txCache, h.rxCache, h.reassembly, h.tracked, h.peerIndex⟩

theorem quiet (h : Bounded node) {k : Call} (hq : QuietCall node k) : Bounded k.node := by
  rw [hq.node_eq]
  exact h.setState _

theorem setTx (h : Bounded node) (i : Fin maxPending) {slot : TxCache}
    (hs : slot.payload.length ≤ node.maxPayload.toNat) :
    Bounded { node with txCache := node.txCache.put i slot } :=
  { h with
    txCache := forall_put (fun slot : TxCache => slot.payload.length ≤ node.maxPayload.toNat)
      h.txCache i hs }

theorem setRx (h : Bounded node) (i : Fin rxCacheSize) {slot : RxCache}
    (hs : slot.payload.length ≤ node.maxPayload.toNat) :
    Bounded { node with rxCache := node.rxCache.put i slot } :=
  { h with
    rxCache := forall_put (fun slot : RxCache => slot.payload.length ≤ node.maxPayload.toNat)
      h.rxCache i hs }

theorem txRemove (h : Bounded node) (q : U16) : Bounded (txCacheRemove node q) := by
  rcases txCacheRemove_cases node q with ⟨_, heq⟩ | ⟨i, _, _, heq⟩ <;> rw [heq]
  · exact h
  · exact h.setTx i (h.txCache i)

theorem rxRemove (h : Bounded node) (q : U16) : Bounded (rxCacheRemove node q) := by
  unfold rxCacheRemove
  split
  · exact h
  · rename_i i _
    exact h.setRx i (h.rxCache i)

theorem reset (h : Bounded node) : Bounded (reassemblyReset node) :=
  { h with reassembly := Nat.zero_le _ }

/-- The list of tracked fragments is never longer than the pending table. -/
theorem track (h : Bounded node) (q : U16) : Bounded (fragmentTxTrack node q) := by
  unfold fragmentTxTrack
  split
  · rename_i hlt
    refine { h with tracked := ?_ }
    rw [List.length_append, List.length_singleton]
    exact hlt
  · exact h

theorem fragmentAcked (h : Bounded node) (a : U16) : Bounded (fragmentTxOnAck node a) := by
  unfold fragmentTxOnAck
  split
  · exact { h with tracked := le_trans List.length_erase_le h.tracked }
  · exact h

theorem unlock (h : Bounded node) : Bounded (unlockEmpty node) := by
  unfold unlockEmpty
  split
  · exact ⟨h.maxPayload_pos, h.maxPayload, h.txCache, h.rxCache, h.reassembly, h.tracked,
      h.peerIndex⟩
  · exact h

/-! ## Sending -/

theorem transmitNew {k : Call} (h : Bounded k.node) (radio : Radio) (c flags : U8) (track : Bool)
    {payload : List U8} (hlen : payload.length ≤ k.node.maxPayload.toNat) (now : U32) :
    Bounded (transmitNew radio k c flags track payload now).2.node := by
  have hsent := h.setState (stateReliableSend k.node.state k.node.peerIndex c now).st
  unfold Relinow.transmitNew
  dsimp only
  split
  · exact hsent
  · split
    · exact hsent
    · rename_i i _
      rw [sendNew_node]
      split
      · exact (hsent.setTx i hlen).track _
      · exact hsent.setTx i hlen

/-- A fragment is never longer than a payload may be. -/
theorem sendReliable (h : Bounded node) (radio : Radio) (c : U8) (payload : List U8) (now : U32) :
    Bounded (sendReliable radio node c payload now).2.node := by
  refine sendReliable_keeps (P := fun k => Bounded k.node) h { h with tracked := Nat.zero_le _ }
    (fun k hk => hk.unlock) fun k flags track part hk _ hlen => ?_
  exact hk.transmitNew radio c flags track hlen now

/-! ## Receiving -/

theorem store (h : Bounded node) (header : Header) {payload : List U8}
    (hlen : payload.length ≤ node.maxPayload.toNat) :
    Bounded (rxCacheStore node header payload) := by
  unfold rxCacheStore
  split
  · exact h
  · split
    · exact h
    · rename_i i _
      exact h.setRx i hlen

theorem start (h : Bounded node) (q : U16) (now : U32) : Bounded (reassemblyStart node q now) := by
  unfold reassemblyStart
  split
  · exact h
  · exact { h with reassembly := Nat.zero_le _ }

/-- The check before the append is what bounds the buffer. -/
theorem deliverFragment {k : Call} (h : Bounded k.node) (src : Mac) (c : U8) (now : U32)
    (frag : RxCache) : Bounded (deliverFragment k src c now frag).node := by
  have hstart := h.start frag.seqId now
  unfold Relinow.deliverFragment
  dsimp only
  split
  · exact hstart.reset
  · rename_i hfits
    have happ : Bounded { reassemblyStart k.node frag.seqId now with
        reassemblyBuf := (reassemblyStart k.node frag.seqId now).reassemblyBuf ++ frag.payload } :=
      { hstart with reassembly := by rw [List.length_append]; omega }
    split
    · show Bounded (reassemblyReset _)
      rw [raiseMessage_node]
      exact happ.reset
    · exact happ

theorem deliverPlain {k : Call} (h : Bounded k.node) (src : Mac) (c : U8) (frame : RxCache) :
    Bounded (deliverPlain k src c frame).node := by
  unfold Relinow.deliverPlain
  rw [raiseMessage_node]
  split
  · exact h.reset
  · exact h

theorem deliverOne {k : Call} (h : Bounded k.node) (src : Mac) (c : U8) (now : U32) (q : U16) :
    Bounded (deliverOne src c now k q).node := by
  unfold Relinow.deliverOne
  split
  · exact h
  · dsimp only
    refine rxRemove ?_ _
    split
    · exact h.deliverFragment src c now _
    · exact h.deliverPlain src c _

theorem deliverAll (src : Mac) (c : U8) (now : U32) (ds : List U16) :
    ∀ {k : Call}, Bounded k.node → Bounded (ds.foldl (Relinow.deliverOne src c now) k).node := by
  induction ds with
  | nil => exact fun h => h
  | cons d ds ih => exact fun h => ih (h.deliverOne src c now d)

theorem receiveData (h : Bounded node) (radio : Radio) (src : Mac) (header : Header)
    {payload : List U8} (hlen : payload.length ≤ node.maxPayload.toNat) (now : U32) :
    Bounded (receiveData radio (Call.start node) src header payload now).2.node := by
  have hdata := (h.store header hlen).setState (stateReliableOnData
    (rxCacheStore node header payload).state (rxCacheStore node header payload).peerIndex
    header.channelId header.seqId).st
  unfold Relinow.receiveData
  dsimp only
  split
  · exact hdata
  · refine deliverAll src _ now _ ?_
    rw [sendFrame_node]
    exact hdata

theorem receiveAck (h : Bounded node) (header : Header) (now : U32) :
    Bounded (receiveAck (Call.start node) header now).2.node := by
  have hacked := h.setState
    (stateReliableOnAck node.state node.peerIndex header.channelId header.ackId now).st
  unfold Relinow.receiveAck
  dsimp only
  split
  · exact (hacked.txRemove _).fragmentAcked _
  · exact hacked

end Bounded

/-- **The length field of a frame that decodes** is the number of bytes after its header, and is
not above the maximum. -/
theorem decodeHeader_length {frame : List U8} {maxPayload : U16} {header : Header}
    (h : decodeHeader frame maxPayload = .ok header) :
    header.payloadLen.toNat = frame.length - headerSize
      ∧ header.payloadLen.toNat ≤ maxPayload.toNat := by
  obtain ⟨_, hv, hlen⟩ := decodeHeader_ok h
  refine ⟨by rw [← hlen]; exact List.length_drop, ?_⟩
  by_contra hgt
  have hlt : maxPayload < header.payloadLen := by
    rw [BitVec.lt_def]
    omega
  unfold validateHeader at hv
  -- the checks before this one refuse the frame as well
  rw [if_pos hlt] at hv
  revert hv
  split
  · simp
  · split
    · simp
    · split <;> simp

theorem Bounded.onReceive {node : Node} (h : Bounded node) (radio : Radio) (src : Mac)
    (data : List U8) (now : U32) : Bounded (onReceive radio node src data now).2.node := by
  rcases onReceive_cases radio node src data now with
    ⟨header, channel, hacc, ⟨_, heq⟩ | ⟨_, heq⟩⟩ | hq
  · rw [heq]
    exact h.receiveAck header now
  · rw [heq]
    obtain ⟨hlen, hmax⟩ := decodeHeader_length hacc.decoded
    refine h.receiveData radio src header ?_ now
    unfold framePayload
    rw [List.length_drop]
    omega
  · exact h.quiet hq

/-! ## Polling -/

theorem Bounded.pollReassembly {node : Node} (h : Bounded node) (now : U32) :
    Bounded (pollReassembly node now) := by
  rcases pollReassembly_cases node now with heq | ⟨_, heq⟩ <;> rw [heq]
  · exact h
  · exact h.reset

theorem Bounded.poll {node : Node} (h : Bounded node) (radio : Radio) (now : U32) :
    Bounded (poll radio node now).2.node := by
  have hbeat := (h.pollReassembly now).quiet
    (pollHeartbeat_quiet radio (Relinow.pollReassembly node now) now)
  have hnext := hbeat.setState (stateSchedulerNext
    (pollHeartbeat radio (Call.start (Relinow.pollReassembly node now)) now).node.state
    (pollHeartbeat radio (Call.start (Relinow.pollReassembly node now)) now).node.peerIndex now).st
  unfold Relinow.poll
  dsimp only
  split
  · exact hnext
  · rw [pollEvent_node]
    split
    · exact hnext.txRemove _
    · exact hnext

/-! ## Every call, every run -/

/-- **Every call keeps the bounds**, whatever it is given. -/
theorem bounded_step (w : NodeRun) (a : ApiStep) (h : Bounded w.node) :
    Bounded (w.step a).node := by
  obtain ⟨radio, call⟩ := a
  cases call with
  | openChannel c mode priority => exact h.setState _
  | sendReliable c payload now => exact h.sendReliable radio c payload now
  | sendUnreliable c payload => exact h.quiet (sendUnreliable_quiet radio w.node c payload)
  | sendPriority c payload => exact h.quiet (sendPriority_quiet radio w.node c payload)
  | onReceive src data now => exact h.onReceive radio src data now
  | poll now => exact h.poll radio now

theorem bounded_init {node node' : Node} {cfg : Config} (h : init node cfg = (.ok, node')) :
    Bounded node' := by
  obtain ⟨_, _, rfl, hpos, hmax, -⟩ := init_ok h
  refine ⟨hpos, hmax, fun i => ?_, fun i => ?_, Nat.zero_le _, Nat.zero_le _, Nat.zero_lt_succ _⟩
  · rw [configured_txCache]
    exact Nat.zero_le _
  · rw [configured_rxCache]
    exact Nat.zero_le _

/-- **No run of calls breaks the bounds.** -/
theorem bounded_run {node₀ node : Node} {cfg : Config} (hinit : init node₀ cfg = (.ok, node))
    (as : List ApiStep) : Bounded (run NodeRun.step ⟨node, []⟩ as).node :=
  invariant (I := fun w : NodeRun => Bounded w.node) (P := fun _ _ => True)
    (fun w a h _ => bounded_step w a h) (bounded_init hinit)
    (Along.of_forall (fun _ _ => trivial) as _)

theorem polledInRange_run {node₀ node : Node} {cfg : Config}
    (hinit : init node₀ cfg = (.ok, node)) (as : List ApiStep) :
    PolledInRange (run NodeRun.step ⟨node, []⟩ as).node.state :=
  nodeState_induction polledInRange_init (fun _ _ h hw => h.write hw) hinit as

/-! ## The list of delivered ids -/

theorem deliverable_length_le (ctx : ReliableCtx) (q : U16) :
    (deliverable ctx q).length ≤ 1 + maxReorder := by
  unfold deliverable
  split
  · exact Nat.le_add_right 1 maxReorder
  · split
    · have := reorderRun_length_le ctx maxReorder (seqNext q)
      rw [List.length_cons]
      omega
    · exact Nat.zero_le _

/-- An arrival delivers at most itself and what the reorder buffer holds. -/
theorem deliveredSeq_length_le (state : State) (p c : U8) (q : U16) :
    (stateReliableOnData state p c q).out.deliveredSeq.length ≤ 1 + maxReorder := by
  unfold stateReliableOnData
  split
  · exact Nat.zero_le _
  · dsimp only
    split
    · exact Nat.zero_le _
    · split
      all_goals
        show (reliableOnData _ q).2.deliveredSeq.length ≤ _
        rw [reliableOnData_delivered]
        exact deliverable_length_le _ q

end Relinow
