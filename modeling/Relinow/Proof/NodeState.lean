import Relinow.Proof.NodeRun
import Relinow.Proof.StateTables

/-!
# A node over its state layer

A node touches its state through the operations of the state layer only. So the
state of any node that was initialised successfully has come about by writes of
these operations, whatever calls were made, and everything that holds after every
sequence of operations holds of it.
-/

namespace Relinow

open SlotTable Runs

/-- The operations on channels that a node uses. -/
def NodeOp : ChannelOp → Prop
  | .setReliableConfig _ => True
  | .reliableSend _ => True
  | .reliableOnAck _ _ => True
  | .reliablePoll _ => True
  | .reliableOnData _ => True
  | .unreliableSend => True
  | .unreliableOnData _ => True
  | .prioritySend => True
  | .priorityOnData _ => True
  | _ => False

/-- One operation on a channel that a node uses. -/
theorem nodeOp_writes {state : State} (op : ChannelOp) (hop : NodeOp op) (p c : U8) :
    Writes NodeOp state (op.run state p c).st :=
  op.run_writes hop p c

/-! ## Each call -/

/-- Sending a new packet and reporting it leave the node alone. -/
theorem sendNew_node (radio : Radio) (k : Call) (c flags : U8) (q : U16) (payload : List U8) :
    (if (sendFrame radio k modeReliable c typeData flags q 0#16 payload).1 ≠ .ok then
        (Transmit.radio (sendFrame radio k modeReliable c typeData flags q 0#16 payload).1,
          (sendFrame radio k modeReliable c typeData flags q 0#16 payload).2)
      else (Transmit.done, raiseTxEvent
        (sendFrame radio k modeReliable c typeData flags q 0#16 payload).2 .new q)).2.node
      = k.node := by
  split
  · exact sendFrame_node _ _ _ _ _ _ _ _ _
  · exact (raiseTxEvent_node _ _ _).trans (sendFrame_node _ _ _ _ _ _ _ _ _)

section Calls

variable {ops : ChannelOp → Prop}

theorem transmitNew_writes (hop : ∀ now, ops (.reliableSend now)) (radio : Radio) (k : Call)
    (c flags : U8) (track : Bool) (payload : List U8) (now : U32) :
    Writes ops k.node.state (transmitNew radio k c flags track payload now).2.node.state := by
  have hsend : Writes ops k.node.state
      (stateReliableSend k.node.state k.node.peerIndex c now).st :=
    (ChannelOp.reliableSend now).run_writes (hop now) k.node.peerIndex c
  unfold transmitNew
  dsimp only
  split
  · exact hsend
  · split
    · exact hsend
    · -- what follows touches the caches and the log
      rw [sendNew_node]
      split
      · show Writes ops _ (fragmentTxTrack _ _).state
        rw [fragmentTxTrack_frame]
        exact hsend
      · exact hsend

theorem unlockEmpty_state (node : Node) : (unlockEmpty node).state = node.state := by
  unfold unlockEmpty
  split <;> rfl

/-- Sending reliably takes ids from the engine, and nothing else. -/
theorem sendReliable_performs (hop : ∀ now, ops (.reliableSend now)) (radio : Radio) (node : Node)
    (c : U8) (payload : List U8) (now : U32) :
    Writes ops node.state (sendReliable radio node c payload now).2.node.state := by
  refine sendReliable_keeps (P := fun k => Writes ops node.state k.node.state)
    Relation.ReflTransGen.refl Relation.ReflTransGen.refl (fun k h => ?_)
    fun k flags track part h _ _ => ?_
  · show Writes ops node.state (unlockEmpty k.node).state
    rw [unlockEmpty_state]
    exact h
  · exact h.trans (transmitNew_writes hop radio k c flags track part now)

theorem sendUnreliable_performs (hop : ops .unreliableSend) (radio : Radio) (node : Node) (c : U8)
    (payload : List U8) :
    Writes ops node.state (sendUnreliable radio node c payload).2.node.state := by
  have hsend : Writes ops node.state (stateUnreliableSend node.state node.peerIndex c).st :=
    ChannelOp.unreliableSend.run_writes hop node.peerIndex c
  unfold sendUnreliable
  dsimp only
  split
  · exact Relation.ReflTransGen.refl
  · split
    · exact Relation.ReflTransGen.refl
    · split
      · exact Relation.ReflTransGen.refl
      · split
        · exact hsend
        · rw [sendFrame_node]
          exact hsend

theorem sendPriority_performs (hop : ops .prioritySend) (radio : Radio) (node : Node) (c : U8)
    (payload : List U8) :
    Writes ops node.state (sendPriority radio node c payload).2.node.state := by
  have hsend : Writes ops node.state (statePrioritySend node.state node.peerIndex c).st :=
    ChannelOp.prioritySend.run_writes hop node.peerIndex c
  unfold sendPriority
  dsimp only
  split
  · exact Relation.ReflTransGen.refl
  · split
    · exact Relation.ReflTransGen.refl
    · split
      · exact Relation.ReflTransGen.refl
      · split
        · exact hsend
        · rw [sendFrame_node]
          exact hsend

end Calls

theorem sendReliable_writes (radio : Radio) (node : Node) (c : U8) (payload : List U8)
    (now : U32) :
    Writes NodeOp node.state (sendReliable radio node c payload now).2.node.state :=
  sendReliable_performs (fun _ => trivial) radio node c payload now

theorem receiveData_state (radio : Radio) (node : Node) (src : Mac) (header : Header)
    (payload : List U8) (now : U32) :
    (receiveData radio (Call.start node) src header payload now).2.node.state
      = (stateReliableOnData node.state node.peerIndex header.channelId header.seqId).st := by
  have hstore := rxCacheStore_frame node header payload
  have hdata : (stateReliableOnData (rxCacheStore node header payload).state
      (rxCacheStore node header payload).peerIndex header.channelId header.seqId).st
      = (stateReliableOnData node.state node.peerIndex header.channelId header.seqId).st := by
    rw [hstore]
  unfold receiveData
  dsimp only
  split
  · exact hdata
  · rw [(HandsOver.all _ _ _ _ _).node_eq, sendFrame_node]
    exact hdata

theorem receiveAck_state (node : Node) (header : Header) (now : U32) :
    (receiveAck (Call.start node) header now).2.node.state
      = (stateReliableOnAck node.state node.peerIndex header.channelId header.ackId now).st := by
  unfold receiveAck
  dsimp only
  split
  · show (fragmentTxOnAck (txCacheRemove _ _) _).state = _
    rw [fragmentTxOnAck_frame, txCacheRemove_frame]
    rfl
  · rfl

theorem receiveHeartbeat_state (radio : Radio) (node : Node) (header : Header) :
    (receiveHeartbeat radio (Call.start node) header).2.node.state
      = if header.type = typePong then (stateOnPong node.state node.peerIndex).st
        else node.state := by
  unfold receiveHeartbeat
  by_cases hping : header.type = typePing
  · rw [if_pos (beq_iff_eq.mpr hping), if_neg (by rw [hping]; decide)]
    dsimp only
    rw [sendFrame_node]
    rfl
  · rw [if_neg (by rwa [beq_iff_eq])]
    by_cases hpong : header.type = typePong
    · rw [if_pos (beq_iff_eq.mpr hpong), if_pos hpong]
      rfl
    · rw [if_neg (by rwa [beq_iff_eq]), if_neg hpong]
      rfl

theorem receiveUnreliable_state (node : Node) (src : Mac) (header : Header)
    (payload : List U8) :
    (receiveUnreliable (Call.start node) src header payload).2.node.state
      = if header.type = typeData then
          (stateUnreliableOnData node.state node.peerIndex header.channelId header.seqId).st
        else node.state := by
  unfold receiveUnreliable
  by_cases hdata : header.type = typeData
  · rw [if_pos (beq_iff_eq.mpr hdata), if_pos hdata]
    dsimp only
    rw [raiseMessage_node]
    rfl
  · rw [if_neg (by rwa [beq_iff_eq]), if_neg hdata]
    rfl

theorem receivePriority_state (node : Node) (src : Mac) (header : Header)
    (payload : List U8) :
    (receivePriority (Call.start node) src header payload).2.node.state
      = if header.type = typeData then
          (statePriorityOnData node.state node.peerIndex header.channelId header.seqId).st
        else node.state := by
  unfold receivePriority
  by_cases hdata : header.type = typeData
  · rw [if_pos (beq_iff_eq.mpr hdata), if_pos hdata]
    dsimp only
    split
    · rfl
    · split
      · rw [raiseMessage_node]
        rfl
      · rfl
  · rw [if_neg (by rwa [beq_iff_eq]), if_neg hdata]
    rfl

/-- **A frame is a PONG, or does at most one operation on one channel.** -/
theorem onReceive_state (radio : Radio) (node : Node) (src : Mac) (data : List U8) (now : U32) :
    (∃ header, node.judge src data = .heartbeat header ∧ header.type = typePong
      ∧ (onReceive radio node src data now).2.node.state
        = (stateOnPong node.state node.peerIndex).st)
    ∨ (onReceive radio node src data now).2.node.state = node.state
    ∨ ∃ op c, NodeOp op ∧ (onReceive radio node src data now).2.node.state
        = (op.run node.state node.peerIndex c).st := by
  rw [onReceive_judge]
  cases hj : node.judge src data with
  | short => exact Or.inr (Or.inl rfl)
  | ignored => exact Or.inr (Or.inl rfl)
  | heartbeat header =>
      have hst := receiveHeartbeat_state radio node header
      by_cases hpong : header.type = typePong
      · rw [if_pos hpong] at hst
        exact Or.inl ⟨header, rfl, hpong, hst⟩
      · rw [if_neg hpong] at hst
        exact Or.inr (Or.inl hst)
  | unreliable header =>
      have hst := receiveUnreliable_state node src header (framePayload data)
      split at hst
      · exact Or.inr (Or.inr ⟨.unreliableOnData header.seqId, header.channelId, trivial, hst⟩)
      · exact Or.inr (Or.inl hst)
  | priority header =>
      have hst := receivePriority_state node src header (framePayload data)
      split at hst
      · exact Or.inr (Or.inr ⟨.priorityOnData header.seqId, header.channelId, trivial, hst⟩)
      · exact Or.inr (Or.inl hst)
  | ack header =>
      exact Or.inr (Or.inr ⟨.reliableOnAck header.ackId now, header.channelId, trivial,
        receiveAck_state node header now⟩)
  | data header =>
      exact Or.inr (Or.inr ⟨.reliableOnData header.seqId, header.channelId, trivial,
        receiveData_state radio node src header (framePayload data) now⟩)

theorem onReceive_writes (radio : Radio) (node : Node) (src : Mac) (data : List U8) (now : U32) :
    Writes NodeOp node.state (onReceive radio node src data now).2.node.state := by
  rcases onReceive_state radio node src data now with ⟨_, _, _, hst⟩ | hst | ⟨op, c, hop, hst⟩
  · rw [hst]
    exact onPong_writes node.peerIndex
  · rw [hst]
  · rw [hst]
    exact nodeOp_writes op hop node.peerIndex c

/-- What the scheduler is asked in a poll: the reassembly timeout and the heartbeat come first. -/
theorem poll_schedules (radio : Radio) (node : Node) (now : U32) :
    stateSchedulerNext (pollHeartbeat radio (Call.start (pollReassembly node now)) now).node.state
      (pollHeartbeat radio (Call.start (pollReassembly node now)) now).node.peerIndex now
      = stateSchedulerNext (statePollHeartbeat node.state node.peerIndex now).st node.peerIndex
          now := by
  have hre := pollReassembly_sameConfig node now
  have hst : (pollReassembly node now).state = node.state := by
    rcases pollReassembly_cases node now with h | ⟨_, h⟩ <;> rw [h]
    rfl
  have hbeat := pollHeartbeat_quiet radio (pollReassembly node now) now
  rw [hbeat.sameConfig.peerIndex, pollHeartbeat_state, hre.peerIndex, hst]

/-- **A poll** goes through the heartbeat and the scheduler, in this order. -/
theorem poll_state (radio : Radio) (node : Node) (now : U32) :
    (poll radio node now).2.node.state
      = (stateSchedulerNext (statePollHeartbeat node.state node.peerIndex now).st node.peerIndex
          now).st := by
  have hnext := congrArg Ret.st (poll_schedules radio node now)
  unfold poll
  dsimp only
  split
  · exact hnext
  · rw [pollEvent_node]
    split
    · rw [txCacheRemove_frame]
      exact hnext
    · exact hnext

/-- A poll polls engines, and nothing else. -/
theorem poll_performs {ops : ChannelOp → Prop} (hop : ∀ now, ops (.reliablePoll now))
    (radio : Radio) (node : Node) (now : U32) :
    Writes ops node.state (poll radio node now).2.node.state := by
  rw [poll_state]
  exact (pollHeartbeat_writes node.peerIndex now).trans
    (schedulerNext_writes hop node.peerIndex now)

/-- **Every call writes to the state through its operations.** -/
theorem apiStep_writes (w : NodeRun) (a : ApiStep) :
    Writes NodeOp w.node.state (w.step a).node.state := by
  obtain ⟨radio, call⟩ := a
  cases call with
  | openChannel c mode priority => exact openChannel_writes w.node.peerIndex c mode priority
  | sendReliable c payload now => exact sendReliable_writes radio w.node c payload now
  | sendUnreliable c payload => exact sendUnreliable_performs trivial radio w.node c payload
  | sendPriority c payload => exact sendPriority_performs trivial radio w.node c payload
  | onReceive src data now => exact onReceive_writes radio w.node src data now
  | poll now => exact poll_performs (fun _ => trivial) radio w.node now

/-! ## Whole runs -/

/-- The state that a successful `relinow_init` leaves. -/
def initState (cfg : Config) : State :=
  let added := stateAddPeer stateInit cfg.peerMac
  let opened := stateOpenChannel added.st added.out cfg.channelId cfg.mode 0#8
  let configured :=
    if cfg.mode == modeReliable then
      stateSetReliableConfig opened.st added.out cfg.channelId cfg.reliableCfg
    else ⟨.ok, opened.st, ()⟩
  (stateConfigureHeartbeat configured.st added.out cfg.heartbeatIntervalMs
    cfg.heartbeatMissCountMax).st

theorem init_state {node node' : Node} {cfg : Config} (h : init node cfg = (.ok, node')) :
    node'.state = initState cfg := by
  unfold init at h
  unfold initState
  dsimp only at h ⊢
  split at h
  · exact absurd (Prod.ext_iff.mp h).1 (by simp)
  · split at h
    · exact absurd (Prod.ext_iff.mp h).1 (by simp)
    · split at h
      · exact absurd (Prod.ext_iff.mp h).1 (by simp)
      · revert h
        generalize (if cfg.mode == modeReliable then stateSetReliableConfig _ _ _ _ else _)
          = configured
        intro h
        split at h
        · exact absurd (Prod.ext_iff.mp h).1 (by simp)
        · split at h
          · exact absurd (Prod.ext_iff.mp h).1 (by simp)
          · obtain rfl := (Prod.ext_iff.mp h).2
            rfl

theorem init_performs {ops : ChannelOp → Prop} (hop : ∀ cfg, ops (.setReliableConfig cfg))
    {node node' : Node} {cfg : Config} (h : init node cfg = (.ok, node')) :
    Writes ops stateInit node'.state := by
  have hadd : Writes ops stateInit (stateAddPeer stateInit cfg.peerMac).st := addPeer_writes _
  have hopen := hadd.trans (openChannel_writes (stateAddPeer stateInit cfg.peerMac).out
    cfg.channelId cfg.mode 0#8)
  have hconfig (state : State) (p : U8) :
      Writes ops state (stateSetReliableConfig state p cfg.channelId cfg.reliableCfg).st :=
    (ChannelOp.setReliableConfig cfg.reliableCfg).run_writes (hop _) p cfg.channelId
  rw [init_state h]
  unfold initState
  dsimp only
  split
  · exact (hopen.trans (hconfig _ _)).trans (configureHeartbeat_writes _ _ _)
  · exact hopen.trans (configureHeartbeat_writes _ _ _)

theorem init_writes {node node' : Node} {cfg : Config} (h : init node cfg = (.ok, node')) :
    Writes NodeOp stateInit node'.state :=
  init_performs (fun _ => trivial) h

/-- **The rule for the channels of a new node.** -/
theorem init_channels {I : ChannelState → Prop} (hzero : I ChannelState.zero)
    (hopen : ∀ c mode priority, I (openedChannel c mode priority))
    (hprio : ∀ (channel : ChannelState) priority, I channel →
      I { channel with priority := priority })
    (hconfig : ∀ (channel : ChannelState) cfg, I channel →
      I ((ChannelOp.setReliableConfig cfg).act channel).st)
    {node node' : Node} {cfg : Config} (h : init node cfg = (.ok, node')) (r : ChannelRef) :
    I (node'.state.channel r) := by
  have hw : Writes (fun op => ∃ cfg, op = .setReliableConfig cfg) stateInit node'.state :=
    init_performs (fun cfg => ⟨cfg, rfl⟩) h
  generalize node'.state = state at hw
  induction hw generalizing r with
  | refl =>
      unfold State.channel stateInit PeerState.zero
      dsimp only
      rw [get_replicate, get_replicate]
      exact hzero
  | tail _ hw ih =>
      refine write_channels (fun channel op ⟨cfg, hop⟩ hi => ?_) hprio hzero hopen ih hw r
      rw [hop]
      exact hconfig channel cfg hi

/-- **The rule for nodes**: what every write keeps holds in every state a node reaches. -/
theorem nodeState_induction {I : State → Prop} (h0 : I stateInit)
    (hwrite : ∀ s s', I s → Write NodeOp s s' → I s') {node₀ node : Node} {cfg : Config}
    (hinit : init node₀ cfg = (.ok, node)) (as : List ApiStep) :
    I (run NodeRun.step ⟨node, []⟩ as).node.state := by
  have hall : ∀ s s', I s → Writes NodeOp s s' → I s' := by
    intro s s' hs h
    induction h with
    | refl => exact hs
    | tail _ hw ih => exact hwrite _ _ ih hw
  exact invariant (I := fun w : NodeRun => I w.node.state) (P := fun _ _ => True)
    (fun w a hw _ => hall _ _ hw (apiStep_writes w a)) (hall _ _ h0 (init_writes hinit))
    (Along.of_forall (fun _ _ => trivial) as _)

/-- **A node keeps the configuration it was initialised with.** -/
theorem sameConfig_run (node : Node) (as : List ApiStep) :
    SameConfig node (run NodeRun.step ⟨node, []⟩ as).node :=
  invariant (I := fun w : NodeRun => SameConfig node w.node) (P := fun _ _ => True)
    (fun w a h _ => h.trans (sameConfig_step w a)) (SameConfig.refl node)
    (Along.of_forall (fun _ _ => trivial) as _)

/-- A payload takes between one byte and what a frame holds. -/
theorem maxPayload_run {node₀ node : Node} {cfg : Config} (hinit : init node₀ cfg = (.ok, node))
    (as : List ApiStep) :
    0 < (run NodeRun.step ⟨node, []⟩ as).node.maxPayload.toNat
      ∧ (run NodeRun.step ⟨node, []⟩ as).node.maxPayload.toNat ≤ maxPayloadLimit := by
  rw [(sameConfig_run node as).maxPayload]
  obtain ⟨_, _, rfl, hpos, hmax, -⟩ := init_ok hinit
  exact ⟨hpos, hmax⟩

/-- **The tables of a node are in order.** -/
theorem tablesOk_run {node₀ node : Node} {cfg : Config} (hinit : init node₀ cfg = (.ok, node))
    (as : List ApiStep) : TablesOk (run NodeRun.step ⟨node, []⟩ as).node.state :=
  nodeState_induction tablesOk_init (fun _ _ h hw => (h.write hw).1) hinit as

/-- No reliable channel has the heartbeats' id. -/
theorem TablesOk.notHeartbeat {node : Node} (h : TablesOk node.state) {c : U8}
    {channel : ChannelState} (hch : node.reliableAt c = some channel) : c ≠ heartbeatChannel := by
  obtain ⟨hat, -⟩ := Node.reliableAt_channelAt hch
  obtain ⟨r, hr, rfl⟩ := channelAt_eq_some.mp hat
  obtain ⟨-, hpeer, -⟩ := findChannelMut_eq_some.mp hr
  obtain ⟨hin, hid⟩ := findChannelMut_found hr
  exact hid ▸ h.named r hpeer hin

end Relinow
