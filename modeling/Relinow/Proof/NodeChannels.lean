import Relinow.Proof.NodeState
import Relinow.Proof.OneChannel
import Relinow.Proof.ReceiveSide

/-!
# The channels of a node

Every operation on a channel asks for one mode, and does nothing to a channel of
another. A call of the API uses operations of one mode, and a frame does at most
one operation, on the channel its header names. So each channel of a node can be
followed on its own, whatever happens on the others.
-/

namespace Relinow

open SlotTable Runs

/-- The channel a node has open under an id. -/
def Node.channelAt (node : Node) (c : U8) : Option ChannelState :=
  Relinow.channelAt node.state node.peerIndex c

theorem Node.reliableAt_eq_some {node : Node} {c : U8} {channel : ChannelState} :
    node.reliableAt c = some channel ↔
      node.channelAt c = some channel ∧ channel.mode = modeReliable :=
  Relinow.reliableAt_eq_some

/-- No channel has the heartbeats' id. -/
theorem TablesOk.channel_notHeartbeat {state : State} (h : TablesOk state) {p c : U8}
    {channel : ChannelState} (hch : Relinow.channelAt state p c = some channel) :
    c ≠ heartbeatChannel := by
  obtain ⟨r, hr, rfl⟩ := channelAt_eq_some.mp hch
  obtain ⟨-, hpeer, -⟩ := findChannelMut_eq_some.mp hr
  obtain ⟨hin, hid⟩ := findChannelMut_found hr
  exact hid ▸ h.named r hpeer hin

/-! ## The mode of an operation -/

/-- The mode a channel must have for the operation to do anything. -/
def ChannelOp.mode : ChannelOp → Option U8
  | .setReliableConfig _ | .reliableSend _ | .reliableOnAck _ _ | .reliablePoll _
  | .reliableOnData _ | .reliableGetRttMs => some modeReliable
  | .unreliableSend | .unreliableOnData _ => some modeUnreliable
  | .prioritySend | .priorityOnData _ => some modePriority
  | _ => none

theorem ChannelOp.act_inMode {op : ChannelOp} {m : U8} (h : op.mode = some m)
    (channel : ChannelState) : ∃ silent r, op.act channel = channel.inMode m silent r := by
  cases op with
  | nextSequence | getChannelMode | markInflight | clearInflight | clearInflightAny | enqueueTx
  | enqueueRx | getStats => cases h
  | setReliableConfig cfg => cases h; exact ⟨_, _, rfl⟩
  | reliableSend now => cases h; exact ⟨_, _, rfl⟩
  | reliableOnAck a now => cases h; exact ⟨_, _, rfl⟩
  | reliablePoll now => cases h; exact ⟨_, _, rfl⟩
  | reliableOnData q => cases h; exact ⟨_, _, rfl⟩
  | reliableGetRttMs => cases h; exact ⟨_, _, rfl⟩
  | unreliableSend => cases h; exact ⟨_, _, rfl⟩
  | unreliableOnData q => cases h; exact ⟨_, _, rfl⟩
  | prioritySend => cases h; exact ⟨_, _, rfl⟩
  | priorityOnData q => cases h; exact ⟨_, _, rfl⟩

theorem ChannelOp.act_otherMode {channel : ChannelState} {op : ChannelOp} {m : U8}
    (h : op.mode = some m) (hne : channel.mode ≠ m) : (op.act channel).st = channel := by
  obtain ⟨silent, r, heq⟩ := op.act_inMode h channel
  rw [heq, inMode_other hne]

/-- The operation asks for a mode, and not for `m`. -/
def ForOthers (m : U8) (op : ChannelOp) : Prop := ∃ m', op.mode = some m' ∧ m' ≠ m

/-- The channel is as it was, but for its priority. -/
def SameButPriority (channel channel' : ChannelState) : Prop :=
  channel' = { channel with priority := channel'.priority }

theorem SameButPriority.refl (channel : ChannelState) : SameButPriority channel channel := rfl

theorem SameButPriority.trans {a b d : ChannelState} (h : SameButPriority a b)
    (h' : SameButPriority b d) : SameButPriority a d := by
  unfold SameButPriority at *
  rw [h', h]

/-- **An operation acts on the channel it names.** -/
theorem channelAt_run (state : State) (p c : U8) (op : ChannelOp) :
    Relinow.channelAt (op.run state p c).st p
      = Function.update (Relinow.channelAt state p) c
          ((Relinow.channelAt state p c).map fun channel => (op.act channel).st) := by
  cases hr : findChannelMut state p c with
  | none =>
      rw [op.run_absent hr, channelAt_eq_none.mpr hr, Option.map_none,
        ← channelAt_eq_none.mpr hr, Function.update_eq_self]
  | some r =>
      rw [op.run_eq hr, channelAt_eq_some.mpr ⟨r, hr, rfl⟩, Option.map_some]
      exact channelAt_setChannel hr (op.act_name _).inUse (op.act_name _).channelId

/-- **Opening a channel** may open one, under its id, and else changes no more than a priority. -/
theorem channelAt_opens (node : Node) (c₁ mode priority c : U8) :
    (∃ channel channel', node.channelAt c = some channel
      ∧ (openChannel node c₁ mode priority).2.channelAt c = some channel'
      ∧ SameButPriority channel channel')
    ∨ node.channelAt c = none ∧ (openChannel node c₁ mode priority).2.channelAt c = none
    ∨ c₁ = c ∧ node.channelAt c = none
      ∧ (openChannel node c₁ mode priority).2.channelAt c
        = some (openedChannel c mode priority) := by
  have hat : (openChannel node c₁ mode priority).2.channelAt c = Relinow.channelAt
      (stateOpenChannel node.state node.peerIndex c₁ mode priority).st node.peerIndex c := rfl
  have hsame : (openChannel node c₁ mode priority).2.channelAt c = node.channelAt c →
      (∃ channel channel', node.channelAt c = some channel
        ∧ (openChannel node c₁ mode priority).2.channelAt c = some channel'
        ∧ SameButPriority channel channel')
      ∨ node.channelAt c = none ∧ (openChannel node c₁ mode priority).2.channelAt c = none
      ∨ c₁ = c ∧ node.channelAt c = none
        ∧ (openChannel node c₁ mode priority).2.channelAt c
          = some (openedChannel c mode priority) := by
    intro heq
    cases hch : node.channelAt c with
    | none => exact Or.inr (Or.inl ⟨rfl, heq.trans hch⟩)
    | some channel => exact Or.inl ⟨channel, channel, rfl, heq.trans hch, SameButPriority.refl _⟩
  rcases stateOpenChannel_places node.state node.peerIndex c₁ mode priority with ⟨_, heq⟩ |
    ⟨r, hr, _, heq⟩ | ⟨⟨i, j⟩, hi, hu, hnew, hfree, hm, hc, heq⟩ <;> rw [heq] at hat
  · exact hsame hat
  · -- only the priority changes
    have hset : Relinow.channelAt
        (node.state.setChannel r { node.state.channel r with priority := priority }) node.peerIndex
          = Function.update (Relinow.channelAt node.state node.peerIndex) c₁
            (some { node.state.channel r with priority := priority }) :=
      channelAt_setChannel hr rfl rfl
    dsimp only at hat
    rw [hset] at hat
    by_cases hcc : c = c₁
    · subst hcc
      rw [Function.update_self] at hat
      exact Or.inl ⟨node.state.channel r, _, channelAt_eq_some.mpr ⟨r, hr, rfl⟩, hat, rfl⟩
    · rw [Function.update_of_ne hcc] at hat
      exact hsame hat
  · have hno : node.channelAt c₁ = none := (channelAt_none_scan hi hu).mpr hnew
    have hopen : Relinow.channelAt
        (node.state.setChannel (i, j) (openedChannel c₁ mode priority)) node.peerIndex
          = Function.update (Relinow.channelAt node.state node.peerIndex) c₁
            (some (openedChannel c₁ mode priority)) :=
      channelAt_open hi hu hno hfree rfl rfl
    dsimp only at hat
    rw [hopen] at hat
    by_cases hcc : c = c₁
    · subst hcc
      rw [Function.update_self] at hat
      exact Or.inr (Or.inr ⟨rfl, hno, hat⟩)
    · rw [Function.update_of_ne hcc] at hat
      exact hsame hat

/-! ## Sending in the other two modes -/

theorem statePrioritySend_found {state : State} {p c : U8} {channel : ChannelState}
    (hch : Relinow.channelAt state p c = some channel) (hm : channel.mode = modePriority) :
    (statePrioritySend state p c).rc = .ok
      ∧ (statePrioritySend state p c).out.seqId = channel.nextTxSeq := by
  obtain ⟨r, hr, rfl⟩ := channelAt_eq_some.mp hch
  unfold statePrioritySend
  rw [hr]
  dsimp only
  rw [if_neg (by rw [hm]; decide)]
  exact ⟨rfl, rfl⟩

theorem stateUnreliableSend_found {state : State} {p c : U8} {channel : ChannelState}
    (hch : Relinow.channelAt state p c = some channel) (hm : channel.mode = modeUnreliable) :
    (stateUnreliableSend state p c).rc = .ok
      ∧ (stateUnreliableSend state p c).out = channel.nextTxSeq := by
  obtain ⟨r, hr, rfl⟩ := channelAt_eq_some.mp hch
  unfold stateUnreliableSend
  rw [hr]
  dsimp only
  rw [if_neg (by rw [hm]; decide)]
  exact ⟨rfl, rfl⟩

/-- The node after an operation of its state layer on channel `c`. -/
def Node.performed (node : Node) (c : U8) (op : ChannelOp) : Node :=
  { node with state := (op.run node.state node.peerIndex c).st }

/-- **A PRIORITY send** is refused, or takes the channel's next id and sends one frame with it. -/
theorem sendPriority_cases (radio : Radio) (node : Node) (c : U8) (payload : List U8) :
    (sendPriority radio node c payload).2 = Call.start node
    ∨ ∃ channel, node.channelAt c = some channel ∧ channel.mode = modePriority ∧ payload ≠ []
      ∧ payload.length ≤ node.maxPayload.toNat
      ∧ sendPriority radio node c payload
        = sendFrame radio (Call.start (node.performed c .prioritySend)) modePriority c typeData
            0#8 channel.nextTxSeq 0#16 payload := by
  unfold sendPriority
  dsimp only
  split
  · exact Or.inl rfl
  · rename_i hlen
    rw [Bool.or_eq_true, not_or, List.isEmpty_iff, decide_eq_true_eq, Nat.not_lt] at hlen
    split
    · exact Or.inl rfl
    · rename_i mode hmode
      obtain ⟨channel, hch, hm⟩ := stateGetChannelMode_ok hmode
      split
      · exact Or.inl rfl
      · rename_i hprio
        rw [Bool.not_eq_true, bne_eq_false_iff_eq] at hprio
        obtain ⟨hrc, hseq⟩ := statePrioritySend_found hch (hm.trans hprio)
        rw [if_neg (by rw [hrc]; decide), hseq]
        exact Or.inr ⟨channel, hch, hm.trans hprio, hlen.1, hlen.2, rfl⟩

/-- **An UNRELIABLE send**, likewise. -/
theorem sendUnreliable_cases (radio : Radio) (node : Node) (c : U8) (payload : List U8) :
    (sendUnreliable radio node c payload).2 = Call.start node
    ∨ ∃ channel, node.channelAt c = some channel ∧ channel.mode = modeUnreliable ∧ payload ≠ []
      ∧ payload.length ≤ node.maxPayload.toNat
      ∧ sendUnreliable radio node c payload
        = sendFrame radio (Call.start (node.performed c .unreliableSend)) modeUnreliable c
            typeData 0#8 channel.nextTxSeq 0#16 payload := by
  unfold sendUnreliable
  dsimp only
  split
  · exact Or.inl rfl
  · rename_i hlen
    rw [Bool.or_eq_true, not_or, List.isEmpty_iff, decide_eq_true_eq, Nat.not_lt] at hlen
    split
    · exact Or.inl rfl
    · rename_i mode hmode
      obtain ⟨channel, hch, hm⟩ := stateGetChannelMode_ok hmode
      split
      · exact Or.inl rfl
      · rename_i hun
        rw [Bool.not_eq_true, bne_eq_false_iff_eq] at hun
        obtain ⟨hrc, hseq⟩ := stateUnreliableSend_found hch (hm.trans hun)
        rw [if_neg (by rw [hrc]; decide), hseq]
        exact Or.inr ⟨channel, hch, hm.trans hun, hlen.1, hlen.2, rfl⟩

/-! ## Receiving -/

/-- The header of a frame that is not dropped unread. -/
def Received.header : Received → Option Header
  | .short | .ignored => none
  | .heartbeat header | .unreliable header | .priority header | .ack header | .data header =>
      some header

/-- **What is not dropped is a frame of the peer**, with the header it decodes to. -/
theorem judge_header {node : Node} {src : Mac} {data : List U8} {header : Header}
    (h : (node.judge src data).header = some header) :
    src = node.peerMac ∧ decodeHeader data node.maxPayload = .ok header := by
  unfold Node.judge at h
  by_cases hlen : data.length < headerSize
  · rw [if_pos hlen] at h
    exact absurd h (by simp [Received.header])
  · by_cases hsrc : src ≠ node.peerMac
    · rw [if_neg hlen, if_pos hsrc] at h
      exact absurd h (by simp [Received.header])
    · rw [if_neg hlen, if_neg hsrc] at h
      refine ⟨not_not.mp hsrc, ?_⟩
      cases hdec : decodeHeader data node.maxPayload with
      | error e =>
          rw [hdec] at h
          exact absurd h (by simp [Received.header])
      | ok decoded =>
          rw [hdec] at h
          refine congrArg Except.ok ?_
          -- every branch that keeps the frame keeps this header
          dsimp only at h
          split at h
          · exact Option.some.inj h
          · split at h
            · exact absurd h (by simp [Received.header])
            · split_ifs at h <;>
                first | exact Option.some.inj h | exact absurd h (by simp [Received.header])

/-- The header has the mode that the frame was judged to have. -/
def Received.InMode : Received → Prop
  | .unreliable header => header.mode = modeUnreliable
  | .priority header => header.mode = modePriority
  | _ => True

theorem judge_inMode (node : Node) (src : Mac) (data : List U8) :
    (node.judge src data).InMode := by
  unfold Node.judge
  by_cases hlen : data.length < headerSize
  · rw [if_pos hlen]
    trivial
  · by_cases hsrc : src ≠ node.peerMac
    · rw [if_neg hlen, if_pos hsrc]
      trivial
    · rw [if_neg hlen, if_neg hsrc]
      cases decodeHeader data node.maxPayload with
      | error e => trivial
      | ok header =>
          dsimp only
          split
          · trivial
          · split
            · trivial
            · split_ifs with hm hu hp
              · trivial
              · exact beq_iff_eq.mp hu
              · exact beq_iff_eq.mp hp
              all_goals trivial

/-- The operation that a frame is, and the channel it is on. -/
def Received.op (now : U32) : Received → Option (U8 × ChannelOp)
  | .unreliable header =>
      if header.type = typeData then some (header.channelId, .unreliableOnData header.seqId)
      else none
  | .priority header =>
      if header.type = typeData then some (header.channelId, .priorityOnData header.seqId)
      else none
  | .ack header => some (header.channelId, .reliableOnAck header.ackId now)
  | .data header => some (header.channelId, .reliableOnData header.seqId)
  | _ => none

theorem channelAt_onPong (state : State) (p : U8) :
    Relinow.channelAt (stateOnPong state p).st p = Relinow.channelAt state p := by
  unfold stateOnPong
  split
  · dsimp only
    split
    · rfl
    · refine congrFun (channelAt_setPeer ?_ ?_) p <;> rfl
  · rfl

/-- **A frame does one operation on the channel it names, or none on any.** -/
theorem onReceive_channels (radio : Radio) (node : Node) (src : Mac) (data : List U8)
    (now : U32) :
    (onReceive radio node src data now).2.node.channelAt
      = ((node.judge src data).op now).elim node.channelAt
          fun a => (node.performed a.1 a.2).channelAt := by
  have hp := (onReceive_sameConfig radio node src data now).peerIndex
  have hcongr : ∀ state : State, (onReceive radio node src data now).2.node.state = state →
      (onReceive radio node src data now).2.node.channelAt
        = Relinow.channelAt state node.peerIndex := by
    intro state hst
    funext c
    unfold Node.channelAt
    rw [hst, hp]
  revert hcongr
  rw [onReceive_judge]
  intro hcongr
  cases hj : node.judge src data with
  | short => rw [hj] at hcongr; exact hcongr node.state rfl
  | ignored => rw [hj] at hcongr; exact hcongr node.state rfl
  | heartbeat header =>
      rw [hj] at hcongr
      refine (hcongr _ (receiveHeartbeat_state radio node header)).trans ?_
      split
      · exact channelAt_onPong node.state node.peerIndex
      · rfl
  | unreliable header =>
      rw [hj] at hcongr
      refine (hcongr _ (receiveUnreliable_state node src header _)).trans ?_
      by_cases ht : header.type = typeData
      · rw [if_pos ht, Received.op, if_pos ht]
        rfl
      · rw [if_neg ht, Received.op, if_neg ht]
        rfl
  | priority header =>
      rw [hj] at hcongr
      refine (hcongr _ (receivePriority_state node src header _)).trans ?_
      by_cases ht : header.type = typeData
      · rw [if_pos ht, Received.op, if_pos ht]
        rfl
      · rw [if_neg ht, Received.op, if_neg ht]
        rfl
  | ack header =>
      rw [hj] at hcongr
      exact hcongr _ (receiveAck_state node header now)
  | data header =>
      rw [hj] at hcongr
      exact hcongr _ (receiveData_state radio node src header _ now)

/-! ## Messages -/

/-- The event hands the application no message. -/
def Event.NoMessage : Event → Prop
  | .message _ _ _ _ _ => False
  | _ => True

theorem Event.Outgoing.noMessage {e : Event} (h : e.Outgoing) : e.NoMessage := by
  cases e with
  | message site src c q payload => exact absurd h id
  | _ => trivial

theorem sendFrame_noMessage {k : Call} (h : ∀ e ∈ k.log, e.NoMessage) (radio : Radio)
    (mode c type flags : U8) (q a : U16) (payload : List U8) :
    ∀ e ∈ (sendFrame radio k mode c type flags q a payload).2.log, e.NoMessage := by
  obtain ⟨sent, hlog, hsent⟩ := sendFrame_log radio k mode c type flags q a payload
  intro e he
  rw [hlog] at he
  rcases List.mem_append.mp he with he | he
  · exact h e he
  · obtain ⟨dst, frame, rfl⟩ := hsent e he
    trivial

theorem transmitNew_noMessage {k : Call} (h : ∀ e ∈ k.log, e.NoMessage) (radio : Radio)
    (c : U8) {flags : U8} (track : Bool) (payload : List U8) (now : U32)
    (hflags : flags.toNat < 16) :
    ∀ e ∈ (transmitNew radio k c flags track payload now).2.log, e.NoMessage := by
  rcases transmitNew_cases radio k c flags track payload now hflags with ⟨heq, _⟩ |
    ⟨_, _, _, _, _, _, _, _, ⟨_, heq⟩ | ⟨_, _, _, _, rest, _, _, heq, hout, _⟩⟩ <;> rw [heq]
  · exact h
  · intro e he
    rcases List.mem_append.mp he with he | he
    · exact h e he
    · rw [List.mem_singleton.mp he]
      trivial
  · intro e he
    rcases List.mem_append.mp he with he | he
    · exact h e he
    · rcases List.mem_cons.mp he with rfl | he
      · trivial
      · rcases hout with ⟨_, _, _, hrest⟩ | ⟨_, _, _, hrest⟩ <;> rw [hrest] at he
        · exact absurd he (by simp)
        · rcases List.mem_cons.mp he with rfl | he
          · trivial
          · rw [List.mem_ite_nil_right, List.mem_singleton] at he
            rw [he.2]
            trivial

/-- The messages that a frame may be. -/
def Received.MayDeliver : Received → Delivery → U8 → Prop
  | .unreliable header, site, c => site = .unreliable ∧ c = header.channelId
  | .priority header, site, c => site = .priority ∧ c = header.channelId
  | .data header, site, c => (site = .plain ∨ site = .reassembled) ∧ c = header.channelId
  | _, _, _ => False

/-- A message is one that `received` may be. -/
def Event.DeliversAs (received : Received) : Event → Prop
  | .message site _ c _ _ => received.MayDeliver site c
  | _ => True

theorem raiseMessage_deliversAs {received : Received} {k : Call} (hlog : k.log = [])
    {site : Delivery} {c : U8} (h : received.MayDeliver site c) (src : Mac) (q : U16)
    (payload : List U8) :
    ∀ e ∈ (raiseMessage k site src c q payload).log, e.DeliversAs received := by
  intro e he
  rw [raiseMessage_log, hlog, List.nil_append, List.mem_ite_nil_right, List.mem_singleton] at he
  rw [he.2]
  exact h

/-- The calls are one, with at most `n` messages of the reliable channel `c` handed over
between. -/
def Hands (src : Mac) (c : U8) (n : Nat) (k k' : Call) : Prop :=
  ∃ messages, k'.log = k.log ++ messages ∧ messages.length ≤ n
    ∧ ∀ e ∈ messages, ∃ site q payload, e = .message site src c q payload
      ∧ (site = .plain ∨ site = .reassembled)

theorem deliverPlain_hands (k : Call) (src : Mac) (c : U8) (frame : RxCache) :
    Hands src c 1 k (deliverPlain k src c frame) := by
  refine ⟨_, deliverPlain_log k src c frame, ?_, fun e he => ?_⟩
  · split <;> simp
  · rw [List.mem_ite_nil_right, List.mem_singleton] at he
    exact ⟨_, _, _, he.2, Or.inl rfl⟩

theorem deliverFragment_hands (k : Call) (src : Mac) (c : U8) (now : U32) (frag : RxCache) :
    Hands src c 1 k (deliverFragment k src c now frag) := by
  have hnone : ∀ node : Node, Hands src c 1 k (k.setNode node) := fun node =>
    ⟨[], (List.append_nil _).symm, Nat.zero_le _, fun e he => absurd he (by simp)⟩
  unfold deliverFragment
  dsimp only
  split
  · exact hnone _
  · split
    · refine ⟨_, raiseMessage_log _ _ _ _ _ _, ?_, fun e he => ?_⟩
      · split <;> simp
      · rw [List.mem_ite_nil_right, List.mem_singleton] at he
        exact ⟨_, _, _, he.2, Or.inr rfl⟩
    · exact hnone _

theorem deliverOne_hands (src : Mac) (c : U8) (now : U32) (k : Call) (q : U16) :
    Hands src c 1 k (deliverOne src c now k q) := by
  rcases deliverOne_cases src c now k q with ⟨_, heq⟩ | ⟨i, _, _, _, ⟨_, heq⟩ | ⟨_, heq⟩⟩ <;>
    rw [heq]
  · exact ⟨[], (List.append_nil _).symm, Nat.zero_le _, fun e he => absurd he (by simp)⟩
  · exact deliverFragment_hands k src c now _
  · exact deliverPlain_hands k src c _

/-- **The delivery loop hands over at most one message for each id**, all of its channel. -/
theorem deliverAll_hands (src : Mac) (c : U8) (now : U32) (ds : List U16) :
    ∀ k : Call, Hands src c ds.length k (ds.foldl (deliverOne src c now) k) := by
  induction ds with
  | nil => exact fun k => ⟨[], (List.append_nil _).symm, Nat.le_refl _,
      fun e he => absurd he (by simp)⟩
  | cons d ds ih =>
      intro k
      obtain ⟨first, hfirst, hlen, hall⟩ := deliverOne_hands src c now k d
      obtain ⟨rest, hrest, hlen', hall'⟩ := ih (deliverOne src c now k d)
      refine ⟨first ++ rest, ?_, ?_, fun e he => ?_⟩
      · rw [List.foldl_cons, hrest, hfirst, List.append_assoc]
      · rw [List.length_append, List.length_cons]
        omega
      · exact (List.mem_append.mp he).elim (hall e) (hall' e)

/-- **What arriving DATA hands over**: nothing if the receive queue has no room for what it
delivers, and otherwise at most as many messages as it delivers ids. -/
theorem receiveData_hands (radio : Radio) {node : Node} (src : Mac) {header : Header}
    (payload : List U8) {channel : ChannelState} (now : U32)
    (hch : node.reliableAt header.channelId = some channel) :
    (receiveData radio (Call.start node) src header payload now).2.log = []
    ∨ HasRoom channel header.seqId ∧ ∃ k, k.log.length ≤ 1 ∧ (∀ e ∈ k.log, e.NoMessage)
      ∧ Hands src header.channelId (deliverable channel.reliable header.seqId).length k
        (receiveData radio (Call.start node) src header payload now).2 := by
  obtain ⟨_, state', _, _, _, ⟨_, heq⟩ | ⟨hroom, _, attempts, answer, hanswer, heq⟩⟩ :=
    receiveData_spec radio src payload now hch <;> rw [heq]
  · exact Or.inl rfl
  · refine Or.inr ⟨hroom, ⟨node.arrived header payload state', attempts, answer⟩, ?_, ?_,
      deliverAll_hands src header.channelId now _ _⟩
    · rcases hanswer with rfl | ⟨frame, rfl, _⟩ <;> simp
    · rcases hanswer with rfl | ⟨frame, rfl, _⟩
      · exact fun e he => absurd he (by simp)
      · exact fun e he => by rw [List.mem_singleton.mp he]; trivial

/-- **What a frame hands over** is a message of the channel it names. -/
theorem onReceive_deliversAs (radio : Radio) (node : Node) (src : Mac) (data : List U8)
    (now : U32) :
    ∀ e ∈ (onReceive radio node src data now).2.log, e.DeliversAs (node.judge src data) := by
  have hfound := judge_found node src data
  have hquiet : ∀ {received : Received} {k : Call}, (∀ e ∈ k.log, e.NoMessage) →
      ∀ e ∈ k.log, e.DeliversAs received := by
    intro received k hk e he
    have := hk e he
    cases e with
    | message site src c q payload => exact absurd this id
    | _ => trivial
  have hstart : ∀ e ∈ (Call.start node).log, e.NoMessage :=
    fun e he => absurd he (by simp [Call.start])
  rw [onReceive_judge]
  cases hj : node.judge src data with
  | short => exact hquiet hstart
  | ignored => exact hquiet hstart
  | heartbeat header =>
      refine hquiet ?_
      show ∀ e ∈ (receiveHeartbeat radio (Call.start node) header).2.log, _
      unfold receiveHeartbeat
      split
      · exact sendFrame_noMessage hstart radio _ _ _ _ _ _ _
      · split <;> exact hstart
  | unreliable header =>
      show ∀ e ∈ (receiveUnreliable (Call.start node) src header (framePayload data)).2.log, _
      unfold receiveUnreliable
      split
      · refine raiseMessage_deliversAs rfl ?_ src _ _
        exact ⟨rfl, rfl⟩
      · exact hquiet hstart
  | priority header =>
      show ∀ e ∈ (receivePriority (Call.start node) src header (framePayload data)).2.log, _
      unfold receivePriority
      split
      · dsimp only
        split
        · exact hquiet (k := (Call.start node).setNode _) hstart
        · split
          · refine raiseMessage_deliversAs rfl ?_ src _ _
            exact ⟨rfl, rfl⟩
          · exact hquiet (k := (Call.start node).setNode _) hstart
      · exact hquiet hstart
  | ack header =>
      rw [hj] at hfound
      obtain ⟨_, channel, hacc⟩ := hfound
      obtain ⟨_, state', _, _, _, hrecv⟩ := receiveAck_spec now hacc.at_channel
      show ∀ e ∈ (receiveAck (Call.start node) header now).2.log, _
      rw [hrecv]
      exact hquiet hstart
  | data header =>
      rw [hj] at hfound
      obtain ⟨_, channel, hacc⟩ := hfound
      show ∀ e ∈ (receiveData radio (Call.start node) src header (framePayload data) now).2.log, _
      rcases receiveData_hands radio src (framePayload data) now hacc.at_channel with hlog |
        ⟨_, k, _, hk, messages, hlog, _, hall⟩ <;> rw [hlog]
      · exact fun e he => absurd he (by simp)
      · intro e he
        rcases List.mem_append.mp he with he | he
        · exact hquiet hk e he
        · obtain ⟨site, q, p, rfl, hsite⟩ := hall e he
          exact ⟨hsite, rfl⟩

/-- **Only what arrives is handed over.** -/
theorem call_noMessage (radio : Radio) (node : Node) (call : ApiCall)
    (h : ∀ src data now, call ≠ .onReceive src data now) :
    ∀ e ∈ (call.run radio node).2.log, e.NoMessage := by
  have hstart : ∀ n : Node, ∀ e ∈ (Call.start n).log, e.NoMessage :=
    fun _ e he => absurd he (by simp [Call.start])
  cases call with
  | openChannel c mode priority => exact fun e he => absurd he (by simp [ApiCall.run, Call.start])
  | sendReliable c payload now =>
      refine sendReliable_keeps (P := fun k => ∀ e ∈ k.log, e.NoMessage) (hstart node)
        (hstart node)
        (fun k hk => hk) fun k flags track part hk hflags _ => ?_
      exact transmitNew_noMessage hk radio c track part now hflags
  | sendUnreliable c payload =>
      show ∀ e ∈ (sendUnreliable radio node c payload).2.log, _
      rcases sendUnreliable_cases radio node c payload with heq | ⟨_, _, _, _, _, heq⟩ <;> rw [heq]
      · exact hstart node
      · exact sendFrame_noMessage (hstart _) radio _ _ _ _ _ _ _
  | sendPriority c payload =>
      show ∀ e ∈ (sendPriority radio node c payload).2.log, _
      rcases sendPriority_cases radio node c payload with heq | ⟨_, _, _, _, _, heq⟩ <;> rw [heq]
      · exact hstart node
      · exact sendFrame_noMessage (hstart _) radio _ _ _ _ _ _ _
  | onReceive src data now => exact absurd rfl (h src data now)
  | poll now =>
      have hbeat : ∀ e ∈ (pollHeartbeat radio (Call.start (pollReassembly node now)) now).log,
          e.NoMessage := by
        unfold pollHeartbeat
        dsimp only
        split
        · exact fun e he => by rw [List.mem_singleton.mp he]; trivial
        · split
          · exact sendFrame_noMessage (k := (Call.start _).setNode _)
              (fun e he => absurd he (by simp [Call.start, Call.setNode])) radio _ _ _ _ _ _ _
          · exact fun e he => absurd he (by simp [Call.start, Call.setNode])
      show ∀ e ∈ (poll radio node now).2.log, _
      unfold poll
      dsimp only
      split
      · exact hbeat
      · rename_i c tx _
        obtain ⟨rest, hlog, hout⟩ := pollEvent_log radio
          ((pollHeartbeat radio (Call.start (pollReassembly node now)) now).setNode _) c tx
        rw [hlog]
        intro e he
        rcases List.mem_append.mp he with he | he
        · exact hbeat e he
        · exact (hout e he).noMessage

/-- No call but one opens a channel. -/
theorem call_sameOpen (radio : Radio) (node : Node) (call : ApiCall)
    (h : ∀ c mode priority, call ≠ .openChannel c mode priority) :
    SameOpen node (call.run radio node).2.node := by
  cases call with
  | openChannel c mode priority => exact absurd rfl (h c mode priority)
  | sendReliable c payload now =>
      refine sendReliable_keeps (P := fun k => SameOpen node k.node) (SameOpen.refl node)
        (SameOpen.of_state rfl rfl) (fun k hk => hk.trans ?_)
        fun k flags track part hk hflags _ => ?_
      · exact SameOpen.of_state (unlockEmpty_state k.node) (unlockEmpty_sameConfig k.node).peerIndex
      · exact hk.trans (transmitNew_sameOpen radio k c flags track part now hflags)
  | sendUnreliable c payload => exact (sendUnreliable_quiet radio node c payload).sameOpen
  | sendPriority c payload => exact (sendPriority_quiet radio node c payload).sameOpen
  | onReceive src data now => exact onReceive_sameOpen radio node src data now
  | poll now => exact poll_sameOpen radio node now

/-! ## Messages of one channel -/

/-- The messages of one channel that one call site handed over. -/
def deliveredOn (site : Delivery) (c : U8) (history : List Event) : List (U16 × List U8) :=
  history.filterMap fun e => match e with
    | .message s _ c' q payload => if s = site ∧ c' = c then some (q, payload) else none
    | _ => none

theorem deliveredOn_append (site : Delivery) (c : U8) (history log : List Event) :
    deliveredOn site c (history ++ log) = deliveredOn site c history ++ deliveredOn site c log :=
  List.filterMap_append

theorem deliveredOn_message (site : Delivery) (src : Mac) (c : U8) (q : U16)
    (payload : List U8) :
    deliveredOn site c [.message site src c q payload] = [(q, payload)] := by
  unfold deliveredOn
  simp

theorem deliveredOn_eq_nil {site : Delivery} {c : U8} {log : List Event}
    (h : ∀ e ∈ log, e.NoMessage) : deliveredOn site c log = [] := by
  refine List.filterMap_eq_nil_iff.mpr fun e he => ?_
  have := h e he
  cases e with
  | message s src c' q payload => exact absurd this id
  | _ => rfl

/-- What is read as something else is no message of this site and channel. -/
theorem deliveredOn_others {site : Delivery} {c : U8} {received : Received} {log : List Event}
    (h : ∀ e ∈ log, e.DeliversAs received) (hnot : ¬ received.MayDeliver site c) :
    deliveredOn site c log = [] := by
  refine List.filterMap_eq_nil_iff.mpr fun e he => ?_
  have hd := h e he
  cases e with
  | message s src c' q payload =>
      refine if_neg fun heq => hnot ?_
      rw [← heq.1, ← heq.2]
      exact hd
  | _ => rfl

/-! ## One channel through one call -/

/-- The operations a call may do. -/
def ApiCall.Performs : ApiCall → ChannelOp → Prop
  | .openChannel _ _ _, _ => False
  | .sendReliable _ _ _, op => ∃ now, op = .reliableSend now
  | .sendUnreliable _ _, op => op = .unreliableSend
  | .sendPriority _ _, op => op = .prioritySend
  | .onReceive _ _ _, op => (∃ a now, op = .reliableOnAck a now)
      ∨ ∃ q, op = .reliableOnData q ∨ op = .unreliableOnData q ∨ op = .priorityOnData q
  | .poll _, op => ∃ now, op = .reliablePoll now

/-- No call configures a channel anew. -/
theorem ApiCall.Performs.nodeOp {call : ApiCall} {op : ChannelOp} (h : call.Performs op) :
    NodeOp op ∧ ∀ cfg, op ≠ .setReliableConfig cfg := by
  cases call with
  | openChannel c mode priority => exact absurd h id
  | sendReliable c payload now =>
      obtain ⟨_, rfl⟩ := h
      exact ⟨trivial, fun _ => by simp⟩
  | sendUnreliable c payload =>
      obtain rfl := h
      exact ⟨trivial, fun _ => by simp⟩
  | sendPriority c payload =>
      obtain rfl := h
      exact ⟨trivial, fun _ => by simp⟩
  | onReceive src data now =>
      rcases h with ⟨_, _, rfl⟩ | ⟨_, rfl | rfl | rfl⟩ <;> exact ⟨trivial, fun _ => by simp⟩
  | poll now =>
      obtain ⟨_, rfl⟩ := h
      exact ⟨trivial, fun _ => by simp⟩

theorem Received.op_performs {received : Received} {now : U32} {c : U8} {op : ChannelOp}
    (h : received.op now = some (c, op)) (src : Mac) (data : List U8) :
    (ApiCall.onReceive src data now).Performs op := by
  cases received with
  | short | ignored | heartbeat header => cases h
  | unreliable header =>
      rw [Received.op] at h
      split at h
      · cases h
        exact Or.inr ⟨_, Or.inr (Or.inl rfl)⟩
      · cases h
  | priority header =>
      rw [Received.op] at h
      split at h
      · cases h
        exact Or.inr ⟨_, Or.inr (Or.inr rfl)⟩
      · cases h
  | ack header =>
      cases h
      exact Or.inl ⟨_, _, rfl⟩
  | data header =>
      cases h
      exact Or.inr ⟨_, Or.inl rfl⟩

/-- The channel after a frame. -/
theorem onReceive_channelAt (radio : Radio) {node : Node} {c : U8} {channel : ChannelState}
    (hch : node.channelAt c = some channel) (src : Mac) (data : List U8) (now : U32) :
    (onReceive radio node src data now).2.node.channelAt c = some channel
    ∨ ∃ op, (node.judge src data).op now = some (c, op)
      ∧ (onReceive radio node src data now).2.node.channelAt c = some (op.act channel).st := by
  have hat := congrFun (onReceive_channels radio node src data now) c
  cases hop : (node.judge src data).op now with
  | none =>
      rw [hop, Option.elim_none] at hat
      exact Or.inl (hat.trans hch)
  | some b =>
      obtain ⟨c', op⟩ := b
      rw [hop, Option.elim_some] at hat
      have hrun : (node.performed c' op).channelAt c
          = Function.update node.channelAt c'
            ((node.channelAt c').map fun channel => (op.act channel).st) c :=
        congrFun (channelAt_run node.state node.peerIndex c' op) c
      rw [hat, hrun]
      by_cases hc : c = c'
      · subst hc
        rw [Function.update_self, hch, Option.map_some]
        exact Or.inr ⟨op, rfl, rfl⟩
      · rw [Function.update_of_ne hc]
        exact Or.inl hch

/-- **A channel follows its own operations**: what each of those a call may do relates, the call
relates. -/
theorem channel_step {R : ChannelState → ChannelState → Prop}
    (hrefl : ∀ channel, R channel channel) (htrans : ∀ a b d, R a b → R b d → R a d)
    (hprio : ∀ (channel : ChannelState) priority, R channel { channel with priority := priority })
    {w : NodeRun} (htables : TablesOk w.node.state) {a : ApiStep}
    (hops : ∀ op, a.call.Performs op → ∀ channel, R channel (op.act channel).st) {c : U8}
    {channel : ChannelState} (hch : w.node.channelAt c = some channel) :
    ∃ channel', (w.step a).node.channelAt c = some channel' ∧ R channel channel' := by
  have hfollow : Writes a.call.Performs w.node.state (w.step a).node.state →
      ∃ channel', (w.step a).node.channelAt c = some channel' ∧ R channel channel' := by
    intro hw
    obtain ⟨channel', hat', hr⟩ := htables.follow hrefl htrans (fun channel op hop =>
      hops op hop channel) hprio hw hch
    refine ⟨channel', ?_, hr⟩
    unfold Node.channelAt
    rwa [(sameConfig_step w a).peerIndex]
  obtain ⟨radio, call⟩ := a
  cases call with
  | openChannel c₁ mode priority =>
      rcases channelAt_opens w.node c₁ mode priority c with ⟨_, channel', hat, hat', hsame⟩ |
        ⟨hno, _⟩ | ⟨_, hno, _⟩
      · rw [hch] at hat
        obtain rfl := Option.some.inj hat
        refine ⟨channel', hat', ?_⟩
        rw [hsame]
        exact hprio channel channel'.priority
      · exact absurd (hno.symm.trans hch) (by simp)
      · exact absurd (hno.symm.trans hch) (by simp)
  | sendReliable c₁ payload now =>
      exact hfollow (sendReliable_performs (fun now => ⟨now, rfl⟩) radio w.node c₁ payload now)
  | sendUnreliable c₁ payload =>
      have hop : (ApiCall.sendUnreliable c₁ payload).Performs .unreliableSend := rfl
      exact hfollow (sendUnreliable_performs hop radio w.node c₁ payload)
  | sendPriority c₁ payload =>
      have hop : (ApiCall.sendPriority c₁ payload).Performs .prioritySend := rfl
      exact hfollow (sendPriority_performs hop radio w.node c₁ payload)
  | onReceive src data now =>
      rcases onReceive_channelAt radio hch src data now with hat' | ⟨op, hop, hat'⟩
      · exact ⟨channel, hat', hrefl channel⟩
      · exact ⟨_, hat', hops op (Received.op_performs hop src data) channel⟩
  | poll now => exact hfollow (poll_performs (fun now => ⟨now, rfl⟩) radio w.node now)

end Relinow
