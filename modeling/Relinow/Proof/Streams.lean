import Relinow.Proof.Network
import Relinow.Proof.NonReliable
import Relinow.Proof.OnAir

/-!
# The newest wins

PRIORITY commands between two nodes that may do whatever else they like: open
channels, send in all modes, fragment, retransmit, poll. The sender numbers its
commands, and puts each on the air once, in this order, or never. The receiver
keeps the highest id heard, and hands over what is newer.

So, while no more than half the ids are used, what it hands over is a subsequence
of what was sent. A command can be lost, but none is repeated, overtaken by an
older one, or changed.
-/

namespace Relinow

open SlotTable Runs

/-! ## Packets of one channel -/

/-- The DATA packet that a frame is read as, on the channel `c` and in the mode `m`. -/
def readOn (maxPayload : U16) (m c : U8) (frame : List U8) : Option (U16 × List U8) :=
  match decodeHeader frame maxPayload with
  | .error _ => none
  | .ok header =>
      if header.mode = m ∧ header.channelId = c ∧ header.type = typeData then
        some (header.seqId, framePayload frame)
      else none

/-- The DATA packet that a frame is. -/
def packetOn (m c : U8) (frame : List U8) : Option (U16 × List U8) :=
  readOn (BitVec.ofNat 16 maxPayloadLimit) m c frame

/-- The packets put on the air, on one channel and in one mode. -/
def sentOn (m c : U8) (history : List Event) : List (U16 × List U8) :=
  (sentFrames history).filterMap (packetOn m c)

theorem sentOn_append (m c : U8) (history log : List Event) :
    sentOn m c (history ++ log) = sentOn m c history ++ sentOn m c log := by
  unfold sentOn
  rw [sentFrames_append, List.filterMap_append]

/-- A decoded frame is the packet its header says. -/
theorem readOn_decoded {maxPayload : U16} {m c : U8} {frame : List U8} {header : Header}
    (h : decodeHeader frame maxPayload = .ok header) :
    readOn maxPayload m c frame
      = if header.mode = m ∧ header.channelId = c ∧ header.type = typeData then
          some (header.seqId, framePayload frame)
        else none := by
  unfold readOn
  rw [h]

theorem decodeHeader_le {frame : List U8} {maxPayload maxPayload' : U16} {header : Header}
    (h : decodeHeader frame maxPayload = .ok header)
    (hlen : header.payloadLen.toNat ≤ maxPayload'.toNat) :
    decodeHeader frame maxPayload' = .ok header := by
  have hvalid := validateHeader_le (decodeHeader_ok h).2.1 hlen
  unfold decodeHeader at h ⊢
  split at h
  · dsimp only at h ⊢
    split at h
    · exact absurd h (by simp)
    · rename_i hpl
      rw [if_neg hpl]
      split at h
      · obtain rfl := Except.ok.inj h
        rw [hvalid]
      · exact absurd h (by simp)
  · exact absurd h (by simp)

/-- What a node of this repository can read. -/
theorem decoded_limit {frame : List U8} {maxPayload : U16} {header : Header}
    (h : decodeHeader frame maxPayload = .ok header) (hmax : maxPayload.toNat ≤ maxPayloadLimit) :
    decodeHeader frame (BitVec.ofNat 16 maxPayloadLimit) = .ok header := by
  refine decodeHeader_le h ?_
  have hle : ¬ maxPayload < header.payloadLen := by
    intro hlt
    have hv := (decodeHeader_ok h).2.1
    unfold validateHeader at hv
    rw [if_pos hlt] at hv
    split_ifs at hv
  rw [BitVec.lt_def] at hle
  show header.payloadLen.toNat ≤ maxPayloadLimit
  omega

/-- What is of another kind than DATA of this channel and mode is no packet of it. -/
theorem sentOn_eq_nil {m c : U8} {node : Node} {Q : Header → Prop} {log : List Event}
    (h : ∀ e ∈ log, e.Airs node Q) (hmax : node.maxPayload.toNat ≤ maxPayloadLimit)
    (hQ : ∀ header, Q header →
      ¬ (header.mode = m ∧ header.channelId = c ∧ header.type = typeData)) :
    sentOn m c log = [] := by
  refine List.filterMap_eq_nil_iff.mpr fun frame hf => ?_
  obtain ⟨dst, hm⟩ := mem_sentFrames.mp hf
  obtain ⟨-, header, payload, hframe, hsend, hq⟩ := h _ hm
  have hread := hframe.decodes_at
    (show payload.length ≤ (BitVec.ofNat 16 maxPayloadLimit).toNat from hsend.length.trans hmax)
  rw [packetOn, readOn_decoded hread.1, if_neg (hQ header hq)]

/-! ## One PRIORITY channel -/

/-- A PRIORITY channel as its two ends see it: the id of the next command, and the newest id
heard. -/
def Node.stream (node : Node) (c : U8) : Option (U16 × Option U16) :=
  (node.channelAt c).bind fun channel =>
    if channel.mode = modePriority then
      some (channel.nextTxSeq, if channel.hasRxSeq then some channel.expectedRxSeq else none)
    else none

theorem Node.stream_at {node : Node} {c : U8} {channel : ChannelState}
    (hch : node.channelAt c = some channel) (hm : channel.mode = modePriority) :
    node.stream c = some
      (channel.nextTxSeq, if channel.hasRxSeq then some channel.expectedRxSeq else none) := by
  unfold Node.stream
  rw [hch, Option.bind_some, if_pos hm]

/-- **A call that does nothing in PRIORITY mode** leaves every stream alone. -/
theorem stream_spared {w : NodeRun} (htables : TablesOk w.node.state) {a : ApiStep}
    (hopen : ∀ c mode priority, a.call ≠ .openChannel c mode priority)
    (hops : ∀ op, a.call.Performs op → ForOthers modePriority op) (c : U8) :
    (w.step a).node.stream c = w.node.stream c := by
  cases hch : w.node.channelAt c with
  | none =>
      have hnone : (w.step a).node.channelAt c = none :=
        ((call_sameOpen a.radio w.node a.call hopen).opened c).mpr hch
      unfold Node.stream
      rw [hch, hnone]
  | some channel =>
      obtain ⟨channel', hch', hmode, hspared⟩ := channel_step
        (R := fun a b => b.mode = a.mode ∧ (a.mode = modePriority → SameButPriority a b))
        (fun channel => ⟨rfl, fun _ => SameButPriority.refl channel⟩)
        (fun _ _ _ hab hbd => ⟨hbd.1.trans hab.1,
          fun hm => (hab.2 hm).trans (hbd.2 (hab.1.trans hm))⟩)
        (fun _ _ => ⟨rfl, fun _ => rfl⟩) htables
        (fun op hop channel => ⟨(op.act_name channel).mode, fun hm => by
          obtain ⟨m, hopm, hne⟩ := hops op hop
          rw [ChannelOp.act_otherMode hopm fun heq => hne (heq.symm.trans hm)]
          exact SameButPriority.refl channel⟩) hch
      by_cases hm : channel.mode = modePriority
      · rw [Node.stream_at hch hm, Node.stream_at hch' (hmode.trans hm), hspared hm]
      · unfold Node.stream
        rw [hch, hch', Option.bind_some, Option.bind_some, if_neg hm, if_neg (by rwa [hmode])]

/-- **Opening a channel** may start a stream, and does nothing else to it. -/
theorem stream_opened (node : Node) (c₁ mode priority c : U8) :
    (openChannel node c₁ mode priority).2.stream c = node.stream c
    ∨ c₁ = c ∧ node.stream c = none
      ∧ (openChannel node c₁ mode priority).2.stream c = some (0#16, none) := by
  rcases channelAt_opens node c₁ mode priority c with ⟨channel, channel', hch, hch', hsame⟩ |
    ⟨hno, hno'⟩ | ⟨rfl, hno, hch'⟩
  · refine Or.inl ?_
    unfold Node.stream
    rw [hch, hch', hsame]
    rfl
  · refine Or.inl ?_
    unfold Node.stream
    rw [hno, hno']
  · by_cases hp : mode = modePriority
    · refine Or.inr ⟨rfl, ?_, Node.stream_at hch' hp⟩
      unfold Node.stream
      rw [hno]
      rfl
    · refine Or.inl ?_
      unfold Node.stream
      rw [hno, hch', Option.bind_some, if_neg (by exact hp)]
      rfl

/-- **An operation** moves the stream of its own channel, and only if it asks for PRIORITY. -/
theorem stream_performed {node : Node} {c c' m : U8} {op : ChannelOp} (hop : op.mode = some m)
    (h : c' ≠ c ∨ m ≠ modePriority) : (node.performed c' op).stream c = node.stream c := by
  have hrun := congrFun (channelAt_run node.state node.peerIndex c' op) c
  by_cases hcc : c = c'
  · subst hcc
    have hm := h.resolve_left (not_not.mpr rfl)
    rw [Function.update_self] at hrun
    have hch : (node.performed c op).channelAt c
        = (node.channelAt c).map fun channel => (op.act channel).st := hrun
    unfold Node.stream
    rw [hch, Option.bind_map]
    refine congrArg _ (funext fun channel => ?_)
    by_cases hcm : channel.mode = m
    · have hne : ¬ channel.mode = modePriority := fun heq => hm (hcm.symm.trans heq)
      have hne' : ¬ (op.act channel).st.mode = modePriority := by
        rwa [(op.act_name channel).mode]
      rw [Function.comp_apply, if_neg hne, if_neg hne']
    · rw [Function.comp_apply, ChannelOp.act_otherMode hop hcm]
  · rw [Function.update_of_ne hcc] at hrun
    have hch : (node.performed c' op).channelAt c = node.channelAt c := hrun
    unfold Node.stream
    rw [hch]

/-- What a call does to the stream of channel `c`, the packets it puts on the air there, and the
messages it hands over. -/
inductive StreamMove (c : U8) : ApiCall → Option (U16 × Option U16) → Option (U16 × Option U16) →
    List (U16 × List U8) → List (U16 × List U8) → Prop where
  | keep (call : ApiCall) (stream : Option (U16 × Option U16)) :
      StreamMove c call stream stream [] []
  | opens (mode priority : U8) :
      StreamMove c (.openChannel c mode priority) none (some (0#16, none)) [] []
  | command {q : U16} {high : Option U16} {payload : List U8} {sent : List (U16 × List U8)}
      (hsent : sent.Sublist [(q, payload)]) :
      StreamMove c (.sendPriority c payload) (some (q, high)) (some (seqNext q, high)) sent []
  | newer {q q' : U16} {high : Option U16} {src : Mac} {data payload : List U8} {now : U32}
      {handed : List (U16 × List U8)} (hdata : packetOn modePriority c data = some (q', payload))
      (hnew : ∀ h, high = some h → isSeqNewer q' h = true)
      (hhanded : handed.Sublist [(q', payload)]) :
      StreamMove c (.onReceive src data now) (some (q, high)) (some (q, some q')) [] handed

theorem StreamMove.keeps {c : U8} {call : ApiCall} {stream stream' : Option (U16 × Option U16)}
    {sent handed : List (U16 × List U8)} (hstream : stream' = stream) (hsent : sent = [])
    (hhanded : handed = []) : StreamMove c call stream stream' sent handed := by
  rw [hstream, hsent, hhanded]
  exact .keep call stream

theorem priorityOnData_found {state : State} {p c : U8} {channel : ChannelState} (q : U16)
    (hch : Relinow.channelAt state p c = some channel) (hm : channel.mode = modePriority) :
    (statePriorityOnData state p c q).rc = .ok
      ∧ (statePriorityOnData state p c q).out
        = (!channel.hasRxSeq || isSeqNewer q channel.expectedRxSeq) := by
  obtain ⟨r, hr, rfl⟩ := channelAt_eq_some.mp hch
  unfold statePriorityOnData
  rw [hr]
  dsimp only
  rw [if_neg (by rw [hm]; decide)]
  split
  · rename_i h
    exact ⟨rfl, h.symm⟩
  · rename_i h
    exact ⟨rfl, (Bool.not_eq_true _ ▸ h).symm⟩

/-- **A PRIORITY send** takes the next id, and puts out one packet with it or none. -/
theorem streamMove_command (radio : Radio) (node : Node) (c : U8) (payload : List U8)
    (hmax : node.maxPayload.toNat ≤ maxPayloadLimit) :
    StreamMove c (.sendPriority c payload) (node.stream c)
      ((sendPriority radio node c payload).2.node.stream c)
      (sentOn modePriority c (sendPriority radio node c payload).2.log)
      (deliveredOn .priority c (sendPriority radio node c payload).2.log) := by
  have hnone : deliveredOn .priority c (sendPriority radio node c payload).2.log = [] :=
    deliveredOn_eq_nil (call_noMessage radio node (.sendPriority c payload) fun _ _ _ => by simp)
  rw [hnone]
  rcases sendPriority_cases radio node c payload with heq | ⟨channel, hch, hm, hne, hlen, heq⟩
  · rw [heq]
    exact .keep _ _
  · have hat : (node.performed c .prioritySend).channelAt c
        = some (ChannelOp.prioritySend.act channel).st := by
      refine (congrFun (channelAt_run node.state node.peerIndex c .prioritySend) c).trans ?_
      rw [Function.update_self]
      show (node.channelAt c).map _ = _
      rw [hch, Option.map_some]
    rw [heq, sendFrame_node, Node.stream_at hch hm]
    have hact : ChannelOp.prioritySend.act channel = _ := inMode_same hm _ _
    rw [hact] at hat
    have hst : (node.performed c .prioritySend).stream c = _ := Node.stream_at hat hm
    show StreamMove c _ _ ((node.performed c .prioritySend).stream c) _ _
    rw [hst]
    refine .command ?_
    rcases sendFrame_cases radio (Call.start (node.performed c .prioritySend)) modePriority c
      typeData 0#8 channel.nextTxSeq 0#16 payload (by decide) with ⟨e, n, _, hs⟩ |
      ⟨frame, n, hframe, hs⟩ <;> rw [hs]
    · exact List.nil_sublist _
    · have hread := hframe.decodes_at
        (show payload.length ≤ (BitVec.ofNat 16 maxPayloadLimit).toNat from hlen.trans hmax)
      have hpacket : packetOn modePriority c frame = some (channel.nextTxSeq, payload) := by
        rw [packetOn, readOn_decoded hread.1, if_pos ⟨rfl, rfl, rfl⟩, hread.2.1]
        rfl
      show (List.filterMap (packetOn modePriority c) [frame]).Sublist _
      rw [List.filterMap_cons_some hpacket]
      exact List.Sublist.refl _

theorem receivePriority_data {node : Node} {header : Header} {channel : ChannelState}
    (hch : node.channelAt header.channelId = some channel) (hm : channel.mode = modePriority)
    (ht : header.type = typeData) (src : Mac) (payload : List U8) :
    (receivePriority (Call.start node) src header payload).2
      = if (!channel.hasRxSeq || isSeqNewer header.seqId channel.expectedRxSeq) = true then
          raiseMessage
            (Call.start (node.performed header.channelId (.priorityOnData header.seqId)))
            .priority src header.channelId header.seqId payload
        else Call.start (node.performed header.channelId (.priorityOnData header.seqId)) := by
  obtain ⟨hrc, hout⟩ := priorityOnData_found header.seqId hch hm
  change (statePriorityOnData (Call.start node).node.state (Call.start node).node.peerIndex
    header.channelId header.seqId).rc = .ok at hrc
  change (statePriorityOnData (Call.start node).node.state (Call.start node).node.peerIndex
    header.channelId header.seqId).out = _ at hout
  unfold receivePriority
  rw [if_pos (beq_iff_eq.mpr ht)]
  dsimp only
  rw [if_neg (by rw [hrc]; decide), hout]
  split <;> rfl

/-- **DATA on a PRIORITY channel** is taken if it is newer than all that was heard, and changes
nothing if it is not. -/
theorem streamMove_data {node : Node} {header : Header} {channel : ChannelState} {src : Mac}
    {data payload : List U8} (now : U32) (hch : node.channelAt header.channelId = some channel)
    (hm : channel.mode = modePriority) (ht : header.type = typeData)
    (hdata : packetOn modePriority header.channelId data = some (header.seqId, payload)) :
    StreamMove header.channelId (.onReceive src data now) (node.stream header.channelId)
      ((receivePriority (Call.start node) src header payload).2.node.stream header.channelId) []
      (deliveredOn .priority header.channelId
        (receivePriority (Call.start node) src header payload).2.log) := by
  have hat : (node.performed header.channelId (.priorityOnData header.seqId)).channelAt
      header.channelId = some ((ChannelOp.priorityOnData header.seqId).act channel).st := by
    refine (congrFun (channelAt_run node.state node.peerIndex header.channelId
      (.priorityOnData header.seqId)) header.channelId).trans ?_
    rw [Function.update_self]
    show (node.channelAt header.channelId).map _ = _
    rw [hch, Option.map_some]
  have hact : (ChannelOp.priorityOnData header.seqId).act channel = _ := inMode_same hm _ _
  rw [hact] at hat
  rw [Node.stream_at hch hm, receivePriority_data hch hm ht]
  by_cases hnew : (!channel.hasRxSeq || isSeqNewer header.seqId channel.expectedRxSeq) = true
  · rw [if_pos hnew] at hat ⊢
    rw [raiseMessage_node, raiseMessage_log]
    have hst : (Call.start (node.performed header.channelId
      (.priorityOnData header.seqId))).node.stream header.channelId = _ := Node.stream_at hat hm
    rw [hst]
    refine .newer hdata (fun high hhigh => ?_) ?_
    · split at hhigh
      · rename_i hrx
        obtain rfl := Option.some.inj hhigh
        rwa [hrx, Bool.not_true, Bool.false_or] at hnew
      · cases hhigh
    · split
      · show (deliveredOn _ _ [Event.message _ _ _ _ _]).Sublist _
        rw [deliveredOn_message]
      · exact List.nil_sublist _
  · rw [if_neg hnew] at hat ⊢
    exact .keeps (Node.stream_at hat hm) rfl rfl

/-- **A frame moves the stream** if it is a packet of it and newer; else it leaves it alone. -/
theorem streamMove_receive (radio : Radio) {node : Node} (c : U8) (src : Mac) (data : List U8)
    (now : U32) (hmax : node.maxPayload.toNat ≤ maxPayloadLimit)
    (hsent : sentOn modePriority c (onReceive radio node src data now).2.log = []) :
    StreamMove c (.onReceive src data now) (node.stream c)
      ((onReceive radio node src data now).2.node.stream c)
      (sentOn modePriority c (onReceive radio node src data now).2.log)
      (deliveredOn .priority c (onReceive radio node src data now).2.log) := by
  have hfound := judge_found node src data
  have hdelivers := onReceive_deliversAs radio node src data now
  have hchannels := onReceive_channels radio node src data now
  have hstream : ∀ a : Option (U8 × ChannelOp), (node.judge src data).op now = a →
      (∀ b, a = some b → ∃ m, b.2.mode = some m ∧ (b.1 ≠ c ∨ m ≠ modePriority)) →
      (onReceive radio node src data now).2.node.stream c = node.stream c := by
    intro a ha hb
    rw [ha] at hchannels
    cases a with
    | none =>
        unfold Node.stream
        rw [hchannels, Option.elim_none]
    | some b =>
        obtain ⟨m, hm, hne⟩ := hb b rfl
        refine Eq.trans ?_ (stream_performed hm hne)
        unfold Node.stream
        rw [hchannels, Option.elim_some]
  have hkeep : ¬ (node.judge src data).MayDeliver .priority c →
      (onReceive radio node src data now).2.node.stream c = node.stream c →
      StreamMove c (.onReceive src data now) (node.stream c)
        ((onReceive radio node src data now).2.node.stream c)
        (sentOn modePriority c (onReceive radio node src data now).2.log)
        (deliveredOn .priority c (onReceive radio node src data now).2.log) :=
    fun hnot hst => .keeps hst hsent (deliveredOn_others hdelivers hnot)
  cases hj : node.judge src data with
  | short => exact hkeep (by rw [hj]; exact id) (hstream none (by rw [hj]; rfl) (by simp))
  | ignored => exact hkeep (by rw [hj]; exact id) (hstream none (by rw [hj]; rfl) (by simp))
  | heartbeat header =>
      exact hkeep (by rw [hj]; exact id) (hstream none (by rw [hj]; rfl) (by simp))
  | unreliable header =>
      refine hkeep (by rw [hj]; exact fun h => by cases h.1) (hstream _ rfl fun b hb => ?_)
      rw [hj, Received.op] at hb
      split at hb
      · obtain rfl := Option.some.inj hb
        exact ⟨modeUnreliable, rfl, Or.inr (by decide)⟩
      · cases hb
  | ack header =>
      refine hkeep (by rw [hj]; exact id) (hstream _ rfl fun b hb => ?_)
      rw [hj, Received.op] at hb
      obtain rfl := Option.some.inj hb
      exact ⟨modeReliable, rfl, Or.inr (by decide)⟩
  | data header =>
      refine hkeep (by rw [hj]; rintro ⟨h | h, _⟩ <;> cases h) (hstream _ rfl fun b hb => ?_)
      rw [hj, Received.op] at hb
      obtain rfl := Option.some.inj hb
      exact ⟨modeReliable, rfl, Or.inr (by decide)⟩
  | priority header =>
      by_cases hc : header.channelId = c
      · by_cases ht : header.type = typeData
        · -- a packet of this stream
          subst hc
          rw [hj] at hfound
          obtain ⟨channel, hch, hm⟩ := hfound
          have hread : (node.judge src data).header = some header := by rw [hj]; rfl
          obtain ⟨-, hdec⟩ := judge_header hread
          have hpacket : packetOn modePriority header.channelId data = _ :=
            readOn_decoded (decoded_limit hdec hmax)
          have hmode := judge_inMode node src data
          rw [hj] at hmode
          rw [if_pos ⟨hmode, rfl, ht⟩] at hpacket
          rw [hsent, onReceive_judge, hj]
          exact streamMove_data now hch hm ht hpacket
        · -- of another type: nothing is done
          have hstart : (onReceive radio node src data now).2 = Call.start node := by
            rw [onReceive_judge, hj]
            show (receivePriority (Call.start node) src header (framePayload data)).2 = _
            unfold receivePriority
            rw [if_neg (by rwa [beq_iff_eq])]
          rw [hstart]
          exact .keep _ _
      · refine hkeep (by rw [hj]; exact fun h => hc h.2.symm) (hstream _ rfl fun b hb => ?_)
        rw [hj, Received.op] at hb
        split at hb
        · obtain rfl := Option.some.inj hb
          exact ⟨modePriority, rfl, Or.inl hc⟩
        · cases hb

/-- **What any call does to a stream.** -/
theorem stream_step {w : NodeRun} (h : Conforms w)
    (hmax : w.node.maxPayload.toNat ≤ maxPayloadLimit) (a : ApiStep) (c : U8) :
    StreamMove c a.call (w.node.stream c) ((w.step a).node.stream c)
      (sentOn modePriority c (a.call.run a.radio w.node).2.log)
      (deliveredOn .priority c (a.call.run a.radio w.node).2.log) := by
  have hairs := call_airs h.tables h.cached a
  obtain ⟨radio, call⟩ := a
  cases call with
  | openChannel c₁ mode priority =>
      change StreamMove c _ _ ((openChannel w.node c₁ mode priority).2.stream c) [] []
      rcases stream_opened w.node c₁ mode priority c with heq | ⟨rfl, hnone, heq⟩
      · rw [heq]
        exact .keep _ _
      · rw [heq, hnone]
        exact .opens mode priority
  | sendReliable c₁ payload now =>
      refine .keeps (stream_spared h.tables (fun _ _ _ => by simp) ?_ c)
        (sentOn_eq_nil hairs hmax ?_)
        (deliveredOn_eq_nil (call_noMessage radio w.node _ fun _ _ _ => by simp))
      · rintro op ⟨_, rfl⟩
        exact ⟨modeReliable, rfl, by decide⟩
      · rintro header ⟨hm, -, -⟩ ⟨hm', -, -⟩
        exact absurd (hm.symm.trans hm') (by decide)
  | sendUnreliable c₁ payload =>
      refine .keeps (stream_spared h.tables (fun _ _ _ => by simp) ?_ c)
        (sentOn_eq_nil hairs hmax ?_)
        (deliveredOn_eq_nil (call_noMessage radio w.node _ fun _ _ _ => by simp))
      · rintro op rfl
        exact ⟨modeUnreliable, rfl, by decide⟩
      · rintro header ⟨hm, -, -⟩ ⟨hm', -, -⟩
        exact absurd (hm.symm.trans hm') (by decide)
  | sendPriority c₁ payload =>
      by_cases hc : c₁ = c
      · subst hc
        exact streamMove_command radio w.node c₁ payload hmax
      · refine .keeps ?_ (sentOn_eq_nil hairs hmax ?_)
          (deliveredOn_eq_nil (call_noMessage radio w.node _ fun _ _ _ => by simp))
        · show (sendPriority radio w.node c₁ payload).2.node.stream c = _
          rcases sendPriority_cases radio w.node c₁ payload with heq | ⟨_, _, _, _, _, heq⟩ <;>
            rw [heq]
          · rfl
          · rw [sendFrame_node]
            exact stream_performed rfl (Or.inl hc)
        · rintro header ⟨-, hc', -⟩ ⟨-, hc'', -⟩
          exact hc (hc'.symm.trans hc'')
  | onReceive src data now =>
      refine streamMove_receive radio c src data now hmax (sentOn_eq_nil hairs hmax ?_)
      rintro header hans ⟨-, -, ht⟩
      rcases hans with h | h <;> exact absurd (h.symm.trans ht) (by decide)
  | poll now =>
      refine .keeps (stream_spared h.tables (fun _ _ _ => by simp) ?_ c)
        (sentOn_eq_nil hairs hmax ?_)
        (deliveredOn_eq_nil (call_noMessage radio w.node _ fun _ _ _ => by simp))
      · rintro op ⟨_, rfl⟩
        exact ⟨modeReliable, rfl, by decide⟩
      · rintro header hans ⟨hm, -, ht⟩
        rcases hans with ⟨h, -⟩ | h
        · exact absurd (h.symm.trans hm) (by decide)
        · exact absurd (h.symm.trans ht) (by decide)

/-! ## The sender -/

/-- The commands that a call asks for, on channel `c`. -/
def ApiCall.commandsOn (c : U8) : ApiCall → List (List U8)
  | .sendPriority c' payload => if c' = c then [payload] else []
  | _ => []

/-- How many ids are used up. -/
def idsUsed (stream : Option (U16 × Option U16)) : Nat := stream.elim 0 (·.1.toNat)

/-- What has gone out on channel `c`, of the commands the application asked for. -/
structure Commands (c : U8) (payloads : List (List U8)) (w : NodeRun) : Prop where
  used : idsUsed (w.node.stream c) ≤ payloads.length
  below : ∀ p ∈ sentOn modePriority c w.history, p.1.toNat < idsUsed (w.node.stream c)
  rising : (sentOn modePriority c w.history).Pairwise fun a b => a.1.toNat < b.1.toNat
  carried : ((sentOn modePriority c w.history).map (·.2)).Sublist payloads

theorem Commands.keep {c : U8} {payloads : List (List U8)} {w : NodeRun}
    (h : Commands c payloads w) (new : List (List U8)) {w' : NodeRun}
    (hused : idsUsed (w'.node.stream c) = idsUsed (w.node.stream c))
    (hsent : sentOn modePriority c w'.history = sentOn modePriority c w.history) :
    Commands c (payloads ++ new) w' where
  used := by
    rw [hused, List.length_append]
    exact Nat.le_add_right_of_le h.used
  below := by rw [hused, hsent]; exact h.below
  rising := by rw [hsent]; exact h.rising
  carried := by rw [hsent]; exact h.carried.trans (List.sublist_append_left payloads new)

/-- **A step of the sender.** -/
theorem commands_step {c : U8} {payloads : List (List U8)} {w : NodeRun} {a : ApiStep}
    (h : Commands c payloads w) (hc : Conforms w)
    (hmax : w.node.maxPayload.toNat ≤ maxPayloadLimit) (hlen : payloads.length < 2 ^ 16 - 1) :
    Commands c (payloads ++ a.call.commandsOn c) (w.step a) := by
  have hmove := stream_step hc hmax a c
  have hhist : sentOn modePriority c (w.step a).history
      = sentOn modePriority c w.history
        ++ sentOn modePriority c (a.call.run a.radio w.node).2.log :=
    sentOn_append modePriority c w.history _
  generalize sentOn modePriority c (a.call.run a.radio w.node).2.log = sent at hmove hhist
  generalize deliveredOn .priority c (a.call.run a.radio w.node).2.log = handed at hmove
  generalize hcall : a.call = call at hmove
  generalize hst : w.node.stream c = stream at hmove
  generalize hst' : (w.step a).node.stream c = stream' at hmove
  cases hmove with
  | keep => exact h.keep _ (by rw [hst', hst]) (hhist.trans (List.append_nil _))
  | opens => exact h.keep _ (by rw [hst', hst]; rfl) (hhist.trans (List.append_nil _))
  | newer => exact h.keep _ (by rw [hst', hst]; rfl) (hhist.trans (List.append_nil _))
  | @command q high payload sent hsent =>
      -- one more id is used up
      have hq : q.toNat ≤ payloads.length := by
        have := h.used
        rwa [hst] at this
      have hnext : idsUsed ((w.step a).node.stream c) = q.toNat + 1 := by
        rw [hst']
        show (seqNext q).toNat = q.toNat + 1
        unfold seqNext
        rw [BitVec.toNat_add]
        exact Nat.mod_eq_of_lt (by simp; omega)
      have hbelow : ∀ p ∈ sentOn modePriority c w.history, p.1.toNat < q.toNat := by
        have := h.below
        rwa [hst] at this
      have hsentq : ∀ p ∈ sent, p.1 = q := fun p hp => by
        rw [List.mem_singleton.mp (hsent.subset hp)]
      rw [show ApiCall.commandsOn c (.sendPriority c payload) = [payload] from if_pos rfl]
      refine ⟨?_, fun p hp => ?_, ?_, ?_⟩
      · rw [hnext, List.length_append, List.length_singleton]
        omega
      · rw [hnext]
        rw [hhist] at hp
        rcases List.mem_append.mp hp with hp | hp
        · exact Nat.lt_succ_of_lt (hbelow p hp)
        · rw [hsentq p hp]
          exact Nat.lt_succ_self _
      · rw [hhist]
        refine List.pairwise_append.mpr ⟨h.rising, ?_, fun p hp p' hp' => ?_⟩
        · exact List.Pairwise.sublist hsent (List.pairwise_singleton _ _)
        · rw [hsentq p' hp']
          exact hbelow p hp
      · rw [hhist, List.map_append]
        exact h.carried.append (hsent.map Prod.snd)

/-! ## The receiver -/

/-- In the lower half of the ids, newer is larger. -/
theorem isSeqNewer_lower {q h : U16} (hq : q.toNat < 2 ^ 15) (hh : h.toNat < 2 ^ 15) :
    isSeqNewer q h = true ↔ h.toNat < q.toNat := by
  have hof : ∀ a : U16, BitVec.ofInt 16 (a.toNat : Int) = a := fun a => by
    rw [BitVec.ofInt_natCast, BitVec.ofNat_toNat, BitVec.setWidth_eq]
  have hgap : |(q.toNat : Int) - h.toNat| ≤ 32767 := by
    rw [abs_le]
    omega
  have hiff := isSeqNewer_ofInt hgap
  rw [hof, hof] at hiff
  rw [hiff]
  exact Int.ofNat_lt

/-- What has been handed over on channel `c`, of the packets the peer has put on the air. -/
structure Newest (c : U8) (packets : List (U16 × List U8)) (w : NodeRun) : Prop where
  handed : ∀ p ∈ deliveredOn .priority c w.history, p ∈ packets
  rising : (deliveredOn .priority c w.history).Pairwise fun a b => a.1.toNat < b.1.toNat
  below : ∀ p ∈ deliveredOn .priority c w.history,
    ∃ q high, w.node.stream c = some (q, some high) ∧ p.1.toNat ≤ high.toNat
  heard : ∀ q high, w.node.stream c = some (q, some high) → ∃ p ∈ packets, p.1 = high

theorem Newest.mono {c : U8} {packets : List (U16 × List U8)} {w : NodeRun}
    (h : Newest c packets w) (new : List (U16 × List U8)) : Newest c (packets ++ new) w where
  handed p hp := List.mem_append_left new (h.handed p hp)
  rising := h.rising
  below := h.below
  heard q high hst := by
    obtain ⟨p, hp, heq⟩ := h.heard q high hst
    exact ⟨p, List.mem_append_left new hp, heq⟩

theorem Newest.keep {c : U8} {packets : List (U16 × List U8)} {w w' : NodeRun}
    (h : Newest c packets w)
    (hstream : (w'.node.stream c).bind (·.2) = (w.node.stream c).bind (·.2))
    (hhanded : deliveredOn .priority c w'.history = deliveredOn .priority c w.history) :
    Newest c packets w' where
  handed := by rw [hhanded]; exact h.handed
  rising := by rw [hhanded]; exact h.rising
  below p hp := by
    rw [hhanded] at hp
    obtain ⟨q, high, hst, hle⟩ := h.below p hp
    rw [hst] at hstream
    obtain ⟨⟨q', r⟩, hst', hr⟩ := Option.bind_eq_some_iff.mp hstream
    exact ⟨q', high, by rw [hst']; exact congrArg (fun r => some (q', r)) hr, hle⟩
  heard q high hst := by
    rw [hst] at hstream
    obtain ⟨⟨q', r⟩, hst', hr⟩ := Option.bind_eq_some_iff.mp hstream.symm
    exact h.heard q' high (by rw [hst']; exact congrArg (fun r => some (q', r)) hr)

/-- **A step of the receiver.** -/
theorem newest_step {c : U8} {packets : List (U16 × List U8)} {w : NodeRun} {a : ApiStep}
    (h : Newest c packets w) (hc : Conforms w)
    (hmax : w.node.maxPayload.toNat ≤ maxPayloadLimit)
    (hlower : ∀ p ∈ packets, p.1.toNat < 2 ^ 15)
    (hheard : ∀ src data now, a.call = .onReceive src data now →
      ∀ p, packetOn modePriority c data = some p → p ∈ packets) :
    Newest c packets (w.step a) := by
  have hmove := stream_step hc hmax a c
  have hhist : deliveredOn .priority c (w.step a).history
      = deliveredOn .priority c w.history
        ++ deliveredOn .priority c (a.call.run a.radio w.node).2.log :=
    deliveredOn_append .priority c w.history _
  generalize sentOn modePriority c (a.call.run a.radio w.node).2.log = sent at hmove
  generalize deliveredOn .priority c (a.call.run a.radio w.node).2.log = handed at hmove hhist
  generalize hcall : a.call = call at hmove hheard
  generalize hst : w.node.stream c = stream at hmove
  generalize hst' : (w.step a).node.stream c = stream' at hmove
  cases hmove with
  | keep => exact h.keep (by rw [hst', hst]) (hhist.trans (List.append_nil _))
  | opens => exact h.keep (by rw [hst', hst]; rfl) (hhist.trans (List.append_nil _))
  | command => exact h.keep (by rw [hst', hst]; rfl) (hhist.trans (List.append_nil _))
  | @newer q q' high src data payload now handed hdata hnew hhanded =>
      have hp := hheard src data now rfl _ hdata
      -- the id is above all that was handed over
      have habove : ∀ p ∈ deliveredOn .priority c w.history, p.1.toNat < q'.toNat := by
        intro p hpd
        obtain ⟨q₀, high₀, hst₀, hle⟩ := h.below p hpd
        rw [hst] at hst₀
        obtain ⟨rfl, rfl⟩ := Prod.mk.inj (Option.some.inj hst₀)
        obtain ⟨p₀, hp₀, rfl⟩ := h.heard _ _ hst
        exact lt_of_le_of_lt hle
          ((isSeqNewer_lower (hlower _ hp) (hlower _ hp₀)).mp (hnew _ rfl))
      have hq' : ∀ p ∈ handed, p = (q', payload) := fun p hpd =>
        List.mem_singleton.mp (hhanded.subset hpd)
      refine ⟨fun p hpd => ?_, ?_, fun p hpd => ?_, fun q₁ high₁ hst₁ => ?_⟩
      · rw [hhist] at hpd
        rcases List.mem_append.mp hpd with hpd | hpd
        · exact h.handed p hpd
        · rw [hq' p hpd]
          exact hp
      · rw [hhist]
        refine List.pairwise_append.mpr ⟨h.rising, ?_, fun p hpd p' hpd' => ?_⟩
        · exact List.Pairwise.sublist hhanded (List.pairwise_singleton _ _)
        · rw [hq' p' hpd']
          exact habove p hpd
      · refine ⟨q, q', hst', ?_⟩
        rw [hhist] at hpd
        rcases List.mem_append.mp hpd with hpd | hpd
        · exact (habove p hpd).le
        · rw [hq' p hpd]
      · rw [hst'] at hst₁
        obtain ⟨-, hhigh⟩ := Prod.mk.inj (Option.some.inj hst₁)
        exact ⟨_, hp, Option.some.inj hhigh⟩

/-! ## Both ends -/

/-- The commands that the application at `x` asked for on channel `c`, in order. -/
def commandsOf (x : Side) (c : U8) (as : List PairStep) : List (List U8) :=
  as.flatMap fun a => if a.side = x then a.act.call.commandsOn c else []

/-- A stream from `x` to its peer. -/
structure CommandsInv (x : Side) (c : U8) (payloads : List (List U8)) (w : Pair) : Prop where
  conforms : ∀ y, Conforms (w.side y)
  fits : ∀ y, (w.side y).node.maxPayload.toNat ≤ maxPayloadLimit
  sender : Commands c payloads (w.side x)
  receiver : Newest c (sentOn modePriority c (w.side x).history) (w.side x.other)

theorem commandsInv_step {x : Side} {c : U8} {payloads : List (List U8)} {w : Pair} {a : PairStep}
    (h : CommandsInv x c payloads w) (hheard : Heard w a.side a.act.call)
    (hlen : payloads.length ≤ 2 ^ 15) :
    CommandsInv x c (payloads ++ if a.side = x then a.act.call.commandsOn c else [])
      (w.step a) := by
  have hself := w.step_self a
  have hother := w.step_other a
  have hconf : ∀ y, Conforms ((w.step a).side y) := by
    intro y
    rcases Side.eq_or_other y a.side with rfl | rfl
    · rw [hself]
      exact conforms_step _ _ (h.conforms _)
    · rw [hother]
      exact h.conforms _
  have hfits : ∀ y, ((w.step a).side y).node.maxPayload.toNat ≤ maxPayloadLimit := by
    intro y
    rcases Side.eq_or_other y a.side with rfl | rfl
    · rw [hself, (sameConfig_step _ _).maxPayload]
      exact h.fits _
    · rw [hother]
      exact h.fits _
  refine ⟨hconf, hfits, ?_, ?_⟩ <;> rcases Side.eq_or_other x a.side with rfl | rfl
  · rw [if_pos rfl, hself]
    exact commands_step h.sender (h.conforms _) (h.fits _) (by omega)
  · have hne : a.side ≠ a.side.other := by cases a.side <;> decide
    rw [if_neg hne, List.append_nil, hother]
    exact h.sender
  · rw [hself, hother]
    show Newest c (sentOn modePriority c (_ ++ _)) _
    rw [sentOn_append]
    exact h.receiver.mono _
  · -- the receiver hears what is on the air
    have hrecv := h.receiver
    rw [Side.other_other] at hrecv
    rw [Side.other_other, hself, hother]
    refine newest_step hrecv (h.conforms _) (h.fits _) (fun p hp => ?_)
      fun src data now hcall p hp => ?_
    · have := h.sender.below p hp
      have := h.sender.used
      omega
    · rw [hcall] at hheard
      exact List.mem_filterMap.mpr ⟨data, hheard, hp⟩

theorem commandsInv_run {x : Side} {c : U8} (as : List PairStep) :
    ∀ {payloads : List (List U8)} {w : Pair}, CommandsInv x c payloads w →
      Along Pair.step (fun w a => Heard w a.side a.act.call) w as →
      (payloads ++ commandsOf x c as).length ≤ 2 ^ 15 →
      CommandsInv x c (payloads ++ commandsOf x c as) (run Pair.step w as) := by
  induction as with
  | nil =>
      intro payloads w h _ _
      rw [commandsOf, List.flatMap_nil, List.append_nil]
      exact h
  | cons a as ih =>
      intro payloads w h ⟨hheard, halong⟩ hlen
      rw [commandsOf, List.flatMap_cons, ← List.append_assoc] at hlen ⊢
      refine ih (commandsInv_step h hheard ?_) halong hlen
      rw [List.length_append, List.length_append] at hlen
      omega

/-- The streams of a new node are at their start. -/
theorem stream_init {node node' : Node} {cfg : Config} (h : init node cfg = (.ok, node'))
    (c : U8) : node'.stream c = none ∨ node'.stream c = some (0#16, none) := by
  have hall := init_channels
    (I := fun channel => channel.nextTxSeq = 0#16 ∧ channel.hasRxSeq = false) ⟨rfl, rfl⟩
    (fun _ _ _ => ⟨rfl, rfl⟩) (fun _ _ hi => hi) (fun channel cfg hi => ?_) h
  · unfold Node.stream
    cases hch : node'.channelAt c with
    | none => exact Or.inl rfl
    | some channel =>
        obtain ⟨r, -, rfl⟩ := channelAt_eq_some.mp hch
        rw [Option.bind_some]
        split
        · rw [(hall r).1, (hall r).2]
          exact Or.inr rfl
        · exact Or.inl rfl
  · by_cases hm : channel.mode = modeReliable
    · have hact : (ChannelOp.setReliableConfig cfg).act channel = _ := inMode_same hm _ _
      rw [hact]
      exact hi
    · rw [ChannelOp.act_otherMode (m := modeReliable) rfl hm]
      exact hi

theorem commandsInv_init {node₁ node₂ left right : Node} {cfg₁ cfg₂ : Config}
    (hleft : init node₁ cfg₁ = (.ok, left)) (hright : init node₂ cfg₂ = (.ok, right)) (x : Side)
    (c : U8) : CommandsInv x c [] (Pair.start left right) := by
  have hstart : ∀ y, ∃ node cfg node', init node cfg = (.ok, node')
      ∧ (Pair.start left right).side y = ⟨node', []⟩ := by
    intro y
    cases y with
    | left => exact ⟨_, _, _, hleft, rfl⟩
    | right => exact ⟨_, _, _, hright, rfl⟩
  refine ⟨fun y => ?_, fun y => ?_, ?_, ?_⟩
  · obtain ⟨_, _, _, hinit, heq⟩ := hstart y
    rw [heq]
    exact conforms_init hinit
  · obtain ⟨_, _, _, hinit, heq⟩ := hstart y
    rw [heq]
    exact (maxPayload_run hinit []).2
  · obtain ⟨_, _, _, hinit, heq⟩ := hstart x
    rw [heq]
    refine ⟨?_, fun p hp => absurd hp (List.not_mem_nil), List.Pairwise.nil, List.Sublist.refl _⟩
    rcases stream_init hinit c with hst | hst <;> rw [hst] <;> exact Nat.le_refl _
  · obtain ⟨_, _, _, hinit, heq⟩ := hstart x.other
    rw [heq]
    refine ⟨fun p hp => absurd hp (List.not_mem_nil), List.Pairwise.nil,
      fun p hp => absurd hp (List.not_mem_nil), fun q high hst => ?_⟩
    rcases stream_init hinit c with hst' | hst' <;> rw [hst'] at hst <;> cases hst

/-- Both lists rise, and the first has nothing but what the second has. -/
theorem sublist_of_rising {α : Type} {f : α → Nat} {l l' : List α} (hsub : l ⊆ l')
    (hl : l.Pairwise fun a b => f a < f b) (hl' : l'.Pairwise fun a b => f a < f b) :
    l.Sublist l' := by
  have : Std.Antisymm fun a b : α => f a < f b :=
    ⟨fun _ _ hab hba => absurd (lt_trans hab hba) (lt_irrefl _)⟩
  have hnodup : l.Nodup := hl.imp fun hab heq => by
    rw [heq] at hab
    exact lt_irrefl _ hab
  exact List.sublist_of_subperm_of_pairwise (List.subperm_of_subset hnodup hsub) hl hl'

/-- What one end was asked to send, what it put on the air, and what the other end handed over. -/
structure NewestWins (c : U8) (commands : List (List U8)) (sender receiver : List Event) :
    Prop where
  sent : ((sentOn modePriority c sender).map (·.2)).Sublist commands
  handed : (deliveredOn .priority c receiver).Sublist (sentOn modePriority c sender)

/--
**The newest wins.** Two nodes exchange frames over a network that may lose, repeat,
delay and reorder them, while each application calls whatever it likes. On every
channel and in both directions, while no more than half of the ids are used up: the
PRIORITY messages handed over are, ids and contents, a subsequence of the packets put
on the air, and these a subsequence of the commands the sender's application asked
for.
-/
theorem commands_inOrder {node₁ node₂ left right : Node} {cfg₁ cfg₂ : Config}
    (hleft : init node₁ cfg₁ = (.ok, left)) (hright : init node₂ cfg₂ = (.ok, right))
    {as : List PairStep}
    (hheard : Along Pair.step (fun w a => Heard w a.side a.act.call) (Pair.start left right) as)
    (x : Side) (c : U8) (hcount : (commandsOf x c as).length ≤ 2 ^ 15) :
    NewestWins c (commandsOf x c as)
      ((run Pair.step (Pair.start left right) as).side x).history
      ((run Pair.step (Pair.start left right) as).side x.other).history := by
  have h := commandsInv_run as (commandsInv_init hleft hright x c) hheard hcount
  rw [List.nil_append] at h
  exact ⟨h.sender.carried,
    sublist_of_rising h.receiver.handed h.receiver.rising h.sender.rising⟩

def commandNode : Node := (init Node.zero { listenConfig with mode := modePriority }).2

/-- The first of three commands overtakes nothing any more, and the second is lost. -/
def overtaken : List PairStep :=
  let frames := sentFrames (run NodeRun.step ⟨commandNode, []⟩
    ([[1#8], [2#8], [3#8]].map fun payload => ⟨Radio.up, .sendPriority 1#8 payload⟩)).history
  ([[1#8], [2#8], [3#8]].map fun payload =>
      ⟨.left, Radio.up, .sendPriority 1#8 payload⟩)
    ++ [2, 0, 2].map fun i =>
      ⟨.right, Radio.up, .onReceive listenConfig.peerMac (frames.getD i []) 0#32⟩

theorem overtaken_inOrder :
    NewestWins 1#8 (commandsOf .left 1#8 overtaken)
      (run Pair.step (Pair.start commandNode commandNode) overtaken).left.history
      (run Pair.step (Pair.start commandNode commandNode) overtaken).right.history := by
  have hinit : init Node.zero { listenConfig with mode := modePriority } = (.ok, commandNode) :=
    Prod.ext (by decide +kernel) rfl
  exact commands_inOrder hinit hinit (by decide +kernel) .left 1#8 (by decide +kernel)

end Relinow
