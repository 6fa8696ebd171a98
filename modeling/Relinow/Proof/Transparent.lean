import Relinow.Proof.Streams

/-!
# UNRELIABLE adds nothing

An UNRELIABLE channel between two nodes that may do whatever else they like. Each
payload the API takes goes out as one packet, under the next id, and each packet
that arrives is handed over as it is: the channel keeps no order, drops no repeats
and asks for nothing again. So what is handed over is what the link makes of the
packets. A link that only loses frames loses messages and does nothing else to
them, and a perfect link delivers exactly what was sent.
-/

namespace Relinow

open SlotTable Runs

/-! ## Sending -/

/-- A DATA header without flags is valid, in every mode. -/
theorem validate_plainHeader {mode c : U8} {q maxPayload : U16} {payload : List U8}
    (hm : isValidMode mode = true) (hc : c ≠ heartbeatChannel)
    (hlen : payload.length ≤ maxPayload.toNat) :
    validateHeader (frameHeader mode c typeData 0#8 q 0#16 payload) maxPayload = .ok := by
  have hnot : ¬ maxPayload < BitVec.ofNat 16 payload.length := by
    have := maxPayload.isLt
    rw [BitVec.not_lt]
    show (BitVec.ofNat 16 payload.length).toNat ≤ maxPayload.toNat
    rw [BitVec.toNat_ofNat, Nat.mod_eq_of_lt (by omega)]
    exact hlen
  have hcb : (c == heartbeatChannel) = false := by simpa using hc
  unfold validateHeader frameHeader
  simp only [hm, hnot, hcb, if_false, Bool.false_eq_true]
  simp [isValidType, hasFlag, typeData, typePing, typePong, typeAck]

/-- **With the radio up, a payload that fits is one frame on the air.** -/
theorem sendFrame_plain {k : Call} {mode c : U8} (q : U16) {payload : List U8}
    (hm : isValidMode mode = true) (hc : c ≠ heartbeatChannel)
    (hlen : payload.length ≤ k.node.maxPayload.toNat) :
    ∃ frame, FrameOf frame (frameHeader mode c typeData 0#8 q 0#16 payload) payload
      ∧ (sendFrame Radio.up k mode c typeData 0#8 q 0#16 payload).2.log
        = k.log ++ [.sent k.node.peerMac frame] := by
  have hv := validate_plainHeader (q := q) hm hc hlen
  rcases sendFrame_cases Radio.up k mode c typeData 0#8 q 0#16 payload (by decide) with
    ⟨e, n, hne, heq⟩ | ⟨frame, n, hframe, heq⟩
  · refine absurd ?_ hne
    have hrc := congrArg Prod.fst heq
    unfold sendFrame at hrc
    rw [if_neg (Nat.not_lt.mpr hlen)] at hrc
    dsimp only at hrc
    unfold encodeHeader at hrc
    change validateHeader _ _ = _ at hv
    unfold frameHeader at hv
    rw [hv] at hrc
    exact hrc.symm
  · exact ⟨frame, hframe, by rw [heq]⟩

/-- The payloads that a call sends on the UNRELIABLE channel `c`, of those the API takes. -/
def ApiCall.acceptedOn (maxPayload : U16) (c : U8) : ApiCall → List (List U8)
  | .sendUnreliable c' payload =>
      if c' = c ∧ payload ≠ [] ∧ payload.length ≤ maxPayload.toNat then [payload] else []
  | _ => []

/-- The payloads under the ids from 0 on. -/
def numberedUp (payloads : List (List U8)) : List (U16 × List U8) :=
  payloads.mapIdx fun i payload => (BitVec.ofNat 16 i, payload)

theorem numberedUp_append (payloads : List (List U8)) (payload : List U8) :
    numberedUp (payloads ++ [payload])
      = numberedUp payloads ++ [(BitVec.ofNat 16 payloads.length, payload)] := by
  unfold numberedUp
  rw [List.mapIdx_append]
  simp

/-- **An UNRELIABLE send that is taken** takes the next id. -/
theorem sendUnreliable_taken (radio : Radio) {node : Node} {c : U8} {channel : ChannelState}
    (hch : node.channelAt c = some channel) (hm : channel.mode = modeUnreliable)
    {payload : List U8} (hne : payload ≠ []) (hlen : payload.length ≤ node.maxPayload.toNat) :
    sendUnreliable radio node c payload
      = sendFrame radio (Call.start (node.performed c .unreliableSend)) modeUnreliable c typeData
          0#8 channel.nextTxSeq 0#16 payload := by
  have hmode : stateGetChannelMode node.state node.peerIndex c = .ok channel.mode :=
    stateGetChannelMode_channelAt hch
  obtain ⟨hrc, hseq⟩ := stateUnreliableSend_found hch hm
  unfold sendUnreliable
  dsimp only
  rw [if_neg (by simp [hne, hlen]), hmode]
  dsimp only
  rw [if_neg (by rw [hm]; decide), if_neg (by rw [hrc]; decide), hseq]
  rfl

/-- One that is not leaves no trace. -/
theorem sendUnreliable_untaken (radio : Radio) (node : Node) (c : U8) {payload : List U8}
    (h : ¬ (payload ≠ [] ∧ payload.length ≤ node.maxPayload.toNat)) :
    (sendUnreliable radio node c payload).2 = Call.start node := by
  unfold sendUnreliable
  dsimp only
  rw [if_pos ?_]
  by_cases hne : payload = []
  · simp [hne]
  · have hlt : node.maxPayload.toNat < payload.length := by
      by_contra hle
      exact h ⟨hne, Nat.not_lt.mp hle⟩
    simp [hlt]

/-- The channel `c` is open as UNRELIABLE, with `q` as its next id. -/
def Node.NextIs (node : Node) (c : U8) (q : U16) : Prop :=
  ∃ channel, node.channelAt c = some channel ∧ channel.mode = modeUnreliable
    ∧ channel.nextTxSeq = q

/-- Only a send in its mode moves an UNRELIABLE channel on to the next id. -/
theorem act_nextId {op : ChannelOp} {call : ApiCall} (hop : call.Performs op)
    (hsend : op ≠ .unreliableSend) {channel : ChannelState} (hm : channel.mode = modeUnreliable) :
    (op.act channel).st.nextTxSeq = channel.nextTxSeq := by
  have hothers : ∀ m, op.mode = some m → m ≠ modeUnreliable →
      (op.act channel).st.nextTxSeq = channel.nextTxSeq := fun m hopm hne => by
    rw [ChannelOp.act_otherMode hopm fun heq => hne (heq.symm.trans hm)]
  cases op with
  | unreliableSend => exact absurd rfl hsend
  | unreliableOnData q =>
      have hact : (ChannelOp.unreliableOnData q).act channel = _ := inMode_same hm _ _
      rw [hact]
      dsimp only
      split_ifs <;> rfl
  | prioritySend => exact hothers modePriority rfl (by decide)
  | priorityOnData q => exact hothers modePriority rfl (by decide)
  | reliableSend now => exact hothers modeReliable rfl (by decide)
  | reliableOnAck a now => exact hothers modeReliable rfl (by decide)
  | reliablePoll now => exact hothers modeReliable rfl (by decide)
  | reliableOnData q => exact hothers modeReliable rfl (by decide)
  | reliableGetRttMs => exact hothers modeReliable rfl (by decide)
  | setReliableConfig cfg => exact hothers modeReliable rfl (by decide)
  | nextSequence | getChannelMode | markInflight | clearInflight | clearInflightAny | enqueueTx
  | enqueueRx | getStats => exact absurd hop.nodeOp.1 id

theorem nextIs_kept {w : NodeRun} (htables : TablesOk w.node.state) {a : ApiStep}
    (hops : ¬ a.call.Performs .unreliableSend) {c : U8} {q : U16} (h : w.node.NextIs c q) :
    (w.step a).node.NextIs c q := by
  obtain ⟨channel, hch, hm, hq⟩ := h
  obtain ⟨channel', hch', hmode, hnext⟩ := channel_step
    (R := fun a b => b.mode = a.mode ∧ (a.mode = modeUnreliable → b.nextTxSeq = a.nextTxSeq))
    (fun _ => ⟨rfl, fun _ => rfl⟩)
    (fun _ _ _ hab hbd => ⟨hbd.1.trans hab.1,
      fun hm => (hbd.2 (hab.1.trans hm)).trans (hab.2 hm)⟩)
    (fun _ _ => ⟨rfl, fun _ => rfl⟩) htables
    (fun op hop channel => ⟨(op.act_name channel).mode, fun hm =>
      act_nextId hop (fun heq => hops (heq ▸ hop)) hm⟩) hch
  exact ⟨channel', hch', hmode.trans hm, (hnext hm).trans hq⟩

/-- The channel `c` is open as UNRELIABLE, and `payloads` have gone out on it. -/
structure Sent (c : U8) (payloads : List (List U8)) (w : NodeRun) : Prop where
  next : w.node.NextIs c (BitVec.ofNat 16 payloads.length)
  sent : sentOn modeUnreliable c w.history = numberedUp payloads

theorem Sent.keep {c : U8} {payloads : List (List U8)} {w : NodeRun} {a : ApiStep}
    (h : Sent c payloads w)
    (hnext : (w.step a).node.NextIs c (BitVec.ofNat 16 payloads.length))
    (hsent : sentOn modeUnreliable c (a.call.run a.radio w.node).2.log = []) :
    Sent c (payloads ++ []) (w.step a) := by
  rw [List.append_nil]
  refine ⟨hnext, ?_⟩
  show sentOn modeUnreliable c (w.history ++ (a.call.run a.radio w.node).2.log) = _
  rw [sentOn_append, hsent, List.append_nil]
  exact h.sent

/-- **A payload that is taken goes out under the next id.** -/
theorem sent_taken {c : U8} {payloads : List (List U8)} {w : NodeRun} (h : Sent c payloads w)
    (htables : TablesOk w.node.state) (hmax : w.node.maxPayload.toNat ≤ maxPayloadLimit)
    {payload : List U8} (hne : payload ≠ [])
    (hlen : payload.length ≤ w.node.maxPayload.toNat) :
    Sent c (payloads ++ [payload]) (w.step ⟨Radio.up, .sendUnreliable c payload⟩) := by
  obtain ⟨channel, hch, hm, hq⟩ := h.next
  have hsend := sendUnreliable_taken Radio.up hch hm hne hlen
  obtain ⟨frame, hframe, hlog⟩ := @sendFrame_plain
    (Call.start (w.node.performed c .unreliableSend)) modeUnreliable c channel.nextTxSeq payload
    (by decide) (htables.channel_notHeartbeat hch) hlen
  have hread := hframe.decodes_at
    (show payload.length ≤ (BitVec.ofNat 16 maxPayloadLimit).toNat from hlen.trans hmax)
  have hpacket : packetOn modeUnreliable c frame = some (channel.nextTxSeq, payload) := by
    rw [packetOn, readOn_decoded hread.1, if_pos ⟨rfl, rfl, rfl⟩, hread.2.1]
    rfl
  refine ⟨⟨(ChannelOp.unreliableSend.act channel).st, ?_, ?_, ?_⟩, ?_⟩
  · show (sendUnreliable Radio.up w.node c payload).2.node.channelAt c = _
    rw [hsend, sendFrame_node]
    refine (congrFun (channelAt_run w.node.state w.node.peerIndex c .unreliableSend) c).trans ?_
    rw [Function.update_self]
    show (w.node.channelAt c).map _ = _
    rw [hch, Option.map_some]
  · rw [(ChannelOp.unreliableSend.act_name channel).mode]
    exact hm
  · have hact : ChannelOp.unreliableSend.act channel = _ := inMode_same hm _ _
    rw [hact, List.length_append, List.length_singleton]
    show seqNext channel.nextTxSeq = _
    rw [hq, seqNext, BitVec.ofNat_add]
  · show sentOn modeUnreliable c
      (w.history ++ (sendUnreliable Radio.up w.node c payload).2.log) = _
    rw [sentOn_append, hsend, hlog, numberedUp_append, h.sent, ← hq]
    refine congrArg _ ?_
    show List.filterMap (packetOn modeUnreliable c) [frame] = _
    rw [List.filterMap_cons_some hpacket]
    rfl

/-- **A step of the sender.** -/
theorem sent_step {c : U8} {payloads : List (List U8)} {w : NodeRun} {a : ApiStep}
    (h : Sent c payloads w) (hc : Conforms w)
    (hmax : w.node.maxPayload.toNat ≤ maxPayloadLimit) (hup : a.radio = Radio.up) :
    Sent c (payloads ++ a.call.acceptedOn w.node.maxPayload c) (w.step a) := by
  have hairs := call_airs hc.tables hc.cached a
  obtain ⟨radio, call⟩ := a
  dsimp only at hup
  subst hup
  cases call with
  | sendUnreliable c₁ payload =>
      by_cases hcc : c₁ = c
      · subst hcc
        by_cases hok : payload ≠ [] ∧ payload.length ≤ w.node.maxPayload.toNat
        · rw [show (ApiCall.sendUnreliable c₁ payload).acceptedOn w.node.maxPayload c₁
            = [payload] from if_pos ⟨rfl, hok⟩]
          exact sent_taken h hc.tables hmax hok.1 hok.2
        · rw [show (ApiCall.sendUnreliable c₁ payload).acceptedOn w.node.maxPayload c₁ = []
            from if_neg fun hall => hok hall.2]
          have hstart := sendUnreliable_untaken Radio.up w.node c₁ hok
          refine h.keep ?_ ?_
          · show (sendUnreliable Radio.up w.node c₁ payload).2.node.NextIs c₁ _
            rw [hstart]
            exact h.next
          · show sentOn modeUnreliable c₁ (sendUnreliable Radio.up w.node c₁ payload).2.log = _
            rw [hstart]
            rfl
      · rw [show (ApiCall.sendUnreliable c₁ payload).acceptedOn w.node.maxPayload c = []
          from if_neg fun hall => hcc hall.1]
        refine h.keep ?_
          (sentOn_eq_nil hairs hmax fun header hs hd => hcc (hs.2.1.symm.trans hd.2.1))
        show (sendUnreliable Radio.up w.node c₁ payload).2.node.NextIs c _
        rcases sendUnreliable_cases Radio.up w.node c₁ payload with heq | ⟨_, _, _, _, _, heq⟩ <;>
          rw [heq]
        · exact h.next
        · rw [sendFrame_node]
          obtain ⟨channel, hch, hm, hq⟩ := h.next
          refine ⟨channel, ?_, hm, hq⟩
          refine (congrFun (channelAt_run w.node.state w.node.peerIndex c₁ .unreliableSend)
            c).trans ?_
          rw [Function.update_of_ne (Ne.symm hcc)]
          exact hch
  | openChannel c₁ mode priority =>
      exact h.keep (nextIs_kept hc.tables id h.next) (sentOn_eq_nil hairs hmax fun _ hs => hs.elim)
  | sendReliable c₁ payload now =>
      refine h.keep (nextIs_kept hc.tables (fun hop => ?_) h.next)
        (sentOn_eq_nil hairs hmax fun header hs hd => ?_)
      · obtain ⟨_, heq⟩ := hop
        cases heq
      · exact absurd (hs.1.symm.trans hd.1) (by decide)
  | sendPriority c₁ payload =>
      refine h.keep (nextIs_kept hc.tables (fun hop => ?_) h.next)
        (sentOn_eq_nil hairs hmax fun header hs hd => ?_)
      · cases hop
      · exact absurd (hs.1.symm.trans hd.1) (by decide)
  | onReceive src data now =>
      refine h.keep (nextIs_kept hc.tables (fun hop => ?_) h.next)
        (sentOn_eq_nil hairs hmax fun header hs hd => ?_)
      · rcases hop with ⟨_, _, heq⟩ | ⟨_, heq | heq | heq⟩ <;> cases heq
      · rcases hs with ht | ht <;> exact absurd (ht.symm.trans hd.2.2) (by decide)
  | poll now =>
      refine h.keep (nextIs_kept hc.tables (fun hop => ?_) h.next)
        (sentOn_eq_nil hairs hmax fun header hs hd => ?_)
      · obtain ⟨_, heq⟩ := hop
        cases heq
      · rcases hs with ⟨hm, -⟩ | ht
        · exact absurd (hm.symm.trans hd.1) (by decide)
        · exact absurd (ht.symm.trans hd.2.2) (by decide)

/-! ## Receiving -/

/-- What the peer sent, of what a call is given. -/
def ApiCall.arrivedFrom (peer : Mac) : ApiCall → List (List U8)
  | .onReceive src data _ => if src = peer then [data] else []
  | _ => []

/-- DATA on a channel that is open as UNRELIABLE is judged so. -/
theorem judge_unreliable {node : Node} {data : List U8} {header : Header}
    {channel : ChannelState} (hdec : decodeHeader data node.maxPayload = .ok header)
    (hc : header.channelId ≠ heartbeatChannel)
    (hch : node.channelAt header.channelId = some channel)
    (hm : channel.mode = modeUnreliable) (hmode : header.mode = modeUnreliable) :
    node.judge node.peerMac data = .unreliable header := by
  have hlen : ¬ data.length < headerSize := by
    intro hshort
    unfold decodeHeader at hdec
    split at hdec
    · simp [headerSize] at hshort
      omega
    · cases hdec
  have hget : stateGetChannelMode node.state node.peerIndex header.channelId
      = .ok modeUnreliable := hm ▸ stateGetChannelMode_channelAt hch
  unfold Node.judge
  rw [if_neg hlen, if_neg (not_not.mpr rfl), hdec]
  dsimp only
  rw [if_neg (by rwa [beq_iff_eq]), hget]
  dsimp only
  rw [hmode]
  rfl

/-- **DATA on an UNRELIABLE channel** is handed over, as it is. -/
theorem onReceive_data (radio : Radio) {node : Node} {src : Mac} {data : List U8}
    {header : Header} (hj : node.judge src data = .unreliable header)
    (ht : header.type = typeData) (hmsg : node.onMessage = true) (now : U32) :
    deliveredOn .unreliable header.channelId (onReceive radio node src data now).2.log
      = [(header.seqId, framePayload data)] := by
  rw [onReceive_judge, hj]
  show deliveredOn .unreliable header.channelId
    (receiveUnreliable (Call.start node) src header (framePayload data)).2.log = _
  unfold receiveUnreliable
  rw [if_pos (beq_iff_eq.mpr ht)]
  unfold raiseMessage
  show deliveredOn .unreliable header.channelId (if node.onMessage = true then _ else _ : Call).log
    = _
  rw [if_pos hmsg]
  exact deliveredOn_message .unreliable src header.channelId header.seqId (framePayload data)

/-- **What arrives is handed over**, if it is a packet of the channel. -/
theorem onReceive_transparent (radio : Radio) {node : Node} (htables : TablesOk node.state)
    {c : U8} {channel : ChannelState} (hch : node.channelAt c = some channel)
    (hm : channel.mode = modeUnreliable) (hmsg : node.onMessage = true) (src : Mac)
    (data : List U8) (now : U32) :
    deliveredOn .unreliable c (onReceive radio node src data now).2.log
      = ((ApiCall.onReceive src data now).arrivedFrom node.peerMac).filterMap
          (readOn node.maxPayload modeUnreliable c) := by
  by_cases hpacket : ∃ header, src = node.peerMac ∧ decodeHeader data node.maxPayload = .ok header
      ∧ header.mode = modeUnreliable ∧ header.channelId = c ∧ header.type = typeData
  · obtain ⟨header, rfl, hdec, hmode, rfl, ht⟩ := hpacket
    have hj := judge_unreliable hdec (htables.channel_notHeartbeat hch) hch hm hmode
    have hread := readOn_decoded (m := modeUnreliable) (c := header.channelId) hdec
    rw [if_pos ⟨hmode, rfl, ht⟩] at hread
    rw [onReceive_data radio hj ht hmsg now,
      show (ApiCall.onReceive node.peerMac data now).arrivedFrom node.peerMac = [data]
        from if_pos rfl, List.filterMap_cons_some hread]
    rfl
  · -- no packet of the channel: neither side has anything
    have hright : ((ApiCall.onReceive src data now).arrivedFrom node.peerMac).filterMap
        (readOn node.maxPayload modeUnreliable c) = [] := by
      refine List.filterMap_eq_nil_iff.mpr fun frame hf => ?_
      by_cases hsrc : src = node.peerMac
      · rw [show (ApiCall.onReceive src data now).arrivedFrom node.peerMac = [data]
          from if_pos hsrc, List.mem_singleton] at hf
        subst hf
        unfold readOn
        cases hdec : decodeHeader frame node.maxPayload with
        | error e => rfl
        | ok header => exact if_neg fun hall => hpacket ⟨header, hsrc, hdec, hall⟩
      · rw [show (ApiCall.onReceive src data now).arrivedFrom node.peerMac = []
          from if_neg hsrc] at hf
        cases hf
    rw [hright]
    by_cases hj : ∃ header, node.judge src data = .unreliable header ∧ header.channelId = c
    · obtain ⟨header, hj, hc⟩ := hj
      have hheader : (node.judge src data).header = some header := by rw [hj]; rfl
      obtain ⟨hsrc, hdec⟩ := judge_header hheader
      have hmode := judge_inMode node src data
      rw [hj] at hmode
      have ht : header.type ≠ typeData := fun ht => hpacket ⟨header, hsrc, hdec, hmode, hc, ht⟩
      rw [onReceive_judge, hj]
      show deliveredOn .unreliable c
        (receiveUnreliable (Call.start node) src header (framePayload data)).2.log = _
      unfold receiveUnreliable
      rw [if_neg (by rwa [beq_iff_eq])]
      rfl
    · refine deliveredOn_others (onReceive_deliversAs radio node src data now) ?_
      cases hj' : node.judge src data with
      | unreliable header => exact fun hd => hj ⟨header, hj', hd.2.symm⟩
      | priority header => exact fun hd => by cases hd.1
      | data header => rintro ⟨h | h, _⟩ <;> cases h
      | _ => exact id

/-- What the channel `c` has handed over is what `frames` carry for it. -/
structure Handed (c : U8) (frames : List (List U8)) (w : NodeRun) : Prop where
  opened : ∃ channel, w.node.channelAt c = some channel ∧ channel.mode = modeUnreliable
  callback : w.node.onMessage = true
  handed : deliveredOn .unreliable c w.history
    = frames.filterMap (readOn w.node.maxPayload modeUnreliable c)

/-- **A step of the receiver.** -/
theorem handed_step {c : U8} {frames : List (List U8)} {w : NodeRun} (h : Handed c frames w)
    (htables : TablesOk w.node.state) (a : ApiStep) :
    Handed c (frames ++ a.call.arrivedFrom w.node.peerMac) (w.step a) := by
  obtain ⟨channel, hch, hm⟩ := h.opened
  have hconfig := sameConfig_step w a
  obtain ⟨channel', hch', hmode⟩ := channel_step (R := fun a b => b.mode = a.mode) (fun _ => rfl)
    (fun _ _ _ hab hbd => hbd.trans hab) (fun _ _ => rfl) htables
    (fun op _ channel => (op.act_name channel).mode) hch
  refine ⟨⟨channel', hch', hmode.trans hm⟩, hconfig.onMessage.trans h.callback, ?_⟩
  have hlog : deliveredOn .unreliable c (a.call.run a.radio w.node).2.log
      = (a.call.arrivedFrom w.node.peerMac).filterMap
          (readOn w.node.maxPayload modeUnreliable c) := by
    by_cases hrecv : ∃ src data now, a.call = .onReceive src data now
    · obtain ⟨src, data, now, hcall⟩ := hrecv
      rw [hcall]
      exact onReceive_transparent a.radio htables hch hm h.callback src data now
    · rw [deliveredOn_eq_nil (call_noMessage a.radio w.node a.call
        fun src data now hcall => hrecv ⟨src, data, now, hcall⟩)]
      cases hcall : a.call with
      | onReceive src data now => exact absurd ⟨src, data, now, hcall⟩ hrecv
      | _ => rfl
  show deliveredOn .unreliable c (w.history ++ (a.call.run a.radio w.node).2.log) = _
  rw [deliveredOn_append, hlog, h.handed, List.filterMap_append, hconfig.maxPayload]

/-! ## From one end to the other -/

/-- The payloads sent on the UNRELIABLE channel `c`, of those the API takes. -/
def accepted (maxPayload : U16) (c : U8) (as : List ApiStep) : List (List U8) :=
  as.flatMap fun a => a.call.acceptedOn maxPayload c

/-- The frames of the peer that arrive. -/
def arrivals (peer : Mac) (as : List ApiStep) : List (List U8) :=
  as.flatMap fun a => a.call.arrivedFrom peer

/-- The channel of a new node, if it is UNRELIABLE. -/
theorem init_unreliable {node node' : Node} {cfg : Config} (h : init node cfg = (.ok, node'))
    (hm : cfg.mode = modeUnreliable) : node'.NextIs cfg.channelId 0#16 := by
  obtain ⟨state, channel, hnode, _, _, _, hmode, _, hopen⟩ := init_ok h
  have hat : node'.channelAt cfg.channelId = some channel := by
    rw [hnode]
    exact (congrFun hopen cfg.channelId).trans (Function.update_self _ _ _)
  obtain ⟨r, -, hr⟩ := channelAt_eq_some.mp hat
  have hnext := init_channels (I := fun channel => channel.nextTxSeq = 0#16) rfl
    (fun _ _ _ => rfl) (fun _ _ hi => hi) (fun channel cfg hi => ?_) h r
  · rw [hr] at hnext
    exact ⟨channel, hat, hmode.trans hm, hnext⟩
  · by_cases hrel : channel.mode = modeReliable
    · have hact : (ChannelOp.setReliableConfig cfg).act channel = _ := inMode_same hrel _ _
      rw [hact]
      exact hi
    · rw [ChannelOp.act_otherMode (m := modeReliable) rfl hrel]
      exact hi

theorem sent_run {node₀ node : Node} {cfg : Config} (hinit : init node₀ cfg = (.ok, node))
    (hm : cfg.mode = modeUnreliable) {as : List ApiStep} (hup : ∀ a ∈ as, a.radio = Radio.up) :
    Sent cfg.channelId (accepted node.maxPayload cfg.channelId as)
      (run NodeRun.step ⟨node, []⟩ as) := by
  induction as using List.reverseRecOn with
  | nil => exact ⟨init_unreliable hinit hm, rfl⟩
  | append_singleton as a ih =>
      have h := ih fun b hb => hup b (List.mem_append_left _ hb)
      have hstep := sent_step h (conforms_run hinit as) (maxPayload_run hinit as).2
        (hup a (List.mem_append_right _ (List.mem_singleton_self a)))
      rw [(sameConfig_run node as).maxPayload] at hstep
      unfold accepted
      rw [run_append, List.flatMap_append, List.flatMap_singleton]
      exact hstep

theorem handed_run {node₀ node : Node} {cfg : Config} (hinit : init node₀ cfg = (.ok, node))
    (hm : cfg.mode = modeUnreliable) (hmsg : node.onMessage = true) (as : List ApiStep) :
    Handed cfg.channelId (arrivals node.peerMac as) (run NodeRun.step ⟨node, []⟩ as) := by
  induction as using List.reverseRecOn with
  | nil =>
      obtain ⟨channel, hch, hmode, _⟩ := init_unreliable hinit hm
      exact ⟨⟨channel, hch, hmode⟩, hmsg, rfl⟩
  | append_singleton as a ih =>
      have hstep := handed_step ih (tablesOk_run hinit as) a
      rw [(sameConfig_run node as).peerMac] at hstep
      unfold arrivals
      rw [run_append, List.flatMap_append, List.flatMap_singleton]
      exact hstep

/-- A frame that a node sent is read by a peer that takes payloads as long. -/
theorem sentFrames_read {node₀ node : Node} {cfg : Config} (hinit : init node₀ cfg = (.ok, node))
    (as : List ApiStep) {maxPayload : U16} (hle : node.maxPayload.toNat ≤ maxPayload.toNat)
    (m c : U8) {frame : List U8}
    (h : frame ∈ sentFrames (run NodeRun.step ⟨node, []⟩ as).history) :
    readOn maxPayload m c frame = packetOn m c frame := by
  obtain ⟨dst, hm⟩ := mem_sentFrames.mp h
  obtain ⟨-, header, payload, hframe, hsend, -⟩ := (conforms_run hinit as).airs _ hm
  have hlen := hsend.length
  have hmax := (maxPayload_run hinit as).2
  rw [(sameConfig_run node as).maxPayload] at hlen hmax
  rw [packetOn, readOn_decoded (hframe.decodes_at (hlen.trans hle)).1,
    readOn_decoded (hframe.decodes_at
      (show payload.length ≤ (BitVec.ofNat 16 maxPayloadLimit).toNat from hlen.trans hmax)).1]

/--
**UNRELIABLE is transparent.** Two nodes with the same UNRELIABLE channel do whatever
they like, the sender's radio up and the receiver taking payloads as long. If the link
brings frames in the order they were sent, each at most once, the messages handed over
are a subsequence of the payloads sent, under their ids; and if it has brought all of
them, they are exactly these.
-/
theorem unreliable_faithful {node₁ node₂ sender receiver : Node} {cfg₁ cfg₂ : Config}
    (hsender : init node₁ cfg₁ = (.ok, sender)) (hreceiver : init node₂ cfg₂ = (.ok, receiver))
    (hm₁ : cfg₁.mode = modeUnreliable) (hm₂ : cfg₂.mode = modeUnreliable)
    (hc : cfg₂.channelId = cfg₁.channelId) (hmsg : receiver.onMessage = true)
    (hle : sender.maxPayload.toNat ≤ receiver.maxPayload.toNat) {as bs : List ApiStep}
    (hup : ∀ a ∈ as, a.radio = Radio.up)
    (hlink : (arrivals receiver.peerMac bs).Sublist
      (sentFrames (run NodeRun.step ⟨sender, []⟩ as).history)) :
    (deliveredOn .unreliable cfg₁.channelId (run NodeRun.step ⟨receiver, []⟩ bs).history).Sublist
        (numberedUp (accepted sender.maxPayload cfg₁.channelId as))
      ∧ (arrivals receiver.peerMac bs = sentFrames (run NodeRun.step ⟨sender, []⟩ as).history →
        deliveredOn .unreliable cfg₁.channelId (run NodeRun.step ⟨receiver, []⟩ bs).history
          = numberedUp (accepted sender.maxPayload cfg₁.channelId as)) := by
  have hsent := (sent_run hsender hm₁ hup).sent
  have hhanded := (handed_run hreceiver hm₂ hmsg bs).handed
  rw [hc, (sameConfig_run receiver bs).maxPayload] at hhanded
  have hread : (arrivals receiver.peerMac bs).filterMap
      (readOn receiver.maxPayload modeUnreliable cfg₁.channelId)
      = (arrivals receiver.peerMac bs).filterMap (packetOn modeUnreliable cfg₁.channelId) :=
    List.filterMap_congr fun frame hf =>
      sentFrames_read hsender as hle modeUnreliable cfg₁.channelId (hlink.subset hf)
  rw [hhanded, hread, ← hsent]
  exact ⟨hlink.filterMap _, fun hall => by rw [hall]; rfl⟩

def telemetryNode : Node := (init Node.zero { listenConfig with mode := modeUnreliable }).2

/-- Three payloads, and a reliable packet of another channel between them. -/
def telemetrySends : List ApiStep :=
  [⟨Radio.up, .openChannel 2#8 modeReliable 0#8⟩, ⟨Radio.up, .sendUnreliable 1#8 [1#8]⟩,
    ⟨Radio.up, .sendReliable 2#8 [9#8] 0#32⟩, ⟨Radio.up, .sendUnreliable 1#8 [2#8]⟩,
    ⟨Radio.up, .sendUnreliable 1#8 [3#8]⟩]

/-- The third of the four frames is lost. -/
def telemetryArrivals : List ApiStep :=
  ((sentFrames (run NodeRun.step ⟨telemetryNode, []⟩ telemetrySends).history).eraseIdx 2).map
    fun frame => ⟨Radio.up, .onReceive listenConfig.peerMac frame 0#32⟩

theorem telemetry_faithful :
    (deliveredOn .unreliable 1#8
      (run NodeRun.step ⟨telemetryNode, []⟩ telemetryArrivals).history).Sublist
        (numberedUp (accepted telemetryNode.maxPayload 1#8 telemetrySends)) := by
  have hinit : init Node.zero { listenConfig with mode := modeUnreliable }
      = (.ok, telemetryNode) := Prod.ext (by decide +kernel) rfl
  have hup : ∀ a ∈ telemetrySends, a.radio = Radio.up := by
    unfold telemetrySends
    simp
  exact (unreliable_faithful hinit hinit rfl rfl rfl (by decide +kernel) (Nat.le_refl _) hup
    (by decide +kernel)).1

end Relinow
