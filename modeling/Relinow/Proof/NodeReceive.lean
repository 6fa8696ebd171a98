import Relinow.Proof.NodeFrames

/-!
# What receiving can do

A frame is accepted, and then it is an ACK or a packet of one reliable channel, or it
is background. A packet that the engine delivers is handed over from the receive
cache, and so are those that waited for it.
-/

namespace Relinow

open SlotTable

/-! ## Accepting -/

/-- A frame from the configured peer that reaches a reliable channel. -/
structure Accepts (node : Node) (src : Mac) (data : List U8) (header : Header)
    (channel : ChannelState) : Prop where
  decoded : decodeHeader data node.maxPayload = .ok header
  fromPeer : src = node.peerMac
  notHeartbeat : header.channelId ≠ heartbeatChannel
  mode : header.mode = modeReliable
  at_channel : node.reliableAt header.channelId = some channel

/-- The header of an accepted frame, and the channel it is on. -/
def Node.accepted (node : Node) (src : Mac) (data : List U8) : Option (Header × ChannelState) :=
  match decodeHeader data node.maxPayload with
  | .error _ => none
  | .ok header =>
      if src = node.peerMac ∧ header.channelId ≠ heartbeatChannel ∧ header.mode = modeReliable then
        (node.reliableAt header.channelId).map fun channel => (header, channel)
      else none

theorem accepted_eq_some {node : Node} {src : Mac} {data : List U8} {header : Header}
    {channel : ChannelState} (h : node.accepted src data = some (header, channel)) :
    Accepts node src data header channel := by
  unfold Node.accepted at h
  cases hd : decodeHeader data node.maxPayload with
  | error e =>
      rw [hd] at h
      exact absurd h (by simp)
  | ok header' =>
      rw [hd] at h
      dsimp only at h
      split at h
      · rename_i hok
        obtain ⟨ch, hch, heq⟩ := Option.map_eq_some_iff.mp h
        obtain ⟨rfl, rfl⟩ := Prod.mk.inj heq
        exact ⟨hd, hok.1, hok.2.1, hok.2.2, hch⟩
      · exact absurd h (by simp)

/-- What becomes of a frame that reaches a reliable channel. -/
theorem Accepts.onReceive_eq {node : Node} {src : Mac} {data : List U8} {header : Header}
    {channel : ChannelState} (h : Accepts node src data header channel) (radio : Radio)
    (now : U32) :
    onReceive radio node src data now
      = if header.type == typeAck then receiveAck (Call.start node) header now
        else if header.type == typeData then
          receiveData radio (Call.start node) src header (framePayload data) now
        else (.ok, Call.start node) := by
  have hlen : ¬ data.length < headerSize := by
    intro hlt
    have hd := h.decoded
    unfold decodeHeader at hd
    split at hd
    · rw [show headerSize = 9 from rfl] at hlt
      simp only [List.length_cons] at hlt
      omega
    · exact absurd hd (by simp)
  obtain ⟨hat, hm⟩ := Node.reliableAt_channelAt h.at_channel
  unfold onReceive
  dsimp only
  rw [if_neg hlen, if_neg (not_not_intro h.fromPeer), h.decoded]
  dsimp only
  rw [if_neg (by simpa using h.notHeartbeat), stateGetChannelMode_channelAt hat]
  dsimp only
  rw [if_neg (by simp [hm, h.mode]), if_neg (by rw [h.mode]; decide),
    if_neg (by rw [h.mode]; decide), if_neg (by rw [h.mode]; decide)]

/-- An accepted DATA frame is given to its channel. -/
theorem Accepts.onReceive_data {node : Node} {src : Mac} {data : List U8} {header : Header}
    {channel : ChannelState} (h : Accepts node src data header channel)
    (ht : header.type = typeData) (radio : Radio) (now : U32) :
    onReceive radio node src data now
      = receiveData radio (Call.start node) src header (framePayload data) now := by
  rw [h.onReceive_eq, if_neg (by rw [ht]; decide), if_pos (by simpa using ht)]

theorem Accepts.accepted {node : Node} {src : Mac} {data : List U8} {header : Header}
    {channel : ChannelState} (h : Accepts node src data header channel) :
    node.accepted src data = some (header, channel) := by
  unfold Node.accepted
  rw [h.decoded]
  dsimp only
  rw [if_pos ⟨h.fromPeer, h.notHeartbeat, h.mode⟩, h.at_channel]
  rfl

/-- What `relinow_on_receive` takes a frame for. -/
inductive Received where
  | short
  | ignored
  | heartbeat (header : Header)
  | unreliable (header : Header)
  | priority (header : Header)
  | ack (header : Header)
  | data (header : Header)

/-- The checks of `relinow_on_receive`, down to the branch they lead to. -/
def Node.judge (node : Node) (src : Mac) (data : List U8) : Received :=
  if data.length < headerSize then .short
  else if src ≠ node.peerMac then .ignored
  else
    match decodeHeader data node.maxPayload with
    | .error _ => .ignored
    | .ok header =>
        if header.channelId == heartbeatChannel then .heartbeat header
        else
          match stateGetChannelMode node.state node.peerIndex header.channelId with
          | .error _ => .ignored
          | .ok mode =>
              if mode != header.mode then .ignored
              else if header.mode == modeUnreliable then .unreliable header
              else if header.mode == modePriority then .priority header
              else if header.mode != modeReliable then .ignored
              else if header.type == typeAck then .ack header
              else if header.type == typeData then .data header
              else .ignored

/-- The branches. -/
def Received.handle (radio : Radio) (node : Node) (src : Mac) (payload : List U8) (now : U32) :
    Received → EspErr × Call
  | .short => (.invalidArg, Call.start node)
  | .ignored => (.ok, Call.start node)
  | .heartbeat header => receiveHeartbeat radio (Call.start node) header
  | .unreliable header => receiveUnreliable (Call.start node) src header payload
  | .priority header => receivePriority (Call.start node) src header payload
  | .ack header => receiveAck (Call.start node) header now
  | .data header => receiveData radio (Call.start node) src header payload now

theorem onReceive_judge (radio : Radio) (node : Node) (src : Mac) (data : List U8) (now : U32) :
    onReceive radio node src data now
      = (node.judge src data).handle radio node src (framePayload data) now := by
  -- each check stands before the branches on both sides
  have hpush {P : Prop} [Decidable P] (a b : Received) :=
    apply_ite (Received.handle radio node src (framePayload data) now) P a b
  unfold onReceive Node.judge
  dsimp only
  rw [hpush]
  refine ite_congr rfl (fun _ => rfl) fun _ => ?_
  rw [hpush]
  refine ite_congr rfl (fun _ => rfl) fun _ => ?_
  cases decodeHeader data node.maxPayload with
  | error e => rfl
  | ok header =>
      dsimp only
      rw [hpush]
      refine ite_congr rfl (fun _ => rfl) fun _ => ?_
      cases stateGetChannelMode node.state node.peerIndex header.channelId with
      | error e => rfl
      | ok mode =>
          dsimp only
          rw [hpush, hpush, hpush, hpush, hpush, hpush]
          rfl

/-- What the checks have found out about the channel of the frame. -/
def Received.Found (node : Node) (src : Mac) (data : List U8) : Received → Prop
  | .unreliable header => ∃ channel,
      channelAt node.state node.peerIndex header.channelId = some channel
      ∧ channel.mode = modeUnreliable
  | .priority header => ∃ channel,
      channelAt node.state node.peerIndex header.channelId = some channel
      ∧ channel.mode = modePriority
  | .ack header => header.type = typeAck ∧ ∃ channel, Accepts node src data header channel
  | .data header => header.type = typeData ∧ ∃ channel, Accepts node src data header channel
  | _ => True

/-- The part of it that follows the mode of the channel. -/
theorem judge_mode {node : Node} {src : Mac} {data : List U8} {header : Header}
    {channel : ChannelState} {mode : U8} (hdec : decodeHeader data node.maxPayload = .ok header)
    (hsrc : src = node.peerMac) (hhb : header.channelId ≠ heartbeatChannel)
    (hch : channelAt node.state node.peerIndex header.channelId = some channel)
    (hcm : channel.mode = mode) :
    Received.Found node src data
      (if mode != header.mode then .ignored
        else if header.mode == modeUnreliable then .unreliable header
        else if header.mode == modePriority then .priority header
        else if header.mode != modeReliable then .ignored
        else if header.type == typeAck then .ack header
        else if header.type == typeData then .data header
        else .ignored) := by
  split
  · trivial
  · rename_i hmode
    rw [bne_iff_ne, not_not] at hmode
    rw [hmode] at hcm
    split
    · rename_i hm
      exact ⟨channel, hch, hcm.trans (beq_iff_eq.mp hm)⟩
    · split
      · rename_i hm
        exact ⟨channel, hch, hcm.trans (beq_iff_eq.mp hm)⟩
      · split
        · trivial
        · rename_i hrel
          rw [bne_iff_ne, not_not] at hrel
          -- a reliable channel and a reliable header: accepted, whatever the type
          have hacc : Accepts node src data header channel :=
            ⟨hdec, hsrc, hhb, hrel, reliableAt_eq_some.mpr ⟨hch, hcm.trans hrel⟩⟩
          split
          · rename_i ht
            exact ⟨beq_iff_eq.mp ht, channel, hacc⟩
          · split
            · rename_i ht
              exact ⟨beq_iff_eq.mp ht, channel, hacc⟩
            · trivial

theorem judge_found (node : Node) (src : Mac) (data : List U8) :
    (node.judge src data).Found node src data := by
  unfold Node.judge
  by_cases hlen : data.length < headerSize
  · rw [if_pos hlen]
    trivial
  · by_cases hsrc : src ≠ node.peerMac
    · rw [if_neg hlen, if_pos hsrc]
      trivial
    · rw [if_neg hlen, if_neg hsrc]
      cases hdec : decodeHeader data node.maxPayload with
      | error e => trivial
      | ok header =>
          dsimp only
          by_cases hhb : (header.channelId == heartbeatChannel) = true
          · rw [if_pos hhb]
            trivial
          · rw [if_neg hhb]
            cases hget : stateGetChannelMode node.state node.peerIndex header.channelId with
            | error e => trivial
            | ok mode =>
                -- the mode that was read is the mode of an open channel
                obtain ⟨channel, hch, hcm⟩ := stateGetChannelMode_ok hget
                exact judge_mode hdec (not_not.mp hsrc) (fun h => hhb (beq_iff_eq.mpr h)) hch hcm

theorem receiveHeartbeat_quiet (radio : Radio) (node : Node) (header : Header) :
    QuietCall node (receiveHeartbeat radio (Call.start node) header).2 := by
  have hstart := QuietCall.start node
  unfold receiveHeartbeat
  split
  · exact hstart.sendFrame radio typePong 0#16 header.seqId [] (Or.inr rfl)
  · split
    · exact hstart.setState (stateOnPong_quiet _ _)
    · exact hstart

theorem receiveUnreliable_quiet {node : Node} {header : Header} {channel : ChannelState}
    (hch : channelAt node.state node.peerIndex header.channelId = some channel)
    (hm : channel.mode ≠ modeReliable) (src : Mac) (payload : List U8) :
    QuietCall node (receiveUnreliable (Call.start node) src header payload).2 := by
  have hstart := QuietCall.start node
  unfold receiveUnreliable
  split
  · exact (hstart.setState (stateUnreliableOnData_quiet _ _ _ _)).raiseMessage _ _ _ (Or.inl rfl)
      hch hm
  · exact hstart

theorem receivePriority_quiet {node : Node} {header : Header} {channel : ChannelState}
    (hch : channelAt node.state node.peerIndex header.channelId = some channel)
    (hm : channel.mode ≠ modeReliable) (src : Mac) (payload : List U8) :
    QuietCall node (receivePriority (Call.start node) src header payload).2 := by
  have hstart := QuietCall.start node
  unfold receivePriority
  split
  · have hq := hstart.setState (statePriorityOnData_quiet node.state node.peerIndex
      header.channelId header.seqId)
    dsimp only
    split
    · exact hq
    · split
      · exact hq.raiseMessage _ _ _ (Or.inr rfl) hch hm
      · exact hq
  · exact hstart

/-- **A frame is an ACK or DATA for a reliable channel, or the call is quiet.** -/
theorem onReceive_cases (radio : Radio) (node : Node) (src : Mac) (data : List U8) (now : U32) :
    (∃ header channel, Accepts node src data header channel
      ∧ ((header.type = typeAck
            ∧ onReceive radio node src data now = receiveAck (Call.start node) header now)
        ∨ (header.type = typeData ∧ onReceive radio node src data now
            = receiveData radio (Call.start node) src header (framePayload data) now)))
    ∨ QuietCall node (onReceive radio node src data now).2 := by
  have hfound := judge_found node src data
  rw [onReceive_judge]
  cases hj : node.judge src data with
  | short => exact Or.inr (QuietCall.start node)
  | ignored => exact Or.inr (QuietCall.start node)
  | heartbeat header => exact Or.inr (receiveHeartbeat_quiet radio node header)
  | unreliable header =>
      rw [hj] at hfound
      obtain ⟨channel, hch, hm⟩ := hfound
      exact Or.inr (receiveUnreliable_quiet hch (by rw [hm]; decide) src _)
  | priority header =>
      rw [hj] at hfound
      obtain ⟨channel, hch, hm⟩ := hfound
      exact Or.inr (receivePriority_quiet hch (by rw [hm]; decide) src _)
  | ack header =>
      rw [hj] at hfound
      obtain ⟨ht, channel, hacc⟩ := hfound
      exact Or.inl ⟨header, channel, hacc, Or.inl ⟨ht, rfl⟩⟩
  | data header =>
      rw [hj] at hfound
      obtain ⟨ht, channel, hacc⟩ := hfound
      exact Or.inl ⟨header, channel, hacc, Or.inr ⟨ht, rfl⟩⟩

/-- What an ACK does: the engine of its channel, the payload cache and the list of tracked
fragments all see it. -/
theorem receiveAck_spec {node : Node} {header : Header} {channel : ChannelState} (now : U32)
    (hch : node.reliableAt header.channelId = some channel) :
    ∃ channel' state', channel' = { channel with
          reliable := reliableOnAck channel.reliable header.ackId now
          hasInflight := channel'.hasInflight
          txQueue := channel'.txQueue }
      ∧ Relinow.reliableAt state' node.peerIndex
          = Function.update node.reliableAt header.channelId (some channel')
      ∧ (∀ c, channelAt state' node.peerIndex c = none
          ↔ channelAt node.state node.peerIndex c = none)
      ∧ receiveAck (Call.start node) header now
          = (.ok, Call.start (fragmentTxOnAck
              (txCacheRemove { node with state := state' } header.ackId) header.ackId)) := by
  obtain ⟨hat, hm⟩ := Node.reliableAt_channelAt hch
  unfold receiveAck
  rcases stateReliableOnAck_cases node.state node.peerIndex header.channelId header.ackId now with
    ⟨hrc, hst, hno⟩ | ⟨a, b, state', hrw, ha, hfr, heq⟩
  · exact absurd hm (hno channel hat)
  · rw [hrw.before] at hat
    obtain rfl := Option.some.inj hat
    refine ⟨b, state', hfr, (hrw.reliable ha (by rw [hfr]; exact ha)).2, hrw.opened, ?_⟩
    dsimp only [Call.start] at heq ⊢
    rw [heq]
    rfl

/-- Caching a payload touches the receive cache only. -/
theorem rxCacheStore_frame (node : Node) (header : Header) (payload : List U8) :
    rxCacheStore node header payload
      = { node with rxCache := (rxCacheStore node header payload).rxCache } := by
  unfold rxCacheStore
  split
  · rfl
  · split <;> rfl

/-- The node of a DATA frame after its payload has been cached and its id given to the engine. -/
def Node.arrived (node : Node) (header : Header) (payload : List U8) (state : State) : Node :=
  { rxCacheStore node header payload with state := state }

/-- An arrival touches the receive cache and the state only. -/
theorem arrived_frame (node : Node) (header : Header) (payload : List U8) (state : State) :
    node.arrived header payload state
      = { node with rxCache := (rxCacheStore node header payload).rxCache, state := state } := by
  unfold Node.arrived
  rw [rxCacheStore_frame]

theorem arrived_reliableAt (node : Node) (header : Header) (payload : List U8) (state : State) :
    (node.arrived header payload state).reliableAt
      = Relinow.reliableAt state node.peerIndex := by
  rw [arrived_frame]
  rfl

/-- **What a DATA frame does.** The payload is cached and the engine advances. Without room in
the receive queue the call ends there; with room the answer is sent and the delivered ids are
handed over one by one. -/
theorem receiveData_spec (radio : Radio) {node : Node} (src : Mac) {header : Header}
    (payload : List U8) {channel : ChannelState} (now : U32)
    (hch : node.reliableAt header.channelId = some channel) :
    ∃ channel' state', channel' = { channel with
          reliable := (reliableOnData channel.reliable header.seqId).1
          expectedRxSeq := channel'.expectedRxSeq
          rxQueue := channel'.rxQueue }
      ∧ Relinow.reliableAt state' node.peerIndex
          = Function.update node.reliableAt header.channelId (some channel')
      ∧ (∀ c, channelAt state' node.peerIndex c = none
          ↔ channelAt node.state node.peerIndex c = none)
      ∧ ((¬ HasRoom channel header.seqId
            ∧ receiveData radio (Call.start node) src header payload now
              = (.fail, Call.start (node.arrived header payload state')))
        ∨ (HasRoom channel header.seqId
            ∧ rxRoom channel = rxRoom channel' + (deliverable channel.reliable header.seqId).length
            ∧ ∃ attempts answer, (answer = [] ∨ ∃ frame, answer = [.sent node.peerMac frame]
                ∧ FrameOf frame (ackHeader header.channelId
                  (reliableOnData channel.reliable header.seqId).2.ackId) [])
              ∧ receiveData radio (Call.start node) src header payload now
                = (.ok, (deliverable channel.reliable header.seqId).foldl
                    (deliverOne src header.channelId now)
                    ⟨node.arrived header payload state', attempts, answer⟩))) := by
  obtain ⟨hat, hm⟩ := Node.reliableAt_channelAt hch
  have hstore := rxCacheStore_frame node header payload
  have hmac : (rxCacheStore node header payload).peerMac = node.peerMac := by rw [hstore]
  -- the packet is cached before the engine sees it, which the engine does not notice
  have hcall : stateReliableOnData (rxCacheStore node header payload).state
      (rxCacheStore node header payload).peerIndex header.channelId header.seqId
      = stateReliableOnData node.state node.peerIndex header.channelId header.seqId := by
    rw [hstore]
  unfold receiveData
  dsimp only [Call.start, Call.setNode]
  rw [hcall]
  rcases stateReliableOnData_cases node.state node.peerIndex header.channelId header.seqId with
    ⟨_, _, hno⟩ | ⟨a, b, state', hrw, ha, hfr, hcases⟩
  · exact absurd hm (hno channel hat)
  · rw [hrw.before] at hat
    obtain rfl := Option.some.inj hat
    refine ⟨b, state', hfr, (hrw.reliable ha (by rw [hfr]; exact ha)).2, hrw.opened, ?_⟩
    rcases hcases with ⟨hroom, hqueue, heq⟩ | ⟨hfull, heq⟩
    · refine Or.inr ⟨hroom, hqueue, ?_⟩
      rw [heq, if_neg (by simp)]
      dsimp only
      rw [reliableOnData_delivered]
      -- an ACK the radio refuses is not sent, and its return code not looked at
      rcases sendFrame_cases radio ⟨node.arrived header payload state', 0, []⟩ modeReliable
        header.channelId typeAck 0#8 0#16 (reliableOnData a.reliable header.seqId).2.ackId []
        (by decide) with ⟨e, attempts, _, hsend⟩ | ⟨frame, attempts, hframe, hsend⟩
      · refine ⟨attempts, [], Or.inl rfl, ?_⟩
        exact congrArg (fun r : EspErr × Call => (EspErr.ok, (deliverable a.reliable
          header.seqId).foldl (deliverOne src header.channelId now) r.2)) hsend
      · refine ⟨attempts, [.sent node.peerMac frame], Or.inr ⟨frame, rfl, hframe⟩, ?_⟩
        have hpeer : (node.arrived header payload state').peerMac = node.peerMac := hmac
        dsimp only at hsend
        rw [hpeer] at hsend
        exact congrArg (fun r : EspErr × Call => (EspErr.ok, (deliverable a.reliable
          header.seqId).foldl (deliverOne src header.channelId now) r.2)) hsend
    · refine Or.inl ⟨hfull, ?_⟩
      rw [heq, if_pos (by simp)]
      rfl

/-! ## Handing over -/

/-- What handing messages over may change: the receive cache, the reassembly, and the log, by
messages of the reliable mode. -/
structure HandsOver (k k' : Call) : Prop where
  node_eq : k'.node = { k.node with
    rxCache := k'.node.rxCache
    reassemblyActive := k'.node.reassemblyActive
    reassemblyFirstSeq := k'.node.reassemblyFirstSeq
    reassemblyBuf := k'.node.reassemblyBuf
    reassemblyStartMs := k'.node.reassemblyStartMs }
  log : ∃ messages, k'.log = k.log ++ messages ∧ ∀ e ∈ messages,
    ∃ site src c q payload, e = .message site src c q payload
      ∧ (site = .plain ∨ site = .reassembled)

theorem HandsOver.refl (k : Call) : HandsOver k k := ⟨rfl, [], by simp, by simp⟩

theorem HandsOver.trans {k k' k'' : Call} (h : HandsOver k k') (h' : HandsOver k' k'') :
    HandsOver k k'' := by
  refine ⟨?_, ?_⟩
  · rw [h'.node_eq, h.node_eq]
  · obtain ⟨l, hl, hm⟩ := h.log
    obtain ⟨l', hl', hm'⟩ := h'.log
    refine ⟨l ++ l', by rw [hl', hl, List.append_assoc], fun e he => ?_⟩
    rcases List.mem_append.mp he with he | he
    · exact hm e he
    · exact hm' e he

theorem HandsOver.reliableAt {k k' : Call} (h : HandsOver k k') :
    k'.node.reliableAt = k.node.reliableAt := by
  unfold Node.reliableAt
  rw [h.node_eq]

theorem HandsOver.raiseMessage (k : Call) {site : Delivery} (src : Mac) (c : U8) (q : U16)
    (payload : List U8) (hs : site = .plain ∨ site = .reassembled) :
    HandsOver k (raiseMessage k site src c q payload) := by
  unfold Relinow.raiseMessage
  split
  · exact ⟨rfl, [.message site src c q payload], rfl, fun e he =>
      ⟨site, src, c, q, payload, List.mem_singleton.mp he, hs⟩⟩
  · exact HandsOver.refl k

/-- Changing the reassembly or the receive cache alone. -/
theorem HandsOver.setNode (k : Call) (node : Node)
    (h : node = { k.node with
      rxCache := node.rxCache
      reassemblyActive := node.reassemblyActive
      reassemblyFirstSeq := node.reassemblyFirstSeq
      reassemblyBuf := node.reassemblyBuf
      reassemblyStartMs := node.reassemblyStartMs }) : HandsOver k (k.setNode node) :=
  ⟨h, [], (List.append_nil _).symm, by simp⟩

theorem HandsOver.deliverFragment (k : Call) (src : Mac) (c : U8) (now : U32) (frag : RxCache) :
    HandsOver k (deliverFragment k src c now frag) := by
  have hopen : HandsOver k (k.setNode (reassemblyStart k.node frag.seqId now)) := by
    refine HandsOver.setNode k _ ?_
    unfold reassemblyStart
    split <;> rfl
  unfold Relinow.deliverFragment
  dsimp only
  split
  · exact hopen.trans (HandsOver.setNode _ _ rfl)
  · have happend := hopen.trans (HandsOver.setNode _
      { reassemblyStart k.node frag.seqId now with
        reassemblyBuf := (reassemblyStart k.node frag.seqId now).reassemblyBuf ++ frag.payload }
      rfl)
    split
    · exact (happend.trans (HandsOver.raiseMessage _ src c _ _ (Or.inr rfl))).trans
        (HandsOver.setNode _ _ rfl)
    · exact happend

theorem HandsOver.deliverPlain (k : Call) (src : Mac) (c : U8) (frame : RxCache) :
    HandsOver k (deliverPlain k src c frame) := by
  unfold Relinow.deliverPlain
  dsimp only
  split
  · exact (HandsOver.setNode k (reassemblyReset k.node) rfl).trans
      (HandsOver.raiseMessage _ src c _ _ (Or.inl rfl))
  · exact HandsOver.raiseMessage k src c _ _ (Or.inl rfl)

theorem HandsOver.deliverOne (src : Mac) (c : U8) (now : U32) (k : Call) (q : U16) :
    HandsOver k (deliverOne src c now k q) := by
  have hremove : ∀ (k : Call) (q : U16), HandsOver k (k.setNode (rxCacheRemove k.node q)) := by
    intro k q
    refine HandsOver.setNode k _ ?_
    unfold rxCacheRemove
    split <;> rfl
  unfold Relinow.deliverOne
  split
  · exact HandsOver.refl k
  · dsimp only
    split
    · exact (HandsOver.deliverFragment k src c now _).trans (hremove _ _)
    · exact (HandsOver.deliverPlain k src c _).trans (hremove _ _)

theorem HandsOver.all (src : Mac) (c : U8) (now : U32) (ds : List U16) :
    ∀ k : Call, HandsOver k (ds.foldl (Relinow.deliverOne src c now) k) := by
  induction ds with
  | nil => exact fun k => HandsOver.refl k
  | cons d ds ih => exact fun k => (HandsOver.deliverOne src c now k d).trans (ih _)

end Relinow
