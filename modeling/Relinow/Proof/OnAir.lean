import Relinow.Proof.NodeChannels
import Relinow.Proof.PingReply
import Relinow.Proof.RoundTrip

/-!
# What a node puts on the air

Whatever its application calls, and whatever frames reach it, a node sends four
kinds of packets: DATA on a channel it has open, in that channel's mode; ACKs of a
RELIABLE channel; PINGs; and PONGs. Each goes to the peer, fits the radio, and is
one that a peer with the same channels reads. NACKs and encrypted frames have a
number in the header's format, and no node sends them.
-/

namespace Relinow

open SlotTable Runs

/-- **A packet a node may send**, on the channels it has open. -/
inductive Sendable (node : Node) : Header → List U8 → Prop where
  | data {c mode flags : U8} (q : U16) {payload : List U8}
      (hmode : stateGetChannelMode node.state node.peerIndex c = .ok mode)
      (hfits : Fits node c flags payload) (hplain : mode ≠ modeReliable → flags = 0#8)
      (hne : payload ≠ []) :
      Sendable node (frameHeader mode c typeData flags q 0#16 payload) payload
  | ack {c : U8} (a : U16) (hc : c ≠ heartbeatChannel)
      (hmode : stateGetChannelMode node.state node.peerIndex c = .ok modeReliable) :
      Sendable node (ackHeader c a) []
  | ping : Sendable node (pingHeader 0#16) []
  | pong {mode : U8} (q : U16) (hm : isValidMode mode = true) : Sendable node (pongHeader mode q) []

/-- The frame is a packet the node may send, with a header of the kind `Q`. -/
def OnAir (node : Node) (Q : Header → Prop) (frame : List U8) : Prop :=
  ∃ header payload, FrameOf frame header payload ∧ Sendable node header payload ∧ Q header

theorem Sendable.length {node : Node} {header : Header} {payload : List U8}
    (h : Sendable node header payload) : payload.length ≤ node.maxPayload.toNat := by
  cases h with
  | data q hmode hfits hplain hne => exact hfits.length
  | ack a hc hmode => exact Nat.zero_le _
  | ping => exact Nat.zero_le _
  | pong q hm => exact Nat.zero_le _

/-- Channels stay open in their mode, so what might be sent before may be sent later. -/
theorem Sendable.grow {node node' : Node} {header : Header} {payload : List U8}
    (h : Sendable node header payload) (hmax : node'.maxPayload = node.maxPayload)
    (hmodes : ∀ c mode, stateGetChannelMode node.state node.peerIndex c = .ok mode →
      stateGetChannelMode node'.state node'.peerIndex c = .ok mode) :
    Sendable node' header payload := by
  cases h with
  | data q hmode hfits hplain hne =>
      refine .data q (hmodes _ _ hmode) ⟨hfits.notHeartbeat, hfits.flags, ?_⟩ hplain hne
      rw [hmax]
      exact hfits.length
  | ack a hc hmode => exact .ack a hc (hmodes _ _ hmode)
  | ping => exact .ping
  | pong q hm => exact .pong q hm

/-- What the event sends goes to the peer, may be sent, and is of the kind `Q`. -/
def Event.Airs (node : Node) (Q : Header → Prop) : Event → Prop
  | .sent dst frame => dst = node.peerMac ∧ OnAir node Q frame
  | _ => True

/-- The cache holds packets that may be sent on a reliable channel. -/
def Node.CachesPackets (node : Node) : Prop :=
  ∀ i : Fin maxPending, node.txCache[i].inUse = true → DataFlags node.txCache[i].flags
    ∧ node.txCache[i].payload ≠ [] ∧ node.txCache[i].payload.length ≤ node.maxPayload.toNat

/-! ## Within a call -/

/-- **A call of `node`, so far**: it has opened no channel, caches packets, and has sent what it
may. -/
structure Airing (node : Node) (Q : Header → Prop) (k : Call) : Prop where
  config : SameConfig node k.node
  channels : ∀ c channel, k.node.reliableAt c = some channel →
    stateGetChannelMode node.state node.peerIndex c = .ok modeReliable ∧ c ≠ heartbeatChannel
  cached : k.node.CachesPackets
  airs : ∀ e ∈ k.log, e.Airs node Q

namespace Airing

variable {node : Node} {Q : Header → Prop} {k : Call}

theorem start (htables : TablesOk node.state) (hcached : node.CachesPackets) :
    Airing node Q (Call.start node) where
  config := SameConfig.refl node
  channels c channel hch := by
    change node.reliableAt c = some channel at hch
    refine ⟨?_, htables.notHeartbeat hch⟩
    obtain ⟨hat, hm⟩ := Node.reliableAt_channelAt hch
    rw [stateGetChannelMode_channelAt hat, hm]
  cached := hcached
  airs e he := absurd he (by simp [Call.start])

/-- What the call keeps the packets and the channels of. -/
theorem setNode (h : Airing node Q k) {node' : Node} (hconfig : SameConfig k.node node')
    (hchannels : ∀ c channel, node'.reliableAt c = some channel →
      (k.node.reliableAt c).isSome = true)
    (hcached : node'.CachesPackets) : Airing node Q (k.setNode node') where
  config := h.config.trans hconfig
  channels c channel hch := by
    obtain ⟨channel', hch'⟩ := Option.isSome_iff_exists.mp (hchannels c channel hch)
    exact h.channels c channel' hch'
  cached := hcached
  airs := h.airs

theorem push (h : Airing node Q k) {e : Event} (he : e.Airs node Q) : Airing node Q (k.push e) where
  config := h.config
  channels := h.channels
  cached := h.cached
  airs x hx := by
    rcases List.mem_append.mp hx with hx | hx
    · exact h.airs x hx
    · rw [List.mem_singleton.mp hx]
      exact he

/-- **Sending keeps it so** if the packet may be sent. -/
theorem sendFrame (h : Airing node Q k) (radio : Radio) {mode c type flags : U8} {q a : U16}
    {payload : List U8} (hflags : flags.toNat < 16)
    (hair : ∀ frame, FrameOf frame (frameHeader mode c type flags q a payload) payload →
      OnAir node Q frame) :
    Airing node Q (sendFrame radio k mode c type flags q a payload).2 := by
  rcases sendFrame_cases radio k mode c type flags q a payload hflags with
    ⟨e, attempts, _, heq⟩ | ⟨frame, attempts, hframe, heq⟩ <;> rw [heq]
  · exact ⟨h.config, h.channels, h.cached, h.airs⟩
  · have hpush := h.push (e := .sent k.node.peerMac frame) ⟨h.config.peerMac, hair frame hframe⟩
    exact ⟨hpush.config, hpush.channels, hpush.cached, hpush.airs⟩

theorem raiseTxEvent (h : Airing node Q k) (event : TxEvent) (q : U16) :
    Airing node Q (raiseTxEvent k event q) := by
  unfold Relinow.raiseTxEvent
  split
  · exact h.push trivial
  · exact h

theorem raiseMessage (h : Airing node Q k) (site : Delivery) (src : Mac) (c : U8) (q : U16)
    (payload : List U8) : Airing node Q (raiseMessage k site src c q payload) := by
  unfold Relinow.raiseMessage
  split
  · exact h.push trivial
  · exact h

/-- The reliable channels a node has open are those it may send DATA on. -/
theorem dataOnAir (h : Airing node Q k) {c flags : U8} {payload : List U8} {channel : ChannelState}
    (hch : k.node.reliableAt c = some channel) (hflags : DataFlags flags) (hne : payload ≠ [])
    (hlen : payload.length ≤ k.node.maxPayload.toNat) {q : U16}
    (hQ : Q (dataHeader c flags q payload)) {frame : List U8}
    (hframe : FrameOf frame (dataHeader c flags q payload) payload) : OnAir node Q frame := by
  obtain ⟨hmode, hc⟩ := h.channels c channel hch
  rw [h.config.maxPayload] at hlen
  exact ⟨_, _, hframe, .data q hmode ⟨hc, hflags, hlen⟩ (fun hm => absurd rfl hm) hne, hQ⟩

/-- **One packet on its way.** -/
theorem transmitNew (h : Airing node Q k) (radio : Radio) (c : U8) {flags : U8} (track : Bool)
    {payload : List U8} (now : U32) (hflags : DataFlags flags) (hne : payload ≠ [])
    (hlen : payload.length ≤ k.node.maxPayload.toNat)
    (hQ : ∀ q, Q (dataHeader c flags q payload)) :
    Airing node Q (transmitNew radio k c flags track payload now).2 := by
  have hconfig := transmitNew_sameConfig radio k c flags track payload now hflags.lt
  rcases transmitNew_cases radio k c flags track payload now hflags.lt with ⟨heq, _⟩ |
    ⟨channel, channel', state', hch, _, _, hrel, _, ⟨_, heq⟩ |
      ⟨i, node', attempts, out, rest, _, hnode, heq, hout, _⟩⟩ <;> rw [heq] at hconfig ⊢
  · exact h
  all_goals
    have hopen : ∀ c' ch', Relinow.reliableAt state' k.node.peerIndex c' = some ch' →
        (k.node.reliableAt c').isSome = true := by
      intro c' ch' hc'
      rw [hrel] at hc'
      by_cases hcc : c' = c
      · rw [hcc, hch]
        rfl
      · rw [Function.update_of_ne hcc] at hc'
        rw [hc']
        rfl
  · have hset : Airing node Q (k.setNode { k.node with state := state' }) :=
      h.setNode hconfig hopen h.cached
    exact hset.push (e := .assigned c channel.reliable.nextTxSeq flags payload) trivial
  · have hcaches : node'.CachesPackets := by
      rw [hnode]
      refine forall_put (fun slot : TxCache => slot.inUse = true → DataFlags slot.flags
        ∧ slot.payload ≠ [] ∧ slot.payload.length ≤ k.node.maxPayload.toNat) h.cached i ?_
      exact fun _ => ⟨hflags, hne, hlen⟩
    have hset : Airing node Q (k.setNode
        (if track then fragmentTxTrack node' channel.reliable.nextTxSeq else node')) :=
      h.setNode hconfig
        (fun c' ch' hc' => hopen c' ch' (by rw [trackIf_frame, hnode] at hc'; exact hc'))
        (by rw [trackIf_frame]; exact hcaches)
    refine ⟨hset.config, hset.channels, hset.cached, fun e he => ?_⟩
    rcases List.mem_append.mp he with he | he
    · exact h.airs e he
    rcases List.mem_cons.mp he with rfl | he
    · trivial
    · -- the frame, and its report
      rcases hout with ⟨_, _, _, hrest⟩ | ⟨_, frame, hframe, hrest⟩ <;> rw [hrest] at he
      · exact absurd he (by simp)
      · rcases List.mem_cons.mp he with rfl | he
        · exact ⟨h.config.peerMac, h.dataOnAir hch hflags hne hlen (hQ _) hframe⟩
        · rw [List.mem_ite_nil_right, List.mem_singleton] at he
          rw [he.2]
          trivial

theorem unlock (h : Airing node Q k) : Airing node Q (k.setNode (unlockEmpty k.node)) := by
  unfold unlockEmpty
  split
  · exact h.setNode ⟨rfl, rfl, rfl, rfl, rfl⟩
      (fun c channel hch => Option.isSome_iff_exists.mpr ⟨channel, hch⟩) h.cached
  · exact h

/-! ### Sending -/

theorem sendReliable (h : Airing node Q (Call.start node)) (radio : Radio) {c : U8}
    (hQ : ∀ flags q part, Q (dataHeader c flags q part)) (payload : List U8) (now : U32) :
    Airing node Q (sendReliable radio node c payload now).2 := by
  rcases sendReliable_cases radio node c payload now with ⟨_, heq⟩ |
    ⟨channel, _, hne, _, ⟨hlen, heq⟩ | ⟨_, hpos, _, _, _, heq⟩⟩ <;> rw [heq]
  · exact h
  · exact h.transmitNew radio c false now (Or.inl rfl) hne hlen fun q => hQ _ q _
  · -- every fragment is a part of at least one byte
    have hlock : Airing node Q ((Call.start node).setNode
        { node with fragmentedTxActive := true, fragmentedTxSeq := [] }) :=
      h.setNode ⟨rfl, rfl, rfl, rfl, rfl⟩
        (fun c channel hch => Option.isSome_iff_exists.mpr ⟨channel, hch⟩) h.cached
    refine sendFragments_rule (I := fun k _ => Airing node Q k) (Q := Airing node Q)
      (fun k _ hk => ?_) (fun k hk => hk) (fun k remaining flags hk hrem hflags => ?_)
      payload.length _ payload (Nat.le_refl _) hlock
    · rw [hk.config.maxPayload]
      exact hpos
    · have hmp : 0 < k.node.maxPayload.toNat := by
        rw [hk.config.maxPayload]
        exact hpos
      have hl : 0 < remaining.length := List.length_pos_iff.mpr hrem
      have hpart : remaining.take (min k.node.maxPayload.toNat remaining.length) ≠ [] := by
        intro hnil
        have hzero := congrArg List.length hnil
        rw [List.length_take, List.length_nil] at hzero
        omega
      have hshort : (remaining.take (min k.node.maxPayload.toNat remaining.length)).length
          ≤ k.node.maxPayload.toNat := by
        rw [List.length_take]
        omega
      have hnext := hk.transmitNew radio c true now (Or.inr hflags) hpart hshort fun q => hQ _ q _
      revert hnext
      generalize Relinow.transmitNew radio k c flags true _ now = r
      obtain ⟨out, k'⟩ := r
      intro hnext
      cases out with
      | done => exact hnext
      | refused => exact hnext.unlock
      | noSlot => exact hnext
      | radio e => exact hnext

/-- The state layer changes under the call, but the reliable channels stay. -/
theorem quiet (h : Airing node Q (Call.start node)) {k : Call} (hq : QuietCall node k)
    (hairs : ∀ e ∈ k.log, e.Airs node Q) : Airing node Q k where
  config := hq.sameConfig
  channels c channel hch := by
    rw [hq.reliableAt] at hch
    exact h.channels c channel hch
  cached := by
    rw [hq.node_eq]
    exact h.cached
  airs := hairs

end Airing

section Logs

variable {node : Node} {Q : Header → Prop}

/-- A DATA frame without flags, of a channel the node has open. -/
theorem dataOnAir_plain {c : U8} {channel : ChannelState} {q : U16} {payload frame : List U8}
    (htables : TablesOk node.state) (hch : node.channelAt c = some channel) (hne : payload ≠ [])
    (hlen : payload.length ≤ node.maxPayload.toNat)
    (hQ : Q (frameHeader channel.mode c typeData 0#8 q 0#16 payload))
    (hframe : FrameOf frame (frameHeader channel.mode c typeData 0#8 q 0#16 payload) payload) :
    OnAir node Q frame :=
  ⟨_, _, hframe, .data q (stateGetChannelMode_channelAt hch)
    ⟨htables.channel_notHeartbeat hch, Or.inl rfl, hlen⟩ (fun _ => rfl) hne, hQ⟩

/-- An event that a call sends a frame with, or none. -/
theorem sendFrame_airs {k : Call} (hmac : k.node.peerMac = node.peerMac)
    (hlog : k.log = []) (radio : Radio) {mode c type flags : U8} {q a : U16}
    {payload : List U8} (hflags : flags.toNat < 16)
    (hair : ∀ frame, FrameOf frame (frameHeader mode c type flags q a payload) payload →
      OnAir node Q frame) :
    ∀ e ∈ (sendFrame radio k mode c type flags q a payload).2.log, e.Airs node Q := by
  rcases sendFrame_cases radio k mode c type flags q a payload hflags with
    ⟨e, attempts, _, heq⟩ | ⟨frame, attempts, hframe, heq⟩ <;> rw [heq]
  · intro x hx
    dsimp only at hx
    rw [hlog] at hx
    exact absurd hx (by simp)
  · intro x hx
    dsimp only at hx
    rw [hlog, List.nil_append, List.mem_singleton] at hx
    rw [hx]
    exact ⟨hmac, hair frame hframe⟩

theorem sendUnreliable_airs (radio : Radio) (htables : TablesOk node.state) {c : U8}
    {payload : List U8} (hQ : ∀ q, Q (frameHeader modeUnreliable c typeData 0#8 q 0#16 payload)) :
    ∀ e ∈ (sendUnreliable radio node c payload).2.log, e.Airs node Q := by
  rcases sendUnreliable_cases radio node c payload with heq |
    ⟨channel, hch, hm, hne, hlen, heq⟩ <;> rw [heq]
  · exact fun e he => absurd he (by simp [Call.start])
  · refine sendFrame_airs (by rfl) rfl radio (by decide) fun frame hframe => ?_
    rw [← hm] at hframe hQ
    exact dataOnAir_plain htables hch hne hlen (hQ _) hframe

theorem sendPriority_airs (radio : Radio) (htables : TablesOk node.state) {c : U8}
    {payload : List U8} (hQ : ∀ q, Q (frameHeader modePriority c typeData 0#8 q 0#16 payload)) :
    ∀ e ∈ (sendPriority radio node c payload).2.log, e.Airs node Q := by
  rcases sendPriority_cases radio node c payload with heq |
    ⟨channel, hch, hm, hne, hlen, heq⟩ <;> rw [heq]
  · exact fun e he => absurd he (by simp [Call.start])
  · refine sendFrame_airs (by rfl) rfl radio (by decide) fun frame hframe => ?_
    rw [← hm] at hframe hQ
    exact dataOnAir_plain htables hch hne hlen (hQ _) hframe

/-! ### Receiving -/

/-- A PING is answered with a PONG. -/
theorem receiveHeartbeat_airs (radio : Radio) {src : Mac} {data : List U8} {header : Header}
    (hj : node.judge src data = .heartbeat header) (hQ : ∀ mode q, Q (pongHeader mode q)) :
    ∀ e ∈ (receiveHeartbeat radio (Call.start node) header).2.log, e.Airs node Q := by
  unfold receiveHeartbeat
  split
  · rename_i hping
    obtain ⟨-, hdec⟩ := judge_header (congrArg Received.header hj)
    obtain ⟨hm, -⟩ := validateHeader_ping (decodeHeader_ok hdec).2.1 (beq_iff_eq.mp hping)
    refine sendFrame_airs (by rfl) rfl radio (by decide) fun frame hframe => ?_
    exact ⟨_, _, hframe, .pong header.seqId hm, hQ _ _⟩
  · split <;> exact fun e he => absurd he (by simp [Call.start, Call.setNode])

/-- What hands over messages sends nothing. -/
theorem HandsOver.airs {k k' : Call} (h : HandsOver k k')
    (hk : ∀ e ∈ k.log, e.Airs node Q) : ∀ e ∈ k'.log, e.Airs node Q := by
  obtain ⟨messages, hlog, hmsg⟩ := h.log
  intro e he
  rw [hlog] at he
  rcases List.mem_append.mp he with he | he
  · exact hk e he
  · obtain ⟨site, src, c, q, payload, rfl, _⟩ := hmsg e he
    trivial

theorem raiseMessage_airs {k : Call} (hlog : k.log = []) (site : Delivery)
    (src : Mac) (c : U8) (q : U16) (payload : List U8) :
    ∀ e ∈ (raiseMessage k site src c q payload).log, e.Airs node Q := by
  intro e he
  rw [raiseMessage_log, hlog, List.nil_append, List.mem_ite_nil_right, List.mem_singleton] at he
  rw [he.2]
  trivial

/-- **What a frame makes a node send**: a PONG, an ACK, or nothing. -/
theorem onReceive_airs (radio : Radio) (src : Mac) (data : List U8) (now : U32)
    (hack : ∀ c a, Q (ackHeader c a)) (hpong : ∀ mode q, Q (pongHeader mode q)) :
    ∀ e ∈ (onReceive radio node src data now).2.log, e.Airs node Q := by
  have hfound := judge_found node src data
  rw [onReceive_judge]
  have hstart : ∀ e ∈ (Call.start node).log, e.Airs node Q :=
    fun e he => absurd he (by simp [Call.start])
  cases hj : node.judge src data with
  | short => exact hstart
  | ignored => exact hstart
  | heartbeat header => exact receiveHeartbeat_airs radio hj hpong
  | unreliable header =>
      show ∀ e ∈ (receiveUnreliable (Call.start node) src header (framePayload data)).2.log, _
      unfold receiveUnreliable
      split
      · exact raiseMessage_airs rfl .unreliable src _ _ _
      · exact hstart
  | priority header =>
      show ∀ e ∈ (receivePriority (Call.start node) src header (framePayload data)).2.log, _
      unfold receivePriority
      split
      · dsimp only
        split
        · exact hstart
        · split
          · exact raiseMessage_airs rfl .priority src _ _ _
          · exact hstart
      · exact hstart
  | ack header =>
      rw [hj] at hfound
      obtain ⟨_, channel, hacc⟩ := hfound
      obtain ⟨_, state', _, _, _, hrecv⟩ := receiveAck_spec now hacc.at_channel
      show ∀ e ∈ (receiveAck (Call.start node) header now).2.log, _
      rw [hrecv]
      exact hstart
  | data header =>
      rw [hj] at hfound
      obtain ⟨_, channel, hacc⟩ := hfound
      obtain ⟨_, state', _, _, _, hcases⟩ :=
        receiveData_spec radio src (framePayload data) now hacc.at_channel
      obtain ⟨hat, hm⟩ := Node.reliableAt_channelAt hacc.at_channel
      show ∀ e ∈ (receiveData radio (Call.start node) src header (framePayload data) now).2.log, _
      rcases hcases with ⟨_, hrecv⟩ | ⟨_, _, attempts, answer, hanswer, hrecv⟩ <;> rw [hrecv]
      · exact hstart
      · refine (HandsOver.all _ _ _ _ _).airs fun e he => ?_
        -- the ACK, if the radio took it
        rcases hanswer with rfl | ⟨frame, rfl, hframe⟩
        · exact absurd he (by simp)
        · rw [List.mem_singleton.mp he]
          exact ⟨rfl, _, _, hframe,
            .ack _ hacc.notHeartbeat (by rw [stateGetChannelMode_channelAt hat, hm]), hack _ _⟩

/-! ### Polling -/

theorem pollHeartbeat_airs (radio : Radio) {k : Call} (hmac : k.node.peerMac = node.peerMac)
    (hlog : k.log = []) (now : U32) (hping : Q (pingHeader 0#16)) :
    ∀ e ∈ (pollHeartbeat radio k now).log, e.Airs node Q := by
  unfold pollHeartbeat
  dsimp only
  split
  · intro e he
    unfold Call.push at he
    dsimp only [Call.setNode] at he
    rw [hlog, List.nil_append, List.mem_singleton] at he
    rw [he]
    trivial
  · split
    · refine sendFrame_airs (k := k.setNode _) ?_ ?_ radio (by decide)
        fun frame hframe => ⟨_, _, hframe, .ping, hping⟩
      · exact hmac
      · exact hlog
    · intro e he
      dsimp only [Call.setNode] at he
      rw [hlog] at he
      exact absurd he (by simp)

theorem raiseTxEvent_airs {k : Call} (h : ∀ e ∈ k.log, e.Airs node Q)
    (event : TxEvent) (q : U16) : ∀ e ∈ (raiseTxEvent k event q).log, e.Airs node Q := by
  unfold raiseTxEvent
  split
  · intro e he
    rcases List.mem_append.mp he with he | he
    · exact h e he
    · rw [List.mem_singleton.mp he]
      trivial
  · exact h

/-- A retransmission sends a cached packet, on the channel that polled. -/
theorem pollEvent_airs (radio : Radio) {k : Call} (hconfig : SameConfig node k.node)
    (hcached : k.node.CachesPackets) (hlog : ∀ e ∈ k.log, e.Airs node Q) {c : U8}
    (hc : c ≠ heartbeatChannel)
    (hmode : stateGetChannelMode node.state node.peerIndex c = .ok modeReliable)
    (hdata : ∀ flags q payload, Q (dataHeader c flags q payload)) (tx : TxResult) :
    ∀ e ∈ (pollEvent radio k c tx).2.log, e.Airs node Q := by
  unfold pollEvent
  split
  · split
    · exact raiseTxEvent_airs hlog _ _
    · rename_i i hi
      obtain ⟨hflags, hne, hlen⟩ := hcached i (keyIdx_some TxCache.inUse TxCache.seqId hi).1
      rw [hconfig.maxPayload] at hlen
      have hsent : ∀ e ∈ (sendFrame radio k modeReliable c typeData k.node.txCache[i].flags
          k.node.txCache[i].seqId 0#16 k.node.txCache[i].payload).2.log, e.Airs node Q := by
        rcases sendFrame_cases radio k modeReliable c typeData k.node.txCache[i].flags
            k.node.txCache[i].seqId 0#16 k.node.txCache[i].payload hflags.lt with
          ⟨e, attempts, _, heq⟩ | ⟨frame, attempts, hframe, heq⟩ <;> rw [heq]
        · exact hlog
        · intro x hx
          rcases List.mem_append.mp hx with hx | hx
          · exact hlog x hx
          · rw [List.mem_singleton.mp hx]
            exact ⟨hconfig.peerMac, _, _, hframe,
              .data _ hmode ⟨hc, hflags, hlen⟩ (fun hm => absurd rfl hm) hne, hdata _ _ _⟩
      dsimp only
      split
      · exact hsent
      · exact raiseTxEvent_airs hsent _ _
  · exact raiseTxEvent_airs (k := k.setNode (txCacheRemove k.node tx.seqId)) hlog _ _
  · exact raiseTxEvent_airs hlog _ _

/-- **What a poll sends**: a PING, a cached packet once more, or nothing. -/
theorem poll_airs (radio : Radio) (htables : TablesOk node.state) (hcached : node.CachesPackets)
    (now : U32) (hping : Q (pingHeader 0#16))
    (hdata : ∀ c flags q payload, Q (dataHeader c flags q payload)) :
    ∀ e ∈ (poll radio node now).2.log, e.Airs node Q := by
  obtain ⟨node₁, hnode₁, hcases⟩ := poll_cases radio node now
  have hconfig := pollReassembly_sameConfig node now
  have hbeat := pollHeartbeat_quiet radio (pollReassembly node now) now
  have hairs := pollHeartbeat_airs (Q := Q) radio (k := Call.start (pollReassembly node now))
    hconfig.peerMac rfl now hping
  have hkeeps : (pollHeartbeat radio (Call.start (pollReassembly node now)) now).node.CachesPackets
      := by
    rw [hbeat.node_eq]
    rcases pollReassembly_cases node now with hre | ⟨_, hre⟩ <;> rw [hre] <;> exact hcached
  -- the scheduler names a reliable channel of the node
  have hreport : ∀ c tx, pollReport radio node now = some (c, tx) →
      ∃ channel, node.reliableAt c = some channel := by
    intro c tx hr
    rcases hcases with ⟨hnone, _⟩ | ⟨_, c', channel, _, _, _, _, _, hch, _, _, _, _, hsome, _⟩
    · rw [hnone] at hr
      exact absurd hr (by simp)
    · rw [hsome] at hr
      obtain ⟨rfl, -⟩ := Prod.ext_iff.mp (Option.some.inj hr)
      rw [hnode₁] at hch
      exact ⟨channel, (congrFun (reliableAt_pollReassembly node now) c').symm.trans hch⟩
  have hsame := hconfig.trans hbeat.sameConfig
  unfold pollReport at hreport
  unfold poll
  dsimp only at hreport ⊢
  generalize pollHeartbeat radio (Call.start (pollReassembly node now)) now = k
    at hairs hkeeps hreport hsame ⊢
  split
  · exact hairs
  · rename_i c tx hout
    obtain ⟨channel, hch⟩ := hreport c tx hout
    obtain ⟨hat, hm⟩ := Node.reliableAt_channelAt hch
    refine pollEvent_airs radio (k := k.setNode _) ?_ ?_ ?_ (htables.notHeartbeat hch)
      (by rw [stateGetChannelMode_channelAt hat, hm]) (hdata c) tx
    · exact hsame.trans ⟨rfl, rfl, rfl, rfl, rfl⟩
    · exact hkeeps
    · exact hairs

end Logs

/-! ## Whole runs -/

/-- **The kind of packet a call may send.** -/
def ApiCall.MaySend : ApiCall → Header → Prop
  | .openChannel _ _ _, _ => False
  | .sendReliable c _ _, header =>
      header.mode = modeReliable ∧ header.channelId = c ∧ header.type = typeData
  | .sendUnreliable c _, header =>
      header.mode = modeUnreliable ∧ header.channelId = c ∧ header.type = typeData
  | .sendPriority c _, header =>
      header.mode = modePriority ∧ header.channelId = c ∧ header.type = typeData
  | .onReceive _ _ _, header => header.type = typeAck ∨ header.type = typePong
  | .poll _, header =>
      header.mode = modeReliable ∧ header.type = typeData ∨ header.type = typePing

/-- **What a node has sent so far it may send**; and so it may what it keeps to send again. -/
structure Conforms (w : NodeRun) : Prop where
  tables : TablesOk w.node.state
  cached : w.node.CachesPackets
  airs : ∀ e ∈ w.history, e.Airs w.node fun _ => True

theorem Event.Airs.grow {node node' : Node} {Q : Header → Prop} {e : Event} (h : e.Airs node Q)
    (hconfig : SameConfig node node')
    (hmodes : ∀ c mode, stateGetChannelMode node.state node.peerIndex c = .ok mode →
      stateGetChannelMode node'.state node'.peerIndex c = .ok mode) :
    e.Airs node' fun _ => True := by
  cases e with
  | sent dst frame =>
      obtain ⟨hdst, header, payload, hframe, hsend, _⟩ := h
      exact ⟨hdst.trans hconfig.peerMac.symm, header, payload, hframe,
        hsend.grow hconfig.maxPayload hmodes, trivial⟩
  | _ => trivial

/-- A call leaves the cache alone, or takes a packet out. -/
theorem cachesPackets_kept {node node' : Node} {q : U16} (h : node.CachesPackets)
    (hconfig : SameConfig node node')
    (hcache : node'.txCache = node.txCache ∨ node'.txCache = (txCacheRemove node q).txCache) :
    node'.CachesPackets := by
  intro i hu
  rw [hconfig.maxPayload]
  rcases hcache with hcache | hcache <;> rw [hcache] at hu ⊢
  · exact h i hu
  · have hkept := txCacheRemove_kept hu
    rw [hkept] at hu ⊢
    exact h i hu

theorem cachesPackets_step {w : NodeRun} (htables : TablesOk w.node.state)
    (hcached : w.node.CachesPackets) (a : ApiStep) : (w.step a).node.CachesPackets := by
  have hsame := sameConfig_step w a
  obtain ⟨radio, call⟩ := a
  have hstart := Airing.start (Q := fun _ => True) htables hcached
  cases call with
  | openChannel c mode priority => exact hcached
  | sendReliable c payload now =>
      exact (hstart.sendReliable radio (fun _ _ _ => trivial) payload now).cached
  | sendUnreliable c payload =>
      exact (hstart.quiet (sendUnreliable_quiet radio w.node c payload)
        (sendUnreliable_airs radio htables fun _ => trivial)).cached
  | sendPriority c payload =>
      exact (hstart.quiet (sendPriority_quiet radio w.node c payload)
        (sendPriority_airs radio htables fun _ => trivial)).cached
  | onReceive src data now =>
      rcases onReceive_tx radio w.node src data now with ⟨hq, _⟩ |
        ⟨header, _, _, _, _, _, _, hcache, _⟩
      · exact cachesPackets_kept (q := 0#16) hcached hsame (Or.inl hq.cache)
      · exact cachesPackets_kept hcached hsame (Or.inr hcache)
  | poll now =>
      obtain ⟨_, hq | ⟨_, _, _, _, _, _, _, _, _, _, hcache, _⟩⟩ := poll_tx radio w.node now
      · exact cachesPackets_kept (q := 0#16) hcached hsame (Or.inl hq.cache)
      · exact cachesPackets_kept hcached hsame (Or.inr hcache)

/-- **What a call sends** is of its kind. -/
theorem call_airs {w : NodeRun} (htables : TablesOk w.node.state)
    (hcached : w.node.CachesPackets) (a : ApiStep) :
    ∀ e ∈ (a.call.run a.radio w.node).2.log, e.Airs w.node a.call.MaySend := by
  obtain ⟨radio, call⟩ := a
  cases call with
  | openChannel c mode priority => exact fun e he => absurd he (by simp [ApiCall.run, Call.start])
  | sendReliable c payload now =>
      exact ((Airing.start htables hcached).sendReliable radio (fun _ _ _ => ⟨rfl, rfl, rfl⟩)
        payload now).airs
  | sendUnreliable c payload => exact sendUnreliable_airs radio htables fun _ => ⟨rfl, rfl, rfl⟩
  | sendPriority c payload => exact sendPriority_airs radio htables fun _ => ⟨rfl, rfl, rfl⟩
  | onReceive src data now =>
      exact onReceive_airs radio src data now (fun _ _ => Or.inl rfl) fun _ _ => Or.inr rfl
  | poll now =>
      exact poll_airs radio htables hcached now (Or.inr rfl) fun _ _ _ _ => Or.inl ⟨rfl, rfl⟩

/-- **Each call keeps it so.** -/
theorem conforms_step (w : NodeRun) (a : ApiStep) (h : Conforms w) : Conforms (w.step a) := by
  obtain ⟨htables, hgrows⟩ := h.tables.writes (apiStep_writes w a)
  have hsame := sameConfig_step w a
  refine ⟨htables, cachesPackets_step h.tables h.cached a, fun e he => ?_⟩
  have hmodes : ∀ c mode, stateGetChannelMode w.node.state w.node.peerIndex c = .ok mode →
      stateGetChannelMode (w.step a).node.state (w.step a).node.peerIndex c = .ok mode := by
    intro c mode hmode
    rw [hsame.peerIndex]
    exact hgrows.getChannelMode htables hmode
  rcases List.mem_append.mp he with he | he
  · exact (h.airs e he).grow hsame hmodes
  · exact (call_airs h.tables h.cached a e he).grow hsame hmodes

theorem conforms_init {node node' : Node} {cfg : Config} (h : init node cfg = (.ok, node')) :
    Conforms ⟨node', []⟩ := by
  refine ⟨tablesOk_run h [], ?_, fun e he => absurd he (by simp)⟩
  obtain ⟨state, _, rfl, _⟩ := init_ok h
  intro i hu
  have hfree : (Node.configured cfg state).txCache[i].inUse = false := by
    show (Vector.replicate maxPending (⟨false, 0#16, 0#8, []⟩ : TxCache))[i].inUse = false
    rw [get_replicate]
  rw [hfree] at hu
  exact absurd hu (by simp)

theorem conforms_run {node₀ node : Node} {cfg : Config} (hinit : init node₀ cfg = (.ok, node))
    (as : List ApiStep) : Conforms (run NodeRun.step ⟨node, []⟩ as) :=
  invariant (P := fun _ _ => True) (fun w a h _ => conforms_step w a h) (conforms_init hinit)
    (Along.of_forall (fun _ _ => trivial) as _)

/-! ## Reading it -/

theorem validateHeader_le {header : Header} {maxPayload maxPayload' : U16}
    (h : validateHeader header maxPayload = .ok)
    (hlen : header.payloadLen.toNat ≤ maxPayload'.toNat) :
    validateHeader header maxPayload' = .ok := by
  have hle : ¬ maxPayload' < header.payloadLen := by
    rw [BitVec.lt_def]
    omega
  have hlt : ¬ maxPayload < header.payloadLen := by
    intro hlt
    unfold validateHeader at h
    rw [if_pos hlt] at h
    split_ifs at h
  -- no other check reads the bound
  unfold validateHeader at h ⊢
  rw [if_neg hlt] at h
  rw [if_neg hle]
  exact h

/-- **A frame decodes to what it was made of**, at every node whose payloads are as long. -/
theorem FrameOf.decodes_at {frame payload : List U8} {header : Header} (h : FrameOf frame header
    payload) {maxPayload : U16} (hlen : payload.length ≤ maxPayload.toNat) :
    decodeHeader frame maxPayload = .ok header ∧ framePayload frame = payload
      ∧ frame.length = headerSize + payload.length := by
  obtain ⟨mp, bytes, henc, hframe, hpl, hflags⟩ := id h
  obtain ⟨hv, hbytes⟩ := encodeHeader_ok.mp henc
  have hv' : validateHeader header maxPayload = .ok := validateHeader_le hv (by omega)
  obtain ⟨hdec, hpay⟩ := h.decodes hv'
  refine ⟨hdec, hpay, ?_⟩
  rw [hframe, List.length_append, hbytes]
  simp [headerSize]

/-- What a node has sent, as its peer reads it. -/
structure ReadAs (node : Node) (frame : List U8) (header : Header) : Prop where
  decoded : ∀ maxPayload : U16, node.maxPayload.toNat ≤ maxPayload.toNat →
    decodeHeader frame maxPayload = .ok header
  /-- It is one of the four kinds of packets, on a channel that is open. -/
  sendable : Sendable node header (framePayload frame)
  /-- No node with the same channels drops it unread. -/
  kept : ∀ peer : Node, node.maxPayload.toNat ≤ peer.maxPayload.toNat →
    (∀ c mode, stateGetChannelMode node.state node.peerIndex c = .ok mode →
      stateGetChannelMode peer.state peer.peerIndex c = .ok mode) →
    (peer.judge peer.peerMac frame).header = some header

theorem validateHeader_mode {header : Header} {maxPayload : U16}
    (h : validateHeader header maxPayload = .ok) : header.mode = modeReliable
      ∨ header.mode = modeUnreliable ∨ header.mode = modePriority := by
  have hmode : isValidMode header.mode = true := by
    by_contra hbad
    rw [Bool.not_eq_true] at hbad
    unfold validateHeader at h
    rw [hbad] at h
    split at h <;> simp at h
  unfold isValidMode at hmode
  simp only [Bool.or_eq_true, beq_iff_eq, or_assoc] at hmode
  exact hmode

/-- **A packet on an open channel is read**, in whichever mode. -/
theorem judge_read {peer : Node} {frame : List U8} {header : Header}
    (hlen : headerSize ≤ frame.length) (hdec : decodeHeader frame peer.maxPayload = .ok header)
    (hc : header.channelId ≠ heartbeatChannel)
    (hmode : stateGetChannelMode peer.state peer.peerIndex header.channelId = .ok header.mode)
    (htype : header.type = typeData ∨ header.mode = modeReliable ∧ header.type = typeAck) :
    (peer.judge peer.peerMac frame).header = some header := by
  have hmodes := validateHeader_mode (decodeHeader_ok hdec).2.1
  unfold Node.judge
  rw [if_neg (Nat.not_lt.mpr hlen), if_neg (not_not.mpr rfl), hdec]
  dsimp only
  rw [if_neg (by rwa [beq_iff_eq]), hmode]
  dsimp only
  rw [if_neg (by simp)]
  rcases htype with ht | ⟨hm, ht⟩
  · rcases hmodes with hm | hm | hm <;> rw [hm, ht] <;> rfl
  · rw [hm, ht]
    rfl

theorem Sendable.judged {node : Node} {header : Header} {payload : List U8}
    (h : Sendable node header payload) {peer : Node} {frame : List U8}
    (hlen : headerSize ≤ frame.length) (hdec : decodeHeader frame peer.maxPayload = .ok header)
    (hmodes : ∀ c mode, stateGetChannelMode node.state node.peerIndex c = .ok mode →
      stateGetChannelMode peer.state peer.peerIndex c = .ok mode) :
    (peer.judge peer.peerMac frame).header = some header := by
  cases h with
  | data q hmode hfits hplain hne =>
      exact judge_read hlen hdec hfits.notHeartbeat (hmodes _ _ hmode) (Or.inl rfl)
  | ack a hc hmode => exact judge_read hlen hdec hc (hmodes _ _ hmode) (Or.inr ⟨rfl, rfl⟩)
  | ping =>
      unfold Node.judge
      rw [if_neg (Nat.not_lt.mpr hlen), if_neg (not_not.mpr rfl), hdec]
      rfl
  | pong q hm =>
      unfold Node.judge
      rw [if_neg (Nat.not_lt.mpr hlen), if_neg (not_not.mpr rfl), hdec]
      rfl

/--
**What a node puts on the air.** In every run of a node, whatever the application
calls, whatever reaches it and whatever the radio refuses: every frame it puts on
the air goes to the configured peer, has at most 250 bytes, and is DATA of an
open channel in that channel's mode, an ACK of an open RELIABLE channel, a PING or
a PONG. A peer that takes payloads as long and has the same channels open decodes
it to the same header and does not drop it unread.
-/
theorem sent_onAir {node₀ node : Node} {cfg : Config} (hinit : init node₀ cfg = (.ok, node))
    (as : List ApiStep) {dst : Mac} {frame : List U8}
    (h : .sent dst frame ∈ (run NodeRun.step ⟨node, []⟩ as).history) :
    dst = cfg.peerMac ∧ frame.length ≤ 250
      ∧ ∃ header, ReadAs (run NodeRun.step ⟨node, []⟩ as).node frame header := by
  obtain ⟨hdst, header, payload, hframe, hsend, -⟩ := (conforms_run hinit as).airs _ h
  obtain ⟨-, hmax⟩ := maxPayload_run hinit as
  have hmac : (run NodeRun.step ⟨node, []⟩ as).node.peerMac = cfg.peerMac := by
    rw [(sameConfig_run node as).peerMac]
    obtain ⟨_, _, rfl, -⟩ := init_ok hinit
    rfl
  generalize run NodeRun.step ⟨node, []⟩ as = w at hdst hsend hmax hmac
  have hlen := hsend.length
  have hsize := (hframe.decodes_at hlen).2.2
  refine ⟨hdst.trans hmac, ?_, header, ?_⟩
  · unfold headerSize at hsize
    unfold maxPayloadLimit at hmax
    omega
  · obtain ⟨-, hpay, -⟩ := hframe.decodes_at hlen
    refine ⟨fun maxPayload hle => (hframe.decodes_at (hlen.trans hle)).1, by rwa [hpay],
      fun peer hle hmodes => ?_⟩
    exact hsend.judged (by omega) (hframe.decodes_at (hlen.trans hle)).1 hmodes

/-- A fragment sent again, after its first frame was lost. -/
def resendRun : List ApiStep :=
  [⟨Radio.up, .sendReliable 1#8 [1#8, 2#8, 3#8] 0#32⟩, ⟨Radio.up, .poll 1000#32⟩]

def resentFrame : List U8 := [0x11#8, 0x11#8, 0#8, 0#8, 0#8, 0#8, 1#8, 0#8, 2#8, 1#8, 2#8]

theorem resentFrame_onAir : ∃ header,
    ReadAs (run NodeRun.step ⟨pairNode, []⟩ resendRun).node resentFrame header := by
  have hinit : init Node.zero { listenConfig with maxPayload := 2#16 } = (.ok, pairNode) :=
    Prod.ext (by decide +kernel) rfl
  have hsent : .sent listenConfig.peerMac resentFrame
      ∈ (run NodeRun.step ⟨pairNode, []⟩ resendRun).history := by decide +kernel
  exact (sent_onAir hinit resendRun hsent).2.2

end Relinow
