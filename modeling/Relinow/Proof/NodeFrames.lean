import Relinow.Node
import Relinow.Proof.ReliableChannels
import Relinow.Proof.PacketCodec

/-!
# Frames and background

What each node call can do is said in terms of the reliable channels, the caches and
the log, one lemma for each function of the node. This is what the calls share: the
frames they hand to the radio, and what calls that have nothing to do with the
reliable mode may do. Those are *quiet*: they touch neither the reliable channels nor
anything the node keeps beside its state, and what they log is background.
-/

namespace Relinow

open SlotTable

/-- The reliable channel a node has open under the id `c`. -/
def Node.reliableAt (node : Node) (c : U8) : Option ChannelState :=
  Relinow.reliableAt node.state node.peerIndex c

theorem Node.reliableAt_channelAt {node : Node} {c : U8} {channel : ChannelState}
    (h : node.reliableAt c = some channel) :
    channelAt node.state node.peerIndex c = some channel ∧ channel.mode = modeReliable :=
  reliableAt_eq_some.mp h

/-! ## Frames -/

/-- The header `relinow_send_frame` fills in. -/
def frameHeader (mode channelId type flags : U8) (seqId ackId : U16) (payload : List U8) : Header :=
  { version := protocolVersion, mode := mode, type := type, flags := flags
    seqId := seqId, ackId := ackId, channelId := channelId
    payloadLen := BitVec.ofNat 16 payload.length }

/-- The header of a DATA frame on a reliable channel. -/
def dataHeader (c flags : U8) (seqId : U16) (payload : List U8) : Header :=
  frameHeader modeReliable c typeData flags seqId 0#16 payload

/-- The header of an ACK frame. -/
def ackHeader (c : U8) (ackId : U16) : Header :=
  frameHeader modeReliable c typeAck 0#8 0#16 ackId []

/-- A frame whose header is encoded is handed to the radio. -/
theorem sendFrame_encoded (radio : Radio) {k : Call} {mode c type flags : U8} {q a : U16}
    {payload bytes : List U8} (hlen : payload.length ≤ k.node.maxPayload.toNat)
    (henc : encodeHeader (frameHeader mode c type flags q a payload) k.node.maxPayload
      = .ok bytes) :
    sendFrame radio k mode c type flags q a payload
      = espNowSend radio k k.node.peerMac (bytes ++ payload) := by
  unfold frameHeader at henc
  unfold sendFrame
  rw [if_neg (by omega)]
  dsimp only
  rw [henc]

/-- A frame whose header is refused is not. -/
theorem sendFrame_refused (radio : Radio) {k : Call} {mode c type flags : U8} {q a : U16}
    {payload : List U8} {e : Err}
    (henc : encodeHeader (frameHeader mode c type flags q a payload) k.node.maxPayload
      = .error e) :
    sendFrame radio k mode c type flags q a payload = (.invalidArg, k) := by
  unfold frameHeader at henc
  unfold sendFrame
  split
  · rfl
  · dsimp only
    rw [henc]

/-- **A frame is sent as encoded, or not at all**; the node stays as it is. -/
theorem sendFrame_cases (radio : Radio) (k : Call) (mode c type flags : U8) (q a : U16)
    (payload : List U8) (hflags : flags.toNat < 16) :
    (∃ e attempts, e ≠ .ok
        ∧ sendFrame radio k mode c type flags q a payload = (e, { k with attempts := attempts }))
    ∨ ∃ frame attempts, FrameOf frame (frameHeader mode c type flags q a payload) payload
        ∧ sendFrame radio k mode c type flags q a payload
          = (.ok, { k with
              attempts := attempts, log := k.log ++ [.sent k.node.peerMac frame] }) := by
  cases henc : encodeHeader (frameHeader mode c type flags q a payload) k.node.maxPayload with
  | error e => exact Or.inl ⟨.invalidArg, k.attempts, by simp, sendFrame_refused radio henc⟩
  | ok bytes =>
      by_cases hlen : k.node.maxPayload.toNat < payload.length
      · refine Or.inl ⟨.invalidArg, k.attempts, by simp, ?_⟩
        unfold sendFrame
        rw [if_pos hlen]
      · rw [Nat.not_lt] at hlen
        have hframe : FrameOf (bytes ++ payload) (frameHeader mode c type flags q a payload)
            payload := by
          refine ⟨_, bytes, henc, rfl, ?_, hflags⟩
          show (BitVec.ofNat 16 payload.length).toNat = payload.length
          -- the length field has sixteen bits, as `maxPayload` has
          have := k.node.maxPayload.isLt
          rw [BitVec.toNat_ofNat, Nat.mod_eq_of_lt (by omega)]
        rw [sendFrame_encoded radio hlen henc]
        unfold espNowSend
        dsimp only
        cases radio k.attempts with
        | none => exact Or.inr ⟨bytes ++ payload, k.attempts + 1, hframe, rfl⟩
        | some code => exact Or.inl ⟨.espNow code, k.attempts + 1, by simp, rfl⟩

theorem sendFrame_node (radio : Radio) (k : Call) (mode c type flags : U8) (q a : U16)
    (payload : List U8) : (sendFrame radio k mode c type flags q a payload).2.node = k.node := by
  unfold sendFrame
  split
  · rfl
  · dsimp only
    split
    · rfl
    · unfold espNowSend
      dsimp only
      split <;> rfl

/-- Sending logs frames only. -/
theorem sendFrame_log (radio : Radio) (k : Call) (mode c type flags : U8) (q a : U16)
    (payload : List U8) :
    ∃ sent, (sendFrame radio k mode c type flags q a payload).2.log = k.log ++ sent
      ∧ ∀ e ∈ sent, ∃ dst frame, e = .sent dst frame := by
  have hnone : ∃ sent, k.log = k.log ++ sent ∧ ∀ e ∈ sent, ∃ dst frame, e = Event.sent dst frame :=
    ⟨[], (List.append_nil _).symm, by simp⟩
  unfold sendFrame
  split
  · exact hnone
  · dsimp only
    split
    · exact hnone
    · unfold espNowSend
      dsimp only
      split
      · exact ⟨_, rfl, fun e he => ⟨_, _, List.mem_singleton.mp he⟩⟩
      · exact hnone

theorem raiseTxEvent_node (k : Call) (event : TxEvent) (q : U16) :
    (raiseTxEvent k event q).node = k.node := by
  unfold raiseTxEvent
  split <;> rfl

theorem raiseMessage_node (k : Call) (site : Delivery) (src : Mac) (c : U8) (q : U16)
    (payload : List U8) : (raiseMessage k site src c q payload).node = k.node := by
  unfold raiseMessage
  split <;> rfl

/-- The flags a DATA frame can carry. -/
def DataFlags (flags : U8) : Prop :=
  flags = 0#8 ∨ flags = flagFragment ∨ flags = flagFragment ||| flagLastFragment

theorem DataFlags.lt {flags : U8} (h : DataFlags flags) : flags.toNat < 16 := by
  rcases h with rfl | rfl | rfl <;> decide

/-- A DATA frame that fits is valid. -/
theorem validate_dataHeader {c flags : U8} {q maxPayload : U16} {payload : List U8}
    (hc : c ≠ heartbeatChannel) (hf : DataFlags flags) (hlen : payload.length ≤ maxPayload.toNat) :
    validateHeader (dataHeader c flags q payload) maxPayload = .ok := by
  have hnot : ¬ maxPayload < BitVec.ofNat 16 payload.length := by
    have := maxPayload.isLt
    rw [BitVec.not_lt]
    show (BitVec.ofNat 16 payload.length).toNat ≤ maxPayload.toNat
    rw [BitVec.toNat_ofNat, Nat.mod_eq_of_lt (by omega)]
    exact hlen
  have hcb : (c == heartbeatChannel) = false := by simpa using hc
  have hack : (typeData == typeAck) = false := by decide
  unfold validateHeader dataHeader frameHeader
  simp only [hnot, hcb, hack, Bool.false_and, if_false, Bool.false_eq_true]
  rcases hf with rfl | rfl | rfl <;> repeat rw [if_neg (by decide)]

/-- The payload fits into one DATA frame of the channel `c`. -/
structure Fits (node : Node) (c flags : U8) (payload : List U8) : Prop where
  notHeartbeat : c ≠ heartbeatChannel
  flags : DataFlags flags
  length : payload.length ≤ node.maxPayload.toNat

/-- **A DATA frame that fits is handed to the radio.** -/
theorem sendFrame_data (radio : Radio) (k : Call) {c flags : U8} (q : U16) {payload : List U8}
    (h : Fits k.node c flags payload) :
    ∃ frame, FrameOf frame (dataHeader c flags q payload) payload
      ∧ sendFrame radio k modeReliable c typeData flags q 0#16 payload
        = espNowSend radio k k.node.peerMac frame := by
  have hv := validate_dataHeader (q := q) h.notHeartbeat h.flags h.length
  have hmax := k.node.maxPayload.isLt
  have hlen := h.length
  cases henc : encodeHeader (dataHeader c flags q payload) k.node.maxPayload with
  | error e =>
      unfold encodeHeader at henc
      rw [hv] at henc
      exact absurd henc (by simp)
  | ok bytes =>
      refine ⟨bytes ++ payload, ⟨_, bytes, henc, rfl, ?_, h.flags.lt⟩, ?_⟩
      · show (BitVec.ofNat 16 payload.length).toNat = payload.length
        rw [BitVec.toNat_ofNat, Nat.mod_eq_of_lt (by omega)]
      · exact sendFrame_encoded radio hlen henc

theorem sendFrame_asked {radio : Radio} {k k' : Call} {c flags : U8} {q : U16} {payload : List U8}
    {e : EspErr} (h : Fits k.node c flags payload)
    (heq : sendFrame radio k modeReliable c typeData flags q 0#16 payload = (e, k')) :
    k'.attempts = k.attempts + 1 ∧ e = match radio k.attempts with
      | none => .ok
      | some code => .espNow code := by
  obtain ⟨frame, -, hsend⟩ := sendFrame_data radio k q h
  rw [hsend] at heq
  unfold espNowSend at heq
  dsimp only at heq
  cases hr : radio k.attempts with
  | none =>
      rw [hr] at heq
      obtain ⟨rfl, rfl⟩ := Prod.mk.inj heq
      exact ⟨rfl, rfl⟩
  | some code =>
      rw [hr] at heq
      obtain ⟨rfl, rfl⟩ := Prod.mk.inj heq
      exact ⟨rfl, rfl⟩

/-- The radio was asked once, and `out` is what came of its answer. -/
structure Asked (radio : Radio) (k : Call) (attempts : Nat) (out : Transmit) : Prop where
  attempts : attempts = k.attempts + 1
  out : out = match radio k.attempts with
    | none => .done
    | some code => .radio (.espNow code)

/-! ## Background -/

/-- What calls of `node` outside the reliable mode log. -/
def Event.Background (node : Node) : Event → Prop
  | .sent _ frame => ∃ header payload, FrameOf frame header payload
      ∧ (header.mode ≠ modeReliable ∨ header.channelId = heartbeatChannel)
  | .message site _ c _ _ => (site = .unreliable ∨ site = .priority)
      ∧ ∃ channel, channelAt node.state node.peerIndex c = some channel
        ∧ channel.mode ≠ modeReliable
  | .peerTimeout _ => True
  | .txEvent _ _ => False
  | .assigned _ _ _ _ => False

/-- The call left the reliable mode alone. -/
structure QuietCall (node : Node) (k : Call) : Prop where
  node_eq : k.node = { node with state := k.node.state }
  state : Quiet node.peerIndex node.state k.node.state
  log : ∀ e ∈ k.log, e.Background node

theorem QuietCall.start (node : Node) : QuietCall node (Call.start node) :=
  ⟨rfl, Quiet.refl _ _, fun e h => absurd h (by simp [Call.start])⟩

theorem QuietCall.reliableAt {node : Node} {k : Call} (h : QuietCall node k) :
    k.node.reliableAt = node.reliableAt := by
  unfold Node.reliableAt
  rw [h.node_eq]
  exact h.state.reliable

theorem QuietCall.setState {node : Node} {k : Call} (h : QuietCall node k) {state : State}
    (hq : Quiet node.peerIndex k.node.state state) :
    QuietCall node (k.setNode { k.node with state := state }) where
  node_eq := by
    show { k.node with state := state } = _
    rw [h.node_eq]
    rfl
  state := h.state.trans hq
  log := h.log

theorem QuietCall.push {node : Node} {k : Call} (h : QuietCall node k) {e : Event}
    (he : e.Background node) : QuietCall node (k.push e) where
  node_eq := h.node_eq
  state := h.state
  log := by
    intro x hx
    rcases List.mem_append.mp hx with hx | hx
    · exact h.log x hx
    · rw [List.mem_singleton.mp hx]
      exact he

/-- Sending a frame that is not the reliable mode's is quiet. -/
theorem QuietCall.sendFrame {node : Node} {k : Call} (h : QuietCall node k) (radio : Radio)
    {mode c : U8} (type : U8) (q a : U16) (payload : List U8)
    (hm : mode ≠ modeReliable ∨ c = heartbeatChannel) :
    QuietCall node (sendFrame radio k mode c type 0#8 q a payload).2 := by
  rcases sendFrame_cases radio k mode c type 0#8 q a payload (by decide) with
    ⟨e, attempts, _, heq⟩ | ⟨frame, attempts, hframe, heq⟩ <;> rw [heq]
  · exact ⟨h.node_eq, h.state, h.log⟩
  · have hp := h.push (e := .sent k.node.peerMac frame) ⟨_, _, hframe, hm⟩
    exact ⟨hp.node_eq, hp.state, hp.log⟩

theorem QuietCall.raiseMessage {node : Node} {k : Call} (h : QuietCall node k) {site : Delivery}
    (src : Mac) {c : U8} (q : U16) (payload : List U8) (hs : site = .unreliable ∨ site = .priority)
    {channel : ChannelState} (hch : channelAt node.state node.peerIndex c = some channel)
    (hm : channel.mode ≠ modeReliable) :
    QuietCall node (raiseMessage k site src c q payload) := by
  unfold Relinow.raiseMessage
  split
  · exact h.push ⟨hs, channel, hch, hm⟩
  · exact h

end Relinow
