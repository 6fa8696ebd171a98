import Relinow.Proof.ReceiveSide
import Relinow.Proof.TransmitSide

/-!
# A node with one reliable channel

Which channels are open, and what each call puts on the air. On a node whose one
channel is reliable, a frame that is not DATA hands nothing to the application.
-/

namespace Relinow

open SlotTable

/-- The only channel that can be open is `c₀`, as a reliable one. -/
def Solo (c₀ : U8) (node : Node) : Prop :=
  ∀ c channel, channelAt node.state node.peerIndex c = some channel →
    c = c₀ ∧ channel.mode = modeReliable

theorem Solo.reliable {c₀ c : U8} {node : Node} (h : Solo c₀ node) {channel : ChannelState}
    (hc : node.reliableAt c = some channel) : c = c₀ :=
  (h c channel (Node.reliableAt_channelAt hc).1).1

/-- The nodes have the same channels open. -/
structure SameOpen (node node' : Node) : Prop where
  opened : ∀ c, channelAt node'.state node'.peerIndex c = none
    ↔ channelAt node.state node.peerIndex c = none
  reliable : SameChannels (fun _ => ()) node node'

theorem SameOpen.trans {a b c : Node} (h : SameOpen a b) (h' : SameOpen b c) : SameOpen a c :=
  ⟨fun d => (h'.opened d).trans (h.opened d), h.reliable.trans h'.reliable⟩

theorem SameOpen.refl (node : Node) : SameOpen node node :=
  ⟨fun _ => Iff.rfl, SameChannels.of_eq rfl⟩

/-- Nodes with the same peer open the same channels. -/
theorem SameOpen.of_state {node node' : Node} (hs : node'.state = node.state)
    (hp : node'.peerIndex = node.peerIndex) : SameOpen node node' := by
  refine ⟨fun c => by rw [hs, hp], SameChannels.of_eq ?_⟩
  unfold Node.reliableAt
  rw [hs, hp]

/-- Only what is open can become of a channel. -/
theorem Solo.step {c₀ : U8} {node node' : Node} (h : Solo c₀ node) (hs : SameOpen node node') :
    Solo c₀ node' := by
  intro c channel' hch'
  cases hch : channelAt node.state node.peerIndex c with
  | none =>
      rw [(hs.opened c).mpr hch] at hch'
      exact absurd hch' (by simp)
  | some channel =>
      obtain ⟨hc, hm⟩ := h c channel hch
      obtain ⟨b, hb, _⟩ := hs.reliable.after (reliableAt_eq_some.mpr ⟨hch, hm⟩)
      obtain ⟨hbc, hbm⟩ := Node.reliableAt_channelAt hb
      obtain rfl := Option.some.inj (hbc.symm.trans hch')
      exact ⟨hc, hbm⟩

/-- No message of another mode comes out of such a node. -/
theorem Solo.silent {c₀ : U8} {node : Node} (h : Solo c₀ node) {e : Event}
    (he : e.NoDelivery node) {site : Delivery} {src : Mac} {c : U8} {q : U16}
    {payload : List U8} : e ≠ .message site src c q payload := by
  rintro rfl
  obtain ⟨_, channel, hch, hm⟩ := he
  exact hm (h c channel hch).2

theorem QuietCall.sameOpen {node : Node} {k : Call} (h : QuietCall node k) :
    SameOpen node k.node := by
  refine ⟨fun c => ?_, SameChannels.of_eq h.reliableAt⟩
  rw [show k.node.peerIndex = node.peerIndex by rw [h.node_eq]]
  exact h.state.opened c

theorem transmitNew_sameOpen (radio : Radio) (k : Call) (c flags : U8) (track : Bool)
    (payload : List U8) (now : U32) (hflags : flags.toNat < 16) :
    SameOpen k.node (transmitNew radio k c flags track payload now).2.node := by
  rcases transmitNew_cases radio k c flags track payload now hflags with ⟨heq, _⟩ |
    ⟨channel, channel', state', hch, _, _, hrel, hopen, ⟨_, heq⟩ | ⟨i, node', attempts, out, rest,
      _, hnode, heq, _⟩⟩ <;> rw [heq]
  · exact SameOpen.refl _
  · exact ⟨hopen, SameChannels.update hch hrel rfl⟩
  · have hset : SameOpen k.node node' := by
      rw [hnode]
      exact ⟨hopen, SameChannels.update hch hrel rfl⟩
    refine hset.trans ?_
    dsimp only
    rw [trackIf_frame]
    exact SameOpen.of_state rfl rfl

theorem onReceive_sameOpen (radio : Radio) (node : Node) (src : Mac) (data : List U8)
    (now : U32) : SameOpen node (onReceive radio node src data now).2.node := by
  rcases onReceive_cases radio node src data now with
    ⟨header, channel, hacc, ⟨_, heq⟩ | ⟨_, heq⟩⟩ | hq
  · obtain ⟨channel', state', _, hrel, hopen, hrecv⟩ := receiveAck_spec now hacc.at_channel
    rw [heq, hrecv]
    show SameOpen node (fragmentTxOnAck (txCacheRemove { node with state := state' } header.ackId)
      header.ackId)
    rw [fragmentTxOnAck_frame, txCacheRemove_frame]
    exact ⟨hopen, SameChannels.update hacc.at_channel hrel rfl⟩
  · obtain ⟨channel', state', _, hrel, hopen, hcases⟩ :=
      receiveData_spec radio src (framePayload data) now hacc.at_channel
    -- DATA writes the engine and the caches, and opens nothing
    have harrived : SameOpen node (node.arrived header (framePayload data) state') := by
      unfold Node.arrived
      rw [rxCacheStore_frame]
      exact ⟨hopen, SameChannels.update hacc.at_channel hrel rfl⟩
    rw [heq]
    rcases hcases with ⟨_, hrecv⟩ | ⟨_, _, attempts, answer, _, hrecv⟩ <;> rw [hrecv]
    · exact harrived
    · refine harrived.trans ?_
      have hnode := (HandsOver.all src header.channelId now
        (deliverable channel.reliable header.seqId)
        ⟨node.arrived header (framePayload data) state', attempts, answer⟩).node_eq
      dsimp only at hnode ⊢
      rw [hnode]
      exact SameOpen.of_state rfl rfl
  · exact hq.sameOpen

theorem poll_sameOpen (radio : Radio) (node : Node) (now : U32) :
    SameOpen node (poll radio node now).2.node := by
  obtain ⟨node₁, hnode₁, hcases⟩ := poll_cases radio node now
  -- dropping a stale message touches no channel
  have hre : SameOpen node node₁ := by
    rw [hnode₁]
    rcases pollReassembly_cases node now with h | ⟨_, h⟩ <;> rw [h]
    · exact SameOpen.refl _
    · exact SameOpen.of_state rfl rfl
  rcases hcases with ⟨_, hq⟩ | ⟨k, c, channel, channel', i, state', hk, _, hch, _, _, hrel, hopen,
    _, heq⟩
  · exact hre.trans hq.sameOpen
  · have hp : k.node.peerIndex = node₁.peerIndex := by rw [hk.node_eq]
    have hrel' : ({ k.node with state := state' } : Node).reliableAt
        = Function.update node₁.reliableAt c (some channel') := by
      show Relinow.reliableAt state' k.node.peerIndex = _
      rw [hp]
      exact hrel
    -- the poll writes one channel, in place
    have hset : SameOpen node₁ { k.node with state := state' } := by
      refine ⟨fun d => ?_, SameChannels.update hch hrel' rfl⟩
      show channelAt state' k.node.peerIndex d = none ↔ _
      rw [hp]
      exact hopen d
    refine hre.trans (hset.trans ?_)
    rw [heq, pollEvent_node]
    split
    · show SameOpen _ (txCacheRemove { k.node with state := state' } _)
      rw [txCacheRemove_frame]
      exact SameOpen.of_state rfl rfl
    · exact SameOpen.refl _

/-! ## Frames on the air -/

/-- A frame of another mode than the reliable one, or of the heartbeat. -/
def BackgroundFrame (frame : List U8) : Prop :=
  ∃ header payload, FrameOf frame header payload
    ∧ (header.mode ≠ modeReliable ∨ header.channelId = heartbeatChannel)

/-- **What a new packet is sent as**: a DATA frame with the next id of its channel. -/
theorem transmitNew_sent {radio : Radio} {node : Node} {c flags : U8} {track : Bool}
    {payload : List U8} {now : U32} (hflags : flags.toNat < 16) {dst : Mac} {frame : List U8}
    (h : .sent dst frame
      ∈ (transmitNew radio (Call.start node) c flags track payload now).2.log) :
    ∃ channel, node.reliableAt c = some channel
      ∧ FrameOf frame (dataHeader c flags channel.reliable.nextTxSeq payload) payload := by
  rcases transmitNew_cases radio (Call.start node) c flags track payload now hflags with ⟨heq, _⟩ |
    ⟨channel, _, _, hch, _, _, _, _, ⟨_, heq⟩ | ⟨_, _, _, _, rest, _, _, heq, hout, _⟩⟩ <;>
    rw [heq] at h
  · exact absurd h (by simp [Call.start])
  · exact absurd h (by simp [Call.start])
  · refine ⟨channel, hch, ?_⟩
    rcases hout with ⟨_, _, _, hrest⟩ | ⟨_, frame', hframe, hrest⟩ <;> rw [hrest] at h
    · exact absurd h (by simp [Call.start])
    · rcases List.mem_cons.mp h with h | h
      · exact absurd h (by simp)
      · rcases List.mem_cons.mp h with h | h
        · obtain ⟨-, rfl⟩ := Event.sent.inj h
          exact hframe
        · rw [List.mem_ite_nil_right, List.mem_singleton] at h
          exact absurd h.2 (by simp)

/-- A whole payload is sent as one DATA frame. -/
theorem sendReliable_sent {radio : Radio} {node : Node} {c : U8} {payload : List U8} {now : U32}
    (hlen : payload.length ≤ node.maxPayload.toNat) {dst : Mac} {frame : List U8}
    (h : .sent dst frame ∈ (sendReliable radio node c payload now).2.log) :
    ∃ channel, node.reliableAt c = some channel
      ∧ FrameOf frame (dataHeader c 0#8 channel.reliable.nextTxSeq payload) payload := by
  rcases sendReliable_cases radio node c payload now with ⟨_, heq⟩ |
    ⟨channel, _, _, _, ⟨_, heq⟩ | ⟨hlong, _⟩⟩
  · rw [heq] at h
    exact absurd h (by simp [Call.start])
  · rw [heq] at h
    exact transmitNew_sent (by decide) h
  · omega

theorem raiseTxEvent_sent {k : Call} {ev : TxEvent} {q : U16} {dst : Mac} {frame : List U8}
    (h : .sent dst frame ∈ (raiseTxEvent k ev q).log) : .sent dst frame ∈ k.log := by
  unfold raiseTxEvent at h
  split at h
  · rcases List.mem_append.mp h with h | h
    · exact h
    · exact absurd (List.mem_singleton.mp h) (by simp)
  · exact h

/-- What the report of a poll sends is a cached packet. -/
theorem pollEvent_sent {radio : Radio} {k : Call} {c : U8} {tx : TxResult}
    (hflags : ∀ i : Fin maxPending, k.node.txCache[i].inUse = true →
      k.node.txCache[i].flags.toNat < 16)
    {dst : Mac} {frame : List U8} (h : .sent dst frame ∈ (pollEvent radio k c tx).2.log) :
    .sent dst frame ∈ k.log
    ∨ ∃ i : Fin maxPending, k.node.txCache[i].inUse = true
      ∧ FrameOf frame (dataHeader c k.node.txCache[i].flags k.node.txCache[i].seqId
          k.node.txCache[i].payload) k.node.txCache[i].payload := by
  unfold pollEvent at h
  split at h
  · split at h
    · exact Or.inl (raiseTxEvent_sent h)
    · rename_i i hi
      have hu := (keyIdx_some TxCache.inUse TxCache.seqId hi).1
      dsimp only at h
      rcases sendFrame_cases radio k modeReliable c typeData k.node.txCache[i].flags
          k.node.txCache[i].seqId 0#16 k.node.txCache[i].payload (hflags i hu) with
        ⟨e, attempts, he, hsend⟩ | ⟨frame', attempts, hframe, hsend⟩ <;> rw [hsend] at h
      · rw [if_pos he] at h
        exact Or.inl h
      · rw [if_neg (by simp)] at h
        rcases List.mem_append.mp (raiseTxEvent_sent h) with h | h
        · exact Or.inl h
        · obtain ⟨-, rfl⟩ := Event.sent.inj (List.mem_singleton.mp h)
          exact Or.inr ⟨i, hu, hframe⟩
  · have h := raiseTxEvent_sent (k := k.setNode (txCacheRemove k.node tx.seqId)) h
    exact Or.inl h
  · exact Or.inl (raiseTxEvent_sent h)

/-- **What a poll sends**: the heartbeat's frame, or a cached packet once more. -/
theorem poll_sent {radio : Radio} {node : Node} {now : U32}
    (hflags : ∀ i : Fin maxPending, node.txCache[i].inUse = true →
      node.txCache[i].flags.toNat < 16)
    {dst : Mac} {frame : List U8} (h : .sent dst frame ∈ (poll radio node now).2.log) :
    BackgroundFrame frame
    ∨ ∃ (c : U8) (i : Fin maxPending), node.txCache[i].inUse = true
      ∧ FrameOf frame (dataHeader c node.txCache[i].flags node.txCache[i].seqId
          node.txCache[i].payload) node.txCache[i].payload := by
  obtain ⟨node₁, hnode₁, hcases⟩ := poll_cases radio node now
  have hre : TxQuiet node node₁ := hnode₁ ▸ pollReassembly_tx node now
  rcases hcases with ⟨_, hq⟩ | ⟨k, c, channel, channel', _, state', hk, _, _, _, _, _, _, _, heq⟩
  · exact Or.inl (hq.log _ h)
  · have hcache : k.node.txCache = node.txCache := hk.txQuiet.cache.trans hre.cache
    rw [heq] at h
    rcases pollEvent_sent (k := k.setNode { k.node with state := state' })
        (by simpa only [Call.setNode, hcache] using hflags) h with h | ⟨i, hu, hframe⟩
    · exact Or.inl (hk.log _ h)
    · simp only [Call.setNode, hcache] at hu hframe
      exact Or.inr ⟨c, i, hu, hframe⟩

/-- **What a frame is answered with**: nothing, a heartbeat frame, or the ACK of an arrival the
receive queue has room for. -/
theorem onReceive_sent (radio : Radio) (node : Node) (src : Mac) (data : List U8) (now : U32)
    {dst : Mac} {frame : List U8}
    (h : .sent dst frame ∈ (onReceive radio node src data now).2.log) :
    BackgroundFrame frame
    ∨ ∃ header channel, Accepts node src data header channel ∧ header.type = typeData
      ∧ HasRoom channel header.seqId
      ∧ FrameOf frame (ackHeader header.channelId
          (reliableOnData channel.reliable header.seqId).2.ackId) [] := by
  rcases onReceive_cases radio node src data now with
    ⟨header, channel, hacc, ⟨_, heq⟩ | ⟨ht, heq⟩⟩ | hq
  · obtain ⟨channel', state', _, _, _, hrecv⟩ := receiveAck_spec now hacc.at_channel
    rw [heq, hrecv] at h
    exact absurd h (by simp [Call.start])
  · obtain ⟨channel', state', _, _, _, hcases⟩ :=
      receiveData_spec radio src (framePayload data) now hacc.at_channel
    rw [heq] at h
    rcases hcases with ⟨_, hrecv⟩ | ⟨hroom, _, attempts, answer, hanswer, hrecv⟩ <;> rw [hrecv] at h
    · exact absurd h (by simp [Call.start])
    · -- after the ACK only messages are handed over
      obtain ⟨messages, hlog, hmsg⟩ := (HandsOver.all src header.channelId now
        (deliverable channel.reliable header.seqId)
        ⟨node.arrived header (framePayload data) state', attempts, answer⟩).log
      dsimp only at h
      rw [hlog] at h
      rcases List.mem_append.mp h with h | h
      · rcases hanswer with rfl | ⟨frame', rfl, hframe⟩
        · exact absurd h (by simp)
        · obtain ⟨-, rfl⟩ := Event.sent.inj (List.mem_singleton.mp h)
          exact Or.inr ⟨header, channel, hacc, ht, hroom, hframe⟩
      · obtain ⟨_, _, _, _, _, heq', _⟩ := hmsg _ h
        exact absurd heq' (by simp)
  · exact Or.inl (hq.log _ h)

end Relinow
