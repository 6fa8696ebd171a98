import Relinow.Proof.NodeRun
import Relinow.Lib.Pieces

/-!
# The transmit side of a node

Ids in flight, cached payloads, tracked fragments: this is what sending leaves
behind and what ACKs and failures take away. Everything else a node does is
quiet on this side: frames of other modes, arriving DATA, retransmissions.
-/

namespace Relinow

open SlotTable

/-- The next id of a channel and its ids in flight. -/
def ChannelState.txHalf (channel : ChannelState) : U16 × Multiset U16 :=
  (channel.reliable.nextTxSeq, pendingSeqs channel.reliable)

/-- Nothing on the transmit side has changed. -/
structure TxQuiet (node node' : Node) : Prop where
  channels : SameChannels ChannelState.txHalf node node'
  cache : node'.txCache = node.txCache
  active : node'.fragmentedTxActive = node.fragmentedTxActive
  tracked : node'.fragmentedTxSeq = node.fragmentedTxSeq

theorem TxQuiet.refl (node : Node) : TxQuiet node node := ⟨fun _ => rfl, rfl, rfl, rfl⟩

theorem TxQuiet.trans {a b c : Node} (h : TxQuiet a b) (h' : TxQuiet b c) : TxQuiet a c :=
  ⟨h.channels.trans h'.channels, h'.cache.trans h.cache, h'.active.trans h.active,
    h'.tracked.trans h.tracked⟩

/-- The channel a quiet step started from. -/
theorem TxQuiet.before {node node' : Node} (h : TxQuiet node node') {c : U8}
    {channel' : ChannelState} (hc : node'.reliableAt c = some channel') :
    ∃ channel, node.reliableAt c = some channel
      ∧ channel.reliable.nextTxSeq = channel'.reliable.nextTxSeq
      ∧ pendingSeqs channel.reliable = pendingSeqs channel'.reliable := by
  obtain ⟨channel, hch, hhalf⟩ := h.channels.before hc
  exact ⟨channel, hch, (Prod.ext_iff.mp hhalf).1, (Prod.ext_iff.mp hhalf).2⟩

/-- The channel a quiet step leads to. -/
theorem TxQuiet.after {node node' : Node} (h : TxQuiet node node') {c : U8}
    {channel : ChannelState} (hc : node.reliableAt c = some channel) :
    ∃ channel', node'.reliableAt c = some channel'
      ∧ channel'.reliable.nextTxSeq = channel.reliable.nextTxSeq
      ∧ pendingSeqs channel'.reliable = pendingSeqs channel.reliable := by
  obtain ⟨channel', hch, hhalf⟩ := h.channels.after hc
  exact ⟨channel', hch, (Prod.ext_iff.mp hhalf).1, (Prod.ext_iff.mp hhalf).2⟩

theorem QuietCall.txQuiet {node : Node} {k : Call} (h : QuietCall node k) :
    TxQuiet node k.node := by
  refine ⟨SameChannels.of_eq h.reliableAt, ?_, ?_, ?_⟩ <;> rw [h.node_eq]

theorem QuietCall.noAssign {node : Node} {k : Call} (h : QuietCall node k) :
    ∀ e ∈ k.log, e.NoAssign :=
  fun e he => (h.log e he).noAssign

/-- **Opening a channel** is quiet or adds a channel with nothing in flight. -/
theorem openChannel_tx (node : Node) (c mode priority : U8) :
    TxQuiet node (openChannel node c mode priority).2
    ∨ ∃ channel, node.reliableAt c = none ∧ pendingSeqs channel.reliable = 0
      ∧ (openChannel node c mode priority).2.reliableAt
        = Function.update node.reliableAt c (some channel)
      ∧ (openChannel node c mode priority).2.txCache = node.txCache
      ∧ (openChannel node c mode priority).2.fragmentedTxActive = node.fragmentedTxActive
      ∧ (openChannel node c mode priority).2.fragmentedTxSeq = node.fragmentedTxSeq := by
  obtain ⟨state', heq, hcases⟩ := openChannel_cases node c mode priority
  rw [heq]
  rcases hcases with hrel | ⟨channel, hch, hrel⟩ | ⟨channel, hno, hfresh, hrel⟩
  · exact Or.inl ⟨SameChannels.of_eq hrel, rfl, rfl, rfl⟩
  · exact Or.inl ⟨SameChannels.update hch hrel rfl, rfl, rfl, rfl⟩
  · exact Or.inr ⟨channel, hno, by rw [hfresh.engine, pendingSeqs_init], hrel, rfl, rfl, rfl⟩

/-- Arriving DATA is quiet. -/
theorem receiveData_tx (radio : Radio) {node : Node} (src : Mac) {header : Header}
    (payload : List U8) {channel : ChannelState} (now : U32)
    (hch : node.reliableAt header.channelId = some channel) :
    TxQuiet node (receiveData radio (Call.start node) src header payload now).2.node
      ∧ ∀ e ∈ (receiveData radio (Call.start node) src header payload now).2.log, e.NoAssign := by
  obtain ⟨channel', state', hfr, hrel, -, hcases⟩ :=
    receiveData_spec radio src payload now hch
  -- the receive half of the engine is all that moves
  have hhalf : channel'.txHalf = channel.txHalf := by
    unfold ChannelState.txHalf
    rw [hfr]
    dsimp only
    rw [reliableOnData_tx]
    rfl
  have harrived : TxQuiet node (node.arrived header payload state') := by
    have hstore := rxCacheStore_frame node header payload
    refine ⟨SameChannels.update hch ?_ hhalf, ?_, ?_, ?_⟩
    · show Relinow.reliableAt state' (rxCacheStore node header payload).peerIndex = _
      rw [hstore]
      exact hrel
    all_goals
      unfold Node.arrived
      rw [hstore]
  rcases hcases with ⟨_, heq⟩ | ⟨_, _, attempts, answer, hanswer, heq⟩ <;> rw [heq]
  · exact ⟨harrived, fun e he => absurd he (by simp [Call.start])⟩
  · have hover := HandsOver.all src header.channelId now (deliverable channel.reliable header.seqId)
      ⟨node.arrived header payload state', attempts, answer⟩
    refine ⟨harrived.trans ?_, ?_⟩
    · have hnode := hover.node_eq
      refine ⟨fun c => ?_, ?_, ?_, ?_⟩
      · unfold Node.reliableAt
        rw [hnode]
      all_goals rw [hnode]
    · obtain ⟨messages, hlog, hmsg⟩ := hover.log
      intro e he
      dsimp only at he
      rw [hlog] at he
      rcases List.mem_append.mp he with he | he
      · rcases hanswer with rfl | ⟨frame, rfl, _⟩
        · exact absurd he (by simp)
        · rw [List.mem_singleton.mp he]
          trivial
      · obtain ⟨_, _, _, _, _, rfl, _⟩ := hmsg e he
        trivial

/-- **A frame is quiet, or an ACK**, which the engine of its channel, the payload cache and the
tracked fragments see. -/
theorem onReceive_tx (radio : Radio) (node : Node) (src : Mac) (data : List U8) (now : U32) :
    (TxQuiet node (onReceive radio node src data now).2.node
      ∧ ∀ e ∈ (onReceive radio node src data now).2.log, e.NoAssign)
    ∨ ∃ header channel channel', Accepts node src data header channel ∧ header.type = typeAck
      ∧ channel'.reliable = reliableOnAck channel.reliable header.ackId now
      ∧ (onReceive radio node src data now).2.node.reliableAt
        = Function.update node.reliableAt header.channelId (some channel')
      ∧ (onReceive radio node src data now).2.node.txCache
        = (txCacheRemove node header.ackId).txCache
      ∧ (onReceive radio node src data now).2.node.fragmentedTxActive
        = (fragmentTxOnAck node header.ackId).fragmentedTxActive
      ∧ (onReceive radio node src data now).2.node.fragmentedTxSeq
        = (fragmentTxOnAck node header.ackId).fragmentedTxSeq
      ∧ (onReceive radio node src data now).2.log = [] := by
  rcases onReceive_cases radio node src data now with
    ⟨header, channel, hacc, ⟨ht, heq⟩ | ⟨_, heq⟩⟩ | hq
  · right
    obtain ⟨channel', state', hfr, hrel, -, hrecv⟩ := receiveAck_spec now hacc.at_channel
    rw [heq, hrecv]
    -- `txCache` and the tracked fragments are separate fields, each written by one call
    refine ⟨header, channel, channel', hacc, ht, by rw [hfr], ?_, ?_, ?_, ?_, rfl⟩
    · show Relinow.reliableAt (fragmentTxOnAck _ _).state (fragmentTxOnAck _ _).peerIndex = _
      rw [fragmentTxOnAck_frame, txCacheRemove_frame]
      exact hrel
    · show (fragmentTxOnAck _ _).txCache = _
      rw [fragmentTxOnAck_frame]
      show (txCacheRemove { node with state := state' } header.ackId).txCache = _
      exact txCacheRemove_congr (a := { node with state := state' }) (b := node) rfl _
    · show (fragmentTxOnAck _ _).fragmentedTxActive = _
      rw [txCacheRemove_frame]
      unfold fragmentTxOnAck
      split <;> rfl
    · show (fragmentTxOnAck _ _).fragmentedTxSeq = _
      rw [txCacheRemove_frame]
      unfold fragmentTxOnAck
      split <;> rfl
  · rw [heq]
    exact Or.inl (receiveData_tx radio src (framePayload data) now hacc.at_channel)
  · exact Or.inl ⟨hq.txQuiet, hq.noAssign⟩

theorem pollReassembly_tx (node : Node) (now : U32) : TxQuiet node (pollReassembly node now) := by
  rcases pollReassembly_cases node now with h | ⟨_, h⟩ <;> rw [h]
  · exact TxQuiet.refl node
  · exact ⟨fun _ => rfl, rfl, rfl, rfl⟩

theorem nextExpired_pollReassembly (node : Node) (now : U32) :
    nextExpired (pollReassembly node now) now = nextExpired node now := by
  rcases pollReassembly_cases node now with h | ⟨_, h⟩ <;> rw [h]
  rfl

theorem reliableAt_pollReassembly (node : Node) (now : U32) :
    (pollReassembly node now).reliableAt = node.reliableAt := by
  rcases pollReassembly_cases node now with h | ⟨_, h⟩ <;> rw [h]
  rfl

/-- **A poll is quiet, or gives up the packet the scheduler picks**, whose retries are
exhausted. -/
theorem poll_tx (radio : Radio) (node : Node) (now : U32) :
    (∀ e ∈ (poll radio node now).2.log, e.NoAssign)
    ∧ (TxQuiet node (poll radio node now).2.node
      ∨ ∃ c channel channel' i, nextExpired node now = some (c, channel.reliable, i)
        ∧ node.reliableAt c = some channel
        ∧ channel.reliable.cfg.maxRetries ≤ channel.reliable.pending[i].retries
        ∧ pendingSeqs channel.reliable
          = channel.reliable.pending[i].seqId ::ₘ pendingSeqs channel'.reliable
        ∧ channel'.reliable.nextTxSeq = channel.reliable.nextTxSeq
        ∧ (poll radio node now).2.node.reliableAt
          = Function.update node.reliableAt c (some channel')
        ∧ (poll radio node now).2.node.txCache
          = (txCacheRemove node channel.reliable.pending[i].seqId).txCache
        ∧ (poll radio node now).2.node.fragmentedTxActive = node.fragmentedTxActive
        ∧ (poll radio node now).2.node.fragmentedTxSeq = node.fragmentedTxSeq) := by
  obtain ⟨node₁, hnode₁, hcases⟩ := poll_cases radio node now
  have hre : TxQuiet node node₁ := hnode₁ ▸ pollReassembly_tx node now
  rcases hcases with ⟨_, hq⟩ | ⟨k, c, channel, channel', i, state', hk, hnext, hch, hi, hfr, hrel,
    _, _, heq⟩
  · exact ⟨hq.noAssign, Or.inl (hre.trans hq.txQuiet)⟩
  · rw [heq]
    obtain ⟨rest, hlog, hrest⟩ := pollEvent_log radio
      (k.setNode { k.node with state := state' }) c (reliablePoll channel.reliable now).2
    refine ⟨fun e he => ?_, ?_⟩
    · rw [hlog] at he
      rcases List.mem_append.mp he with he | he
      · exact hk.noAssign e he
      · exact (hrest e he).noAssign
    · have hktx := hk.txQuiet
      have hk' : ∀ q, { k.node with state := state' }.reliableAt q
          = Function.update node₁.reliableAt c (some channel') q := by
        intro q
        show Relinow.reliableAt state' k.node.peerIndex q = _
        rw [show k.node.peerIndex = node₁.peerIndex by rw [hk.node_eq], hrel]
      rw [pollEvent_node]
      rcases reliablePoll_cases channel.reliable now with ⟨_, hall⟩ |
        ⟨i', ctx', hi', hctx, ⟨hmax, hpoll, hks⟩ | ⟨_, hpoll, _, hks⟩⟩
      · -- the scheduler picks a channel only for a slot that has expired
        rw [firstIdx_eq_none.mpr hall] at hi
        exact absurd hi (by simp)
      · right
        rw [hi] at hi'
        obtain rfl := Option.some.inj hi'
        rw [hpoll] at hfr ⊢
        -- given up: the payload leaves the cache
        rw [if_pos rfl]
        refine ⟨c, channel, channel', i, ?_, ?_, hmax, ?_, ?_, ?_, ?_, ?_, ?_⟩
        · rw [← nextExpired_pollReassembly, ← hnode₁]
          exact hnext
        · rw [← reliableAt_pollReassembly node now, ← hnode₁]
          exact hch
        · rw [hfr]
          exact hks
        · rw [hfr, hctx]
        · funext q
          show (txCacheRemove { k.node with state := state' } _).reliableAt q = _
          rw [txCacheRemove_frame]
          show { k.node with state := state' }.reliableAt q = _
          rw [hk', hnode₁, reliableAt_pollReassembly]
        · exact txCacheRemove_congr (a := { k.node with state := state' }) (b := node)
            (hktx.cache.trans hre.cache) _
        · show (txCacheRemove { k.node with state := state' } _).fragmentedTxActive = _
          rw [txCacheRemove_frame]
          exact hktx.active.trans hre.active
        · show (txCacheRemove { k.node with state := state' } _).fragmentedTxSeq = _
          rw [txCacheRemove_frame]
          exact hktx.tracked.trans hre.tracked
      · left
        rw [hpoll] at hfr ⊢
        -- retransmitted: the ids in flight stay
        rw [if_neg (by simp)]
        refine hre.trans ⟨SameChannels.update hch (funext hk') ?_, hktx.cache, hktx.active,
          hktx.tracked⟩
        unfold ChannelState.txHalf
        rw [hfr, hctx]
        dsimp only
        rw [← hks, hctx]

/-- **What a call does to the lock**: nothing, unless it is a send, or brings the ACK that takes a
fragment out. -/
theorem lock_step (w : NodeRun) (a : ApiStep) :
    (∃ c payload now, a.call = .sendReliable c payload now)
    ∨ ((w.step a).node.fragmentedTxActive = w.node.fragmentedTxActive
      ∧ (w.step a).node.fragmentedTxSeq = w.node.fragmentedTxSeq)
    ∨ ∃ ackId,
      (w.step a).node.fragmentedTxActive = (fragmentTxOnAck w.node ackId).fragmentedTxActive
      ∧ (w.step a).node.fragmentedTxSeq = (fragmentTxOnAck w.node ackId).fragmentedTxSeq := by
  have hquiet : ∀ node', TxQuiet w.node node' →
      node'.fragmentedTxActive = w.node.fragmentedTxActive
        ∧ node'.fragmentedTxSeq = w.node.fragmentedTxSeq :=
    fun _ hq => ⟨hq.active, hq.tracked⟩
  obtain ⟨radio, call⟩ := a
  unfold NodeRun.step
  cases call with
  | openChannel c mode priority =>
      rcases openChannel_tx w.node c mode priority with hq | ⟨_, _, _, _, _, hact, hseq⟩
      · exact Or.inr (Or.inl (hquiet _ hq))
      · exact Or.inr (Or.inl ⟨hact, hseq⟩)
  | sendReliable c payload now => exact Or.inl ⟨c, payload, now, rfl⟩
  | sendUnreliable c payload =>
      exact Or.inr (Or.inl (hquiet _ (sendUnreliable_quiet radio w.node c payload).txQuiet))
  | sendPriority c payload =>
      exact Or.inr (Or.inl (hquiet _ (sendPriority_quiet radio w.node c payload).txQuiet))
  | onReceive src data now =>
      rcases onReceive_tx radio w.node src data now with ⟨hq, _⟩ |
        ⟨header, _, _, _, _, _, _, _, hact, hseq, _⟩
      · exact Or.inr (Or.inl (hquiet _ hq))
      · exact Or.inr (Or.inr ⟨header.ackId, hact, hseq⟩)
  | poll now =>
      obtain ⟨_, hq | ⟨_, _, _, _, _, _, _, _, _, _, _, hact, hseq⟩⟩ := poll_tx radio w.node now
      · exact Or.inr (Or.inl (hquiet _ hq))
      · exact Or.inr (Or.inl ⟨hact, hseq⟩)

/-! ## Sending -/

/-- A packet has been given the next id of the channel, and a slot there. -/
structure Assigned (k k' : Call) (c : U8) (channel channel' : ChannelState) : Prop where
  before : k.node.reliableAt c = some channel
  after : k'.node.reliableAt = Function.update k.node.reliableAt c (some channel')
  next : channel'.reliable.nextTxSeq = seqNext channel.reliable.nextTxSeq
  pending : pendingSeqs channel'.reliable
    = channel.reliable.nextTxSeq ::ₘ pendingSeqs channel.reliable

/-- Only a channel with a slot left gives an id. -/
theorem Assigned.card_lt {k k' : Call} {c : U8} {channel channel' : ChannelState}
    (h : Assigned k k' c channel channel') : (pendingSeqs channel.reliable).card < maxPending := by
  have hle := card_live_le Pending.inUse channel'.reliable.pending
  rw [← card_pendingSeqs, h.pending, Multiset.card_cons] at hle
  omega

/-- The packet also has an entry of the payload cache, and a place on the list of fragments if it
is one. -/
structure Placed (k k' : Call) (c flags : U8) (track : Bool) (payload : List U8)
    (channel channel' : ChannelState) : Prop extends Assigned k k' c channel channel' where
  cache : ∃ i : Fin maxPending, k.node.txCache[i].inUse = false
    ∧ k'.node.txCache
      = k.node.txCache.put i ⟨true, channel.reliable.nextTxSeq, flags, payload⟩
  fragments : (k'.node.fragmentedTxSeq, k'.node.fragmentedTxActive)
    = if track = true ∧ k.node.fragmentedTxSeq.length < maxPending then
        (k.node.fragmentedTxSeq ++ [channel.reliable.nextTxSeq], true)
      else (k.node.fragmentedTxSeq, k.node.fragmentedTxActive)
  maxPayload : k'.node.maxPayload = k.node.maxPayload
  log : ∃ rest, k'.log = k.log ++ .assigned c channel.reliable.nextTxSeq flags payload :: rest
    ∧ ∀ e ∈ rest, e.NoAssign

/-- What the radio made of the packet with the id `q`. -/
structure Answered (radio : Radio) (k k' : Call) (out : Transmit) (c flags : U8) (q : U16)
    (payload : List U8) : Prop where
  asked : Fits k.node c flags payload → Asked radio k k'.attempts out
  sent : out = .done → ∃ frame, FrameOf frame (dataHeader c flags q payload) payload
    ∧ k'.log = k.log ++ .assigned c q flags payload :: .sent k.node.peerMac frame ::
        if k.node.onTxEvent then [.txEvent .new q] else []

/-- **One frame on its way, seen from the transmit side.** -/
theorem transmitNew_tx (radio : Radio) (k : Call) (c flags : U8) (track : Bool)
    (payload : List U8) (now : U32) (hflags : flags.toNat < 16) :
    (transmitNew radio k c flags track payload now = (.refused, k)
      ∧ ∀ channel, k.node.reliableAt c = some channel →
        (pendingSeqs channel.reliable).card = maxPending)
    ∨ ((transmitNew radio k c flags track payload now).1 = .noSlot
      ∧ free TxCache.inUse k.node.txCache = 0
      ∧ (transmitNew radio k c flags track payload now).2.node.fragmentedTxActive
        = k.node.fragmentedTxActive
      ∧ (transmitNew radio k c flags track payload now).2.node.fragmentedTxSeq
        = k.node.fragmentedTxSeq
      ∧ ∃ channel channel', Assigned k (transmitNew radio k c flags track payload now).2
          c channel channel')
    ∨ (((transmitNew radio k c flags track payload now).1 = .done
        ∨ ∃ e, (transmitNew radio k c flags track payload now).1 = .radio e ∧ e ≠ .ok)
      ∧ ∃ channel channel', Placed k (transmitNew radio k c flags track payload now).2
          c flags track payload channel channel'
        ∧ Answered radio k (transmitNew radio k c flags track payload now).2
          (transmitNew radio k c flags track payload now).1 c flags channel.reliable.nextTxSeq
          payload) := by
  rcases transmitNew_cases radio k c flags track payload now hflags with h |
    ⟨channel, channel', state', hch, hfr, hks, hrel, -, ⟨hfull, heq⟩ |
      ⟨i, node', attempts, out, rest, hi, hnode, heq, hout, hasked⟩⟩
  · exact Or.inl h
  · refine Or.inr (Or.inl ⟨by rw [heq], ?_, by rw [heq], by rw [heq], channel, channel', hch, ?_,
      ?_, hks⟩)
    · -- no free cache entry
      have hcard := freeIdx_none TxCache.inUse hfull
      have := card_live_add_free TxCache.inUse k.node.txCache
      omega
    · rw [heq]
      exact hrel
    · rw [hfr]
  · have hframe := trackIf_frame track node' channel.reliable.nextTxSeq
    rw [heq]
    refine Or.inr (Or.inr ⟨?_, channel, channel', ⟨⟨hch, ?_, by rw [hfr], hks⟩,
      ⟨i, freeIdx_some TxCache.inUse hi, ?_⟩, ?_, ?_, rest, rfl, ?_⟩, hasked, ?_⟩)
    · rcases hout with ⟨e, rfl, he, _⟩ | ⟨rfl, _⟩
      · exact Or.inr ⟨e, rfl, he⟩
      · exact Or.inl rfl
    · rw [hframe, hnode]
      exact hrel
    · rw [hframe, hnode]
    · rw [hnode]
      cases track with
      | false => rfl
      | true =>
          rw [if_pos rfl]
          -- the id is tracked if the list is short of sixteen
          unfold fragmentTxTrack
          dsimp only
          split
          · rename_i hlen
            rw [if_pos ⟨rfl, hlen⟩]
          · rename_i hlen
            rw [if_neg (fun h => hlen h.2)]
    · rw [hframe, hnode]
    · intro e he
      rcases hout with ⟨_, _, _, hnil⟩ | ⟨_, frame, _, hrest⟩
      · rw [hnil] at he
        exact absurd he (by simp)
      · rw [hrest] at he
        rcases List.mem_cons.mp he with rfl | he
        · trivial
        · split at he
          · rw [List.mem_singleton.mp he]
            trivial
          · exact absurd he (by simp)
    · intro hdone
      rcases hout with ⟨e, rfl, _⟩ | ⟨_, frame, hframe, hrest⟩
      · exact absurd hdone (by simp)
      · exact ⟨frame, hframe, by rw [hrest]⟩

/-- The number of fragments of `len` bytes, `mp` a fragment. -/
def framesLeft (len mp : Nat) : Nat := (len + mp - 1) / mp

/-- One fragment fewer after each round. -/
theorem framesLeft_sub {len mp : Nat} (hmp : 0 < mp) (hlen : 0 < len) :
    framesLeft len mp = framesLeft (len - min mp len) mp + 1 :=
  Pieces.count_sub hmp hlen

end Relinow
