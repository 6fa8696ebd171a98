import Relinow.Proof.NodePoll
import Relinow.Proof.NodeReceive
import Relinow.Proof.NodeSend
import Relinow.Proof.NodeStart
import Relinow.Lib.Runs

/-!
# Runs of one node

A node, driven by calls of its API in any order and with any answers of the
radio, together with the log of everything it has done. From the log one can
read what was given to a sequence id when it was assigned, and on which channel
the last fragmented message was sent.
-/

namespace Relinow

open SlotTable Runs

/-- A node and everything it has logged. -/
structure NodeRun where
  node : Node
  history : List Event
  deriving DecidableEq, Repr

/-- One call, and what the radio answers during it. -/
structure ApiStep where
  radio : Radio
  call : ApiCall

/-- The run after one more call. -/
def NodeRun.step (w : NodeRun) (a : ApiStep) : NodeRun :=
  ⟨(a.call.run a.radio w.node).2.node, w.history ++ (a.call.run a.radio w.node).2.log⟩

/-- The flags and payload given to the id `q` when it was last assigned on the channel `c`. -/
def allocated (history : List Event) (c : U8) (q : U16) : Option (U8 × List U8) :=
  history.reverse.findSome? fun e => match e with
    | .assigned c' q' flags payload => if c' = c ∧ q' = q then some (flags, payload) else none
    | _ => none

/-- The channel on which a fragment was last assigned an id. -/
def fragmentChannel (history : List Event) : Option U8 :=
  history.reverse.findSome? fun e => match e with
    | .assigned c _ flags _ => if hasFlag flags flagFragment then some c else none
    | _ => none

/-- The event assigns no id. -/
def Event.NoAssign : Event → Prop
  | .assigned _ _ _ _ => False
  | _ => True

theorem Event.Background.noAssign {node : Node} {e : Event} (h : e.Background node) :
    e.NoAssign := by
  cases e with
  | assigned c q flags payload => exact h
  | _ => trivial

/-- The event hands the application no message, or one of a channel that is not reliable. -/
def Event.NoDelivery (node : Node) : Event → Prop
  | .message site _ c _ _ => (site ≠ .plain ∧ site ≠ .reassembled)
      ∧ ∃ channel, channelAt node.state node.peerIndex c = some channel
        ∧ channel.mode ≠ modeReliable
  | _ => True

theorem Event.Background.noDelivery {node : Node} {e : Event} (h : e.Background node) :
    e.NoDelivery node := by
  cases e with
  | message site src c q payload =>
      obtain ⟨rfl | rfl, hch⟩ := h
      · exact ⟨⟨by decide, by decide⟩, hch⟩
      · exact ⟨⟨by decide, by decide⟩, hch⟩
  | _ => trivial

/-- A frame, or a report on one. -/
def Event.Outgoing : Event → Prop
  | .sent _ _ => True
  | .txEvent _ _ => True
  | _ => False

theorem Event.Outgoing.noAssign {e : Event} (h : e.Outgoing) : e.NoAssign := by
  cases e with
  | assigned c q flags payload => exact h
  | _ => trivial

theorem Event.Outgoing.noDelivery {e : Event} (h : e.Outgoing) (node : Node) :
    e.NoDelivery node := by
  cases e with
  | message site src c q payload => exact absurd h id
  | _ => trivial

theorem allocated_append {history log : List Event} (h : ∀ e ∈ log, e.NoAssign) (c : U8)
    (q : U16) : allocated (history ++ log) c q = allocated history c q := by
  unfold allocated
  rw [List.reverse_append, List.findSome?_append, List.findSome?_eq_none_iff.mpr, Option.none_or]
  intro e he
  have := h e (List.mem_reverse.mp he)
  cases e with
  | assigned c q flags payload => exact absurd this (by simp [Event.NoAssign])
  | _ => rfl

theorem fragmentChannel_append {history log : List Event} (h : ∀ e ∈ log, e.NoAssign) :
    fragmentChannel (history ++ log) = fragmentChannel history := by
  unfold fragmentChannel
  rw [List.reverse_append, List.findSome?_append, List.findSome?_eq_none_iff.mpr, Option.none_or]
  intro e he
  have := h e (List.mem_reverse.mp he)
  cases e with
  | assigned c q flags payload => exact absurd this (by simp [Event.NoAssign])
  | _ => rfl

theorem allocated_assign (history : List Event) (c c' : U8) (q q' : U16) (flags : U8)
    (payload : List U8) :
    allocated (history ++ [.assigned c' q' flags payload]) c q
      = if c' = c ∧ q' = q then some (flags, payload) else allocated history c q := by
  unfold allocated
  rw [List.reverse_append]
  show List.findSome? _ (_ :: history.reverse) = _
  rw [List.findSome?_cons]
  dsimp only
  by_cases h : c' = c ∧ q' = q
  · rw [if_pos h, if_pos h]
  · rw [if_neg h, if_neg h]

theorem fragmentChannel_assign (history : List Event) (c : U8) (q : U16) (flags : U8)
    (payload : List U8) :
    fragmentChannel (history ++ [.assigned c q flags payload])
      = if hasFlag flags flagFragment then some c else fragmentChannel history := by
  unfold fragmentChannel
  rw [List.reverse_append]
  show List.findSome? _ (_ :: history.reverse) = _
  rw [List.findSome?_cons]
  dsimp only
  cases hasFlag flags flagFragment <;> rfl

/-! ## The payload cache -/

/-- The ids with a cached payload. -/
def cachedSeqs (node : Node) : Multiset U16 := keys TxCache.inUse TxCache.seqId node.txCache

theorem txCacheRemove_cases (node : Node) (q : U16) :
    (q ∉ cachedSeqs node ∧ txCacheRemove node q = node)
    ∨ ∃ i : Fin maxPending, node.txCache[i].inUse = true ∧ node.txCache[i].seqId = q
      ∧ txCacheRemove node q = { node with
          txCache := node.txCache.put i { node.txCache[i] with inUse := false } } := by
  unfold txCacheRemove txCacheFind
  cases hf : firstIdx (fun s => s.inUse && s.seqId == q) node.txCache with
  | none => exact Or.inl ⟨(keyIdx_none TxCache.inUse TxCache.seqId).mp hf, rfl⟩
  | some i =>
      obtain ⟨hu, hk⟩ := keyIdx_some TxCache.inUse TxCache.seqId hf
      exact Or.inr ⟨i, hu, hk, rfl⟩

/-- What is cached after a removal was cached before it. -/
theorem txCacheRemove_kept {node : Node} {q : U16} {i : Fin maxPending}
    (hu : (txCacheRemove node q).txCache[i].inUse = true) :
    (txCacheRemove node q).txCache[i] = node.txCache[i] := by
  rcases txCacheRemove_cases node q with ⟨_, h⟩ | ⟨j, _, _, h⟩ <;> rw [h] at hu ⊢
  by_cases hji : j = i
  · subst hji
    rw [put_self] at hu
    exact absurd hu (by simp)
  · exact put_ne hji

theorem txCacheRemove_frame (node : Node) (q : U16) :
    txCacheRemove node q = { node with txCache := (txCacheRemove node q).txCache } := by
  rcases txCacheRemove_cases node q with ⟨_, h⟩ | ⟨i, _, _, h⟩ <;> rw [h]

theorem txCacheRemove_congr {a b : Node} (h : a.txCache = b.txCache) (q : U16) :
    (txCacheRemove a q).txCache = (txCacheRemove b q).txCache := by
  unfold txCacheRemove txCacheFind
  rw [h]
  cases firstIdx (fun s => s.inUse && s.seqId == q) b.txCache with
  | none => exact h
  | some i => rfl

theorem fragmentTxOnAck_frame (node : Node) (a : U16) :
    fragmentTxOnAck node a = { node with
      fragmentedTxSeq := (fragmentTxOnAck node a).fragmentedTxSeq
      fragmentedTxActive := (fragmentTxOnAck node a).fragmentedTxActive } := by
  unfold fragmentTxOnAck
  split <;> rfl

/-! ## The report of a poll -/

/-- A poll that has something to report leaves the node alone but for its state and, after a
failure, the payload of the packet given up. -/
theorem pollEvent_node (radio : Radio) (k : Call) (c : U8) (tx : TxResult) :
    (pollEvent radio k c tx).2.node =
      if tx.event = .failed then txCacheRemove k.node tx.seqId else k.node := by
  unfold pollEvent
  split
  · rename_i he
    rw [if_neg (by rw [he]; simp)]
    split
    · exact raiseTxEvent_node _ _ _
    · dsimp only
      split
      · exact sendFrame_node _ _ _ _ _ _ _ _ _
      · rw [raiseTxEvent_node]
        exact sendFrame_node _ _ _ _ _ _ _ _ _
  · rename_i he
    rw [if_pos he, raiseTxEvent_node]
    rfl
  · rename_i hr hf
    rw [if_neg (fun h => hf h), raiseTxEvent_node]

theorem pollEvent_log (radio : Radio) (k : Call) (c : U8) (tx : TxResult) :
    ∃ rest, (pollEvent radio k c tx).2.log = k.log ++ rest ∧ ∀ e ∈ rest, e.Outgoing := by
  have hraise : ∀ (k : Call) (e : TxEvent) (q : U16),
      ∃ rest, (raiseTxEvent k e q).log = k.log ++ rest ∧ ∀ e ∈ rest, e.Outgoing := by
    intro k e q
    unfold raiseTxEvent
    split
    · exact ⟨[.txEvent e q], rfl, fun x hx => by rw [List.mem_singleton.mp hx]; trivial⟩
    · exact ⟨[], (List.append_nil _).symm, fun x hx => absurd hx (by simp)⟩
  unfold pollEvent
  split
  · split
    · exact hraise _ _ _
    · rename_i i _
      -- a retransmission sends the cached payload before it is reported
      obtain ⟨sent, hlog, hsent⟩ := sendFrame_log radio k modeReliable c typeData
        k.node.txCache[i].flags k.node.txCache[i].seqId 0#16 k.node.txCache[i].payload
      have hout : ∀ e ∈ sent, e.Outgoing := by
        intro e he
        obtain ⟨dst, frame, rfl⟩ := hsent e he
        trivial
      dsimp only
      split
      · exact ⟨sent, hlog, hout⟩
      · obtain ⟨rest, hrest, hnr⟩ := hraise
          (sendFrame radio k modeReliable c typeData k.node.txCache[i].flags
            k.node.txCache[i].seqId 0#16 k.node.txCache[i].payload).2 tx.event tx.seqId
        refine ⟨sent ++ rest, by rw [hrest, hlog, List.append_assoc], fun e he => ?_⟩
        rcases List.mem_append.mp he with he | he
        · exact hout e he
        · exact hnr e he
  · exact hraise _ _ _
  · exact hraise _ _ _

/-! ## What no call changes -/

/-- The nodes have the same configuration. -/
structure SameConfig (node node' : Node) : Prop where
  peerIndex : node'.peerIndex = node.peerIndex
  peerMac : node'.peerMac = node.peerMac
  maxPayload : node'.maxPayload = node.maxPayload
  onMessage : node'.onMessage = node.onMessage
  onTxEvent : node'.onTxEvent = node.onTxEvent

theorem SameConfig.refl (node : Node) : SameConfig node node := ⟨rfl, rfl, rfl, rfl, rfl⟩

theorem SameConfig.trans {a b c : Node} (h : SameConfig a b) (h' : SameConfig b c) :
    SameConfig a c :=
  ⟨h'.peerIndex.trans h.peerIndex, h'.peerMac.trans h.peerMac, h'.maxPayload.trans h.maxPayload,
    h'.onMessage.trans h.onMessage, h'.onTxEvent.trans h.onTxEvent⟩

theorem QuietCall.sameConfig {node : Node} {k : Call} (h : QuietCall node k) :
    SameConfig node k.node := by
  constructor <;> rw [h.node_eq]

theorem transmitNew_sameConfig (radio : Radio) (k : Call) (c flags : U8) (track : Bool)
    (payload : List U8) (now : U32) (hflags : flags.toNat < 16) :
    SameConfig k.node (transmitNew radio k c flags track payload now).2.node := by
  rcases transmitNew_cases radio k c flags track payload now hflags with ⟨heq, _⟩ |
    ⟨channel, channel', state', _, _, _, _, _, ⟨_, heq⟩ | ⟨i, node', attempts, out, rest, _, hnode,
      heq, _⟩⟩ <;> rw [heq]
  · exact SameConfig.refl _
  · exact ⟨rfl, rfl, rfl, rfl, rfl⟩
  · rw [trackIf_frame, hnode]
    exact ⟨rfl, rfl, rfl, rfl, rfl⟩

theorem unlockEmpty_sameConfig (node : Node) : SameConfig node (unlockEmpty node) := by
  unfold unlockEmpty
  split <;> exact ⟨rfl, rfl, rfl, rfl, rfl⟩

theorem sendReliable_sameConfig (radio : Radio) (node : Node) (c : U8) (payload : List U8)
    (now : U32) : SameConfig node (sendReliable radio node c payload now).2.node := by
  refine sendReliable_keeps (P := fun k => SameConfig node k.node) (SameConfig.refl _)
    ⟨rfl, rfl, rfl, rfl, rfl⟩ (fun k h => h.trans (unlockEmpty_sameConfig _))
    fun k flags track part h hflags _ => ?_
  exact h.trans (transmitNew_sameConfig radio k c flags track part now hflags)

theorem onReceive_sameConfig (radio : Radio) (node : Node) (src : Mac) (data : List U8)
    (now : U32) : SameConfig node (onReceive radio node src data now).2.node := by
  rcases onReceive_cases radio node src data now with
    ⟨header, channel, hacc, ⟨_, heq⟩ | ⟨_, heq⟩⟩ | hq
  · obtain ⟨channel', state', _, _, _, hrecv⟩ := receiveAck_spec now hacc.at_channel
    rw [heq, hrecv]
    show SameConfig node (fragmentTxOnAck (txCacheRemove { node with state := state' } header.ackId)
      header.ackId)
    rw [fragmentTxOnAck_frame, txCacheRemove_frame]
    exact ⟨rfl, rfl, rfl, rfl, rfl⟩
  · obtain ⟨channel', state', _, _, _, hcases⟩ :=
      receiveData_spec radio src (framePayload data) now hacc.at_channel
    -- storing the packet and handing it over write caches only
    have harrived : SameConfig node (node.arrived header (framePayload data) state') := by
      unfold Node.arrived
      rw [rxCacheStore_frame]
      exact ⟨rfl, rfl, rfl, rfl, rfl⟩
    rw [heq]
    rcases hcases with ⟨_, hrecv⟩ | ⟨_, _, attempts, answer, _, hrecv⟩ <;> rw [hrecv]
    · exact harrived
    · refine harrived.trans ?_
      have hnode := (HandsOver.all src header.channelId now
        (deliverable channel.reliable header.seqId)
        ⟨node.arrived header (framePayload data) state', attempts, answer⟩).node_eq
      constructor <;> dsimp only <;> rw [hnode]
  · exact hq.sameConfig

theorem pollReassembly_sameConfig (node : Node) (now : U32) :
    SameConfig node (pollReassembly node now) := by
  rcases pollReassembly_cases node now with h | ⟨_, h⟩ <;> rw [h] <;>
    exact ⟨rfl, rfl, rfl, rfl, rfl⟩

theorem poll_sameConfig (radio : Radio) (node : Node) (now : U32) :
    SameConfig node (poll radio node now).2.node := by
  obtain ⟨node₁, hnode₁, hcases⟩ := poll_cases radio node now
  have hre : SameConfig node node₁ := hnode₁ ▸ pollReassembly_sameConfig node now
  rcases hcases with ⟨_, hq⟩ | ⟨k, c, channel, _, _, state', hk, _, _, _, _, _, _, _, heq⟩
  · exact hre.trans hq.sameConfig
  · rw [heq, pollEvent_node]
    have hset : SameConfig node { k.node with state := state' } :=
      hre.trans (hk.sameConfig.trans ⟨rfl, rfl, rfl, rfl, rfl⟩)
    split
    · refine hset.trans ?_
      show SameConfig _ (txCacheRemove { k.node with state := state' } _)
      rw [txCacheRemove_frame]
      exact ⟨rfl, rfl, rfl, rfl, rfl⟩
    · exact hset

/-- **No call changes the configuration.** -/
theorem sameConfig_step (w : NodeRun) (a : ApiStep) : SameConfig w.node (w.step a).node := by
  obtain ⟨radio, call⟩ := a
  unfold NodeRun.step
  cases call with
  | openChannel c mode priority =>
      obtain ⟨state', heq, _⟩ := openChannel_cases w.node c mode priority
      show SameConfig w.node (openChannel w.node c mode priority).2
      rw [heq]
      exact ⟨rfl, rfl, rfl, rfl, rfl⟩
  | sendReliable c payload now => exact sendReliable_sameConfig radio w.node c payload now
  | sendUnreliable c payload => exact (sendUnreliable_quiet radio w.node c payload).sameConfig
  | sendPriority c payload => exact (sendPriority_quiet radio w.node c payload).sameConfig
  | onReceive src data now => exact onReceive_sameConfig radio w.node src data now
  | poll now => exact poll_sameConfig radio w.node now

/-! ## One half of every channel -/

/-- The nodes have the same reliable channels, as far as `half` tells. -/
def SameChannels {β : Type} (half : ChannelState → β) (node node' : Node) : Prop :=
  ∀ c, (node'.reliableAt c).map half = (node.reliableAt c).map half

section SameChannels

variable {β : Type} {half : ChannelState → β} {node node' : Node} {c : U8}

theorem SameChannels.of_eq (h : node'.reliableAt = node.reliableAt) :
    SameChannels half node node' := by
  intro c
  rw [h]

theorem SameChannels.trans {a b c : Node} (h : SameChannels half a b)
    (h' : SameChannels half b c) : SameChannels half a c :=
  fun d => (h' d).trans (h d)

/-- What is the same as far as `half` tells is the same as far as any part of it tells. -/
theorem SameChannels.part {γ : Type} (h : SameChannels half node node') (part : β → γ) :
    SameChannels (fun channel => part (half channel)) node node' := by
  intro d
  have hmap := congrArg (Option.map part) (h d)
  rw [Option.map_map, Option.map_map] at hmap
  exact hmap

theorem SameChannels.before {channel' : ChannelState} (h : SameChannels half node node')
    (hc : node'.reliableAt c = some channel') :
    ∃ channel, node.reliableAt c = some channel ∧ half channel = half channel' := by
  have hmap := h c
  rw [hc, Option.map_some] at hmap
  exact Option.map_eq_some_iff.mp hmap.symm

theorem SameChannels.after {channel : ChannelState} (h : SameChannels half node node')
    (hc : node.reliableAt c = some channel) :
    ∃ channel', node'.reliableAt c = some channel' ∧ half channel' = half channel := by
  have hmap := h c
  rw [hc, Option.map_some] at hmap
  exact Option.map_eq_some_iff.mp hmap

/-- Updating one channel changes nothing that `half` does not see. -/
theorem SameChannels.update {channel channel' : ChannelState}
    (hc : node.reliableAt c = some channel)
    (hrel : node'.reliableAt = Function.update node.reliableAt c (some channel'))
    (hhalf : half channel' = half channel) : SameChannels half node node' := by
  intro d
  rw [hrel]
  by_cases hd : d = c
  · subst hd
    rw [Function.update_self, hc, Option.map_some, Option.map_some, hhalf]
  · rw [Function.update_of_ne hd]

end SameChannels

end Relinow
