import Relinow.Proof.NodeRun

/-!
# The receive side of a node

The window and the buffered ids of each channel, the receive queues, the cache
of received payloads, the message in reassembly: only arriving DATA and the
reassembly timeout of a poll change these. Every other call is quiet on this
side, and hands no message of the reliable mode over.
-/

namespace Relinow

open SlotTable

/-- What a channel knows about the ids that have arrived. -/
def ChannelState.rxHalf (channel : ChannelState) :
    (Bool × U16 × Vector Reorder maxReorder) × Vector RxSlot rxQueueSize :=
  ((channel.reliable.hasRxWindow, channel.reliable.expectedRxSeq, channel.reliable.reorder),
    channel.rxQueue)

/-- The message in reassembly. -/
def Node.assembling (node : Node) : Bool × U16 × List U8 × U32 :=
  (node.reassemblyActive, node.reassemblyFirstSeq, node.reassemblyBuf, node.reassemblyStartMs)

/-- Nothing on the receive side has changed. -/
structure RxQuiet (node node' : Node) : Prop where
  channels : SameChannels ChannelState.rxHalf node node'
  cache : node'.rxCache = node.rxCache
  assembling : node'.assembling = node.assembling

theorem RxQuiet.refl (node : Node) : RxQuiet node node := ⟨SameChannels.of_eq rfl, rfl, rfl⟩

theorem RxQuiet.trans {a b c : Node} (h : RxQuiet a b) (h' : RxQuiet b c) : RxQuiet a c :=
  ⟨h.channels.trans h'.channels, h'.cache.trans h.cache, h'.assembling.trans h.assembling⟩

theorem QuietCall.rxQuiet {node : Node} {k : Call} (h : QuietCall node k) :
    RxQuiet node k.node := by
  refine ⟨SameChannels.of_eq h.reliableAt, ?_, ?_⟩ <;> rw [h.node_eq]
  rfl

theorem QuietCall.noDelivery {node : Node} {k : Call} (h : QuietCall node k) :
    ∀ e ∈ k.log, e.NoDelivery node :=
  fun e he => (h.log e he).noDelivery

/-- A call that is quiet on the receive side. -/
structure RxQuietCall (node : Node) (k : Call) : Prop where
  node_quiet : RxQuiet node k.node
  log : ∀ e ∈ k.log, e.NoDelivery node

theorem QuietCall.rx {node : Node} {k : Call} (h : QuietCall node k) : RxQuietCall node k :=
  ⟨h.rxQuiet, h.noDelivery⟩

/-- **Opening a channel** is quiet or adds a channel where nothing has arrived. -/
theorem openChannel_rx (node : Node) (c mode priority : U8) :
    RxQuiet node (openChannel node c mode priority).2
    ∨ ∃ channel, node.reliableAt c = none ∧ IsFresh channel
      ∧ (openChannel node c mode priority).2.reliableAt
        = Function.update node.reliableAt c (some channel)
      ∧ (openChannel node c mode priority).2.rxCache = node.rxCache
      ∧ (openChannel node c mode priority).2.assembling = node.assembling := by
  obtain ⟨state', heq, hcases⟩ := openChannel_cases node c mode priority
  rw [heq]
  rcases hcases with hrel | ⟨channel, hch, hrel⟩ | ⟨channel, hno, hfresh, hrel⟩
  · exact Or.inl ⟨SameChannels.of_eq hrel, rfl, rfl⟩
  · exact Or.inl ⟨SameChannels.update hch hrel rfl, rfl, rfl⟩
  · exact Or.inr ⟨channel, hno, hfresh, hrel, rfl, rfl⟩

theorem transmitNew_rx (radio : Radio) {node : Node} {k : Call} (h : RxQuietCall node k)
    (c flags : U8) (track : Bool) (payload : List U8) (now : U32) (hflags : flags.toNat < 16) :
    RxQuietCall node (transmitNew radio k c flags track payload now).2 := by
  rcases transmitNew_cases radio k c flags track payload now hflags with ⟨heq, _⟩ |
    ⟨channel, channel', state', hch, hfr, _, hrel, _, ⟨_, heq⟩ | ⟨i, node', attempts, out, rest, _,
      hnode, heq, hout, _⟩⟩ <;> rw [heq]
  · exact h
  · have hhalf : channel'.rxHalf = channel.rxHalf := by
      unfold ChannelState.rxHalf
      rw [hfr]
    refine ⟨h.node_quiet.trans ⟨SameChannels.update hch hrel hhalf, rfl, rfl⟩, fun e he => ?_⟩
    rcases List.mem_append.mp he with he | he
    · exact h.log e he
    · rw [List.mem_singleton.mp he]
      trivial
  · have hhalf : channel'.rxHalf = channel.rxHalf := by
      unfold ChannelState.rxHalf
      rw [hfr]
    have hset : RxQuiet k.node node' := by
      rw [hnode]
      exact ⟨SameChannels.update hch hrel hhalf, rfl, rfl⟩
    -- tracking a fragment writes the transmit side only
    have htrack : RxQuiet node'
        (if track then fragmentTxTrack node' channel.reliable.nextTxSeq else node') := by
      rw [trackIf_frame]
      exact ⟨SameChannels.of_eq rfl, rfl, rfl⟩
    refine ⟨h.node_quiet.trans (hset.trans htrack), fun e he => ?_⟩
    rcases List.mem_append.mp he with he | he
    · exact h.log e he
    · rcases List.mem_cons.mp he with rfl | he
      · trivial
      · rcases hout with ⟨_, _, _, hnil⟩ | ⟨_, frame, _, hrest⟩
        · rw [hnil] at he
          exact absurd he (by simp)
        · rw [hrest] at he
          rcases List.mem_cons.mp he with rfl | he
          · trivial
          · split at he
            · rw [List.mem_singleton.mp he]
              trivial
            · exact absurd he (by simp)

/-- **A send is quiet.** -/
theorem sendReliable_rx (radio : Radio) (node : Node) (c : U8) (payload : List U8) (now : U32) :
    RxQuietCall node (sendReliable radio node c payload now).2 := by
  have hstart : RxQuietCall node (Call.start node) :=
    ⟨RxQuiet.refl node, fun e he => absurd he (by simp [Call.start])⟩
  refine sendReliable_keeps (P := RxQuietCall node) hstart
    ⟨⟨SameChannels.of_eq rfl, rfl, rfl⟩, hstart.log⟩ (fun k h => ?_)
    fun k flags track part h hflags _ => transmitNew_rx radio h c flags track part now hflags
  refine ⟨h.node_quiet.trans ?_, h.log⟩
  show RxQuiet k.node (unlockEmpty k.node)
  unfold unlockEmpty
  split
  · exact ⟨SameChannels.of_eq rfl, rfl, rfl⟩
  · exact RxQuiet.refl _

/-- **A frame is quiet, or DATA on a reliable channel.** -/
theorem onReceive_rx (radio : Radio) (node : Node) (src : Mac) (data : List U8) (now : U32) :
    RxQuietCall node (onReceive radio node src data now).2
    ∨ ∃ header channel, Accepts node src data header channel ∧ header.type = typeData
      ∧ onReceive radio node src data now
        = receiveData radio (Call.start node) src header (framePayload data) now := by
  rcases onReceive_cases radio node src data now with
    ⟨header, channel, hacc, ⟨_, heq⟩ | ⟨ht, heq⟩⟩ | hq
  · left
    obtain ⟨channel', state', hfr, hrel, _, hrecv⟩ := receiveAck_spec now hacc.at_channel
    have hhalf : channel'.rxHalf = channel.rxHalf := by
      unfold ChannelState.rxHalf
      rw [hfr]
      dsimp only
      rcases reliableOnAck_cases channel.reliable header.ackId now with ⟨_, h⟩ | ⟨ctx', h, hctx, _⟩
      · rw [h]
      · rw [h, hctx]
    rw [heq, hrecv]
    refine ⟨?_, fun e he => absurd he (by simp [Call.start])⟩
    show RxQuiet node (fragmentTxOnAck (txCacheRemove { node with state := state' } header.ackId)
      header.ackId)
    rw [fragmentTxOnAck_frame, txCacheRemove_frame]
    exact ⟨SameChannels.update hacc.at_channel hrel hhalf, rfl, rfl⟩
  · exact Or.inr ⟨header, channel, hacc, ht, heq⟩
  · exact Or.inl hq.rx

/-- **A poll is quiet** apart from the reassembly timeout. -/
theorem poll_rx (radio : Radio) (node : Node) (now : U32) :
    RxQuietCall (pollReassembly node now) (poll radio node now).2 := by
  obtain ⟨node₁, hnode₁, hcases⟩ := poll_cases radio node now
  rw [← hnode₁]
  rcases hcases with ⟨_, hq⟩ | ⟨k, c, channel, channel', i, state', hk, _, hch, _, hfr, hrel, _, _,
    heq⟩
  · exact hq.rx
  · obtain ⟨rest, hlog, hrest⟩ := pollEvent_log radio
      (k.setNode { k.node with state := state' }) c (reliablePoll channel.reliable now).2
    -- the poll of the engine writes `pending` only
    have hhalf : channel'.rxHalf = channel.rxHalf := by
      unfold ChannelState.rxHalf
      rw [hfr]
      dsimp only
      rcases reliablePoll_cases channel.reliable now with ⟨h, _⟩ |
        ⟨_, ctx', _, hctx, ⟨_, h, _⟩ | ⟨_, h, _⟩⟩
      · rw [h]
      · rw [h, hctx]
      · rw [h, hctx]
    have hset : RxQuiet node₁ { k.node with state := state' } := by
      refine ⟨SameChannels.update hch ?_ hhalf, hk.rxQuiet.cache, hk.rxQuiet.assembling⟩
      show Relinow.reliableAt state' k.node.peerIndex = _
      rw [show k.node.peerIndex = node₁.peerIndex by rw [hk.node_eq]]
      exact hrel
    refine ⟨?_, fun e he => ?_⟩
    · rw [heq, pollEvent_node]
      split
      · refine hset.trans ?_
        show RxQuiet _ (txCacheRemove { k.node with state := state' } _)
        rw [txCacheRemove_frame]
        exact ⟨SameChannels.of_eq rfl, rfl, rfl⟩
      · exact hset
    · rw [heq, hlog] at he
      rcases List.mem_append.mp he with he | he
      · exact hk.noDelivery e he
      · exact (hrest e he).noDelivery _

/-! ## The cache of received payloads -/

/-- The ids with a cached payload. -/
def arrivedSeqs (node : Node) : Multiset U16 := keys RxCache.inUse RxCache.seqId node.rxCache

/-- The entry the payload of an arriving frame is put into, if it is. -/
def storeIdx (node : Node) (header : Header) : Option (Fin rxCacheSize) :=
  match rxCacheFind node header.seqId with
  | some _ => none
  | none => rxCacheAlloc node

theorem rxCacheStore_cases (node : Node) (header : Header) (payload : List U8) :
    (storeIdx node header = none ∧ rxCacheStore node header payload = node
      ∧ (header.seqId ∈ arrivedSeqs node ∨ (arrivedSeqs node).card = rxCacheSize))
    ∨ ∃ i : Fin rxCacheSize, storeIdx node header = some i ∧ node.rxCache[i].inUse = false
      ∧ header.seqId ∉ arrivedSeqs node
      ∧ rxCacheStore node header payload = { node with
          rxCache := node.rxCache.put i ⟨true, header.seqId, header.flags, payload⟩ } := by
  unfold storeIdx rxCacheStore
  cases hf : rxCacheFind node header.seqId with
  | some i =>
      obtain ⟨hu, hk⟩ := keyIdx_some RxCache.inUse RxCache.seqId hf
      exact Or.inl ⟨rfl, rfl, Or.inl (mem_keys.mpr ⟨i, hu, hk⟩)⟩
  | none =>
      cases ha : rxCacheAlloc node with
      | none =>
          refine Or.inl ⟨rfl, rfl, Or.inr ?_⟩
          unfold arrivedSeqs
          rw [card_keys]
          exact freeIdx_none RxCache.inUse ha
      | some i =>
          exact Or.inr ⟨i, rfl, freeIdx_some RxCache.inUse ha,
            (keyIdx_none RxCache.inUse RxCache.seqId).mp hf, rfl⟩

/-- **The ids after an arrival has been stored**: its own is new, was there, or finds no entry. -/
theorem arrivedSeqs_store (node : Node) (header : Header) (payload : List U8) :
    (arrivedSeqs (rxCacheStore node header payload) = arrivedSeqs node
      ∧ (header.seqId ∈ arrivedSeqs node ∨ (arrivedSeqs node).card = rxCacheSize))
    ∨ (header.seqId ∉ arrivedSeqs node
      ∧ arrivedSeqs (rxCacheStore node header payload) = header.seqId ::ₘ arrivedSeqs node) := by
  rcases rxCacheStore_cases node header payload with
    ⟨_, heq, hwhy⟩ | ⟨i, _, hi, hno, heq⟩ <;> rw [heq]
  · exact Or.inl ⟨rfl, hwhy⟩
  · exact Or.inr ⟨hno, keys_fill RxCache.seqId hi rfl⟩

/-- **What an arrival leaves in the cache** was there, or is its own payload. -/
theorem arrived_entries {P : RxCache → Prop} {node : Node}
    (h : ∀ i : Fin rxCacheSize, node.rxCache[i].inUse = true → P node.rxCache[i]) {header : Header}
    {payload : List U8} (hnew : P ⟨true, header.seqId, header.flags, payload⟩) (state : State)
    (i : Fin rxCacheSize) (hu : (node.arrived header payload state).rxCache[i].inUse = true) :
    P (node.arrived header payload state).rxCache[i] := by
  unfold Node.arrived at hu ⊢
  rcases rxCacheStore_cases node header payload with ⟨_, heq, _⟩ | ⟨j, _, _, _, heq⟩ <;>
    simp only [heq] at hu ⊢
  · exact h i hu
  · by_cases hji : j = i
    · subst hji
      rw [put_self]
      exact hnew
    · rw [put_ne hji] at hu ⊢
      exact h i hu

/-- The entry `i` is given up. -/
def Call.release (k : Call) (i : Fin rxCacheSize) : Call :=
  k.setNode
    { k.node with rxCache := k.node.rxCache.put i { k.node.rxCache[i] with inUse := false } }

theorem deliverPlain_cache (k : Call) (src : Mac) (c : U8) (frame : RxCache) :
    (deliverPlain k src c frame).node.rxCache = k.node.rxCache := by
  unfold deliverPlain
  rw [raiseMessage_node]
  split <;> rfl

theorem raiseMessage_log (k : Call) (site : Delivery) (src : Mac) (c : U8) (q : U16)
    (payload : List U8) : (raiseMessage k site src c q payload).log
      = k.log ++ if k.node.onMessage then [.message site src c q payload] else [] := by
  unfold raiseMessage
  split
  · rfl
  · rw [List.append_nil]

theorem deliverPlain_log (k : Call) (src : Mac) (c : U8) (frame : RxCache) :
    (deliverPlain k src c frame).log = k.log ++ if k.node.onMessage then
      [.message .plain src c frame.seqId frame.payload] else [] := by
  unfold deliverPlain
  dsimp only
  rw [raiseMessage_log]
  split <;> rfl

/-- **A delivered fragment** overflows the buffer, completes the message, or is appended. -/
theorem deliverFragment_cases (k : Call) (src : Mac) (c : U8) (now : U32) (frag : RxCache) :
    ∃ node buf, node = reassemblyStart k.node frag.seqId now
      ∧ buf = node.reassemblyBuf ++ frag.payload
      ∧ ((maxReassembly < buf.length
          ∧ deliverFragment k src c now frag = k.setNode (reassemblyReset node))
        ∨ (buf.length ≤ maxReassembly ∧ hasFlag frag.flags flagLastFragment = true
          ∧ ∃ rest, deliverFragment k src c now frag
              = { k with
                  node := reassemblyReset { node with reassemblyBuf := buf }
                  log := k.log ++ rest }
            ∧ ∀ e ∈ rest, e = .message .reassembled src c node.reassemblyFirstSeq buf)
        ∨ (buf.length ≤ maxReassembly ∧ hasFlag frag.flags flagLastFragment = false
          ∧ deliverFragment k src c now frag = k.setNode { node with reassemblyBuf := buf })) := by
  refine ⟨_, _, rfl, rfl, ?_⟩
  unfold deliverFragment
  dsimp only
  rw [← List.length_append]
  split
  · rename_i hover
    exact Or.inl ⟨hover, rfl⟩
  · rename_i hfits
    rw [Nat.not_lt] at hfits
    cases hlast : hasFlag frag.flags flagLastFragment with
    | false =>
        rw [if_neg (by simp)]
        exact Or.inr (Or.inr ⟨hfits, rfl, rfl⟩)
    | true =>
        rw [if_pos rfl]
        refine Or.inr (Or.inl ⟨hfits, rfl, ?_⟩)
        unfold raiseMessage
        split
        · exact ⟨_, rfl, fun e he => List.mem_singleton.mp he⟩
        · exact ⟨[], by rw [List.append_nil]; rfl, fun e he => absurd he (by simp)⟩

theorem deliverFragment_cache (k : Call) (src : Mac) (c : U8) (now : U32) (frag : RxCache) :
    (deliverFragment k src c now frag).node.rxCache = k.node.rxCache := by
  obtain ⟨node, buf, hnode, _, hcases⟩ := deliverFragment_cases k src c now frag
  have hcache : node.rxCache = k.node.rxCache := by
    rw [hnode]
    unfold reassemblyStart
    split <;> rfl
  rcases hcases with ⟨_, heq⟩ | ⟨_, _, _, heq, _⟩ | ⟨_, _, heq⟩ <;> rw [heq] <;> exact hcache

theorem deliverFragment_log (k : Call) (src : Mac) (c : U8) (now : U32) (frag : RxCache) :
    ∃ rest, (deliverFragment k src c now frag).log = k.log ++ rest
      ∧ ∀ e ∈ rest, ∃ q payload, e = .message .reassembled src c q payload := by
  obtain ⟨node, buf, _, _, ⟨_, heq⟩ | ⟨_, _, rest, heq, hrest⟩ | ⟨_, _, heq⟩⟩ :=
    deliverFragment_cases k src c now frag <;> rw [heq]
  · exact ⟨[], (List.append_nil _).symm, fun e he => absurd he (by simp)⟩
  · exact ⟨rest, rfl, fun e he => ⟨_, _, hrest e he⟩⟩
  · exact ⟨[], (List.append_nil _).symm, fun e he => absurd he (by simp)⟩

/-- **One round of the delivery loop**: nothing is cached under the id, or the entry found is
handed over, as a fragment or as a message, and given up. -/
theorem deliverOne_cases (src : Mac) (c : U8) (now : U32) (k : Call) (q : U16) :
    (q ∉ arrivedSeqs k.node ∧ deliverOne src c now k q = k)
    ∨ ∃ i : Fin rxCacheSize, rxCacheFind k.node q = some i
      ∧ k.node.rxCache[i].inUse = true ∧ k.node.rxCache[i].seqId = q
      ∧ ((hasFlag k.node.rxCache[i].flags flagFragment = true
          ∧ deliverOne src c now k q
            = (deliverFragment k src c now k.node.rxCache[i]).release i)
        ∨ (hasFlag k.node.rxCache[i].flags flagFragment = false
          ∧ deliverOne src c now k q
            = (deliverPlain k src c k.node.rxCache[i]).release i)) := by
  unfold deliverOne
  cases hf : rxCacheFind k.node q with
  | none => exact Or.inl ⟨(keyIdx_none RxCache.inUse RxCache.seqId).mp hf, rfl⟩
  | some i =>
      obtain ⟨hu, hk⟩ := keyIdx_some RxCache.inUse RxCache.seqId hf
      refine Or.inr ⟨i, rfl, hu, hk, ?_⟩
      -- the entry given up is the one found
      have hremove : ∀ k' : Call, k'.node.rxCache = k.node.rxCache →
          k'.setNode (rxCacheRemove k'.node k.node.rxCache[i].seqId) = k'.release i := by
        intro k' hcache
        have hfind : rxCacheFind k'.node k.node.rxCache[i].seqId = some i := by
          rw [hk]
          unfold rxCacheFind
          rw [hcache]
          exact hf
        unfold rxCacheRemove
        rw [hfind]
        rfl
      dsimp only
      cases hflag : hasFlag k.node.rxCache[i].flags flagFragment with
      | true =>
          rw [if_pos rfl]
          exact Or.inl ⟨rfl, hremove _ (deliverFragment_cache _ _ _ _ _)⟩
      | false =>
          rw [if_neg (by simp)]
          exact Or.inr ⟨rfl, hremove _ (deliverPlain_cache _ _ _ _)⟩

/-- What is in use after a round was there before it. -/
theorem deliverOne_cache {src : Mac} {c : U8} {now : U32} {k : Call} {q : U16}
    {i : Fin rxCacheSize}
    (hu : (deliverOne src c now k q).node.rxCache[i].inUse = true) :
    (deliverOne src c now k q).node.rxCache[i] = k.node.rxCache[i] := by
  have hrelease : ∀ (k' : Call) (j : Fin rxCacheSize), k'.node.rxCache = k.node.rxCache →
      (k'.release j).node.rxCache[i].inUse = true →
      (k'.release j).node.rxCache[i] = k.node.rxCache[i] := by
    intro k' j hcache hu
    have hget : (k'.release j).node.rxCache[i]
        = if j = i then { k'.node.rxCache[j] with inUse := false } else k'.node.rxCache[i] :=
      get_put _ _ _ _
    by_cases hji : j = i
    · rw [hget, if_pos hji] at hu
      exact absurd hu (by simp)
    · rw [hget, if_neg hji]
      simp only [hcache]
  rcases deliverOne_cases src c now k q with ⟨_, heq⟩ | ⟨j, _, _, _, ⟨_, heq⟩ | ⟨_, heq⟩⟩ <;>
    rw [heq] at hu ⊢
  · exact hrelease _ j (deliverFragment_cache _ _ _ _ _) hu
  · exact hrelease _ j (deliverPlain_cache _ _ _ _) hu

/-- What is in use after the delivery loop was there before it. -/
theorem deliverAll_cache {src : Mac} {c : U8} {now : U32} {ds : List U16} {i : Fin rxCacheSize} :
    ∀ {k : Call}, (ds.foldl (deliverOne src c now) k).node.rxCache[i].inUse = true →
      (ds.foldl (deliverOne src c now) k).node.rxCache[i] = k.node.rxCache[i] := by
  induction ds with
  | nil => exact fun _ => rfl
  | cons d ds ih =>
      intro k hu
      have hkept := ih hu
      have hu' : (deliverOne src c now k d).node.rxCache[i].inUse = true := by
        rw [← hkept]
        exact hu
      exact hkept.trans (deliverOne_cache hu')

/-- **What a round takes out of the cache**: the entry of its id, if there is one. -/
theorem deliverOne_taken (src : Mac) (c : U8) (now : U32) (k : Call) (q : U16) :
    (q ∉ arrivedSeqs k.node ∧ deliverOne src c now k q = k)
    ∨ arrivedSeqs k.node = q ::ₘ arrivedSeqs (deliverOne src c now k q).node := by
  have hrelease : ∀ (k' : Call) (i : Fin rxCacheSize), k'.node.rxCache = k.node.rxCache →
      k.node.rxCache[i].inUse = true → k.node.rxCache[i].seqId = q →
      arrivedSeqs k.node = q ::ₘ arrivedSeqs (k'.release i).node := by
    intro k' i hcache hu hid
    have hkeys := keys_release RxCache.seqId (x := { k.node.rxCache[i] with inUse := false }) hu rfl
    rw [hid] at hkeys
    unfold arrivedSeqs Call.release Call.setNode
    dsimp only
    simp only [hcache]
    exact hkeys
  rcases deliverOne_cases src c now k q with hnone | ⟨i, _, hu, hid, ⟨_, heq⟩ | ⟨_, heq⟩⟩
  · exact Or.inl hnone
  · rw [heq]
    exact Or.inr (hrelease _ i (deliverFragment_cache _ _ _ _ _) hu hid)
  · rw [heq]
    exact Or.inr (hrelease _ i (deliverPlain_cache _ _ _ _) hu hid)

/-- A cached id stays cached until its own round. -/
theorem arrivedSeqs_deliverOne {src : Mac} {c : U8} {now : U32} {k : Call} {x q : U16}
    (hx : x ∈ arrivedSeqs k.node) (hne : x ≠ q) :
    x ∈ arrivedSeqs (deliverOne src c now k q).node := by
  rcases deliverOne_taken src c now k q with ⟨_, heq⟩ | htaken
  · rw [heq]
    exact hx
  · rw [htaken, Multiset.mem_cons] at hx
    exact hx.resolve_left hne

/-- **The delivery loop takes the ids it runs through out of the cache**, and no others. -/
theorem arrivedSeqs_deliverAll (src : Mac) (c : U8) (now : U32) (ds : List U16) :
    ∀ k : Call, (arrivedSeqs k.node).Nodup →
      (arrivedSeqs (ds.foldl (deliverOne src c now) k).node).Nodup
        ∧ ∀ x, x ∈ arrivedSeqs (ds.foldl (deliverOne src c now) k).node ↔
          x ∈ arrivedSeqs k.node ∧ x ∉ ds := by
  induction ds with
  | nil => exact fun k hnd => ⟨hnd, fun x => by simp⟩
  | cons d ds ih =>
      intro k hnd
      rw [List.foldl_cons]
      rcases deliverOne_taken src c now k d with ⟨hno, heq⟩ | htaken
      · rw [heq]
        refine ⟨(ih k hnd).1, fun x => ?_⟩
        rw [(ih k hnd).2, List.mem_cons, not_or]
        refine and_congr_right fun hx => ⟨fun h => ⟨?_, h⟩, fun h => h.2⟩
        rintro rfl
        exact hno hx
      · rw [htaken, Multiset.nodup_cons] at hnd
        refine ⟨(ih _ hnd.2).1, fun x => ?_⟩
        rw [(ih _ hnd.2).2, htaken, Multiset.mem_cons, List.mem_cons, not_or]
        refine ⟨fun ⟨hx, hds⟩ => ⟨Or.inr hx, ?_, hds⟩, fun ⟨hx, hne, hds⟩ =>
          ⟨hx.resolve_left hne, hds⟩⟩
        rintro rfl
        exact hnd.1 hx

/-! ## Arrivals -/

/-- The DATA frame a call brings to a reliable channel. -/
def arrival (node : Node) (call : ApiCall) : Option (Header × List U8 × ChannelState) :=
  match call with
  | .onReceive src data _ =>
      match node.accepted src data with
      | some (header, channel) =>
          if header.type = typeData then some (header, framePayload data, channel) else none
      | none => none
  | _ => none

theorem arrival_eq_some {node : Node} {call : ApiCall} {header : Header} {payload : List U8}
    {channel : ChannelState} (h : arrival node call = some (header, payload, channel)) :
    ∃ src data now, call = .onReceive src data now ∧ Accepts node src data header channel
      ∧ header.type = typeData ∧ payload = framePayload data := by
  unfold arrival at h
  split at h
  · rename_i src data now
    split at h
    · rename_i header' channel' hacc
      split at h
      · rename_i ht
        obtain ⟨rfl, hp⟩ := Prod.mk.inj (Option.some.inj h)
        obtain ⟨rfl, rfl⟩ := Prod.mk.inj hp
        exact ⟨src, data, now, rfl, accepted_eq_some hacc, ht, rfl⟩
      · exact absurd h (by simp)
    · exact absurd h (by simp)
  · exact absurd h (by simp)

/-- **A call that brings DATA** to a reliable channel is the DATA branch of `relinow_on_receive`. -/
theorem run_of_arrival {node : Node} {call : ApiCall} {header : Header} {payload : List U8}
    {channel : ChannelState} (radio : Radio)
    (h : arrival node call = some (header, payload, channel)) :
    ∃ src now, node.reliableAt header.channelId = some channel
      ∧ call.run radio node = receiveData radio (Call.start node) src header payload now := by
  obtain ⟨src, data, now, rfl, hacc, ht, rfl⟩ := arrival_eq_some h
  refine ⟨src, now, hacc.at_channel, ?_⟩
  exact hacc.onReceive_data ht radio now

theorem arrival_of_accepts {node : Node} {src : Mac} {data : List U8} {header : Header}
    {channel : ChannelState} (h : Accepts node src data header channel)
    (ht : header.type = typeData) (now : U32) :
    arrival node (.onReceive src data now) = some (header, framePayload data, channel) := by
  unfold arrival
  dsimp only
  rw [h.accepted]
  dsimp only
  rw [if_pos ht]

/-- **Any other call** leaves the cache alone and hands nothing over. -/
theorem run_of_no_arrival {node : Node} {call : ApiCall} (radio : Radio)
    (h : arrival node call = none) :
    (call.run radio node).2.node.rxCache = node.rxCache
      ∧ ∀ e ∈ (call.run radio node).2.log, e.NoDelivery node := by
  cases call with
  | openChannel c mode priority =>
      refine ⟨?_, fun e he => absurd he (by simp [ApiCall.run, Call.start])⟩
      rcases openChannel_rx node c mode priority with hq | ⟨_, _, _, _, hcache, _⟩
      · exact hq.cache
      · exact hcache
  | sendReliable c payload now =>
      have hq := sendReliable_rx radio node c payload now
      exact ⟨hq.node_quiet.cache, hq.log⟩
  | sendUnreliable c payload =>
      have hq := (sendUnreliable_quiet radio node c payload).rx
      exact ⟨hq.node_quiet.cache, hq.log⟩
  | sendPriority c payload =>
      have hq := (sendPriority_quiet radio node c payload).rx
      exact ⟨hq.node_quiet.cache, hq.log⟩
  | onReceive src data now =>
      rcases onReceive_rx radio node src data now with hq | ⟨header, channel, hacc, ht, _⟩
      · exact ⟨hq.node_quiet.cache, hq.log⟩
      · -- DATA on a reliable channel would be an arrival
        rw [arrival_of_accepts hacc ht] at h
        exact absurd h (by simp)
  | poll now =>
      have hq := poll_rx radio node now
      have hlog := hq.log
      have hcache := hq.node_quiet.cache
      rcases pollReassembly_cases node now with heq | ⟨_, heq⟩ <;> rw [heq] at hlog hcache <;>
        exact ⟨hcache, hlog⟩

/-- The default configuration, with the message callback set. -/
def listenConfig : Config := { defaultConfig with onMessage := true }

def listenNode : Node := (init Node.zero listenConfig).2

end Relinow
