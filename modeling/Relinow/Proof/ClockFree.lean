import Relinow.Proof.NodeState
import Relinow.Proof.TxCache
import Relinow.Proof.ClockShift

/-!
# A node does not know what time it is

The two runs of a whole node: the same calls and the same answers of the radio,
with a clock that is ahead by `d` in the second. The nodes stay side by side call
by call, so the calls return the same and do the same outside, wherever the clock
stands and whenever it wraps.

The node has one timestamp of its own, the start of the message in reassembly,
which is read only while there is one. Heartbeats are off: their timestamp starts
at zero, whatever the clock says.
-/

namespace Relinow

open SlotTable Runs

/-- A node in the second run. -/
inductive NodeShift (d : U32) (node : Node) : Node → Prop where
  | mk (state : State) (startMs : U32) (hstate : StateShift d node.state state)
      (hstart : node.reassemblyActive = true → startMs = node.reassemblyStartMs + d) :
      NodeShift d node { node with state := state, reassemblyStartMs := startMs }

/-- A call in progress in the second run. -/
inductive CallShift (d : U32) (k : Call) : Call → Prop where
  | mk (node : Node) (h : NodeShift d k.node node) : CallShift d k (k.setNode node)

/-- What a step of a call comes to in the second run. -/
inductive OutcomeShift {α : Type} (d : U32) (r : α × Call) : α × Call → Prop where
  | mk (k : Call) (h : CallShift d r.2 k) : OutcomeShift d r (r.1, k)

section Calls

variable {d : U32} {node node' : Node} {k k' : Call}

theorem OutcomeShift.rc {α : Type} {r r' : α × Call} (h : OutcomeShift d r r') : r'.1 = r.1 := by
  obtain ⟨_, _⟩ := h
  rfl

/-- A check that turns out alike. -/
theorem OutcomeShift.ite {α : Type} {P : Prop} [Decidable P] {r r' s s' : α × Call}
    (ht : P → OutcomeShift d r r') (he : ¬ P → OutcomeShift d s s') :
    OutcomeShift d (if P then r else s) (if P then r' else s') := by
  by_cases h : P
  · rw [if_pos h, if_pos h]
    exact ht h
  · rw [if_neg h, if_neg h]
    exact he h

theorem OutcomeShift.call {α : Type} {r r' : α × Call} (h : OutcomeShift d r r') :
    CallShift d r.2 r'.2 := by
  obtain ⟨_, h⟩ := h
  exact h

namespace NodeShift

theorem state (h : NodeShift d node node') : StateShift d node.state node'.state := by
  obtain ⟨_, _, hstate, _⟩ := h
  exact hstate

theorem peerIndex (h : NodeShift d node node') : node'.peerIndex = node.peerIndex := by
  obtain ⟨_, _, _, _⟩ := h
  rfl

theorem peerMac (h : NodeShift d node node') : node'.peerMac = node.peerMac := by
  obtain ⟨_, _, _, _⟩ := h
  rfl

theorem maxPayload (h : NodeShift d node node') : node'.maxPayload = node.maxPayload := by
  obtain ⟨_, _, _, _⟩ := h
  rfl

theorem txCache (h : NodeShift d node node') : node'.txCache = node.txCache := by
  obtain ⟨_, _, _, _⟩ := h
  rfl

theorem rxCache (h : NodeShift d node node') : node'.rxCache = node.rxCache := by
  obtain ⟨_, _, _, _⟩ := h
  rfl

theorem onMessage (h : NodeShift d node node') : node'.onMessage = node.onMessage := by
  obtain ⟨_, _, _, _⟩ := h
  rfl

theorem onTxEvent (h : NodeShift d node node') : node'.onTxEvent = node.onTxEvent := by
  obtain ⟨_, _, _, _⟩ := h
  rfl

theorem setState (h : NodeShift d node node') {state state' : State}
    (hs : StateShift d state state') :
    NodeShift d { node with state := state } { node' with state := state' } := by
  obtain ⟨_, startMs, _, hstart⟩ := h
  exact NodeShift.mk state' startMs hs hstart

/-- What is done to the rest of the node sees neither its state nor its timestamp. -/
theorem map {f : Node → Node}
    (hf : ∀ (node : Node) (state : State) (startMs : U32),
      f { node with state := state, reassemblyStartMs := startMs }
        = { f node with state := state, reassemblyStartMs := startMs })
    (ha : ∀ node, (f node).reassemblyActive = node.reassemblyActive)
    (h : NodeShift d node node') : NodeShift d (f node) (f node') := by
  obtain ⟨state, startMs, hstate, hstart⟩ := h
  have hself : f node = { f node with
      state := node.state, reassemblyStartMs := node.reassemblyStartMs } :=
    hf node node.state node.reassemblyStartMs
  have hs : (f node).state = node.state := by rw [hself]
  have ht : (f node).reassemblyStartMs = node.reassemblyStartMs := by rw [hself]
  rw [hf node state startMs]
  refine NodeShift.mk state startMs (hs ▸ hstate) fun hact => ?_
  rw [ht]
  exact hstart ((ha node).symm.trans hact)

theorem setTx (h : NodeShift d node node') (i : Fin maxPending) (slot : TxCache) :
    NodeShift d { node with txCache := node.txCache.put i slot }
      { node' with txCache := node'.txCache.put i slot } :=
  h.map (f := fun node => { node with txCache := node.txCache.put i slot }) (fun _ _ _ => rfl)
    fun _ => rfl

theorem track (h : NodeShift d node node') (q : U16) :
    NodeShift d (fragmentTxTrack node q) (fragmentTxTrack node' q) := by
  refine h.map (f := fun node => fragmentTxTrack node q)
    (fun node state startMs => ?_) fun node => ?_
  · unfold fragmentTxTrack
    dsimp only
    split <;> rfl
  · rw [fragmentTxTrack_frame]

theorem fragmentAcked (h : NodeShift d node node') (a : U16) :
    NodeShift d (fragmentTxOnAck node a) (fragmentTxOnAck node' a) := by
  refine h.map (f := fun node => fragmentTxOnAck node a)
    (fun node state startMs => ?_) fun node => ?_
  · unfold fragmentTxOnAck
    dsimp only
    split <;> rfl
  · rw [fragmentTxOnAck_frame]

theorem unlock (h : NodeShift d node node') :
    NodeShift d (unlockEmpty node) (unlockEmpty node') := by
  refine h.map (f := unlockEmpty) (fun node state startMs => ?_) fun node => ?_
  · unfold unlockEmpty
    dsimp only
    split <;> rfl
  · unfold unlockEmpty
    split <;> rfl

theorem txRemove (h : NodeShift d node node') (q : U16) :
    NodeShift d (txCacheRemove node q) (txCacheRemove node' q) := by
  refine h.map (f := fun node => txCacheRemove node q) (fun node state startMs => ?_) fun node => ?_
  · unfold txCacheRemove txCacheFind
    dsimp only
    split <;> rfl
  · rw [txCacheRemove_frame]

theorem rxRemove (h : NodeShift d node node') (q : U16) :
    NodeShift d (rxCacheRemove node q) (rxCacheRemove node' q) := by
  refine h.map (f := fun node => rxCacheRemove node q) (fun node state startMs => ?_) fun node => ?_
  · unfold rxCacheRemove rxCacheFind
    dsimp only
    split <;> rfl
  · unfold rxCacheRemove
    split <;> rfl

theorem store (h : NodeShift d node node') (header : Header) (payload : List U8) :
    NodeShift d (rxCacheStore node header payload) (rxCacheStore node' header payload) := by
  refine h.map (f := fun node => rxCacheStore node header payload) (fun node state startMs => ?_)
    fun node => ?_
  · unfold rxCacheStore rxCacheFind rxCacheAlloc
    dsimp only
    split
    · rfl
    · split <;> rfl
  · rw [rxCacheStore_frame]

/-- Without a message in reassembly there is no timestamp. -/
theorem reset (h : NodeShift d node node') :
    NodeShift d (reassemblyReset node) (reassemblyReset node') := by
  obtain ⟨state, _, hstate, _⟩ := h
  exact @NodeShift.mk d (reassemblyReset node) state 0#32 hstate fun hact => Bool.noConfusion hact

/-- The message in reassembly starts at the time of the call. -/
theorem start (h : NodeShift d node node') (q : U16) (now : U32) :
    NodeShift d (reassemblyStart node q now) (reassemblyStart node' q (now + d)) := by
  obtain ⟨state, startMs, hstate, hstart⟩ := h
  unfold reassemblyStart
  dsimp only
  split
  · exact NodeShift.mk state startMs hstate hstart
  · exact @NodeShift.mk d
      { node with
        reassemblyActive := true
        reassemblyFirstSeq := q
        reassemblyBuf := []
        reassemblyStartMs := now } state (now + d) hstate fun _ => rfl

end NodeShift

namespace CallShift

theorem nodes (h : CallShift d k k') : NodeShift d k.node k'.node := by
  obtain ⟨_, hnode⟩ := h
  exact hnode

theorem start (h : NodeShift d node node') : CallShift d (Call.start node) (Call.start node') :=
  CallShift.mk node' h

theorem setNode (h : CallShift d k k') (hnode : NodeShift d node node') :
    CallShift d (k.setNode node) (k'.setNode node') := by
  obtain ⟨_, _⟩ := h
  exact @CallShift.mk d (k.setNode node) node' hnode

theorem setState (h : CallShift d k k') {state state' : State} (hs : StateShift d state state') :
    CallShift d (k.setNode { k.node with state := state })
      (k'.setNode { k'.node with state := state' }) :=
  h.setNode (h.nodes.setState hs)

theorem push (h : CallShift d k k') (e : Event) : CallShift d (k.push e) (k'.push e) := by
  obtain ⟨node, hnode⟩ := h
  exact @CallShift.mk d (k.push e) node hnode

/-- The call has the same outcome `a` in both runs. -/
theorem outcome {α : Type} (h : CallShift d k k') (a : α) : OutcomeShift d (a, k) (a, k') :=
  OutcomeShift.mk k' h

theorem log (h : CallShift d k k') : k'.log = k.log := by
  obtain ⟨_, _⟩ := h
  rfl

theorem raiseTxEvent (h : CallShift d k k') (event : TxEvent) (q : U16) :
    CallShift d (raiseTxEvent k event q) (raiseTxEvent k' event q) := by
  unfold Relinow.raiseTxEvent
  rw [h.nodes.onTxEvent]
  split
  · exact h.push (.txEvent event q)
  · exact h

theorem raiseMessage (h : CallShift d k k') (site : Delivery) (src : Mac) (c : U8) (q : U16)
    (payload : List U8) :
    CallShift d (raiseMessage k site src c q payload) (raiseMessage k' site src c q payload) := by
  unfold Relinow.raiseMessage
  rw [h.nodes.onMessage]
  split
  · exact h.push (.message site src c q payload)
  · exact h

theorem track (h : CallShift d k k') (track : Bool) (q : U16) :
    CallShift d (if track then k.setNode (fragmentTxTrack k.node q) else k)
      (if track then k'.setNode (fragmentTxTrack k'.node q) else k') := by
  cases track with
  | false => exact h
  | true => exact h.setNode (h.nodes.track q)

/-- The radio answers the same attempt alike. -/
theorem sendFrame (h : CallShift d k k') (radio : Radio) (mode c type flags : U8) (q a : U16)
    (payload : List U8) :
    OutcomeShift d (sendFrame radio k mode c type flags q a payload)
      (sendFrame radio k' mode c type flags q a payload) := by
  obtain ⟨_, ⟨state, startMs, hstate, hstart⟩⟩ := h
  have hnode := NodeShift.mk state startMs hstate hstart
  unfold Relinow.sendFrame espNowSend Call.setNode
  dsimp only
  split
  · exact OutcomeShift.mk _ (CallShift.mk _ hnode)
  · split
    · exact OutcomeShift.mk _ (CallShift.mk _ hnode)
    · split
      all_goals exact OutcomeShift.mk _ (CallShift.mk _ hnode)

end CallShift

/-! ## Sending -/

theorem NodeShift.reliableSend (h : NodeShift d node node') (c : U8) (now : U32) :
    RetShift (StateShift d) (stateReliableSend node.state node.peerIndex c now)
      (stateReliableSend node'.state node'.peerIndex c (now + d)) := by
  rw [h.peerIndex]
  exact h.state.reliableSend _ c now

/-- **One frame** goes out alike in both runs. -/
theorem transmitNew_shift (h : CallShift d k k') (radio : Radio) (c flags : U8) (track : Bool)
    (payload : List U8) (now : U32) :
    OutcomeShift d (transmitNew radio k c flags track payload now)
      (transmitNew radio k' c flags track payload (now + d)) := by
  obtain ⟨hrc, hst, hout⟩ := h.nodes.reliableSend c now
  have hsent := h.setState hst
  unfold transmitNew
  dsimp only
  rw [hrc, hout]
  split
  · -- the engine refused
    exact hsent.outcome _
  · -- from here on both runs have assigned the same id
    generalize (stateReliableSend k.node.state k.node.peerIndex c now).out.seqId = q
    have hassigned := hsent.push (.assigned c q flags payload)
    revert hassigned
    generalize Call.push _ _ = k₁
    generalize Call.push _ _ = k₁'
    intro hassigned
    have halloc : txCacheAlloc k₁'.node = txCacheAlloc k₁.node := by
      unfold txCacheAlloc
      rw [hassigned.nodes.txCache]
    rw [halloc]
    cases txCacheAlloc k₁.node with
    | none => exact hassigned.outcome _
    | some i =>
        have hcached := hassigned.setNode (hassigned.nodes.setTx i ⟨true, q, flags, payload⟩)
        have hframe := (hcached.track track q).sendFrame radio modeReliable c typeData flags q 0#16
          payload
        revert hframe
        dsimp only
        generalize sendFrame radio _ modeReliable c typeData flags q 0#16 payload = erc
        generalize sendFrame radio _ modeReliable c typeData flags q 0#16 payload = erc'
        rintro ⟨k₂, hk⟩
        dsimp only
        split
        · exact hk.outcome _
        · exact (hk.raiseTxEvent .new q).outcome _

theorem sendFragments_shift (radio : Radio) (c : U8) (now : U32) (fuel : Nat) :
    ∀ {k k' : Call} (remaining : List U8), CallShift d k k' →
      OutcomeShift d (sendFragments radio c now fuel k remaining)
        (sendFragments radio c (now + d) fuel k' remaining) := by
  induction fuel with
  | zero => exact fun _ h => h.outcome _
  | succ fuel ih =>
      intro k k' remaining h
      rw [sendFragments, sendFragments, h.nodes.maxPayload]
      split
      · exact h.outcome _
      · dsimp only
        -- the two loops cut off the same fragment
        have hround := transmitNew_shift h radio c
          (if remaining.length = min k.node.maxPayload.toNat remaining.length then
            flagFragment ||| flagLastFragment else flagFragment) true
          (remaining.take (min k.node.maxPayload.toNat remaining.length)) now
        revert hround
        generalize transmitNew radio k c _ true _ now = r
        generalize transmitNew radio k' c _ true _ (now + d) = r'
        rintro ⟨k₁, hk⟩
        obtain ⟨out, k₀⟩ := r
        cases out with
        | done => exact ih _ hk
        | refused => exact (hk.setNode hk.nodes.unlock).outcome _
        | noSlot => exact hk.outcome _
        | radio e => exact hk.outcome _

/-- The counts that a send checks are the same. -/
theorem countFreePending_shift {channel channel' : ChannelState}
    (h : ChannelShift d channel channel') :
    countFreePending channel' = countFreePending channel := by
  obtain ⟨ctx, ⟨pending, hp⟩⟩ := h
  exact free_congr fun i => (hp i).inUse

theorem sendReliable_shift (h : NodeShift d node node') (radio : Radio) (c : U8)
    (payload : List U8) (now : U32) :
    OutcomeShift d (sendReliable radio node c payload now)
      (sendReliable radio node' c payload (now + d)) := by
  have hstart := CallShift.start h
  have hlocked := hstart.setNode (h.map (f := fun node =>
    { node with fragmentedTxActive := true, fragmentedTxSeq := [] })
      (fun _ _ _ => rfl) fun _ => rfl)
  obtain ⟨state, startMs, hstate, _⟩ := h
  unfold sendReliable findChannelState countFreeTxCache
  -- every check reads what the clock does not touch
  dsimp only
  rw [hstate.getChannelMode, hstate.found]
  refine OutcomeShift.ite (fun _ => hstart.outcome _) fun _ => ?_
  cases stateGetChannelMode node.state node.peerIndex c with
  | error e => exact hstart.outcome _
  | ok mode =>
      refine OutcomeShift.ite (fun _ => hstart.outcome _) fun _ => ?_
      cases findChannelMut node.state node.peerIndex c with
      | none => exact hstart.outcome _
      | some r =>
          dsimp only
          rw [countFreePending_shift (hstate.channels r)]
          refine OutcomeShift.ite (fun _ => hstart.outcome _) fun _ =>
            OutcomeShift.ite (fun _ => ?_) fun _ => ?_
          · -- the checks of a fragmented message
            refine OutcomeShift.ite (fun _ => hstart.outcome _) fun _ =>
              OutcomeShift.ite (fun _ => hstart.outcome _) fun _ =>
              OutcomeShift.ite (fun _ => hstart.outcome _) fun _ => ?_
            exact sendFragments_shift radio c now _ payload hlocked
          · have hsent := transmitNew_shift hstart radio c 0#8 false payload now
            revert hsent
            generalize transmitNew radio _ c 0#8 false payload now = r
            generalize transmitNew radio _ c 0#8 false payload (now + d) = r'
            rintro ⟨k₁, hk⟩
            obtain ⟨out, k₀⟩ := r
            cases out <;> exact hk.outcome _

theorem sendUnreliable_shift (h : NodeShift d node node') (radio : Radio) (c : U8)
    (payload : List U8) :
    OutcomeShift d (sendUnreliable radio node c payload)
      (sendUnreliable radio node' c payload) := by
  have hstart := CallShift.start h
  obtain ⟨state, startMs, hstate, _⟩ := h
  obtain ⟨hrc, hst, hout⟩ := hstate.unreliableSend node.peerIndex c
  have hsent := hstart.setState hst
  unfold sendUnreliable
  dsimp only
  rw [hstate.getChannelMode]
  split
  · exact hstart.outcome _
  · split
    · exact hstart.outcome _
    · split
      · exact hstart.outcome _
      · rw [hrc, hout]
        split
        · exact hsent.outcome _
        · exact hsent.sendFrame radio _ _ _ _ _ _ _

theorem sendPriority_shift (h : NodeShift d node node') (radio : Radio) (c : U8)
    (payload : List U8) :
    OutcomeShift d (sendPriority radio node c payload) (sendPriority radio node' c payload) := by
  have hstart := CallShift.start h
  obtain ⟨state, startMs, hstate, _⟩ := h
  obtain ⟨hrc, hst, hout⟩ := hstate.prioritySend node.peerIndex c
  have hsent := hstart.setState hst
  unfold sendPriority
  dsimp only
  rw [hstate.getChannelMode]
  split
  · exact hstart.outcome _
  · split
    · exact hstart.outcome _
    · split
      · exact hstart.outcome _
      · rw [hrc, hout]
        split
        · exact hsent.outcome _
        · exact hsent.sendFrame radio _ _ _ _ _ _ _

/-! ## Receiving -/

theorem NodeShift.assembled (h : NodeShift d node node') :
    node'.reassemblyActive = node.reassemblyActive ∧ node'.reassemblyBuf = node.reassemblyBuf
      ∧ node'.reassemblyFirstSeq = node.reassemblyFirstSeq := by
  obtain ⟨_, _, _, _⟩ := h
  exact ⟨rfl, rfl, rfl⟩

theorem NodeShift.append (h : NodeShift d node node') (payload : List U8) :
    NodeShift d { node with reassemblyBuf := node.reassemblyBuf ++ payload }
      { node' with reassemblyBuf := node'.reassemblyBuf ++ payload } :=
  h.map (f := fun node => { node with reassemblyBuf := node.reassemblyBuf ++ payload })
    (fun _ _ _ => rfl) fun _ => rfl

theorem deliverFragment_shift (h : CallShift d k k') (src : Mac) (c : U8) (now : U32)
    (frag : RxCache) :
    CallShift d (deliverFragment k src c now frag) (deliverFragment k' src c (now + d) frag) := by
  have hstart := h.nodes.start frag.seqId now
  have happended := h.setNode (hstart.append frag.payload)
  obtain ⟨-, hbuf, hfirst⟩ := hstart.assembled
  unfold deliverFragment
  dsimp only at happended ⊢
  rw [hbuf, hfirst] at happended ⊢
  split
  · exact h.setNode hstart.reset
  · split
    · have hraised := happended.raiseMessage .reassembled src c
        (reassemblyStart k.node frag.seqId now).reassemblyFirstSeq
        ((reassemblyStart k.node frag.seqId now).reassemblyBuf ++ frag.payload)
      exact hraised.setNode hraised.nodes.reset
    · exact happended

theorem deliverPlain_shift (h : CallShift d k k') (src : Mac) (c : U8) (frame : RxCache) :
    CallShift d (deliverPlain k src c frame) (deliverPlain k' src c frame) := by
  obtain ⟨hactive, -, -⟩ := h.nodes.assembled
  unfold deliverPlain
  rw [hactive]
  refine CallShift.raiseMessage ?_ _ _ _ _ _
  split
  · exact h.setNode h.nodes.reset
  · exact h

theorem deliverOne_shift (h : CallShift d k k') (src : Mac) (c : U8) (now : U32) (q : U16) :
    CallShift d (deliverOne src c now k q) (deliverOne src c (now + d) k' q) := by
  have hfind : rxCacheFind k'.node q = rxCacheFind k.node q := by
    unfold rxCacheFind
    rw [h.nodes.rxCache]
  unfold deliverOne
  rw [hfind]
  cases rxCacheFind k.node q with
  | none => exact h
  | some i =>
      dsimp only
      rw [h.nodes.rxCache]
      -- plain or fragment, the entry is handed over, and then released
      have hdelivered : CallShift d
          (if hasFlag k.node.rxCache[i].flags flagFragment then
            deliverFragment k src c now k.node.rxCache[i]
          else deliverPlain k src c k.node.rxCache[i])
          (if hasFlag k.node.rxCache[i].flags flagFragment then
            deliverFragment k' src c (now + d) k.node.rxCache[i]
          else deliverPlain k' src c k.node.rxCache[i]) := by
        split
        · exact deliverFragment_shift h src c now _
        · exact deliverPlain_shift h src c _
      exact hdelivered.setNode (hdelivered.nodes.rxRemove _)

theorem deliverAll_shift (src : Mac) (c : U8) (now : U32) (ds : List U16) :
    ∀ {k k' : Call}, CallShift d k k' →
      CallShift d (ds.foldl (deliverOne src c now) k)
        (ds.foldl (deliverOne src c (now + d)) k') := by
  induction ds with
  | nil => exact fun h => h
  | cons q ds ih => exact fun h => ih (deliverOne_shift h src c now q)

theorem NodeShift.reliableOnData (h : NodeShift d node node') (c : U8) (q : U16) :
    RetShift (StateShift d) (stateReliableOnData node.state node.peerIndex c q)
      (stateReliableOnData node'.state node'.peerIndex c q) := by
  rw [h.peerIndex]
  exact h.state.reliableOnData _ c q

theorem receiveData_shift (h : CallShift d k k') (radio : Radio) (src : Mac) (header : Header)
    (payload : List U8) (now : U32) :
    OutcomeShift d (receiveData radio k src header payload now)
      (receiveData radio k' src header payload (now + d)) := by
  have hstored := h.setNode (h.nodes.store header payload)
  obtain ⟨hrc, hst, hout⟩ := hstored.nodes.reliableOnData header.channelId header.seqId
  have hgot := hstored.setState hst
  unfold receiveData
  dsimp only
  rw [hrc, hout]
  split
  · exact hgot.outcome _
  · exact (deliverAll_shift src _ now _ (hgot.sendFrame radio _ _ _ _ _ _ []).call).outcome _

theorem receiveAck_shift (h : CallShift d k k') (header : Header) (now : U32) :
    OutcomeShift d (receiveAck k header now) (receiveAck k' header (now + d)) := by
  obtain ⟨hrc, hst, -⟩ := h.nodes.state.reliableOnAck k.node.peerIndex header.channelId
    header.ackId now
  have hacked := h.setState hst
  unfold receiveAck
  rw [h.nodes.peerIndex]
  dsimp only
  rw [hrc]
  split
  · exact (hacked.setNode ((hacked.nodes.txRemove _).fragmentAcked _)).outcome _
  · exact hacked.outcome _

theorem receiveHeartbeat_shift (h : CallShift d k k') (radio : Radio) (header : Header) :
    OutcomeShift d (receiveHeartbeat radio k header) (receiveHeartbeat radio k' header) := by
  unfold receiveHeartbeat
  split
  · exact (h.sendFrame radio _ _ _ _ _ _ []).call.outcome _
  · split
    · refine CallShift.outcome (h.setState ?_) _
      rw [h.nodes.peerIndex]
      exact h.nodes.state.onPong _
    · exact h.outcome _

theorem receiveUnreliable_shift (h : CallShift d k k') (src : Mac) (header : Header)
    (payload : List U8) :
    OutcomeShift d (receiveUnreliable k src header payload)
      (receiveUnreliable k' src header payload) := by
  unfold receiveUnreliable
  split
  · refine CallShift.outcome (CallShift.raiseMessage (h.setState ?_) _ _ _ _ _) _
    rw [h.nodes.peerIndex]
    exact (h.nodes.state.unreliableOnData _ header.channelId header.seqId).st
  · exact h.outcome _

theorem NodeShift.priorityOnData (h : NodeShift d node node') (c : U8) (q : U16) :
    RetShift (StateShift d) (statePriorityOnData node.state node.peerIndex c q)
      (statePriorityOnData node'.state node'.peerIndex c q) := by
  rw [h.peerIndex]
  exact h.state.priorityOnData _ c q

theorem receivePriority_shift (h : CallShift d k k') (src : Mac) (header : Header)
    (payload : List U8) :
    OutcomeShift d (receivePriority k src header payload)
      (receivePriority k' src header payload) := by
  unfold receivePriority
  split
  · obtain ⟨hrc, hst, hout⟩ := h.nodes.priorityOnData header.channelId header.seqId
    have hjudged := h.setState hst
    dsimp only
    rw [hrc, hout]
    split
    · exact hjudged.outcome _
    · split
      · exact (hjudged.raiseMessage _ src _ _ payload).outcome _
      · exact hjudged.outcome _
  · exact h.outcome _

/-- A frame is taken for the same thing, whenever it arrives. -/
theorem NodeShift.judge (h : NodeShift d node node') (src : Mac) (data : List U8) :
    node'.judge src data = node.judge src data := by
  have hmode := h.state.getChannelMode
  unfold Node.judge
  rw [h.peerMac, h.maxPayload, h.peerIndex]
  simp only [hmode]

/-- **A frame that arrives** finds the same node. -/
theorem onReceive_shift (h : NodeShift d node node') (radio : Radio) (src : Mac) (data : List U8)
    (now : U32) :
    OutcomeShift d (onReceive radio node src data now)
      (onReceive radio node' src data (now + d)) := by
  have hstart := CallShift.start h
  rw [onReceive_judge, onReceive_judge, h.judge]
  cases node.judge src data with
  | short => exact hstart.outcome _
  | ignored => exact hstart.outcome _
  | heartbeat header => exact receiveHeartbeat_shift hstart radio header
  | unreliable header => exact receiveUnreliable_shift hstart src header _
  | priority header => exact receivePriority_shift hstart src header _
  | ack header => exact receiveAck_shift hstart header now
  | data header => exact receiveData_shift hstart radio src header _ now

/-! ## Polling -/

/-- The age of a message is asked for only while there is one. -/
theorem NodeShift.late (h : NodeShift d node node') (now : U32) (timeout : Nat) :
    (node'.reassemblyActive
        && decide (timeout < ((now + d) - node'.reassemblyStartMs).toNat))
      = (node.reassemblyActive && decide (timeout < (now - node.reassemblyStartMs).toNat)) := by
  obtain ⟨_, startMs, _, hstart⟩ := h
  dsimp only
  cases hact : node.reassemblyActive with
  | false => rfl
  | true => rw [hstart hact, elapsed_shift]

/-- The message in reassembly times out in both runs at once. -/
theorem pollReassembly_shift (h : NodeShift d node node') (now : U32) :
    NodeShift d (pollReassembly node now) (pollReassembly node' (now + d)) := by
  have htimeout : node'.fragmentTimeoutMs = node.fragmentTimeoutMs := by
    obtain ⟨_, _, _, _⟩ := h
    rfl
  unfold pollReassembly
  rw [htimeout, h.late]
  split
  · exact h.reset
  · exact h

theorem NodeShift.silent (h : NodeShift d node node') :
    (∀ i : Fin maxPeers, node.state.peers[i].heartbeatIntervalMs = 0#16)
      ∧ ∀ i : Fin maxPeers, node'.state.peers[i].heartbeatIntervalMs = 0#16 := by
  refine ⟨h.state.silent, fun i => ?_⟩
  rw [h.state.peers i]
  exact h.state.silent i

/-- With heartbeats off there is none to send. -/
theorem pollHeartbeat_silent (h : ∀ i : Fin maxPeers,
    k.node.state.peers[i].heartbeatIntervalMs = 0#16) (radio : Radio) (now : U32) :
    pollHeartbeat radio k now = k := by
  obtain ⟨hst, hout⟩ := StateShift.statePollHeartbeat_silent h k.node.peerIndex now
  unfold pollHeartbeat
  dsimp only
  rw [hst, hout]
  rfl

theorem pollEvent_shift (h : CallShift d k k') (radio : Radio) (c : U8) (tx : TxResult) :
    OutcomeShift d (pollEvent radio k c tx) (pollEvent radio k' c tx) := by
  have hfind : txCacheFind k'.node tx.seqId = txCacheFind k.node tx.seqId := by
    unfold txCacheFind
    rw [h.nodes.txCache]
  unfold pollEvent
  rw [hfind]
  split
  · split
    · -- the payload is no longer cached: nothing is sent, and the event is raised all the same
      exact (h.raiseTxEvent _ _).outcome _
    · rename_i i _
      rw [h.nodes.txCache]
      dsimp only
      generalize k.node.txCache[i] = slot
      have hsent := h.sendFrame radio modeReliable c typeData slot.flags slot.seqId 0#16
        slot.payload
      revert hsent
      generalize sendFrame radio k modeReliable c typeData slot.flags slot.seqId 0#16
        slot.payload = erc
      generalize sendFrame radio k' modeReliable c typeData slot.flags slot.seqId 0#16
        slot.payload = erc'
      rintro ⟨k₁, hk⟩
      dsimp only
      split
      · exact OutcomeShift.mk k₁ hk
      · exact (hk.raiseTxEvent _ _).outcome _
  · -- given up
    exact ((h.setNode (h.nodes.txRemove _)).raiseTxEvent _ _).outcome _
  · exact (h.raiseTxEvent _ _).outcome _

theorem NodeShift.schedulerNext (h : NodeShift d node node') (now : U32) :
    RetShift (StateShift d) (stateSchedulerNext node.state node.peerIndex now)
      (stateSchedulerNext node'.state node'.peerIndex (now + d)) := by
  rw [h.peerIndex]
  exact h.state.schedulerNext _ now

theorem poll_shift (h : NodeShift d node node') (radio : Radio) (now : U32) :
    OutcomeShift d (poll radio node now) (poll radio node' (now + d)) := by
  have hnode := pollReassembly_shift h now
  have hstart := CallShift.start hnode
  obtain ⟨-, hst, hout⟩ := hstart.nodes.schedulerNext now
  have hnext := hstart.setState hst
  unfold poll
  dsimp only
  rw [pollHeartbeat_silent hnode.silent.1, pollHeartbeat_silent hnode.silent.2, hout]
  split
  · exact hnext.outcome _
  · exact pollEvent_shift hnext radio _ _

end Calls

/-! ## Runs -/

/-- The call as the second run makes it. -/
def ApiCall.shift (d : U32) : ApiCall → ApiCall
  | .sendReliable c payload nowMs => .sendReliable c payload (nowMs + d)
  | .onReceive src data nowMs => .onReceive src data (nowMs + d)
  | .poll nowMs => .poll (nowMs + d)
  | call => call

def ApiStep.shift (d : U32) (a : ApiStep) : ApiStep := ⟨a.radio, a.call.shift d⟩

/-- What a call returns and what it does outside: the frames that go out, `on_message` and
`on_tx_event`, in their order. -/
def NodeRun.outcome (w : NodeRun) (a : ApiStep) : EspErr × List Event :=
  ((a.call.run a.radio w.node).1, (a.call.run a.radio w.node).2.log)

/-- **A call** does the same in both runs. -/
theorem apiCall_shift {d : U32} {node node' : Node} (h : NodeShift d node node') (radio : Radio)
    (call : ApiCall) :
    OutcomeShift d (call.run radio node) ((call.shift d).run radio node') := by
  cases call with
  | openChannel c mode priority =>
      have hopen : RetShift (StateShift d)
          (stateOpenChannel node.state node.peerIndex c mode priority)
          (stateOpenChannel node'.state node'.peerIndex c mode priority) := by
        rw [h.peerIndex]
        exact h.state.openChannel _ c mode priority
      unfold ApiCall.shift ApiCall.run openChannel
      dsimp only
      rw [hopen.rc]
      exact (CallShift.start (h.setState hopen.st)).outcome _
  | sendReliable c payload now => exact sendReliable_shift h radio c payload now
  | sendUnreliable c payload => exact sendUnreliable_shift h radio c payload
  | sendPriority c payload => exact sendPriority_shift h radio c payload
  | onReceive src data now => exact onReceive_shift h radio src data now
  | poll now => exact poll_shift h radio now

theorem initState_shift (d : U32) {cfg : Config} (hoff : cfg.heartbeatIntervalMs = 0#16) :
    StateShift d (initState cfg) (initState cfg) := by
  have hadd : StateShift d (stateAddPeer stateInit cfg.peerMac).st
      (stateAddPeer stateInit cfg.peerMac).st := by
    rw [stateAddPeer_init]
    refine (stateInit_shift d).setPeer 0 rfl rfl fun j => ?_
    unfold PeerState.zero
    dsimp only
    rw [get_replicate]
    exact channel_zero_shift d
  have hopen := (hadd.openChannel (stateAddPeer stateInit cfg.peerMac).out cfg.channelId cfg.mode
    0#8).st
  unfold initState
  dsimp only
  rw [hoff]
  split
  · exact ((hopen.setReliableConfig _ cfg.channelId cfg.reliableCfg).st.configureHeartbeat _ _).st
  · exact (hopen.configureHeartbeat _ _).st

theorem init_shift (d : U32) {node₀ node : Node} {cfg : Config}
    (hinit : init node₀ cfg = (.ok, node)) (hoff : cfg.heartbeatIntervalMs = 0#16) :
    NodeShift d node node := by
  have hstate : StateShift d node.state node.state := by
    rw [init_state hinit]
    exact initState_shift d hoff
  obtain ⟨state, _, rfl, -⟩ := init_ok hinit
  exact NodeShift.mk state 0#32 hstate fun hact => Bool.noConfusion hact

/-- **Nothing a node does depends on where its clock stands.** -/
theorem clock_shift {node₀ node : Node} {cfg : Config} (hinit : init node₀ cfg = (.ok, node))
    (hoff : cfg.heartbeatIntervalMs = 0#16) (d : U32) (as : List ApiStep) :
    outputs NodeRun.step NodeRun.outcome ⟨node, []⟩ (as.map (ApiStep.shift d))
        = outputs NodeRun.step NodeRun.outcome ⟨node, []⟩ as
      ∧ ∀ p c : U8,
        stateReliableGetRttMs
            (run NodeRun.step ⟨node, []⟩ (as.map (ApiStep.shift d))).node.state p c
          = stateReliableGetRttMs (run NodeRun.step ⟨node, []⟩ as).node.state p c := by
  have hcall := fun (w w' : NodeRun) (a : ApiStep) (h : NodeShift d w.node w'.node) =>
    apiCall_shift h a.radio a.call
  have hboth : NodeShift d (run NodeRun.step ⟨node, []⟩ as).node
        (run NodeRun.step ⟨node, []⟩ (as.map (ApiStep.shift d))).node
      ∧ outputs NodeRun.step NodeRun.outcome ⟨node, []⟩ (as.map (ApiStep.shift d))
        = outputs NodeRun.step NodeRun.outcome ⟨node, []⟩ as :=
    outputs_related (R := fun w w' : NodeRun => NodeShift d w.node w'.node)
      (fun w w' a h => (hcall w w' a h).call.nodes)
      (fun w w' a h => Prod.ext (hcall w w' a h).rc (hcall w w' a h).call.log)
      (init_shift d hinit hoff)
  exact ⟨hboth.2, fun p c => hboth.1.state.getRttMs p c⟩

/-- A packet is sent before the clock wraps, and again after it; then it is acknowledged. -/
def wrapSteps : List ApiStep :=
  [⟨Radio.up, .sendReliable 1#8 [10#8] 0xfffffff0#32⟩, ⟨Radio.up, .poll 0x54#32⟩,
    ⟨Radio.up, .onReceive eventNode.peerMac
      [0x11#8, 0x20#8, 0#8, 0#8, 0#8, 0#8, 1#8, 0#8, 0#8] 0x60#32⟩]

/-- Sixteen milliseconds later the clock has wrapped before the packet is sent. The estimate,
fifty at first, is forty-five in both runs. -/
theorem clock_shift_wrap :
    outputs NodeRun.step NodeRun.outcome ⟨eventNode, []⟩ (wrapSteps.map (ApiStep.shift 16#32))
        = outputs NodeRun.step NodeRun.outcome ⟨eventNode, []⟩ wrapSteps
      ∧ (run NodeRun.step ⟨eventNode, []⟩ wrapSteps).history
        = [.assigned 1#8 0#16 0#8 [10#8],
          .sent eventNode.peerMac [0x11#8, 0x10#8, 0#8, 0#8, 0#8, 0#8, 1#8, 0#8, 1#8, 10#8],
          .txEvent .new 0#16,
          .sent eventNode.peerMac [0x11#8, 0x10#8, 0#8, 0#8, 0#8, 0#8, 1#8, 0#8, 1#8, 10#8],
          .txEvent .retransmit 0#16]
      ∧ stateReliableGetRttMs (run NodeRun.step ⟨eventNode, []⟩
          (wrapSteps.map (ApiStep.shift 16#32))).node.state 0#8 1#8 = .ok 45#16 := by
  have hinit : init Node.zero eventConfig = (.ok, eventNode) := Prod.ext (by decide +kernel) rfl
  obtain ⟨hsame, hrtt⟩ := clock_shift hinit rfl 16#32 wrapSteps
  exact ⟨hsame, by decide +kernel, (hrtt 0#8 1#8).trans (by decide +kernel)⟩

end Relinow
