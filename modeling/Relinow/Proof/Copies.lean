import Relinow.Proof.Bounds
import Relinow.Proof.ReceiveSide

/-!
# Every copy is in bounds

What a node does with bytes is `memcpy`: from the caller or from a frame into a
cache entry, from an entry behind the header of a frame, from an entry to the end
of the message in reassembly. A `Copy` is one of these with the sizes that matter
to it, and for each call the copies it makes are listed, function by function as
the source has them. In a node that is `Bounded` all of them are in bounds.

The fragment loop is run here without a bound on its rounds, so that its end is
something to prove.
-/

namespace Relinow

open SlotTable Runs

/-- `RELINOW_MAX_FRAME`. -/
def maxFrame : Nat := headerSize + maxPayloadLimit

/-- The arrays that are copied to: `frame`, the `payload` of a cache entry, `reassembly_buf`. -/
inductive Buffer where
  | frame
  | payload
  | reassembly
  deriving DecidableEq, Repr

def Buffer.size : Buffer → Nat
  | .frame => maxFrame
  | .payload => maxPayloadLimit
  | .reassembly => maxReassembly

/-- One `memcpy`: `len` bytes, from a place that has `readable` of them, to the offset `offset`
of an array. -/
structure Copy where
  dst : Buffer
  offset : Nat
  readable : Nat
  len : Nat
  deriving DecidableEq, Repr

/-- It reads and writes inside the two arrays. -/
def Copy.InBounds (m : Copy) : Prop := m.offset + m.len ≤ m.dst.size ∧ m.len ≤ m.readable

/-- So the length of what is in the array afterwards is a number of sixteen bits. -/
theorem Copy.InBounds.narrow {m : Copy} (h : m.InBounds) :
    (BitVec.ofNat 16 (m.offset + m.len)).toNat = m.offset + m.len := by
  have hsize : m.dst.size < 2 ^ 16 := by cases m.dst <;> decide
  rw [BitVec.toNat_ofNat]
  exact Nat.mod_eq_of_lt (lt_of_le_of_lt h.1 hsize)

/-! ## The copies of each function -/

/-- In `relinow_send_frame`, behind the header of `frame`; a frame without a payload copies
nothing. -/
def sendFrameCopies (maxPayload : U16) (mode channelId type flags : U8) (seqId ackId : U16)
    (payload : List U8) (readable : Nat) : List Copy :=
  if maxPayload.toNat < payload.length then []
  else
    match encodeHeader (frameHeader mode channelId type flags seqId ackId payload) maxPayload with
    | .error _ => []
    | .ok _ =>
        if payload.isEmpty then [] else [⟨.frame, headerSize, readable, payload.length⟩]

/-- In `relinow_send_reliable` for one frame: into the cache entry, and from there into the
frame. -/
def transmitNewCopies (k : Call) (channelId flags : U8) (payload : List U8) (readable : Nat)
    (nowMs : U32) : List Copy :=
  let sent := stateReliableSend k.node.state k.node.peerIndex channelId nowMs
  if sent.rc != .ok || sent.out.event != .new then []
  else
    match txCacheAlloc k.node with
    | none => []
    | some _ =>
        ⟨.payload, 0, readable, payload.length⟩
          :: sendFrameCopies k.node.maxPayload modeReliable channelId typeData flags sent.out.seqId
            0#16 payload maxPayloadLimit

/-- In the fragment loop; at `cursor` there are as many bytes as remain. -/
def sendFragmentsCopies (radio : Radio) (channelId : U8) (nowMs : U32) :
    Nat → Call → List U8 → List Copy
  | 0, _, _ => []
  | fuel + 1, k, remaining =>
      if remaining.isEmpty then []
      else
        let fragLen := min k.node.maxPayload.toNat remaining.length
        let flags :=
          if remaining.length = fragLen then flagFragment ||| flagLastFragment else flagFragment
        let r := transmitNew radio k channelId flags true (remaining.take fragLen) nowMs
        transmitNewCopies k channelId flags (remaining.take fragLen) remaining.length nowMs
          ++ match r.1 with
            | .done => sendFragmentsCopies radio channelId nowMs fuel r.2 (remaining.drop fragLen)
            | _ => []

/-- In `relinow_send_reliable`. -/
def sendReliableCopies (radio : Radio) (node : Node) (channelId : U8) (payload : List U8)
    (nowMs : U32) : List Copy :=
  let k := Call.start node
  if payload.isEmpty then []
  else
    match stateGetChannelMode node.state node.peerIndex channelId with
    | .error _ => []
    | .ok mode =>
        if mode != modeReliable then []
        else
          match findChannelState node channelId with
          | none => []
          | some channel =>
              if node.fragmentedTxActive then []
              else if node.maxPayload.toNat < payload.length then
                let count := fragmentCount payload.length node.maxPayload.toNat
                if maxPending < count then []
                else if countFreePending channel < count || countFreeTxCache node < count then []
                else
                  sendFragmentsCopies radio channelId nowMs payload.length
                    (k.setNode { node with fragmentedTxActive := true, fragmentedTxSeq := [] })
                    payload
              else transmitNewCopies k channelId 0#8 payload payload.length nowMs

/-- In `relinow_send_unreliable`; an empty payload is copied no more than one that is too long. -/
def sendUnreliableCopies (node : Node) (channelId : U8) (payload : List U8) : List Copy :=
  let sent := stateUnreliableSend node.state node.peerIndex channelId
  if sent.rc != .ok then []
  else
    sendFrameCopies node.maxPayload modeUnreliable channelId typeData 0#8 sent.out 0#16 payload
      payload.length

/-- In `relinow_send_priority`. -/
def sendPriorityCopies (node : Node) (channelId : U8) (payload : List U8) : List Copy :=
  let sent := statePrioritySend node.state node.peerIndex channelId
  if sent.rc != .ok then []
  else
    sendFrameCopies node.maxPayload modePriority channelId typeData 0#8 sent.out.seqId 0#16 payload
      payload.length

/-- In the DATA branch of `relinow_on_receive`: `payload_len` bytes of what follows the header, if
an entry is found for them. -/
def rxCacheStoreCopies (node : Node) (header : Header) (data : List U8) : List Copy :=
  match storeIdx node header with
  | none => []
  | some _ =>
      if header.payloadLen = 0#16 then []
      else [⟨.payload, 0, data.length - headerSize, header.payloadLen.toNat⟩]

/-- In the delivery loop, for a fragment: to the end of the message in reassembly. -/
def deliverFragmentCopies (node : Node) (nowMs : U32) (frag : RxCache) : List Copy :=
  let node := reassemblyStart node frag.seqId nowMs
  if maxReassembly < node.reassemblyBuf.length + frag.payload.length then []
  else if frag.payload.isEmpty then []
  else [⟨.reassembly, node.reassemblyBuf.length, maxPayloadLimit, frag.payload.length⟩]

/-- In one round of the delivery loop. -/
def deliverOneCopies (node : Node) (nowMs : U32) (seqId : U16) : List Copy :=
  match rxCacheFind node seqId with
  | none => []
  | some i =>
      if hasFlag node.rxCache[i].flags flagFragment then
        deliverFragmentCopies node nowMs node.rxCache[i]
      else []

/-- In the delivery loop. -/
def deliverCopies (src : Mac) (channelId : U8) (nowMs : U32) : List U16 → Call → List Copy
  | [], _ => []
  | d :: ds, k =>
      deliverOneCopies k.node nowMs d
        ++ deliverCopies src channelId nowMs ds (deliverOne src channelId nowMs k d)

/-- In the DATA branch of `relinow_on_receive`. -/
def receiveDataCopies (radio : Radio) (k : Call) (src : Mac) (header : Header) (data : List U8)
    (nowMs : U32) : List Copy :=
  rxCacheStoreCopies k.node header data
    ++
      let k := k.setNode (rxCacheStore k.node header (framePayload data))
      let rx := stateReliableOnData k.node.state k.node.peerIndex header.channelId header.seqId
      let k := k.setNode { k.node with state := rx.st }
      if rx.rc != .ok then []
      else
        deliverCopies src header.channelId nowMs rx.out.deliveredSeq
          (sendFrame radio k modeReliable header.channelId typeAck 0#8 0#16 rx.out.ackId []).2

/-- In `relinow_on_receive`: only DATA of a reliable channel is copied. The other branches hand
the frame itself to the application, or answer with a frame that has no payload. -/
def onReceiveCopies (radio : Radio) (node : Node) (src : Mac) (data : List U8) (nowMs : U32) :
    List Copy :=
  match node.accepted src data with
  | none => []
  | some (header, _) =>
      if header.type == typeData then
        receiveDataCopies radio (Call.start node) src header data nowMs
      else []

/-- In `relinow_poll`: a retransmission, from its cache entry. -/
def pollCopies (radio : Radio) (node : Node) (nowMs : U32) : List Copy :=
  let k := pollHeartbeat radio (Call.start (pollReassembly node nowMs)) nowMs
  match (stateSchedulerNext k.node.state k.node.peerIndex nowMs).out with
  | some (channelId, ⟨.retransmit, seqId⟩) =>
      match txCacheFind k.node seqId with
      | none => []
      | some i =>
          let slot := k.node.txCache[i]
          sendFrameCopies k.node.maxPayload modeReliable channelId typeData slot.flags slot.seqId
            0#16 slot.payload maxPayloadLimit
  | _ => []

/-- The copies a call makes. -/
def ApiCall.copies (radio : Radio) (node : Node) : ApiCall → List Copy
  | .openChannel _ _ _ => []
  | .sendReliable channelId payload nowMs => sendReliableCopies radio node channelId payload nowMs
  | .sendUnreliable channelId payload => sendUnreliableCopies node channelId payload
  | .sendPriority channelId payload => sendPriorityCopies node channelId payload
  | .onReceive src data nowMs => onReceiveCopies radio node src data nowMs
  | .poll nowMs => pollCopies radio node nowMs

/-! ## All of them are in bounds -/

/-- A payload that may be sent fits behind the header. -/
theorem sendFrameCopies_inBounds {maxPayload : U16} (hmax : maxPayload.toNat ≤ maxPayloadLimit)
    (mode c type flags : U8) (q a : U16) {payload : List U8} {readable : Nat}
    (hread : payload.length ≤ readable) :
    ∀ m ∈ sendFrameCopies maxPayload mode c type flags q a payload readable, m.InBounds := by
  unfold sendFrameCopies
  split
  · exact List.forall_mem_nil _
  · rename_i hlen
    split
    · exact List.forall_mem_nil _
    · split
      · exact List.forall_mem_nil _
      · rw [List.forall_mem_singleton]
        refine ⟨?_, hread⟩
        show headerSize + payload.length ≤ headerSize + maxPayloadLimit
        omega

theorem transmitNewCopies_inBounds {k : Call} (h : Bounded k.node) (c flags : U8)
    {payload : List U8} {readable : Nat} (hlen : payload.length ≤ k.node.maxPayload.toNat)
    (hread : payload.length ≤ readable) (now : U32) :
    ∀ m ∈ transmitNewCopies k c flags payload readable now, m.InBounds := by
  have hmax := le_trans hlen h.maxPayload
  unfold transmitNewCopies
  dsimp only
  split
  · exact List.forall_mem_nil _
  · split
    · exact List.forall_mem_nil _
    · rw [List.forall_mem_cons]
      refine ⟨⟨?_, hread⟩, sendFrameCopies_inBounds h.maxPayload _ _ _ _ _ _ hmax⟩
      show 0 + payload.length ≤ maxPayloadLimit
      omega

/-- A fragment is cut from what remains, so it is never read past its end. -/
theorem sendFragmentsCopies_inBounds (radio : Radio) (c : U8) (now : U32) :
    ∀ (fuel : Nat) {k : Call} (remaining : List U8), Bounded k.node →
      ∀ m ∈ sendFragmentsCopies radio c now fuel k remaining, m.InBounds := by
  intro fuel
  induction fuel with
  | zero => exact fun _ _ => List.forall_mem_nil _
  | succ fuel ih =>
      intro k remaining h
      have hlen : (remaining.take (min k.node.maxPayload.toNat remaining.length)).length
          ≤ k.node.maxPayload.toNat := by
        rw [List.length_take]
        omega
      have hread : (remaining.take (min k.node.maxPayload.toNat remaining.length)).length
          ≤ remaining.length := List.length_take_le' _ _
      rw [sendFragmentsCopies]
      split
      · exact List.forall_mem_nil _
      · dsimp only
        rw [List.forall_mem_append]
        refine ⟨transmitNewCopies_inBounds h c _ hlen hread now, ?_⟩
        split
        · exact ih _ (h.transmitNew radio c _ true hlen now)
        · exact List.forall_mem_nil _

theorem sendReliableCopies_inBounds {node : Node} (h : Bounded node) (radio : Radio) (c : U8)
    (payload : List U8) (now : U32) :
    ∀ m ∈ sendReliableCopies radio node c payload now, m.InBounds := by
  have hnil : ∀ m ∈ ([] : List Copy), m.InBounds := List.forall_mem_nil _
  unfold sendReliableCopies
  dsimp only
  split
  · exact hnil
  · split
    · exact hnil
    · split
      · exact hnil
      · split
        · exact hnil
        · split
          · exact hnil
          · split
            · split
              · exact hnil
              · split
                · exact hnil
                · -- past all checks: the fragments, or one frame that fits
                  exact sendFragmentsCopies_inBounds radio c now _ payload
                    { h with tracked := Nat.zero_le _ }
            · rename_i hlen
              have hstart : Bounded (Call.start node).node := h
              exact transmitNewCopies_inBounds hstart c 0#8 (Nat.not_lt.mp hlen) (Nat.le_refl _) now

/-- **The bytes of a frame**: a received payload is read from behind the header, and no further
than the frame goes. -/
theorem rxCacheStoreCopies_inBounds {node : Node} (h : Bounded node) {header : Header}
    {data : List U8} (hd : decodeHeader data node.maxPayload = .ok header) :
    ∀ m ∈ rxCacheStoreCopies node header data, m.InBounds := by
  obtain ⟨hlen, hmax⟩ := decodeHeader_length hd
  have hlimit := h.maxPayload
  unfold rxCacheStoreCopies
  split
  · exact List.forall_mem_nil _
  · split
    · exact List.forall_mem_nil _
    · rw [List.forall_mem_singleton]
      refine ⟨?_, le_of_eq hlen⟩
      show 0 + header.payloadLen.toNat ≤ maxPayloadLimit
      omega

theorem deliverOneCopies_inBounds {node : Node} (h : Bounded node) (now : U32) (q : U16) :
    ∀ m ∈ deliverOneCopies node now q, m.InBounds := by
  unfold deliverOneCopies
  split
  · exact List.forall_mem_nil _
  · rename_i i _
    split
    · unfold deliverFragmentCopies
      dsimp only
      split
      · exact List.forall_mem_nil _
      · rename_i hfits
        split
        · exact List.forall_mem_nil _
        · rw [List.forall_mem_singleton]
          exact ⟨Nat.not_lt.mp hfits, le_trans (h.rxCache i) h.maxPayload⟩
    · exact List.forall_mem_nil _

theorem deliverCopies_inBounds (src : Mac) (c : U8) (now : U32) (ds : List U16) :
    ∀ {k : Call}, Bounded k.node → ∀ m ∈ deliverCopies src c now ds k, m.InBounds := by
  induction ds with
  | nil => exact fun _ => List.forall_mem_nil _
  | cons d ds ih =>
      intro k h
      rw [deliverCopies, List.forall_mem_append]
      exact ⟨deliverOneCopies_inBounds h now d, ih (h.deliverOne src c now d)⟩

theorem onReceiveCopies_inBounds {node : Node} (h : Bounded node) (radio : Radio) (src : Mac)
    (data : List U8) (now : U32) :
    ∀ m ∈ onReceiveCopies radio node src data now, m.InBounds := by
  unfold onReceiveCopies
  cases hacc : node.accepted src data with
  | none => exact List.forall_mem_nil _
  | some accepted =>
      obtain ⟨header, channel⟩ := accepted
      have hd := (accepted_eq_some hacc).decoded
      obtain ⟨hlen, hmax⟩ := decodeHeader_length hd
      dsimp only
      split
      · -- a DATA frame is copied into the cache, and out of it on delivery
        unfold receiveDataCopies
        dsimp only
        rw [List.forall_mem_append]
        refine ⟨rxCacheStoreCopies_inBounds h hd, ?_⟩
        split
        · exact List.forall_mem_nil _
        · refine deliverCopies_inBounds src _ now _ ?_
          rw [sendFrame_node]
          refine (h.store header ?_).setState _
          unfold framePayload
          rw [List.length_drop]
          omega
      · exact List.forall_mem_nil _

theorem pollCopies_inBounds {node : Node} (h : Bounded node) (radio : Radio) (now : U32) :
    ∀ m ∈ pollCopies radio node now, m.InBounds := by
  have hbeat := (h.pollReassembly now).quiet
    (pollHeartbeat_quiet radio (pollReassembly node now) now)
  unfold pollCopies
  dsimp only
  split
  · split
    · exact List.forall_mem_nil _
    · rename_i i _
      exact sendFrameCopies_inBounds hbeat.maxPayload _ _ _ _ _ _
        (le_trans (hbeat.txCache i) hbeat.maxPayload)
  · exact List.forall_mem_nil _

/-- **Every copy of every call is in bounds.** -/
theorem copies_inBounds {node : Node} (h : Bounded node) (radio : Radio) (call : ApiCall) :
    ∀ m ∈ call.copies radio node, m.InBounds := by
  cases call with
  | openChannel c mode priority => exact List.forall_mem_nil _
  | sendReliable c payload now => exact sendReliableCopies_inBounds h radio c payload now
  | sendUnreliable c payload =>
      show ∀ m ∈ sendUnreliableCopies node c payload, m.InBounds
      unfold sendUnreliableCopies
      dsimp only
      split
      · exact List.forall_mem_nil _
      · exact sendFrameCopies_inBounds h.maxPayload _ _ _ _ _ _ (Nat.le_refl _)
  | sendPriority c payload =>
      show ∀ m ∈ sendPriorityCopies node c payload, m.InBounds
      unfold sendPriorityCopies
      dsimp only
      split
      · exact List.forall_mem_nil _
      · exact sendFrameCopies_inBounds h.maxPayload _ _ _ _ _ _ (Nat.le_refl _)
  | onReceive src data now => exact onReceiveCopies_inBounds h radio src data now
  | poll now => exact pollCopies_inBounds h radio now

/-! ## The fragment loop ends -/

/-- One round of `while (remaining > 0u)`: it goes on with what the fragment has left, or
returns. -/
def fragmentRound (radio : Radio) (channelId : U8) (nowMs : U32) (s : Call × List U8) :
    Call × List U8 ⊕ EspErr × Call :=
  if s.2.isEmpty then .inr (.ok, s.1)
  else
    let fragLen := min s.1.node.maxPayload.toNat s.2.length
    let flags := if s.2.length = fragLen then flagFragment ||| flagLastFragment else flagFragment
    let r := transmitNew radio s.1 channelId flags true (s.2.take fragLen) nowMs
    match r.1 with
    | .done => .inl (r.2, s.2.drop fragLen)
    | .refused => .inr (.fail, r.2.setNode (unlockEmpty r.2.node))
    | .noSlot => .inr (.noMem, r.2)
    | .radio e => .inr (e, r.2)

theorem sendFragments_round (radio : Radio) (c : U8) (now : U32) (fuel : Nat) (s : Call × List U8) :
    sendFragments radio c now (fuel + 1) s.1 s.2 =
      match fragmentRound radio c now s with
      | .inl s' => sendFragments radio c now fuel s'.1 s'.2
      | .inr r => r := by
  rw [sendFragments]
  unfold fragmentRound
  split
  · rfl
  · dsimp only
    cases (transmitNew radio s.1 c _ true (s.2.take _) now).1 <;> rfl

/-- A round that goes on has taken a byte at least. -/
theorem fragmentRound_next {radio : Radio} {c : U8} {now : U32} {s s' : Call × List U8}
    (h : Bounded s.1.node) (hround : fragmentRound radio c now s = .inl s') :
    Bounded s'.1.node ∧ s'.2.length < s.2.length := by
  have hpos := h.maxPayload_pos
  unfold fragmentRound at hround
  split at hround
  · exact absurd hround (by simp)
  · rename_i hne
    have hlt : 0 < s.2.length := List.length_pos_iff.mpr (by simpa using hne)
    have hlen : (s.2.take (min s.1.node.maxPayload.toNat s.2.length)).length
        ≤ s.1.node.maxPayload.toNat := by
      rw [List.length_take]
      omega
    dsimp only at hround
    split at hround
    · obtain rfl := Sum.inl.inj hround
      refine ⟨h.transmitNew radio c _ true hlen now, ?_⟩
      rw [List.length_drop]
      omega
    all_goals exact absurd hround (by simp)

/-- **The fragment loop ends**, after at most one round for each byte and one more, with what the
counted loop returns. -/
theorem sendFragments_loop (radio : Radio) (c : U8) (now : U32) {k : Call} (h : Bounded k.node)
    (payload : List U8) :
    ∃ n, n ≤ payload.length + 1 ∧ LoopRuns (fragmentRound radio c now) (k, payload) n
      (sendFragments radio c now payload.length k payload) := by
  refine LoopRuns.of_fuel (f := fun fuel s => sendFragments radio c now fuel s.1 s.2)
    (I := fun s => Bounded s.1.node) (μ := fun s => s.2.length) ?_ ?_ payload.length (k, payload)
    h (Nat.le_refl _)
  · intro fuel s r _ hfuel hround
    cases fuel with
    | zero =>
        have hnil := List.eq_nil_of_length_eq_zero (Nat.le_zero.mp hfuel)
        unfold fragmentRound at hround
        rw [hnil] at hround
        exact Sum.inr.inj hround
    | succ fuel => rw [sendFragments_round, hround]
  · intro fuel s s' hs hround
    obtain ⟨hs', hlt⟩ := fragmentRound_next hs hround
    refine ⟨hs', hlt, ?_⟩
    rw [sendFragments_round, hround]

/-! ## Whatever happens to a node -/

/-- **What a node does with its buffers next** stays inside them. -/
structure InsideBuffers (node : Node) : Prop where
  /-- The lengths it keeps are the arrays', at most. -/
  bounded : Bounded node
  polled : PolledInRange node.state
  /-- `delivered_seq` has room for what any frame delivers. -/
  delivered : ∀ (c : U8) (q : U16),
    (stateReliableOnData node.state node.peerIndex c q).out.deliveredSeq.length ≤ 1 + maxReorder
  copies : ∀ (radio : Radio) (call : ApiCall), ∀ m ∈ call.copies radio node, m.InBounds
  /-- The length field of a frame that is not dropped is the number of bytes that follow. -/
  frames : ∀ (data : List U8) (header : Header), decodeHeader data node.maxPayload = .ok header →
    header.payloadLen.toNat = data.length - headerSize
      ∧ header.payloadLen.toNat ≤ node.maxPayload.toNat
  /-- `(uint16_t)` of a length changes nothing. -/
  narrow : ∀ (radio : Radio) (src : Mac) (data : List U8) (now : U32),
    ∀ m ∈ onReceiveCopies radio node src data now,
      (BitVec.ofNat 16 (m.offset + m.len)).toNat = m.offset + m.len
  /-- `while (remaining > 0u)` ends, with what the model's loop returns. -/
  loop : ∀ (radio : Radio) (c : U8) (payload : List U8) (now : U32) (k : Call),
    k = (Call.start node).setNode { node with fragmentedTxActive := true, fragmentedTxSeq := [] } →
    ∃ n, n ≤ payload.length + 1 ∧ LoopRuns (fragmentRound radio c now) (k, payload) n
      (sendFragments radio c now payload.length k payload)

theorem Bounded.insideBuffers {node : Node} (h : Bounded node) (hp : PolledInRange node.state) :
    InsideBuffers node where
  bounded := h
  polled := hp
  delivered c q := deliveredSeq_length_le node.state node.peerIndex c q
  copies radio call := copies_inBounds h radio call
  frames data header hd := decodeHeader_length hd
  narrow radio src data now m hm := (onReceiveCopies_inBounds h radio src data now m hm).narrow
  loop radio c payload now k hk := by
    subst hk
    exact sendFragments_loop radio c now { h with tracked := Nat.zero_le _ } payload

/--
**No access leaves a buffer.** After a successful initialisation and any calls
with any arguments and any answers of the radio, every length and index is within
its array, and the next call, whatever it is, copies inside the arrays, loses
nothing of a length and ends.
-/
theorem buffers_inside {node₀ node : Node} {cfg : Config} (hinit : init node₀ cfg = (.ok, node))
    (as : List ApiStep) : InsideBuffers (run NodeRun.step ⟨node, []⟩ as).node :=
  (bounded_run hinit as).insideBuffers (polledInRange_run hinit as)

/-- A message of two fragments goes out in four copies, and an arriving byte takes one. -/
theorem buffers_inside_fragments :
    InsideBuffers (run NodeRun.step
        ⟨(init Node.zero { listenConfig with maxPayload := 2#16 }).2, []⟩
        [⟨Radio.up, .sendReliable 1#8 [10#8, 20#8, 30#8] 0#32⟩]).node
      ∧ (sendReliableCopies Radio.up (init Node.zero { listenConfig with maxPayload := 2#16 }).2 1#8
          [10#8, 20#8, 30#8] 0#32).length = 4
      ∧ onReceiveCopies Radio.up listenNode listenNode.peerMac
          [0x11#8, 0x10#8, 0#8, 0#8, 0#8, 0#8, 1#8, 0#8, 1#8, 10#8] 0#32
        = [⟨.payload, 0, 1, 1⟩] :=
  ⟨buffers_inside (Prod.ext (by decide +kernel) rfl) _, by decide +kernel, by decide +kernel⟩

end Relinow
