import Relinow.Proof.AnyOrder
import Relinow.Proof.NodeState

/-!
# From one node to another

What one node cuts into fragments another puts together again: the frames of a
send, given to the receiver in any order and any number of times, lead to one call
of `on_message`, with the payload and the id of the first fragment.
-/

namespace Relinow

open SlotTable Runs Pieces

/-! ## The receiver -/

/-- The fragments with a number in `seen` have arrived at the node, and number `e` is the first one
missing. -/
structure Receiving (start : Node) (c : U8) (q : U16) (parts : List (List U8)) (w : NodeRun)
    (seen : Finset Nat) (e : Nat) : Prop where
  config : SameConfig start w.node
  gathers : Gathers q parts w.node e
  channel : ∃ channel, w.node.reliableAt c = some channel
    ∧ Frontier q parts.length channel.reliable seen e ∧ parts.length ≤ e + rxRoom channel
  cached : ∀ i ∈ seen, e < i → q + BitVec.ofNat 16 i ∈ arrivedSeqs w.node
  messages : deliveredPackets w.history = completed q parts e

/-- A message whose fragments fit: into a frame each, into the reorder buffer, and together into
the reassembly buffer. -/
structure FitsNode (node : Node) (c : U8) (parts : List (List U8)) : Prop where
  notHeartbeat : c ≠ heartbeatChannel
  each : ∀ part ∈ parts, part.length ≤ node.maxPayload.toNat
  few : parts.length ≤ maxReorder
  size : parts.flatten.length ≤ maxReassembly

/-- Every frame is read as it was sent. -/
theorem FragmentsOf.decodes {node : Node} {c : U8} {q : U16} {parts frames : List (List U8)}
    (hfr : FragmentsOf c q parts frames) (hfits : FitsNode node c parts) {j : Nat}
    (hj : j < frames.length) (hjp : j < parts.length) :
    decodeHeader frames[j] node.maxPayload
        = .ok (dataHeader c (fragmentFlags parts.length j) (q + BitVec.ofNat 16 j) parts[j])
      ∧ framePayload frames[j] = parts[j] :=
  (hfr.frame j hj hjp).data_decodes ⟨hfits.notHeartbeat, fragmentFlags_data _ _,
    hfits.each _ (List.getElem_mem hjp)⟩

/-- The frames are all different. -/
theorem FragmentsOf.inj {node : Node} {c : U8} {q : U16} {parts frames : List (List U8)}
    (hfr : FragmentsOf c q parts frames) (hfits : FitsNode node c parts) {i j : Nat}
    (hi : i < frames.length) (hj : j < frames.length) (heq : frames[i] = frames[j]) : i = j := by
  have hmax : maxReorder = 8 := rfl
  have hfew := hfits.few
  have hlen := hfr.length
  obtain ⟨hdi, -⟩ := hfr.decodes hfits hi (by omega)
  obtain ⟨hdj, -⟩ := hfr.decodes hfits hj (by omega)
  rw [heq] at hdi
  have hseq := congrArg Header.seqId (Except.ok.inj (hdi.symm.trans hdj))
  exact add_ofNat_inj (by omega) (by omega) hseq

/-- **The fragments before the next one missing are handed over.** -/
theorem Receiving.handOver {start : Node} {c : U8} {q : U16} {parts : List (List U8)}
    {history : List Event} {k : Call} {channel : ChannelState} {seen : Finset Nat} {e e' : Nat}
    (hfits : FitsNode start c parts) (hconfig : SameConfig start k.node)
    (hg : Gathers q parts k.node e) (hch : k.node.reliableAt c = some channel)
    (hfront : Frontier q parts.length channel.reliable seen e')
    (hroom : parts.length ≤ e' + rxRoom channel) (hle : e ≤ e')
    (hcached : ∀ i ∈ seen, e ≤ i → q + BitVec.ofNat 16 i ∈ arrivedSeqs k.node)
    (hmessages : deliveredPackets (history ++ k.log) = completed q parts e) (src : Mac)
    (now : U32) :
    let k' := ((List.range' e (e' - e)).map (fun i => q + BitVec.ofNat 16 i)).foldl
      (deliverOne src c now) k
    Receiving start c q parts ⟨k'.node, history ++ k'.log⟩ seen e' := by
  have hmax : maxReorder = 8 := rfl
  have hfew := hfits.few
  have hend := hfront.le
  have hsum : e + (e' - e) = e' := by omega
  obtain ⟨hg', hlog⟩ := hg.deliverAll hfits.few hfits.size src c now (e' - e) e k (by omega)
    (fun i hi hlt => hcached i (hfront.below i (by omega)) hi)
  rw [hsum] at hg' hlog
  have hover := HandsOver.all src c now
    ((List.range' e (e' - e)).map (fun i => q + BitVec.ofNat 16 i)) k
  obtain ⟨-, htaken⟩ := arrivedSeqs_deliverAll src c now
    ((List.range' e (e' - e)).map (fun i => q + BitVec.ofNat 16 i)) k hg.nodup
  intro k'
  refine ⟨?_, hg', ⟨channel, hover.reliableAt ▸ hch, hfront, hroom⟩, fun i hi hlt => ?_, ?_⟩
  · refine hconfig.trans ?_
    have hnode : k'.node = _ := hover.node_eq
    constructor <;> dsimp only <;> rw [hnode]
  · -- what has arrived beyond a gap stays in the cache
    refine (htaken _).mpr ⟨hcached i hi (by omega), fun hm => ?_⟩
    obtain ⟨i', hi', heq⟩ := List.mem_map.mp hm
    have hrange := List.mem_range'_1.mp hi'
    have hless := hfront.lt i hi
    have := add_ofNat_inj (by omega) (by omega) heq
    omega
  · -- the message is complete exactly if its last fragment is among those handed over
    have hsplit : deliveredPackets (history ++ k'.log)
        = deliveredPackets (history ++ k.log)
          ++ if e' - e = 0 then [] else completed q parts e' := by
      rw [deliveredPackets_append, deliveredPackets_append, List.append_assoc, ← hlog]
    rw [hsplit, hmessages]
    by_cases h0 : e' - e = 0
    · rw [if_pos h0, List.append_nil, show e = e' by omega]
    · rw [if_neg h0]
      unfold completed
      rw [if_neg (show ¬ e = parts.length by omega), List.nil_append]

/-- **One frame arrives.** -/
theorem Receiving.arrive {start : Node} {c : U8} {q : U16} {parts frames : List (List U8)}
    {w : NodeRun} {seen : Finset Nat} {e : Nat} (h : Receiving start c q parts w seen e)
    (hfits : FitsNode start c parts) (hfr : FragmentsOf c q parts frames) {j : Nat}
    (hj : j < frames.length)
    (hfirst : ∀ channel, w.node.reliableAt c = some channel →
      channel.reliable.hasRxWindow = false → j = 0) (radio : Radio) (now : U32) :
    ∃ e', Receiving start c q parts
      (w.step ⟨radio, .onReceive start.peerMac frames[j] now⟩) (insert j seen) e' := by
  have hjp : j < parts.length := hfr.length ▸ hj
  obtain ⟨channel, hch, hfront, hroom⟩ := h.channel
  -- the frame is accepted as it was sent
  obtain ⟨hdec, hpay⟩ := hfr.decodes hfits hj hjp
  rw [← h.config.maxPayload] at hdec
  have hacc : Accepts w.node start.peerMac frames[j]
      (dataHeader c (fragmentFlags parts.length j) (q + BitVec.ofNat 16 j) parts[j]) channel :=
    ⟨hdec, h.config.peerMac.symm, hfits.notHeartbeat, rfl, hch⟩
  have hrecv := hacc.onReceive_data rfl radio now
  rw [hpay] at hrecv
  -- what is delivered, and what is expected then
  obtain ⟨e', hle, hds, hfront'⟩ :=
    hfront.onData (Nat.le_succ_of_le hfits.few) hjp (hfirst channel hch)
  have hle' := hfront'.le
  have hcount : (deliverable channel.reliable (q + BitVec.ofNat 16 j)).length = e' - e := by
    rw [hds, List.length_map, List.length_range']
  have hhas : HasRoom channel (q + BitVec.ofNat 16 j) := by
    unfold HasRoom
    omega
  obtain ⟨channel', state', hchannel', hrel, -, hcases⟩ :=
    receiveData_spec radio start.peerMac parts[j] now hacc.at_channel
  rcases hcases with ⟨hfull, _⟩ | ⟨-, hleft, attempts, answer, hanswer, heq⟩
  · exact absurd hhas hfull
  · obtain ⟨hg, hstored, hkept⟩ := h.gathers.arrived hfits.few hjp c state'
    refine ⟨e', ?_⟩
    unfold NodeRun.step
    dsimp only [ApiCall.run]
    rw [hrecv, heq]
    rw [show (deliverable channel.reliable (dataHeader c (fragmentFlags parts.length j)
      (q + BitVec.ofNat 16 j) parts[j]).seqId) = _ from hds]
    have hat : (w.node.arrived (dataHeader c (fragmentFlags parts.length j)
        (q + BitVec.ofNat 16 j) parts[j]) parts[j] state').reliableAt c = some channel' := by
      rw [arrived_reliableAt, hrel]
      exact Function.update_self _ _ _
    refine @Receiving.handOver start c q parts w.history ⟨w.node.arrived (dataHeader c
      (fragmentFlags parts.length j) (q + BitVec.ofNat 16 j) parts[j]) parts[j] state', attempts,
      answer⟩ channel' (insert j seen) e e' hfits (h.config.trans ?_) hg hat ?_ ?_ hle ?_ ?_
      start.peerMac now
    · rw [arrived_frame]
      exact ⟨rfl, rfl, rfl, rfl, rfl⟩
    · rw [hchannel']
      exact hfront'
    · have hleft' : rxRoom channel = rxRoom channel'
          + (deliverable channel.reliable (q + BitVec.ofNat 16 j)).length := hleft
      omega
    · -- everything from the expected number on is cached
      intro i hi hei
      rcases Finset.mem_insert.mp hi with rfl | hi
      · exact hstored
      · rcases Nat.lt_or_eq_of_le hei with hlt | rfl
        · exact hkept _ (h.cached i hi hlt)
        · exact absurd hi hfront.missing
    · have hquiet : deliveredPackets answer = [] := by
        rcases hanswer with rfl | ⟨frame, rfl, _⟩ <;> rfl
      rw [deliveredPackets_append, hquiet, List.append_nil]
      exact h.messages

/-! ## Any order, any number of times -/

/-- A frame on its way to a node: what arrives, when, and what the radio answers meanwhile. -/
structure FrameArrival where
  radio : Radio
  frame : List U8
  nowMs : U32

/-- The call an arrival from `mac` leads to. -/
def FrameArrival.step (mac : Mac) (a : FrameArrival) : ApiStep :=
  ⟨a.radio, .onReceive mac a.frame a.nowMs⟩

/-- The node `start` after the arrivals, with everything it did. -/
def hears (start : Node) (arrivals : List FrameArrival) : NodeRun :=
  run NodeRun.step ⟨start, []⟩ (arrivals.map (FrameArrival.step start.peerMac))

/-- **However the frames arrive**, the receiver follows. -/
theorem Receiving.run {start : Node} {c : U8} {q : U16} {parts frames : List (List U8)}
    (hfits : FitsNode start c parts) (hfr : FragmentsOf c q parts frames) :
    ∀ (arrivals : List FrameArrival) (w : NodeRun) (seen : Finset Nat) (e : Nat),
      Receiving start c q parts w seen e → (∀ a ∈ arrivals, a.frame ∈ frames) →
      (∀ channel, w.node.reliableAt c = some channel → channel.reliable.hasRxWindow = false →
        ∀ a ∈ arrivals.head?, frames.head? = some a.frame) →
      ∃ seen' e', Receiving start c q parts
          (Runs.run NodeRun.step w (arrivals.map (FrameArrival.step start.peerMac))) seen' e'
        ∧ seen ⊆ seen' ∧ ∀ a ∈ arrivals, ∃ j ∈ seen', frames[j]? = some a.frame := by
  intro arrivals
  induction arrivals with
  | nil => exact fun w seen e h _ _ => ⟨seen, e, h, fun _ hi => hi, fun a ha => absurd ha (by simp)⟩
  | cons a arrivals ih =>
      intro w seen e h hframes hfirst
      obtain ⟨j, hj, hget⟩ := List.mem_iff_getElem.mp (hframes a (List.mem_cons_self))
      -- with the window closed it is the first fragment that opens it
      have hzero : ∀ channel, w.node.reliableAt c = some channel →
          channel.reliable.hasRxWindow = false → j = 0 := by
        intro channel hch hw
        have hhead := hfirst channel hch hw a rfl
        have hpos : 0 < frames.length := by omega
        rw [List.head?_eq_getElem?, List.getElem?_eq_getElem hpos] at hhead
        exact hfr.inj hfits hj hpos (hget.trans (Option.some.inj hhead).symm)
      obtain ⟨e₁, h₁⟩ := h.arrive hfits hfr hj hzero a.radio a.nowMs
      rw [hget] at h₁
      obtain ⟨seen', e', h', hsub, hall⟩ :=
        ih _ _ e₁ h₁ (fun b hb => hframes b (List.mem_cons_of_mem a hb))
        (fun channel hch hw => by
          obtain ⟨channel₁, hch₁, hfront₁, -⟩ := h₁.channel
          obtain rfl := Option.some.inj (hch.symm.trans hch₁)
          exact absurd (hfront₁.closed hw) (Finset.insert_ne_empty j seen))
      refine ⟨seen', e', h', (Finset.subset_insert j seen).trans hsub, fun b hb => ?_⟩
      rcases List.mem_cons.mp hb with rfl | hb
      · exact ⟨j, hsub (Finset.mem_insert_self j seen),
          (List.getElem?_eq_getElem hj).trans (congrArg some hget)⟩
      · exact hall b hb

/-- A node ready for a message of `n` fragments from the id `q` on. -/
structure ReadyFor (node : Node) (c : U8) (channel : ChannelState) (q : U16) (n : Nat) : Prop where
  at_channel : node.reliableAt c = some channel
  onMessage : node.onMessage = true
  expected : channel.reliable.hasRxWindow = true → channel.reliable.expectedRxSeq = q
  reorder : ∀ i : Fin maxReorder, channel.reliable.reorder[i].inUse = false
  cache : ∀ i : Fin rxCacheSize, node.rxCache[i].inUse = false
  reassembly : node.reassemblyActive = false
  room : n ≤ rxRoom channel

/-- The arrivals are these frames, each at least once; if the window is not open yet, the first
frame comes first. -/
structure Covers (channel : ChannelState) (frames : List (List U8))
    (arrivals : List FrameArrival) : Prop where
  only : ∀ a ∈ arrivals, a.frame ∈ frames
  all : ∀ frame ∈ frames, ∃ a ∈ arrivals, a.frame = frame
  first : channel.reliable.hasRxWindow = false →
    ∀ a ∈ arrivals.head?, frames.head? = some a.frame

/-- Before the first arrival. -/
theorem ReadyFor.receiving {node : Node} {c : U8} {channel : ChannelState} {q : U16}
    {parts : List (List U8)} (h : ReadyFor node c channel q parts.length) (hne : parts ≠ []) :
    Receiving node c q parts ⟨node, []⟩ ∅ 0 := by
  have hpos : 0 < parts.length := List.length_pos_iff.mpr hne
  -- nothing buffered, nothing cached, nothing gathered
  have hempty : reorderSeqs channel.reliable = 0 := keys_of_none Reorder.seqId h.reorder
  have hcache : arrivedSeqs node = 0 := keys_of_none RxCache.seqId h.cache
  have hinv : RxInv channel.reliable := by
    refine ⟨by rw [hempty]; exact Multiset.nodup_zero, fun _ => hempty, fun _ d hd => ?_⟩
    rw [hempty] at hd
    exact absurd hd (Multiset.notMem_zero d)
  refine ⟨SameConfig.refl node, ⟨h.onMessage, fun i hu => ?_, ?_, ?_, fun ha => ?_⟩,
    ⟨channel, h.at_channel,
      ⟨hinv, fun hw => ?_, fun _ => rfl, ?_, ?_, ?_, fun d => ?_⟩, ?_⟩, ?_, ?_⟩
  · rw [h.cache i] at hu
    exact absurd hu (by decide)
  · rw [hcache]
    exact Multiset.nodup_zero
  · rw [h.reassembly]
    exact ⟨fun ha => absurd ha (by decide), fun hlt => absurd hlt.1 (Nat.lt_irrefl 0)⟩
  · exact absurd (h.reassembly.symm.trans ha) (by decide)
  · exact (h.expected hw).trans (BitVec.add_zero q).symm
  · exact fun i hi => absurd hi (Finset.notMem_empty i)
  · exact fun i hi => absurd hi (Nat.not_lt_zero i)
  · exact Finset.notMem_empty 0
  · rw [hempty]
    exact ⟨fun hd => absurd hd (Multiset.notMem_zero d),
      fun ⟨i, hi, _⟩ => absurd hi (Finset.notMem_empty i)⟩
  · rw [Nat.zero_add]
    exact h.room
  · exact fun i hi => absurd hi (Finset.notMem_empty i)
  · unfold completed
    rw [if_neg (by omega)]
    rfl

/-- **All fragments make the message**, once. -/
theorem ReadyFor.hears {node : Node} {c : U8} {channel : ChannelState} {q : U16}
    {parts frames : List (List U8)} (h : ReadyFor node c channel q parts.length) (hne : parts ≠ [])
    (hfits : FitsNode node c parts) (hfr : FragmentsOf c q parts frames)
    {arrivals : List FrameArrival} (hall : Covers channel frames arrivals) :
    deliveredPackets (hears node arrivals).history = [(q, parts.flatten)] := by
  obtain ⟨seen, e, hrecv, -, hseen⟩ := Receiving.run hfits hfr arrivals ⟨node, []⟩ ∅ 0
    (h.receiving hne) hall.only (fun ch hch hw => by
      obtain rfl := Option.some.inj (h.at_channel.symm.trans hch)
      exact hall.first hw)
  obtain ⟨ch, -, hfront, -⟩ := hrecv.channel
  -- no number is missing
  have hend : e = parts.length := by
    by_contra hlt
    have hle := hfront.le
    have he : e < frames.length := by
      rw [hfr.length]
      omega
    obtain ⟨a, ha, hframe⟩ := hall.all frames[e] (List.getElem_mem he)
    obtain ⟨j, hj, hget⟩ := hseen a ha
    obtain ⟨hj', hget'⟩ := List.getElem?_eq_some_iff.mp hget
    obtain rfl := hfr.inj hfits hj' he (hget'.trans hframe)
    exact hfront.missing hj
  have hmessages := hrecv.messages
  unfold completed at hmessages
  rw [if_pos hend] at hmessages
  exact hmessages

/-! ## The sender -/

/-- A node that can send the payload in fragments: it has none in flight, and for every fragment a
pending slot, a cache entry and a willing radio. -/
structure CanSplit (radio : Radio) (node : Node) (c : U8) (channel : ChannelState)
    (payload : List U8) : Prop where
  at_channel : node.reliableAt c = some channel
  notHeartbeat : c ≠ heartbeatChannel
  inactive : node.fragmentedTxActive = false
  positive : 0 < node.maxPayload.toNat
  limit : node.maxPayload.toNat ≤ maxPayloadLimit
  long : node.maxPayload.toNat < payload.length
  short : payload.length ≤ maxPending * node.maxPayload.toNat
  clears : Clears radio (Call.start node) channel
    (framesLeft payload.length node.maxPayload.toNat)

/-- The frames a send puts on the air. -/
def framesSent (radio : Radio) (node : Node) (c : U8) (payload : List U8) (now : U32) :
    List (List U8) :=
  sentFrames (sendReliable radio node c payload now).2.log

/-- **Fragmentation followed by reassembly is the identity**, in whatever order the fragments
arrive and however often. -/
theorem fragments_roundtrip {radio : Radio} {sender : Node} {c : U8} {channel : ChannelState}
    {payload : List U8} (h : CanSplit radio sender c channel payload) (now : U32) :
    (sendReliable radio sender c payload now).1 = .ok
      ∧ (framesSent radio sender c payload now).length
        = framesLeft payload.length sender.maxPayload.toNat
      ∧ MessageFrames sender c channel.reliable.nextTxSeq payload
          (framesSent radio sender c payload now)
      ∧ ∀ (receiver : Node) (rchannel : ChannelState),
        receiver.maxPayload = sender.maxPayload →
        ReadyFor receiver c rchannel channel.reliable.nextTxSeq
          (framesLeft payload.length sender.maxPayload.toNat) →
        ∀ arrivals : List FrameArrival,
          Covers rchannel (framesSent radio sender c payload now) arrivals →
          deliveredPackets (hears receiver arrivals).history
            = [(channel.reliable.nextTxSeq, payload)] := by
  have hlong := h.long
  have hne : payload ≠ [] := List.length_pos_iff.mp (by omega)
  obtain ⟨k, frames, hsend, rfl, hcount, hmessage, hfr⟩ :=
    sendReliable_clear radio h.notHeartbeat now
    h.at_channel hne h.inactive h.positive h.clears
  unfold framesSent
  rw [hsend]
  refine ⟨rfl, hcount, hmessage, fun receiver rchannel hmax hready arrivals hcovers => ?_⟩
  have hlength : (pieces sender.maxPayload.toNat payload).length
      = framesLeft payload.length sender.maxPayload.toNat := length_pieces _ _
  have hflatten := flatten_pieces h.positive payload
  -- sixteen full frames are just what the reassembly buffer holds
  have hsize : payload.length ≤ maxReassembly := by
    have hlimit := h.limit
    calc payload.length ≤ maxPending * sender.maxPayload.toNat := h.short
      _ ≤ maxPending * maxPayloadLimit := Nat.mul_le_mul_left _ hlimit
      _ = maxReassembly := Nat.mul_comm _ _
  have hroom : rxRoom rchannel ≤ rxQueueSize := free_le _ _
  have hfits : FitsNode receiver c (pieces sender.maxPayload.toNat payload) := by
    refine ⟨h.notHeartbeat, fun part hp => ?_, ?_, ?_⟩
    · rw [hmax]
      exact length_le_of_mem hp
    · -- the receive queue is no larger than the reorder buffer
      rw [hlength]
      exact hready.room.trans hroom
    · rw [hflatten]
      exact hsize
  have hparts : pieces sender.maxPayload.toNat payload ≠ [] := by
    rw [pieces_cons h.positive hne]
    exact List.cons_ne_nil _ _
  rw [← hlength] at hready
  have hheard := hready.hears hparts hfits (hfr hlong) hcovers
  rw [hflatten] at hheard
  exact hheard

/-- A peer that sends two bytes a frame, and one that listens to it. -/
def pairNode : Node := (init Node.zero { listenConfig with maxPayload := 2#16 }).2

def pairChannel : ChannelState := (pairNode.reliableAt 1#8).getD ChannelState.zero

/-- Three fragments: the last overtakes the second and comes twice. -/
def shuffled : List FrameArrival := [0, 2, 2, 1].map fun i =>
  ⟨Radio.up, (framesSent Radio.up pairNode 1#8 [1#8, 2#8, 3#8, 4#8, 5#8] 0#32).getD i [], 0#32⟩

theorem pairNode_canSplit :
    CanSplit Radio.up pairNode 1#8 pairChannel [1#8, 2#8, 3#8, 4#8, 5#8] where
  at_channel := by decide +kernel
  notHeartbeat := by decide
  inactive := by decide +kernel
  positive := by decide +kernel
  limit := by decide +kernel
  long := by decide +kernel
  short := by decide +kernel
  clears := ⟨by decide +kernel, by decide +kernel, fun _ _ => rfl⟩

theorem pairNode_ready : ReadyFor pairNode 1#8 pairChannel 0#16 3 where
  at_channel := by decide +kernel
  onMessage := by decide +kernel
  expected := by decide +kernel
  reorder := by decide +kernel
  cache := by decide +kernel
  reassembly := by decide +kernel
  room := by decide +kernel

theorem fragments_roundtrip_shuffled :
    deliveredPackets (hears pairNode shuffled).history
      = [(0#16, [1#8, 2#8, 3#8, 4#8, 5#8])] := by
  obtain ⟨-, -, -, hall⟩ := fragments_roundtrip pairNode_canSplit 0#32
  have hq : pairChannel.reliable.nextTxSeq = 0#16 := by decide +kernel
  have hk : framesLeft [1#8, 2#8, 3#8, 4#8, 5#8].length pairNode.maxPayload.toNat = 3 := by
    decide +kernel
  rw [hq, hk] at hall
  refine hall pairNode pairChannel rfl pairNode_ready shuffled ⟨?_, ?_, fun _ => ?_⟩
  · decide +kernel
  · decide +kernel
  · decide +kernel

end Relinow
