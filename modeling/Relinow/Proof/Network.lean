import Relinow.Proof.OneChannel

/-!
# Two nodes and the air between them

Two nodes with one reliable channel each send frames to one another. The network
may lose, repeat and reorder them: a node can be given any frame its peer has put
on the air, at any time and any number of times, and no other. The radio may
refuse to send.

What a node puts on the air is settled on its own side. Its ids follow its sends,
and every DATA frame carries the payload its id was given, sent once or again.
-/

namespace Relinow

open SlotTable Runs

/-! ## What a history shows -/

/-- The payloads given an id, with their ids, in the order the ids were given. -/
def assignedPackets (history : List Event) : List (U16 × List U8) :=
  history.filterMap fun e => match e with
    | .assigned _ q _ payload => some (q, payload)
    | _ => none

/-- The payloads handed to the application, with their ids, in order. -/
def deliveredPackets (history : List Event) : List (U16 × List U8) :=
  history.filterMap fun e => match e with
    | .message _ _ _ q payload => some (q, payload)
    | _ => none

/-- The frames put on the air. -/
def sentFrames (history : List Event) : List (List U8) :=
  history.filterMap fun e => match e with
    | .sent _ frame => some frame
    | _ => none

theorem mem_sentFrames {history : List Event} {frame : List U8} :
    frame ∈ sentFrames history ↔ ∃ dst, .sent dst frame ∈ history := by
  unfold sentFrames
  rw [List.mem_filterMap]
  constructor
  · rintro ⟨e, he, heq⟩
    cases e with
    | sent dst f =>
        obtain rfl := Option.some.inj heq
        exact ⟨dst, he⟩
    | _ => exact absurd heq (by simp)
  · rintro ⟨dst, h⟩
    exact ⟨_, h, rfl⟩

theorem sentFrames_append (history log : List Event) :
    sentFrames (history ++ log) = sentFrames history ++ sentFrames log :=
  List.filterMap_append

theorem deliveredPackets_append (history log : List Event) :
    deliveredPackets (history ++ log) = deliveredPackets history ++ deliveredPackets log :=
  List.filterMap_append

theorem assignedPackets_append (history log : List Event) :
    assignedPackets (history ++ log) = assignedPackets history ++ assignedPackets log :=
  List.filterMap_append

theorem assignedPackets_eq_nil {log : List Event} (h : ∀ e ∈ log, e.NoAssign) :
    assignedPackets log = [] := by
  refine List.filterMap_eq_nil_iff.mpr fun e he => ?_
  have := h e he
  cases e with
  | assigned c q flags payload => exact absurd this (by simp [Event.NoAssign])
  | _ => rfl

/-- Calls of a node with one reliable channel deliver nothing in passing. -/
theorem Solo.deliveredPackets_eq_nil {c₀ : U8} {node : Node} (h : Solo c₀ node) {log : List Event}
    (hlog : ∀ e ∈ log, e.NoDelivery node) : deliveredPackets log = [] := by
  refine List.filterMap_eq_nil_iff.mpr fun e he => ?_
  cases e with
  | message site src c q payload => exact absurd rfl (h.silent (hlog _ he))
  | _ => rfl

/-! ## What a frame carries -/

/-- A frame of the reliable mode has a header and a payload with `P`. -/
def Carries (P : Header → List U8 → Prop) (frame : List U8) : Prop :=
  ∃ header payload, FrameOf frame header payload
    ∧ (header.mode = modeReliable → header.channelId ≠ heartbeatChannel → P header payload)

theorem FrameOf.carries {P : Header → List U8 → Prop} {frame payload : List U8} {header : Header}
    (h : FrameOf frame header payload) (hp : P header payload) : Carries P frame :=
  ⟨header, payload, h, fun _ _ => hp⟩

theorem BackgroundFrame.carries {P : Header → List U8 → Prop} {frame : List U8}
    (h : BackgroundFrame frame) : Carries P frame := by
  obtain ⟨header, payload, hframe, hout⟩ := h
  refine ⟨header, payload, hframe, fun hm hc => ?_⟩
  rcases hout with hout | hout
  · exact absurd hm hout
  · exact absurd hout hc

theorem Carries.mono {P Q : Header → List U8 → Prop} (h : ∀ header payload, P header payload →
    Q header payload) {frame : List U8} (hc : Carries P frame) : Carries Q frame := by
  obtain ⟨header, payload, hframe, hp⟩ := hc
  exact ⟨header, payload, hframe, fun hm hh => h _ _ (hp hm hh)⟩

/-- The node that accepts the frame reads what it carries. -/
theorem Carries.accepted {P : Header → List U8 → Prop} {frame : List U8} (h : Carries P frame)
    {node : Node} {src : Mac} {header : Header} {channel : ChannelState}
    (hacc : Accepts node src frame header channel) : P header (framePayload frame) := by
  obtain ⟨header', payload, hframe, hp⟩ := h
  obtain ⟨rfl, rfl⟩ := hframe.decode hacc.decoded
  exact hp hacc.mode hacc.notHeartbeat

/-- A DATA frame is a whole payload with its id, one of `packets`. -/
def DataOf (packets : List (U16 × List U8)) (header : Header) (payload : List U8) : Prop :=
  header.type = typeData → header.flags = 0#8 ∧ (header.seqId, payload) ∈ packets

theorem DataOf.append {packets : List (U16 × List U8)} (new : List (U16 × List U8))
    (header : Header) (payload : List U8) (h : DataOf packets header payload) :
    DataOf (packets ++ new) header payload := by
  intro ht
  obtain ⟨hf, hm⟩ := h ht
  exact ⟨hf, List.mem_append_left _ hm⟩

/-! ## The sender -/

/-- The ids are `0, 1, 2, ...`, modulo `2 ^ 16`. -/
def Numbered (packets : List (U16 × List U8)) : Prop :=
  packets.map (·.1) = (List.range packets.length).map (BitVec.ofNat 16)

/-- **What a node with one reliable channel has sent.** Ids follow the sends, and the payload
cache and every DATA frame hold the payload the id was given. -/
structure Sends (c₀ : U8) (w : NodeRun) : Prop where
  solo : Solo c₀ w.node
  next : ∀ channel, w.node.reliableAt c₀ = some channel →
    channel.reliable.nextTxSeq = BitVec.ofNat 16 (assignedPackets w.history).length
  numbered : Numbered (assignedPackets w.history)
  cached : ∀ i : Fin maxPending, w.node.txCache[i].inUse = true → w.node.txCache[i].flags = 0#8
    ∧ (w.node.txCache[i].seqId, w.node.txCache[i].payload) ∈ assignedPackets w.history
  frames : ∀ frame ∈ sentFrames w.history, Carries (DataOf (assignedPackets w.history)) frame

/-- Calls that assign no id, cache nothing and send what was sent before. -/
theorem Sends.keep {c₀ : U8} {w : NodeRun} (h : Sends c₀ w) {node' : Node} {log : List Event}
    (hopen : SameOpen w.node node')
    (hnext : SameChannels (fun channel => channel.reliable.nextTxSeq) w.node node')
    (hcache : ∀ i : Fin maxPending, node'.txCache[i].inUse = true →
      node'.txCache[i] = w.node.txCache[i])
    (hlog : ∀ e ∈ log, e.NoAssign)
    (hframes : ∀ frame ∈ sentFrames log, Carries (DataOf (assignedPackets w.history)) frame) :
    Sends c₀ ⟨node', w.history ++ log⟩ := by
  have hassigned : assignedPackets (w.history ++ log) = assignedPackets w.history := by
    rw [assignedPackets_append, assignedPackets_eq_nil hlog, List.append_nil]
  refine ⟨h.solo.step hopen, fun channel' hch' => ?_, ?_, fun i hu => ?_, fun frame hf => ?_⟩
  · -- no packet was assigned, so counts and ids stand
    obtain ⟨channel, hch, hn⟩ := hnext.before hch'
    dsimp only at hn ⊢
    rw [hassigned, ← hn]
    exact h.next channel hch
  · show Numbered (assignedPackets (w.history ++ log))
    rw [hassigned]
    exact h.numbered
  · have hkept := hcache i hu
    dsimp only at hu ⊢
    rw [hkept] at hu ⊢
    rw [hassigned]
    exact h.cached i hu
  · dsimp only at hf ⊢
    rw [hassigned]
    rw [sentFrames_append, List.mem_append] at hf
    rcases hf with hf | hf
    · exact h.frames frame hf
    · exact hframes frame hf

/-- The next payload gets the next id. -/
theorem Numbered.snoc {packets : List (U16 × List U8)} (h : Numbered packets)
    (payload : List U8) : Numbered (packets ++ [(BitVec.ofNat 16 packets.length, payload)]) := by
  unfold Numbered at h ⊢
  rw [List.map_append, h, List.length_append, List.length_singleton, List.range_succ,
    List.map_append]
  rfl

/-- **A payload is given the next id**, and maybe cached and sent. -/
theorem Sends.assign {c₀ : U8} {w : NodeRun} (h : Sends c₀ w) {node' : Node}
    {channel channel' : ChannelState} {payload : List U8} {rest : List Event}
    (hch : w.node.reliableAt c₀ = some channel) (hopen : SameOpen w.node node')
    (hrel : node'.reliableAt = Function.update w.node.reliableAt c₀ (some channel'))
    (hnext : channel'.reliable.nextTxSeq = seqNext channel.reliable.nextTxSeq)
    (hcache : ∀ i : Fin maxPending, node'.txCache[i].inUse = true →
      node'.txCache[i] = w.node.txCache[i]
      ∨ node'.txCache[i] = ⟨true, channel.reliable.nextTxSeq, 0#8, payload⟩)
    (hlog : ∀ e ∈ rest, e.NoAssign)
    (hframes : ∀ frame ∈ sentFrames rest,
      FrameOf frame (dataHeader c₀ 0#8 channel.reliable.nextTxSeq payload) payload) :
    Sends c₀
      ⟨node', w.history ++ .assigned c₀ channel.reliable.nextTxSeq 0#8 payload :: rest⟩ := by
  have hassigned : assignedPackets
      (w.history ++ .assigned c₀ channel.reliable.nextTxSeq 0#8 payload :: rest)
      = assignedPackets w.history ++ [(channel.reliable.nextTxSeq, payload)] := by
    rw [assignedPackets_append]
    refine congrArg _ ?_
    show (_ :: assignedPackets rest) = _
    rw [assignedPackets_eq_nil hlog]
  have hq := h.next channel hch
  have hnew : (channel.reliable.nextTxSeq, payload)
      ∈ assignedPackets w.history ++ [(channel.reliable.nextTxSeq, payload)] :=
    List.mem_append_right _ (List.mem_singleton_self _)
  refine ⟨h.solo.step hopen, fun b hb => ?_, ?_, fun i hu => ?_, fun frame hf => ?_⟩
  · dsimp only at hb ⊢
    -- the next id is one more, as is the number of packets
    rw [hrel, Function.update_self] at hb
    obtain rfl := Option.some.inj hb
    rw [hassigned, hnext, hq, List.length_append, List.length_singleton]
    exact (BitVec.ofNat_add _ _).symm
  · show Numbered (assignedPackets (_ ++ _))
    rw [hassigned, hq]
    exact h.numbered.snoc payload
  · dsimp only at hu ⊢
    rw [hassigned]
    rcases hcache i hu with heq | heq <;> rw [heq] at hu ⊢
    · obtain ⟨hf, hm⟩ := h.cached i hu
      exact ⟨hf, List.mem_append_left _ hm⟩
    · exact ⟨rfl, hnew⟩
  · dsimp only at hf ⊢
    rw [hassigned]
    rw [sentFrames_append, List.mem_append] at hf
    rcases hf with hf | hf
    · exact (h.frames frame hf).mono (DataOf.append _)
    · exact (hframes frame hf).carries fun _ => ⟨rfl, hnew⟩

/-- **One whole packet on its way.** -/
theorem Sends.transmit {c₀ : U8} {w : NodeRun} (h : Sends c₀ w) (radio : Radio) (c : U8)
    (payload : List U8) (now : U32) :
    Sends c₀ ⟨(transmitNew radio (Call.start w.node) c 0#8 false payload now).2.node,
      w.history ++ (transmitNew radio (Call.start w.node) c 0#8 false payload now).2.log⟩ := by
  have hopen := transmitNew_sameOpen radio (Call.start w.node) c 0#8 false payload now (by decide)
  rcases transmitNew_cases radio (Call.start w.node) c 0#8 false payload now (by decide) with
    ⟨heq, _⟩ | ⟨channel, channel', state', hch, hfr, _, hrel, _, ⟨_, heq⟩ |
      ⟨i, node', attempts, out, rest, _, hnode, heq, hout, _⟩⟩ <;> rw [heq] at hopen ⊢
  · -- the engine refused: no packet
    dsimp only [Call.start]
    rw [List.append_nil]
    exact h
  · obtain rfl := h.solo.reliable hch
    -- a packet with no cache entry: it is assigned, and never sent
    exact h.assign hch hopen hrel (by rw [hfr]) (fun i _ => Or.inl rfl)
      (fun e he => absurd he (by simp)) (fun frame hf => absurd hf (by simp [sentFrames]))
  · obtain rfl := h.solo.reliable hch
    rw [if_neg (by simp)] at hopen ⊢
    have hlog : ∀ e ∈ rest, e.NoAssign := by
      intro e he
      rcases hout with ⟨_, _, _, hrest⟩ | ⟨_, frame, _, hrest⟩ <;> rw [hrest] at he
      · exact absurd he (by simp)
      · rcases List.mem_cons.mp he with rfl | he
        · trivial
        · rw [List.mem_ite_nil_right, List.mem_singleton] at he
          rw [he.2]
          trivial
    have hat : node'.reliableAt = Function.update w.node.reliableAt c (some channel') := by
      rw [hnode]
      exact hrel
    refine h.assign hch hopen hat (by rw [hfr]) (fun j _ => ?_) hlog (fun frame hf => ?_)
    · rw [hnode]
      by_cases hij : i = j
      · subst hij
        exact Or.inr (put_self _ _ _)
      · exact Or.inl (put_ne hij)
    · obtain ⟨dst, hm⟩ := mem_sentFrames.mp hf
      have hm' : .sent dst frame
          ∈ (transmitNew radio (Call.start w.node) c 0#8 false payload now).2.log := by
        rw [heq]
        exact List.mem_append_right _ (List.mem_cons_of_mem _ hm)
      obtain ⟨b, hb, hframe⟩ := transmitNew_sent (by decide) hm'
      obtain rfl := Option.some.inj (hch.symm.trans hb)
      exact hframe

theorem Sends.flags_lt {c₀ : U8} {w : NodeRun} (h : Sends c₀ w) (i : Fin maxPending)
    (hu : w.node.txCache[i].inUse = true) : w.node.txCache[i].flags.toNat < 16 := by
  rw [(h.cached i hu).1]
  decide

theorem Sends.poll {c₀ : U8} {w : NodeRun} (h : Sends c₀ w) (radio : Radio) (now : U32) :
    Sends c₀ ⟨(poll radio w.node now).2.node, w.history ++ (poll radio w.node now).2.log⟩ := by
  have hopen := poll_sameOpen radio w.node now
  have hframes : ∀ frame ∈ sentFrames (Relinow.poll radio w.node now).2.log,
      Carries (DataOf (assignedPackets w.history)) frame := by
    intro frame hf
    obtain ⟨dst, hm⟩ := mem_sentFrames.mp hf
    rcases poll_sent h.flags_lt hm with hback | ⟨c, i, hu, hframe⟩
    · exact hback.carries
    · exact hframe.carries fun _ => h.cached i hu
  obtain ⟨hlog, hq | ⟨c, channel, channel', i, _, hch, _, _, hnext, hrel, hcache, _⟩⟩ :=
    poll_tx radio w.node now
  · exact h.keep hopen (hq.channels.part Prod.fst) (fun i _ => by simp only [hq.cache]) hlog hframes
  · refine h.keep hopen (SameChannels.update hch hrel hnext) (fun i hu => ?_) hlog hframes
    simp only [hcache] at hu ⊢
    exact txCacheRemove_kept hu

theorem Sends.onReceive {c₀ : U8} {w : NodeRun} (h : Sends c₀ w) (radio : Radio) (src : Mac)
    (data : List U8) (now : U32) :
    Sends c₀ ⟨(onReceive radio w.node src data now).2.node,
      w.history ++ (onReceive radio w.node src data now).2.log⟩ := by
  have hopen := onReceive_sameOpen radio w.node src data now
  have hframes : ∀ frame ∈ sentFrames (Relinow.onReceive radio w.node src data now).2.log,
      Carries (DataOf (assignedPackets w.history)) frame := by
    intro frame hf
    obtain ⟨dst, hm⟩ := mem_sentFrames.mp hf
    rcases onReceive_sent radio w.node src data now hm with hback | ⟨_, _, _, _, _, hframe⟩
    · exact hback.carries
    · exact hframe.carries fun ht => absurd ht (by simp [ackHeader, frameHeader, typeAck, typeData])
  rcases onReceive_tx radio w.node src data now with ⟨hq, hlog⟩ |
    ⟨header, channel, channel', hacc, _, hctx, hrel, hcache, _, _, hlog⟩
  · exact h.keep hopen (hq.channels.part Prod.fst) (fun i _ => by simp only [hq.cache]) hlog hframes
  · -- an ACK moves no id, it only frees slots
    have hnext : channel'.reliable.nextTxSeq = channel.reliable.nextTxSeq := by
      rw [hctx]
      rcases reliableOnAck_cases channel.reliable header.ackId now with ⟨_, heq⟩ |
        ⟨ctx', heq, hfr, _⟩ <;> rw [heq]
      rw [hfr]
    refine h.keep hopen (SameChannels.update hacc.at_channel hrel hnext) (fun i hu => ?_)
      (fun e he => ?_) hframes
    · simp only [hcache] at hu ⊢
      exact txCacheRemove_kept hu
    · rw [hlog] at he
      exact absurd he (by simp)

theorem Sends.sendReliable {c₀ : U8} {w : NodeRun} (h : Sends c₀ w) (radio : Radio) (c : U8)
    {payload : List U8} (now : U32) (hlen : payload.length ≤ w.node.maxPayload.toNat) :
    Sends c₀ ⟨(sendReliable radio w.node c payload now).2.node,
      w.history ++ (sendReliable radio w.node c payload now).2.log⟩ := by
  rcases sendReliable_cases radio w.node c payload now with ⟨_, heq⟩ |
    ⟨channel, _, _, _, ⟨_, heq⟩ | ⟨hlong, _⟩⟩
  · rw [heq]
    dsimp only [Call.start]
    rw [List.append_nil]
    exact h
  · rw [heq]
    exact h.transmit radio c payload now
  · omega

/-- The calls that use the reliable mode with whole payloads. -/
def WholePackets (node : Node) : ApiCall → Prop
  | .sendReliable _ payload _ => payload.length ≤ node.maxPayload.toNat
  | .poll _ => True
  | .onReceive _ _ _ => True
  | _ => False

instance (node : Node) (call : ApiCall) : Decidable (WholePackets node call) := by
  unfold WholePackets
  split <;> infer_instance

/-- **Each call keeps it so.** -/
theorem sends_step {c₀ : U8} {w : NodeRun} (h : Sends c₀ w) {a : ApiStep}
    (hcall : WholePackets w.node a.call) : Sends c₀ (w.step a) := by
  obtain ⟨radio, call⟩ := a
  cases call with
  | sendReliable c payload now => exact h.sendReliable radio c now hcall
  | poll now => exact h.poll radio now
  | onReceive src data now => exact h.onReceive radio src data now
  | _ => exact absurd hcall id

theorem sends_init {node node' : Node} {cfg : Config} (h : init node cfg = (.ok, node'))
    (hm : cfg.mode = modeReliable) : Sends cfg.channelId ⟨node', []⟩ := by
  obtain ⟨state, ch, rfl, _, _, _, hmode, hctx, hopen⟩ := init_ok h
  refine ⟨fun c channel hch => ?_, fun channel hch => ?_, rfl, fun i hu => ?_, fun frame hf => ?_⟩
  · change channelAt state 0#8 c = some channel at hch
    rw [hopen] at hch
    by_cases hc : c = cfg.channelId
    · rw [hc, Function.update_self] at hch
      obtain rfl := Option.some.inj hch
      exact ⟨hc, hmode.trans hm⟩
    · rw [Function.update_of_ne hc] at hch
      exact absurd hch (by simp)
  · obtain ⟨-, hctx, -⟩ := init_reliableAt h hch
    rw [hctx]
    rfl
  · simp at hu
  · exact absurd hf (by simp [sentFrames])

/-! ## The network -/

/-- One of the two nodes. -/
inductive Side where
  | left
  | right
  deriving DecidableEq, Repr

def Side.other : Side → Side
  | .left => .right
  | .right => .left

/-- Two nodes, and what each has done. -/
structure Pair where
  left : NodeRun
  right : NodeRun
  deriving DecidableEq, Repr

def Pair.side (w : Pair) : Side → NodeRun
  | .left => w.left
  | .right => w.right

/-- A call on one of them. -/
structure PairStep where
  side : Side
  act : ApiStep

def Pair.step (w : Pair) (a : PairStep) : Pair :=
  match a.side with
  | .left => { w with left := w.left.step a.act }
  | .right => { w with right := w.right.step a.act }

def Pair.start (left right : Node) : Pair := ⟨⟨left, []⟩, ⟨right, []⟩⟩

/-- What the node at `x` is given is a frame of its peer. -/
def Heard (w : Pair) (x : Side) : ApiCall → Prop
  | .onReceive _ data _ => data ∈ sentFrames (w.side x.other).history
  | _ => True

instance (w : Pair) (x : Side) (call : ApiCall) : Decidable (Heard w x call) := by
  unfold Heard
  split <;> infer_instance

/-- Payloads are sent whole, and the network makes no frames up. -/
def Allowed (w : Pair) (a : PairStep) : Prop :=
  WholePackets (w.side a.side).node a.act.call ∧ Heard w a.side a.act.call

instance (w : Pair) (a : PairStep) : Decidable (Allowed w a) :=
  inferInstanceAs (Decidable (_ ∧ _))

theorem Pair.step_self (w : Pair) (a : PairStep) :
    (w.step a).side a.side = (w.side a.side).step a.act := by
  obtain ⟨side, act⟩ := a
  cases side <;> rfl

theorem Pair.step_other (w : Pair) (a : PairStep) :
    (w.step a).side a.side.other = w.side a.side.other := by
  obtain ⟨side, act⟩ := a
  cases side <;> rfl

theorem Side.other_other (x : Side) : x.other.other = x := by
  cases x <;> rfl

theorem Side.ne_other (x : Side) : x ≠ x.other := by
  cases x <;> exact Side.noConfusion

theorem Side.eq_or_other (x y : Side) : x = y ∨ x = y.other := by
  cases x <;> cases y <;> simp [Side.other]

end Relinow
