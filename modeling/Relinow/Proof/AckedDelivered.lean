import Relinow.Proof.Delivery

/-!
# Is what is acknowledged delivered?

A receiver takes the id for its ACK from the engine, which has moved on by then;
the messages are looked up afterwards, one by one, in the cache. In between, the
receive queue has to have room for them. Nothing ever takes an id out of that
queue: at the ninth packet the engine moves on and the call fails, and when the
sender tries again its packet is a duplicate, which is acknowledged. A cache full
of duplicates does the same to a packet that arrives in order.

As long as every arrival finds room for what it delivers and a cached payload for
the last of it, no ACK names an id that has not been handed over.
-/

namespace Relinow

open SlotTable Runs

/-- The ids handed to the application, in order. -/
def deliveredIds (history : List Event) : List U16 := (deliveredPackets history).map (·.1)

theorem deliveredIds_append (history log : List Event) :
    deliveredIds (history ++ log) = deliveredIds history ++ deliveredIds log := by
  unfold deliveredIds
  rw [deliveredPackets_append, List.map_append]

/-- An ACK names one of `ids`. -/
def AckOf (ids : List U16) (header : Header) (_payload : List U8) : Prop :=
  header.type = typeAck → header.ackId ∈ ids

/-- **What a receiver has acknowledged** it has handed over, and so has it the id before the one it
expects. -/
structure Acks (c₀ : U8) (w : NodeRun) : Prop where
  last : ∀ channel, w.node.reliableAt c₀ = some channel →
    channel.reliable.hasRxWindow = true →
    channel.reliable.expectedRxSeq - 1#16 ∈ deliveredIds w.history
  frames : ∀ frame ∈ sentFrames w.history, Carries (AckOf (deliveredIds w.history)) frame

theorem Acks.append {history log : List Event}
    (h : ∀ frame ∈ sentFrames history, Carries (AckOf (deliveredIds history)) frame)
    (hlog : ∀ frame ∈ sentFrames log, Carries (AckOf (deliveredIds (history ++ log))) frame) :
    ∀ frame ∈ sentFrames (history ++ log),
      Carries (AckOf (deliveredIds (history ++ log))) frame := by
  intro frame hf
  rw [sentFrames_append, List.mem_append] at hf
  rcases hf with hf | hf
  · refine (h frame hf).mono fun header payload hack ht => ?_
    rw [deliveredIds_append]
    exact List.mem_append_left _ (hack ht)
  · exact hlog frame hf

/-- Calls that bring no DATA and send no ACK. -/
theorem Acks.keep {c₀ : U8} {w : NodeRun} (h : Acks c₀ w) {k : Call}
    (hq : SameChannels ChannelState.rxHalf w.node k.node)
    (hframes : ∀ ids, ∀ frame ∈ sentFrames k.log, Carries (AckOf ids) frame) :
    Acks c₀ ⟨k.node, w.history ++ k.log⟩ := by
  refine ⟨fun channel' hch' hw => ?_, Acks.append h.frames (hframes _)⟩
  obtain ⟨channel, hch, hhalf⟩ := hq.before hch'
  simp only [ChannelState.rxHalf, Prod.mk.injEq] at hhalf
  obtain ⟨⟨hopen, hexp, _⟩, -⟩ := hhalf
  dsimp only
  rw [deliveredIds_append, ← hexp]
  exact List.mem_append_left _ (h.last channel hch (hopen.trans hw))

/-! ## Handing over -/

/-- A round with a cached packet hands it over. -/
theorem deliverOne_raises {packets : List (U16 × List U8)} {k : Call}
    (h : CachedOf packets k.node) (hon : k.node.onMessage = true) (src : Mac) (c : U8) (now : U32)
    {q : U16} (hq : q ∈ arrivedSeqs k.node) :
    q ∈ deliveredIds (deliverOne src c now k q).log := by
  rcases deliverOne_cases src c now k q with ⟨hno, _⟩ | ⟨i, _, hu, hi, ⟨hf, _⟩ | ⟨_, heq⟩⟩
  · exact absurd hq hno
  · rw [(h i hu).1] at hf
    exact absurd hf (by decide)
  · rw [heq]
    show q ∈ deliveredIds (deliverPlain k src c k.node.rxCache[i]).log
    rw [deliverPlain_log, if_pos hon, deliveredIds_append, hi]
    exact List.mem_append_right _ (List.mem_singleton_self q)

/-- **The delivery loop hands over what it runs through and finds cached.** -/
theorem deliverAll_raises {packets : List (U16 × List U8)} (src : Mac) (c : U8) (now : U32)
    {q : U16} (ds : List U16) :
    ∀ k : Call, CachedOf packets k.node → k.node.onMessage = true → q ∈ ds →
      q ∈ arrivedSeqs k.node → q ∈ deliveredIds (ds.foldl (deliverOne src c now) k).log := by
  induction ds with
  | nil => exact fun k _ _ hq _ => absurd hq (List.not_mem_nil)
  | cons d ds ih =>
      intro k hk hon hq hcached
      by_cases hqd : q = d
      · subst hqd
        obtain ⟨messages, hlog, _⟩ :=
          (HandsOver.all src c now ds (deliverOne src c now k q)).log
        rw [List.foldl_cons, hlog, deliveredIds_append]
        exact List.mem_append_left _ (deliverOne_raises hk hon src c now hcached)
      · have hon' : (deliverOne src c now k d).node.onMessage = true := by
          rw [(HandsOver.deliverOne src c now k d).node_eq]
          exact hon
        exact ih _ (hk.deliverOne src c now d) hon' ((List.mem_cons.mp hq).resolve_left hqd)
          (arrivedSeqs_deliverOne hcached hqd)

/-- Handing over sends nothing. -/
theorem HandsOver.sentFrames {k k' : Call} (h : HandsOver k k') :
    sentFrames k'.log = sentFrames k.log := by
  obtain ⟨messages, hlog, hmsg⟩ := h.log
  have hnil : Relinow.sentFrames messages = [] := by
    refine List.filterMap_eq_nil_iff.mpr fun e he => ?_
    obtain ⟨_, _, _, _, _, rfl, _⟩ := hmsg e he
    rfl
  rw [hlog, sentFrames_append, hnil, List.append_nil]

/-! ## One call -/

/-- An arrival that delivers finds room for what it delivers, and a cached payload for the last
of it. -/
def DeliversLast (node : Node) (call : ApiCall) : Prop :=
  match arrival node call with
  | none => True
  | some (header, payload, channel) =>
      match (deliverable channel.reliable header.seqId).getLast? with
      | none => True
      | some q => HasRoom channel header.seqId ∧ q ∈ arrivedSeqs (rxCacheStore node header payload)

instance (node : Node) (call : ApiCall) : Decidable (DeliversLast node call) := by
  unfold DeliversLast
  split
  · infer_instance
  · split <;> infer_instance

/-- **A packet arrives**, and the last id it delivers is handed over. -/
theorem Acks.arrive {c₀ : U8} {packets : List (U16 × List U8)} {w : NodeRun} (h : Acks c₀ w)
    (hcached : CachedOf packets w.node) (hon : w.node.onMessage = true) (radio : Radio) (src : Mac)
    {header : Header} {payload : List U8} {channel : ChannelState} (now : U32)
    (hch : w.node.reliableAt header.channelId = some channel) (hc : header.channelId = c₀)
    (hf : header.flags = 0#8) (hm : (header.seqId, payload) ∈ packets)
    (hlast : ∀ q, (deliverable channel.reliable header.seqId).getLast? = some q →
      HasRoom channel header.seqId ∧ q ∈ arrivedSeqs (rxCacheStore w.node header payload)) :
    Acks c₀ ⟨(receiveData radio (Call.start w.node) src header payload now).2.node,
      w.history ++ (receiveData radio (Call.start w.node) src header payload now).2.log⟩ := by
  subst hc
  obtain ⟨channel', state', hfr, hrel, _, hcases⟩ := receiveData_spec radio src payload now hch
  have hctx : channel'.reliable = (reliableOnData channel.reliable header.seqId).1 := by rw [hfr]
  have hack : (reliableOnData channel.reliable header.seqId).2.ackId
      = channel'.reliable.expectedRxSeq - 1#16 := by
    rw [hctx]
    exact reliableOnData_ackId _ _
  rcases hcases with ⟨hfull, _⟩ | ⟨_, _, attempts, answer, hanswer, heq⟩
  · -- without room something is delivered, and then there is room
    exfalso
    cases hds : (deliverable channel.reliable header.seqId).getLast? with
    | some q => exact hfull (hlast q hds).1
    | none =>
        unfold HasRoom at hfull
        rw [List.getLast?_eq_none_iff.mp hds] at hfull
        exact hfull (Nat.zero_le _)
  · rw [heq]
    have hover := HandsOver.all src header.channelId now (deliverable channel.reliable header.seqId)
      ⟨w.node.arrived header payload state', attempts, answer⟩
    -- the id before the one now expected has been handed over, just now or earlier
    have hbefore : channel'.reliable.expectedRxSeq - 1#16 ∈ deliveredIds (w.history
        ++ ((deliverable channel.reliable header.seqId).foldl (deliverOne src header.channelId now)
          ⟨w.node.arrived header payload state', attempts, answer⟩).log) := by
      rw [deliveredIds_append]
      cases hds : (deliverable channel.reliable header.seqId).getLast? with
      | none =>
          obtain ⟨hw, hexp⟩ := deliverable_eq_nil (List.getLast?_eq_none_iff.mp hds)
          rw [hctx, hexp]
          exact List.mem_append_left _ (h.last channel hch hw)
      | some q =>
          rw [← hack, deliverable_last hds]
          have hon' : (w.node.arrived header payload state').onMessage = true := by
            unfold Node.arrived
            rw [rxCacheStore_frame]
            exact hon
          exact List.mem_append_right _ (deliverAll_raises src header.channelId now _
            ⟨w.node.arrived header payload state', attempts, answer⟩ (hcached.arrived hf hm state')
            hon' (List.mem_of_getLast? hds) (hlast q hds).2)
    refine ⟨fun b hb _ => ?_, Acks.append h.frames fun frame hframe => ?_⟩
    · dsimp only at hb
      rw [hover.reliableAt, arrived_reliableAt, hrel, Function.update_self] at hb
      obtain rfl := Option.some.inj hb
      exact hbefore
    · dsimp only at hframe
      rw [hover.sentFrames] at hframe
      obtain ⟨dst, hsent⟩ := mem_sentFrames.mp hframe
      rcases hanswer with rfl | ⟨frame', rfl, hof⟩
      · exact absurd hsent (by simp)
      · obtain ⟨-, rfl⟩ := Event.sent.inj (List.mem_singleton.mp hsent)
        refine hof.carries fun _ => ?_
        show (reliableOnData channel.reliable header.seqId).2.ackId ∈ _
        rw [hack]
        exact hbefore

/-- A DATA frame is no ACK. -/
theorem FrameOf.noAck {frame payload body : List U8} {c flags : U8} {q : U16}
    (h : FrameOf frame (dataHeader c flags q payload) body) (ids : List U16) :
    Carries (AckOf ids) frame :=
  h.carries fun ht => absurd ht (by simp [dataHeader, frameHeader, typeAck, typeData])

/-- **Each call keeps it so**, if what it is given is a frame of the peer, and what it delivers
last is handed over. -/
theorem acks_step {c₀ : U8} {packets : List (U16 × List U8)} {w : NodeRun} {a : ApiStep}
    (h : Acks c₀ w) (hsends : Sends c₀ w) (hcached : CachedOf packets w.node)
    (hon : w.node.onMessage = true) (hcall : WholePackets w.node a.call)
    (hheard : ∀ src data now, a.call = .onReceive src data now → Carries (DataOf packets) data)
    (hlast : DeliversLast w.node a.call) : Acks c₀ (w.step a) := by
  obtain ⟨radio, call⟩ := a
  cases call with
  | sendReliable c payload now =>
      -- a send puts out packets of the transmit side, no ACK
      refine h.keep (sendReliable_rx radio w.node c payload now).node_quiet.channels
        fun ids frame hf => ?_
      obtain ⟨dst, hm⟩ := mem_sentFrames.mp hf
      obtain ⟨_, _, hframe⟩ := sendReliable_sent hcall hm
      exact hframe.noAck ids
  | poll now =>
      refine h.keep ((SameChannels.of_eq (reliableAt_pollReassembly w.node now)).trans
        (poll_rx radio w.node now).node_quiet.channels) fun ids frame hf => ?_
      obtain ⟨dst, hm⟩ := mem_sentFrames.mp hf
      -- a poll sends a heartbeat, or a cached packet once more
      rcases poll_sent hsends.flags_lt hm with hback | ⟨_, _, _, hframe⟩
      · exact hback.carries
      · exact hframe.noAck ids
  | onReceive src data now =>
      unfold DeliversLast at hlast
      cases harr : arrival w.node (.onReceive src data now) with
      | none =>
          -- no DATA frame: what goes out in answer is no ACK
          have hno : ∀ {header channel}, Accepts w.node src data header channel →
              header.type ≠ typeData := by
            intro header channel hacc ht
            rw [arrival_of_accepts hacc ht] at harr
            exact absurd harr (by simp)
          rcases onReceive_rx radio w.node src data now with hq | ⟨_, _, hacc, ht, _⟩
          · refine h.keep hq.node_quiet.channels fun ids frame hf => ?_
            obtain ⟨dst, hm⟩ := mem_sentFrames.mp hf
            rcases onReceive_sent radio w.node src data now hm with hback | ⟨_, _, hacc, ht, _⟩
            · exact hback.carries
            · exact absurd ht (hno hacc)
          · exact absurd ht (hno hacc)
      | some x =>
          -- a DATA frame of the peer
          obtain ⟨header, payload, channel⟩ := x
          obtain ⟨_, _, _, hcall', hacc, ht, rfl⟩ := arrival_eq_some harr
          obtain ⟨rfl, rfl, rfl⟩ := ApiCall.onReceive.inj hcall'
          obtain ⟨hf, hm⟩ := (hheard src data now rfl).accepted hacc ht
          rw [harr] at hlast
          dsimp only at hlast
          show Acks c₀ ⟨(onReceive radio w.node src data now).2.node,
            w.history ++ (onReceive radio w.node src data now).2.log⟩
          rw [hacc.onReceive_eq, if_neg (by rw [ht]; decide), if_pos (by simpa using ht)]
          refine h.arrive hcached hon radio src now hacc.at_channel
            (hsends.solo.reliable hacc.at_channel) hf hm fun q hq => ?_
          rw [hq] at hlast
          exact hlast
  | _ => exact absurd hcall id

theorem acks_init {node node' : Node} {cfg : Config} (h : init node cfg = (.ok, node')) :
    Acks cfg.channelId ⟨node', []⟩ := by
  refine ⟨fun channel hch hw => ?_, fun frame hf => absurd hf (by simp [sentFrames])⟩
  rw [(init_reliableAt h hch).2.1] at hw
  exact absurd hw (by simp [reliableInit, ReliableCtx.zero])

/-! ## Both nodes -/

/-- **The invariant of the pair.** -/
structure AckInv (c₀ : U8) (w : Pair) : Prop where
  pair : PairInv c₀ w
  onMessage : ∀ x, (w.side x).node.onMessage = true
  acks : ∀ x, Acks c₀ (w.side x)

/-- An allowed step that hands over the last of what it delivers. -/
def AllowedLast (w : Pair) (a : PairStep) : Prop :=
  Allowed w a ∧ DeliversLast (w.side a.side).node a.act.call

instance (w : Pair) (a : PairStep) : Decidable (AllowedLast w a) :=
  inferInstanceAs (Decidable (_ ∧ _))

theorem ackInv_step {c₀ : U8} (w : Pair) (a : PairStep) (h : AckInv c₀ w)
    (hallow : AllowedLast w a) : AckInv c₀ (w.step a) := by
  obtain ⟨hallow, hlast⟩ := hallow
  have hself := w.step_self a
  have hother := w.step_other a
  refine ⟨pairInv_step w a h.pair hallow, fun x => ?_, fun x => ?_⟩ <;>
    rcases x.eq_or_other a.side with rfl | rfl
  · rw [hself, (sameConfig_step _ a.act).onMessage]
    exact h.onMessage _
  · rw [hother]
    exact h.onMessage _
  · rw [hself]
    refine acks_step (h.acks _) (h.pair.sends _) (h.pair.receives _).cached (h.onMessage _)
      hallow.1 ?_ hlast
    intro src data now hdata
    have hheard := hallow.2
    rw [hdata] at hheard
    exact (h.pair.sends _).frames data hheard
  · rw [hother]
    exact h.acks _

/-- Processing a frame takes the packet `s` out of those in flight on the channel `c`. -/
def Retires (node : Node) (act : ApiStep) (c : U8) (s : U16) : Prop :=
  match act.call with
  | .onReceive src data now =>
      match node.reliableAt c, (onReceive act.radio node src data now).2.node.reliableAt c with
      | some channel, some channel' =>
          pendingSeqs channel.reliable = s ::ₘ pendingSeqs channel'.reliable
      | _, _ => False
  | _ => False

instance (node : Node) (act : ApiStep) (c : U8) (s : U16) : Decidable (Retires node act c s) := by
  unfold Retires
  exact match act.call with
    | .onReceive src data now => by
        dsimp only
        exact match node.reliableAt c,
            (onReceive act.radio node src data now).2.node.reliableAt c with
          | some _, some _ => inferInstance
          | none, _ | some _, none => instDecidableFalse
    | .openChannel .. | .sendReliable .. | .sendUnreliable .. | .sendPriority .. | .poll _ =>
        instDecidableFalse

/-- **Only an ACK that names a packet retires it.** -/
theorem retires_acked {node : Node} {act : ApiStep} {c : U8} {s : U16}
    (h : Retires node act c s) :
    ∃ src data now header channel, act.call = .onReceive src data now
      ∧ Accepts node src data header channel ∧ header.type = typeAck ∧ header.ackId = s := by
  unfold Retires at h
  split at h
  case h_2 => exact absurd h id
  rename_i src data now hcall
  split at h
  case h_2 => exact absurd h id
  rename_i channel channel' hch hch'
  -- a packet was retired, so the packets in flight are not what they were
  have hsame : pendingSeqs channel'.reliable ≠ pendingSeqs channel.reliable := by
    intro heq
    have hcard := congrArg Multiset.card h
    rw [heq, Multiset.card_cons] at hcard
    omega
  refine ⟨src, data, now, ?_⟩
  rcases onReceive_tx act.radio node src data now with ⟨hq, _⟩ |
    ⟨header, b, b', hacc, ht, hctx, hrel, _⟩
  · -- the transmit side was left alone
    obtain ⟨b, hb, _, hpend⟩ := hq.after hch
    obtain rfl := Option.some.inj (hch'.symm.trans hb)
    exact absurd hpend hsame
  · refine ⟨header, b, hcall, hacc, ht, ?_⟩
    rw [hrel] at hch'
    by_cases hc : c = header.channelId
    · rw [hc, Function.update_self] at hch'
      obtain rfl := Option.some.inj hch'
      obtain rfl := Option.some.inj (hch.symm.trans (hc ▸ hacc.at_channel))
      rw [hctx] at h hsame
      rcases reliableOnAck_cases channel.reliable header.ackId now with ⟨_, heq⟩ |
        ⟨ctx', heq, _, hks⟩ <;> rw [heq] at h hsame
      · -- the ACK named no packet in flight
        exact absurd rfl hsame
      · exact (Multiset.cons_inj_left _).mp (hks.symm.trans h)
    · -- the ACK is for another channel
      rw [Function.update_of_ne hc, hch] at hch'
      obtain rfl := Option.some.inj hch'
      exact absurd rfl hsame

/-- What the step retires, the peer has handed over. -/
def AckedDelivered (w : Pair) (a : PairStep) : Prop :=
  ∀ c s, Retires (w.side a.side).node a.act c s →
    s ∈ deliveredIds (w.side a.side.other).history

theorem ackInv_acked {c₀ : U8} (w : Pair) (a : PairStep) (h : AckInv c₀ w)
    (hallow : AllowedLast w a) : AckedDelivered w a := by
  intro c s hs
  obtain ⟨src, data, now, header, channel, hcall, hacc, ht, rfl⟩ := retires_acked hs
  have hheard := hallow.1.2
  rw [hcall] at hheard
  exact ((h.acks _).frames data hheard).accepted hacc ht

/-- **Acknowledged implies delivered**, in every run in which each arrival finds room for what it
delivers and a cached payload for the last of it. -/
theorem acked_delivered {node₁ node₂ left right : Node} {cfg₁ cfg₂ : Config}
    (hleft : init node₁ cfg₁ = (.ok, left)) (hright : init node₂ cfg₂ = (.ok, right))
    (hm₁ : cfg₁.mode = modeReliable) (hm₂ : cfg₂.mode = modeReliable)
    (hc : cfg₁.channelId = cfg₂.channelId) (hon₁ : cfg₁.onMessage = true)
    (hon₂ : cfg₂.onMessage = true) (as : List PairStep)
    (hrun : Along Pair.step AllowedLast (Pair.start left right) as) :
    Along Pair.step AckedDelivered (Pair.start left right) as := by
  refine along_of_invariant ackInv_step ackInv_acked (I := AckInv cfg₁.channelId)
    ⟨pairInv_init hleft hright hm₁ hm₂ hc, fun x => ?_, fun x => ?_⟩ hrun <;> cases x
  · obtain ⟨_, _, rfl, _⟩ := init_ok hleft
    exact hon₁
  · obtain ⟨_, _, rfl, _⟩ := init_ok hright
    exact hon₂
  · exact acks_init hleft
  · rw [hc]
    exact acks_init hright

/-- Two nodes with each other as peer. -/
def leftConfig : Config := { listenConfig with peerMac := Vector.replicate 6 2#8 }
def rightConfig : Config := { listenConfig with peerMac := Vector.replicate 6 1#8 }
def leftNode : Node := (init Node.zero leftConfig).2
def rightNode : Node := (init Node.zero rightConfig).2
def peersStart : Pair := Pair.start leftNode rightNode

/-- A packet of one byte is sent to the right, and arrives there; its ACK arrives on the left. -/
def packetSent (q : U8) : PairStep := ⟨.left, Radio.up, .sendReliable 1#8 [q] 0#32⟩
def packetArrives (q : U8) : PairStep := ⟨.right, Radio.up, .onReceive rightNode.peerMac
  [0x11#8, 0x10#8, 0#8, q, 0#8, 0#8, 1#8, 0#8, 1#8, q] 0#32⟩
def ackArrives (q : U8) : PairStep := ⟨.left, Radio.up, .onReceive leftNode.peerMac
  [0x11#8, 0x20#8, 0#8, 0#8, 0#8, q, 1#8, 0#8, 0#8] 0#32⟩

def oneSent : Pair := peersStart.step (packetSent 0#8)
def oneHanded : Pair := oneSent.step (packetArrives 0#8)

theorem acked_delivered_first : Retires oneHanded.left.node (ackArrives 0#8).act 1#8 0#16
    ∧ 0#16 ∈ deliveredIds oneHanded.right.history := by
  have hrun : Along Pair.step AllowedLast peersStart
      [packetSent 0#8, packetArrives 0#8, ackArrives 0#8] :=
    Along.cons (show AllowedLast peersStart (packetSent 0#8) by decide +kernel) <|
      Along.cons (show AllowedLast oneSent (packetArrives 0#8) by decide +kernel) <|
      Along.cons (show AllowedLast oneHanded (ackArrives 0#8) by decide +kernel) trivial
  have hleft : init Node.zero leftConfig = (.ok, leftNode) := Prod.ext (by decide +kernel) rfl
  have hright : init Node.zero rightConfig = (.ok, rightNode) := Prod.ext (by decide +kernel) rfl
  have h := acked_delivered hleft hright rfl rfl rfl rfl rfl _ hrun
  have hretires : Retires oneHanded.left.node (ackArrives 0#8).act 1#8 0#16 := by decide +kernel
  have hacked : AckedDelivered oneHanded (ackArrives 0#8) := h.2.2.1
  exact ⟨hretires, hacked 1#8 0#16 hretires⟩

/-- Nine packets are sent; eight arrive and fill the receive queue. The ninth arrives twice. -/
def nineSends : List PairStep := (List.range 9).map fun q => packetSent (BitVec.ofNat 8 q)
def firstEight : List PairStep := (List.range 8).map fun q => packetArrives (BitVec.ofNat 8 q)
def ninthTwice : List PairStep := [packetArrives 8#8, packetArrives 8#8]

def nineSent : Pair := run Pair.step peersStart nineSends
def eightHanded : Pair := run Pair.step nineSent firstEight
def ninthAnswered : Pair := run Pair.step eightHanded ninthTwice

/-- **The ninth packet is acknowledged, and never handed over.** -/
theorem not_acked_delivered :
    ¬ ∀ (node₁ node₂ left right : Node) (cfg₁ cfg₂ : Config),
      init node₁ cfg₁ = (.ok, left) → init node₂ cfg₂ = (.ok, right) →
      cfg₁.mode = modeReliable → cfg₂.mode = modeReliable →
      cfg₁.channelId = cfg₂.channelId → cfg₁.onMessage = true → cfg₂.onMessage = true →
      ∀ as : List PairStep, (∀ a ∈ as, a.act.radio = Radio.up) →
        Along Pair.step Allowed (Pair.start left right) as →
        (∀ x, (assignedPackets
          ((run Pair.step (Pair.start left right) as).side x).history).length < 32768) →
        Along Pair.step AckedDelivered (Pair.start left right) as := by
  intro h
  -- the run, evaluated in four stretches
  have hrun : Along Pair.step Allowed peersStart
      (nineSends ++ (firstEight ++ (ninthTwice ++ [ackArrives 8#8]))) := by
    refine along_append.mpr ⟨by decide +kernel, along_append.mpr
      ⟨show Along Pair.step Allowed nineSent firstEight by decide +kernel, along_append.mpr
        ⟨show Along Pair.step Allowed eightHanded ninthTwice by decide +kernel, ?_⟩⟩⟩
    show Along Pair.step Allowed ninthAnswered [ackArrives 8#8]
    decide +kernel
  have hup : ∀ a ∈ nineSends ++ (firstEight ++ (ninthTwice ++ [ackArrives 8#8])),
      a.act.radio = Radio.up := by
    intro a ha
    simp only [nineSends, firstEight, ninthTwice, List.mem_append, List.mem_map,
      List.mem_cons, List.not_mem_nil, or_false] at ha
    rcases ha with ⟨_, _, rfl⟩ | ⟨_, _, rfl⟩ | (rfl | rfl) | rfl <;> rfl
  have hfew : ∀ x, (assignedPackets ((run Pair.step peersStart
      (nineSends ++ (firstEight ++ (ninthTwice ++ [ackArrives 8#8])))).side x).history).length
        < 32768 := by
    rw [run_append, run_append, run_append]
    show ∀ x, (assignedPackets
      ((run Pair.step ninthAnswered [ackArrives 8#8]).side x).history).length < 32768
    intro x
    cases x <;> decide +kernel
  have hall := h Node.zero Node.zero leftNode rightNode leftConfig rightConfig
    (Prod.ext (by decide +kernel) rfl) (Prod.ext (by decide +kernel) rfl) rfl rfl rfl rfl rfl _
    hup hrun hfew
  rw [along_append, along_append, along_append] at hall
  have hack : AckedDelivered ninthAnswered (ackArrives 8#8) := hall.2.2.2.1
  have hmem := hack 1#8 8#16 (by decide +kernel)
  have hids : deliveredIds ninthAnswered.right.history
      = (List.range 8).map (BitVec.ofNat 16) := by decide +kernel
  rw [show (ninthAnswered.side (ackArrives 8#8).side.other).history = ninthAnswered.right.history
    from rfl, hids] at hmem
  exact absurd hmem (by decide)

end Relinow
