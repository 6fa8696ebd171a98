import Relinow.Proof.LinkEnds

/-!
# Every call moves the ends

Each call on a node is a few moves of the end that it shows on a channel: a send for
each packet, one arrival for a frame, one poll for a poll, or nothing. The end
delivers and gives up what the engine of the channel does in the call.
-/

namespace Relinow

open SlotTable Runs

/-! ## What a frame shows -/

section FrameOf

variable {frame payload : List U8} {header : Header} {c : U8}

/-- What is read from a frame is what it was made of. -/
theorem FrameOf.packet_eq (h : FrameOf frame header payload) {m : U8} {p : U16 × List U8}
    (hp : packetOn m c frame = some p) :
    header.mode = m ∧ header.channelId = c ∧ header.type = typeData
      ∧ p = (header.seqId, payload) := by
  unfold packetOn readOn at hp
  split at hp
  · exact absurd hp (by simp)
  · rename_i header' hdec
    obtain ⟨rfl, hpay⟩ := h.decode hdec
    split at hp
    · rename_i hall
      rw [← Option.some.inj hp, hpay]
      exact ⟨hall.1, hall.2.1, hall.2.2, rfl⟩
    · exact absurd hp (by simp)

theorem FrameOf.ack_eq (h : FrameOf frame header payload) {a : U16} (ha : ackOn c frame = some a) :
    header.mode = modeReliable ∧ header.channelId = c ∧ header.type = typeAck
      ∧ a = header.ackId := by
  unfold ackOn at ha
  split at ha
  · exact absurd ha (by simp)
  · rename_i header' hdec
    obtain ⟨rfl, -⟩ := h.decode hdec
    split at ha
    · rename_i hall
      rw [← Option.some.inj ha]
      exact ⟨hall.1, hall.2.1, hall.2.2, rfl⟩
    · exact absurd ha (by simp)

/-- A frame of another mode or channel shows nothing of the channel `c`. -/
theorem FrameOf.silentOn (h : FrameOf frame header payload)
    (hne : ¬ (header.mode = modeReliable ∧ header.channelId = c)) :
    packetOn modeReliable c frame = none ∧ ackOn c frame = none := by
  refine ⟨Option.eq_none_iff_forall_ne_some.mpr fun p hp => ?_,
    Option.eq_none_iff_forall_ne_some.mpr fun a ha => ?_⟩
  · obtain ⟨hm, hc, -⟩ := h.packet_eq hp
    exact hne ⟨hm, hc⟩
  · obtain ⟨hm, hc, -⟩ := h.ack_eq ha
    exact hne ⟨hm, hc⟩

/-- A frame of the channel shows its id, if it is DATA, and the id it acknowledges, if it is an
ACK. -/
theorem FrameOf.shows (h : FrameOf frame header payload) (reports : Bool) (dst : Mac)
    {data acks : List U16} (hdata : header.type = typeData → header.seqId ∈ data)
    (hacks : header.type = typeAck → header.ackId ∈ acks) :
    LogShows c reports [.sent dst frame] [] data acks [] [] := by
  refine ⟨rfl, ?_, ?_, List.nil_sublist _, fun _ => List.nil_sublist _⟩
  · rw [show sentOn modeReliable c [.sent dst frame] = [frame].filterMap (packetOn modeReliable c)
      from rfl]
    cases hp : packetOn modeReliable c frame with
    | none =>
        rw [List.filterMap_cons_none hp]
        exact List.nil_sublist _
    | some p =>
        obtain ⟨-, -, ht, rfl⟩ := h.packet_eq hp
        rw [List.filterMap_cons_some hp]
        exact List.singleton_sublist.mpr (hdata ht)
  · rw [show acksOn c [.sent dst frame] = [frame].filterMap (ackOn c) from rfl]
    cases ha : ackOn c frame with
    | none =>
        rw [List.filterMap_cons_none ha]
        exact List.nil_sublist _
    | some a =>
        obtain ⟨-, -, ht, rfl⟩ := h.ack_eq ha
        rw [List.filterMap_cons_some ha]
        exact List.singleton_sublist.mpr (hacks ht)

end FrameOf

theorem FrameOf.dataShows {frame payload : List U8} {c flags : U8} {q : U16}
    (h : FrameOf frame (dataHeader c flags q payload) payload) (reports : Bool) (dst : Mac) :
    LogShows c reports [.sent dst frame] [] [q] [] [] [] := by
  refine h.shows reports dst (fun _ => List.mem_singleton_self q) fun ht => ?_
  change typeData = typeAck at ht
  exact absurd ht (by decide)

theorem FrameOf.ackShows {frame : List U8} {c : U8} {a : U16}
    (h : FrameOf frame (ackHeader c a) []) (reports : Bool) (dst : Mac) :
    LogShows c reports [.sent dst frame] [] [] [a] [] [] := by
  refine h.shows reports dst (fun ht => ?_) fun _ => List.mem_singleton_self a
  change typeAck = typeData at ht
  exact absurd ht (by decide)

theorem Event.Background.silentOn {node : Node} {e : Event} (h : e.Background node) {c : U8}
    (hc : c ≠ heartbeatChannel) : e.SilentOn c := by
  cases e with
  | sent dst frame =>
      obtain ⟨header, payload, hframe, hout⟩ := h
      refine hframe.silentOn fun hall => ?_
      rcases hout with hm | hh
      · exact hm hall.1
      · exact hc (hall.2.symm.trans hh)
  | message site src c' q payload =>
      obtain ⟨rfl | rfl, _⟩ := h
      · exact fun hs => absurd hs (by decide)
      · exact fun hs => absurd hs (by decide)
  | assigned c' q flags payload => exact absurd h id
  | _ => trivial

theorem raiseTxEvent_log (k : Call) (event : TxEvent) (q : U16) :
    (raiseTxEvent k event q).log
      = k.log ++ if k.node.onTxEvent then [.txEvent event q] else [] := by
  unfold raiseTxEvent
  split
  · rfl
  · rw [List.append_nil]

theorem txEvent_silentOn {c : U8} {reports : Bool} {event : TxEvent} {q : U16} :
    ∀ e ∈ if reports then [Event.txEvent event q] else [], e.SilentOn c := by
  intro e he
  rw [List.mem_ite_nil_right, List.mem_singleton] at he
  rw [he.2]
  trivial

/-! ## The engine of a channel -/

/-- What one channel's engine becomes changes no other. -/
theorem engine_update {node node' : Node} {c₁ : U8} {channel' : ChannelState}
    (h : node'.reliableAt = Function.update node.reliableAt c₁ (some channel')) (c : U8) :
    node'.engine c = if c = c₁ then channel'.reliable else node.engine c := by
  unfold Node.engine
  rw [h]
  by_cases hc : c = c₁
  · rw [hc, Function.update_self, if_pos rfl, Option.elim_some]
  · rw [Function.update_of_ne hc, if_neg hc]

theorem engine_congr {node node' : Node} (h : node'.reliableAt = node.reliableAt) (c : U8) :
    node'.engine c = node.engine c := by
  unfold Node.engine
  rw [h]

/-- A packet on its way is in the engine, whatever becomes of it afterwards. -/
theorem transmitNew_state (radio : Radio) (k : Call) (c flags : U8) (track : Bool)
    (payload : List U8) (now : U32) :
    (transmitNew radio k c flags track payload now).2.node.state
      = (stateReliableSend k.node.state k.node.peerIndex c now).st := by
  unfold transmitNew
  dsimp only
  split
  · rfl
  · split
    · rfl
    · rw [sendNew_node]
      split
      · show (fragmentTxTrack _ _).state = _
        rw [fragmentTxTrack_frame]
        rfl
      · rfl

theorem reliableSend_act {channel : ChannelState} (hm : channel.mode = modeReliable) (now : U32) :
    ((ChannelOp.reliableSend now).act channel).st.reliable
      = (reliableSend channel.reliable now).st := by
  have hact : (ChannelOp.reliableSend now).act channel = _ := inMode_same hm _ _
  rw [hact]
  dsimp only
  rcases reliableSend_cases channel.reliable now with ⟨heq, _⟩ | ⟨ctx', heq, _, _⟩ <;> rw [heq]
  · rw [if_pos (by simp)]
  · rw [if_neg (by simp)]
    obtain ⟨queue, hpush⟩ := pushTx_eq ((channel.withEngine ctx').markInflight
      channel.reliable.nextTxSeq) channel.reliable.nextTxSeq
    dsimp only
    rw [hpush]
    rfl

/-- **A packet takes its id from the engine of its channel.** -/
theorem transmitNew_engine (radio : Radio) {k : Call} {c flags : U8} {channel : ChannelState}
    (hch : k.node.reliableAt c = some channel) (track : Bool) (payload : List U8) (now : U32)
    (hflags : flags.toNat < 16) :
    (transmitNew radio k c flags track payload now).2.node.engine c
      = (reliableSend channel.reliable now).st := by
  obtain ⟨hat, hm⟩ := Node.reliableAt_channelAt hch
  have hpeer := (transmitNew_sameConfig radio k c flags track payload now hflags).peerIndex
  have hrun := congrFun (channelAt_run k.node.state k.node.peerIndex c (.reliableSend now)) c
  rw [Function.update_self, hat, Option.map_some] at hrun
  have hat' : (transmitNew radio k c flags track payload now).2.node.reliableAt c
      = some ((ChannelOp.reliableSend now).act channel).st := by
    refine Node.reliableAt_eq_some.mpr ⟨?_, ((ChannelOp.act_name channel _).mode).trans hm⟩
    unfold Node.channelAt
    rw [hpeer, transmitNew_state]
    exact hrun
  rw [Node.engine_at hat', reliableSend_act hm]

/-! ## Sending -/

/-- The node, in a call that sends on `c₁`, is one end of the link after some more sends. -/
def AfterSends (c c₁ : U8) (history : List Event) (e : LinkEnd) (k : Call) : Prop :=
  ∃ ms, (∀ m ∈ ms, c₁ = c ∧ ∃ now, m = EndMove.send now)
    ∧ Shows c k.node (history ++ k.log) (run LinkEnd.step e ms)

theorem AfterSends.start {c c₁ : U8} {node : Node} {history : List Event} {e : LinkEnd}
    (h : Shows c node history e) : AfterSends c c₁ history e (Call.start node) :=
  ⟨[], fun m hm => absurd hm (by simp), by rw [Call.start, List.append_nil]; exact h⟩

theorem AfterSends.setNode {c c₁ : U8} {history : List Event} {e : LinkEnd} {k : Call}
    (h : AfterSends c c₁ history e k) {node : Node} (hat : node.reliableAt = k.node.reliableAt)
    (htx : node.onTxEvent = k.node.onTxEvent) : AfterSends c c₁ history e (k.setNode node) := by
  obtain ⟨ms, hms, hk⟩ := h
  exact ⟨ms, hms, hk.congr (engine_congr hat c) htx⟩

/-- **A new packet shows its id**, if it reaches the air. -/
theorem transmitted_shows {c flags : U8} {q : U16} {payload : List U8} {log : List Event}
    {mac : Mac} {reports reports' : Bool} {out : Transmit}
    (hout : (∃ e, out = .radio e ∧ e ≠ .ok ∧ log = [])
      ∨ (out = .done ∧ ∃ frame, FrameOf frame (dataHeader c flags q payload) payload
        ∧ log = .sent mac frame :: if reports' then [.txEvent .new q] else [])) :
    LogShows c reports (.assigned c q flags payload :: log) [q] [q] [] [] [] := by
  have hid : LogShows c reports [.assigned c q flags payload] [q] [] [] [] [] := by
    refine ⟨?_, List.nil_sublist _, List.nil_sublist _, List.nil_sublist _,
      fun _ => List.nil_sublist _⟩
    unfold assignedOn
    simp
  rcases hout with ⟨_, _, _, rfl⟩ | ⟨_, frame, hframe, rfl⟩
  · exact ⟨hid.assigned, hid.data.trans (List.nil_sublist _), hid.acks, hid.handed, hid.failed⟩
  · exact hid.append ((hframe.dataShows reports mac).append_silent txEvent_silentOn)

/-- The log of a packet of another channel. -/
theorem transmitted_silent {c c₁ flags : U8} (hne : c₁ ≠ c) {q : U16} {payload : List U8}
    {log : List Event} {mac : Mac} {reports : Bool} {out : Transmit}
    (hout : (∃ e, out = .radio e ∧ e ≠ .ok ∧ log = [])
      ∨ (out = .done ∧ ∃ frame, FrameOf frame (dataHeader c₁ flags q payload) payload
        ∧ log = .sent mac frame :: if reports then [.txEvent .new q] else [])) :
    ∀ e ∈ Event.assigned c₁ q flags payload :: log, e.SilentOn c := by
  intro e he
  rcases List.mem_cons.mp he with rfl | he
  · exact hne
  · rcases hout with ⟨_, _, _, rfl⟩ | ⟨_, frame, hframe, rfl⟩
    · exact absurd he (by simp)
    · rcases List.mem_cons.mp he with rfl | he
      · exact hframe.silentOn fun hall => hne hall.2
      · exact txEvent_silentOn e he

/-- **One packet on its way** is one send of its channel. -/
theorem AfterSends.transmit {c c₁ : U8} {history : List Event} {e : LinkEnd} {k : Call}
    (h : AfterSends c c₁ history e k) (radio : Radio) {flags : U8} (track : Bool)
    (payload : List U8) (now : U32) (hflags : flags.toNat < 16) :
    AfterSends c c₁ history e (transmitNew radio k c₁ flags track payload now).2 := by
  obtain ⟨ms, hms, hk⟩ := h
  have htx := (transmitNew_sameConfig radio k c₁ flags track payload now hflags).onTxEvent
  rcases transmitNew_cases radio k c₁ flags track payload now hflags with ⟨heq, _⟩ |
    ⟨channel, channel', state', hch, _, hks, hrel, _, hcases⟩
  · rw [heq]
    exact ⟨ms, hms, hk⟩
  · have hengine := transmitNew_engine radio hch track payload now hflags
    -- the node after the packet, and what the packet added to the log
    obtain ⟨out, rest, hlog, hat, hout⟩ : ∃ out rest,
        (transmitNew radio k c₁ flags track payload now).2.log
          = k.log ++ .assigned c₁ channel.reliable.nextTxSeq flags payload :: rest
        ∧ (transmitNew radio k c₁ flags track payload now).2.node.reliableAt
          = Function.update k.node.reliableAt c₁ (some channel')
        ∧ ((∃ e, out = Transmit.radio e ∧ e ≠ .ok ∧ rest = [])
          ∨ (out = .done ∧ ∃ frame, FrameOf frame
              (dataHeader c₁ flags channel.reliable.nextTxSeq payload) payload
            ∧ rest = .sent k.node.peerMac frame ::
              if k.node.onTxEvent then [.txEvent .new channel.reliable.nextTxSeq] else [])) := by
      rcases hcases with ⟨_, heq⟩ | ⟨i, node', attempts, out, rest, _, hnode, heq, hout, _⟩ <;>
        rw [heq]
      · exact ⟨.radio .noMem, [], rfl, hrel, Or.inl ⟨_, rfl, by simp, rfl⟩⟩
      · refine ⟨out, rest, rfl, ?_, hout⟩
        dsimp only
        rw [trackIf_frame, hnode]
        exact hrel
    rw [AfterSends, hlog, ← List.append_assoc]
    by_cases hc : c = c₁
    · subst hc
      have hctx : channel.reliable = (run LinkEnd.step e ms).engine :=
        (Node.engine_at hch).symm.trans hk.engine
      rw [hctx] at hengine hout ⊢
      refine ⟨ms ++ [.send now], fun m hm => ?_, ?_⟩
      · rcases List.mem_append.mp hm with hm | hm
        · exact hms m hm
        · exact ⟨rfl, now, List.mem_singleton.mp hm⟩
      · rw [run_append]
        refine hk.send ?_ hengine htx (transmitted_shows hout)
        -- the engine has one id more in flight than before, so it did not refuse
        rcases reliableSend_cases (run LinkEnd.step e ms).engine now with ⟨hno, _⟩ |
          ⟨ctx', hyes, _⟩
        · rw [hno, engine_update hat, if_pos rfl] at hengine
          rw [hengine, hctx] at hks
          exact absurd (congrArg Multiset.card hks) (by simp)
        · rw [hyes]
    · refine ⟨ms, hms, hk.silent ?_ htx (transmitted_silent (fun heq => hc heq.symm) hout)⟩
      rw [engine_update hat, if_neg hc]

/-- **A send** is a number of sends of its channel: one, one for each fragment, or none. -/
theorem sendReliable_shows {c : U8} {node : Node} {history : List Event} {e : LinkEnd}
    (h : Shows c node history e) (radio : Radio) (c₁ : U8) (payload : List U8) (now : U32) :
    AfterSends c c₁ history e (sendReliable radio node c₁ payload now).2 := by
  have hstart : AfterSends c c₁ history e (Call.start node) := AfterSends.start h
  refine sendReliable_keeps (P := AfterSends c c₁ history e) hstart (hstart.setNode rfl rfl)
    (fun k hk => hk.setNode ?_ ?_) fun k flags track part hk hflags _ => ?_
  · unfold unlockEmpty
    split <;> rfl
  · unfold unlockEmpty
    split <;> rfl
  · exact hk.transmit radio track part now hflags

/-! ## Receiving -/

/-- The message, if any, that an id is handed over as. -/
theorem deliverOne_handed (src : Mac) (c : U8) (now : U32) (k : Call) (q : U16) :
    ∃ messages, (deliverOne src c now k q).log = k.log ++ messages
      ∧ (∀ e ∈ messages, ∃ site q payload, e = .message site src c q payload)
      ∧ ((deliveredOn .plain c messages).map Prod.fst).Sublist [q] := by
  rcases deliverOne_cases src c now k q with ⟨_, heq⟩ |
    ⟨i, _, _, hq, ⟨_, heq⟩ | ⟨_, heq⟩⟩ <;> rw [heq]
  · exact ⟨[], (List.append_nil _).symm, fun e he => absurd he (by simp), List.nil_sublist _⟩
  · -- a fragment can only complete a message of several
    obtain ⟨rest, hlog, hrest⟩ := deliverFragment_log k src c now k.node.rxCache[i]
    refine ⟨rest, hlog, fun e he => ⟨_, hrest e he⟩, ?_⟩
    rw [show deliveredOn .plain c rest = [] from List.filterMap_eq_nil_iff.mpr fun e he => ?_]
    · exact List.nil_sublist _
    · obtain ⟨q', payload, rfl⟩ := hrest e he
      exact if_neg fun hs => absurd hs.1 (by decide)
  · refine ⟨_, deliverPlain_log k src c k.node.rxCache[i], fun e he => ?_, ?_⟩
    · rw [List.mem_ite_nil_right, List.mem_singleton] at he
      exact ⟨_, _, _, he.2⟩
    · rw [hq]
      split
      · rw [deliveredOn_message]
        exact List.Sublist.refl _
      · exact List.nil_sublist _

/-- **The delivery loop hands over in the order the engine delivers**, each id at most once. -/
theorem deliverAll_handed (src : Mac) (c : U8) (now : U32) (ds : List U16) :
    ∀ k : Call, ∃ messages, (ds.foldl (deliverOne src c now) k).log = k.log ++ messages
      ∧ (∀ e ∈ messages, ∃ site q payload, e = .message site src c q payload)
      ∧ ((deliveredOn .plain c messages).map Prod.fst).Sublist ds := by
  induction ds with
  | nil => exact fun k => ⟨[], (List.append_nil _).symm, fun e he => absurd he (by simp),
      List.nil_sublist _⟩
  | cons d ds ih =>
      intro k
      obtain ⟨first, hfirst, hall, hsub⟩ := deliverOne_handed src c now k d
      obtain ⟨rest, hrest, hall', hsub'⟩ := ih (deliverOne src c now k d)
      refine ⟨first ++ rest, ?_, fun e he => ?_, ?_⟩
      · rw [List.foldl_cons, hrest, hfirst, List.append_assoc]
      · exact (List.mem_append.mp he).elim (hall e) (hall' e)
      · rw [deliveredOn_append, List.map_append]
        exact hsub.append hsub'

/-- Messages show what is handed over, and nothing else. -/
theorem messages_show {src : Mac} {c : U8} {messages : List Event} {ds : List U16} (reports : Bool)
    (hall : ∀ e ∈ messages, ∃ site q payload, e = .message site src c q payload)
    (hsub : ((deliveredOn .plain c messages).map Prod.fst).Sublist ds) :
    LogShows c reports messages [] [] [] ds [] := by
  have hframes : sentFrames messages = [] := by
    refine List.filterMap_eq_nil_iff.mpr fun e he => ?_
    obtain ⟨site, q, payload, rfl⟩ := hall e he
    rfl
  refine ⟨List.filterMap_eq_nil_iff.mpr fun e he => ?_, ?_, ?_, hsub, fun _ => List.nil_sublist _⟩
  · obtain ⟨site, q, payload, rfl⟩ := hall e he
    rfl
  · unfold sentOn
    rw [hframes]
    simp
  · unfold acksOn
    rw [hframes]
    simp

/-- What an end may do in a call: packets are those of the channel, and what arrives is what the
frame says. -/
def EndMove.Of (c : U8) : ApiCall → EndMove → Prop
  | .sendReliable c₁ _ _, .send _ => c₁ = c
  | .poll nowMs, .poll nowMs' => nowMs' = nowMs
  | .onReceive _ data _, .onData seqId => ∃ p, packetOn modeReliable c data = some p ∧ p.1 = seqId
  | .onReceive _ data _, .onAck ackId _ => ackOn c data = some ackId
  | _, _ => False

/-- A packet arrives. -/
def EndMove.isData : EndMove → Bool
  | .onData _ => true
  | _ => false

/-- The ids that the engine of the channel `c` delivers in a call: those in `delivered_seq`, when a
frame brings it a packet. -/
def Node.delivers (c : U8) (node : Node) (a : ApiStep) : List U16 :=
  match a.call with
  | .onReceive src data _ =>
      match node.accepted src data with
      | some (header, channel) =>
          if header.type = typeData ∧ header.channelId = c then
            (reliableOnData channel.reliable header.seqId).2.deliveredSeq
          else []
      | none => []
  | _ => []

/-- The ids that the engine of the channel `c` gives up in a call: the one that a poll is told has
failed. -/
def Node.givesUp (c : U8) (node : Node) (a : ApiStep) : List U16 :=
  match a.call with
  | .poll nowMs =>
      match pollReport a.radio node nowMs with
      | some (c', tx) => if c' = c ∧ tx.event = .failed then [tx.seqId] else []
      | none => []
  | _ => []

/-- **The moves that a call is**: at most one brings a packet, and the end delivers and gives up
what the engine of the channel does. -/
structure MovesBy (c : U8) (node : Node) (history : List Event) (e : LinkEnd) (a : ApiStep)
    (k : Call) (ms : List EndMove) : Prop where
  of : ∀ m ∈ ms, m.Of c a.call
  onePacket : ms.countP EndMove.isData ≤ 1
  delivered : (run LinkEnd.step e ms).delivered = e.delivered ++ node.delivers c a
  failed : (run LinkEnd.step e ms).failed = e.failed ++ node.givesUp c a
  shows : Shows c k.node (history ++ k.log) (run LinkEnd.step e ms)

/-- The call is a few moves of the end. -/
def Moves (c : U8) (node : Node) (history : List Event) (e : LinkEnd) (a : ApiStep) (k : Call) :
    Prop :=
  ∃ ms, MovesBy c node history e a k ms

section Moves

variable {c : U8} {node : Node} {history : List Event} {e : LinkEnd} {a : ApiStep} {k : Call}

theorem Moves.none (hd : node.delivers c a = []) (hf : node.givesUp c a = [])
    (h : Shows c k.node (history ++ k.log) e) : Moves c node history e a k := by
  refine ⟨[], fun m hm => absurd hm (by simp), Nat.zero_le 1, ?_, ?_, h⟩
  · rw [hd, List.append_nil]
    rfl
  · rw [hf, List.append_nil]
    rfl

theorem Moves.one {m : EndMove} (hm : m.Of c a.call)
    (hd : (e.step m).delivered = e.delivered ++ node.delivers c a)
    (hf : (e.step m).failed = e.failed ++ node.givesUp c a)
    (h : Shows c k.node (history ++ k.log) (e.step m)) : Moves c node history e a k :=
  ⟨[m], fun _ hm' => List.mem_singleton.mp hm' ▸ hm, List.countP_le_length, hd, hf, h⟩

end Moves

/-- Sends deliver nothing and give nothing up. -/
theorem sends_run {ms : List EndMove} (hms : ∀ m ∈ ms, ∃ now, m = .send now) (e : LinkEnd) :
    (run LinkEnd.step e ms).delivered = e.delivered
      ∧ (run LinkEnd.step e ms).failed = e.failed := by
  refine invariant (I := fun e' : LinkEnd => e'.delivered = e.delivered ∧ e'.failed = e.failed)
    (fun e' m hsame hm => ?_) ⟨rfl, rfl⟩ (Along.of_mem hms e)
  obtain ⟨now, rfl⟩ := hm
  show (e'.send now).delivered = e.delivered ∧ (e'.send now).failed = e.failed
  rcases e'.send_cases now with ⟨_, heq⟩ | ⟨_, _, _, heq⟩ <;> rw [heq] <;> exact hsame

/-- What the engine delivers of an accepted frame. -/
theorem Accepts.delivers {node : Node} {src : Mac} {data : List U8} {header : Header}
    {channel : ChannelState} (h : Accepts node src data header channel) (radio : Radio) (c : U8)
    (now : U32) :
    node.delivers c ⟨radio, .onReceive src data now⟩
      = if header.type = typeData ∧ header.channelId = c then
          (reliableOnData channel.reliable header.seqId).2.deliveredSeq
        else [] := by
  unfold Node.delivers
  dsimp only
  rw [h.accepted]

/-- A frame is a packet of a reliable channel, or the engines deliver nothing. -/
theorem delivers_cases (radio : Radio) (node : Node) (src : Mac) (data : List U8) (c : U8)
    (now : U32) :
    (∃ header channel, Accepts node src data header channel ∧ header.type = typeData)
      ∨ node.delivers c ⟨radio, .onReceive src data now⟩ = [] := by
  cases hacc : node.accepted src data with
  | none =>
      right
      unfold Node.delivers
      dsimp only
      rw [hacc]
  | some found =>
      obtain ⟨header, channel⟩ := found
      have h := accepted_eq_some hacc
      by_cases ht : header.type = typeData
      · exact Or.inl ⟨header, channel, h, ht⟩
      · right
        rw [h.delivers, if_neg fun hall => ht hall.1]

/-- A poll that reports nothing gives nothing up. -/
theorem givesUp_quiet {radio : Radio} {node : Node} {now : U32}
    (h : pollReport radio node now = none) (c : U8) :
    node.givesUp c ⟨radio, .poll now⟩ = [] := by
  unfold Node.givesUp
  dsimp only
  rw [h]

theorem givesUp_report {radio : Radio} {node : Node} {now : U32} {c' : U8} {tx : TxResult}
    (h : pollReport radio node now = some (c', tx)) (c : U8) :
    node.givesUp c ⟨radio, .poll now⟩
      = if c' = c ∧ tx.event = .failed then [tx.seqId] else [] := by
  unfold Node.givesUp
  dsimp only
  rw [h]

section Calls

variable {c : U8} {node : Node} {history : List Event} {e : LinkEnd}

/-- What a quiet call shows. -/
theorem QuietCall.shows {k : Call} (hq : QuietCall node k) (hc : c ≠ heartbeatChannel)
    (h : Shows c node history e) : Shows c k.node (history ++ k.log) e :=
  h.silent (engine_congr hq.reliableAt c) hq.sameConfig.onTxEvent
    fun x hx => (hq.log x hx).silentOn hc

theorem receiveAck_shows (h : Shows c node history e) (radio : Radio) {src : Mac}
    {data : List U8} {header : Header} {channel : ChannelState}
    (hacc : Accepts node src data header channel) (ht : header.type = typeAck)
    (hmax : node.maxPayload.toNat ≤ maxPayloadLimit) (now : U32) :
    Moves c node history e ⟨radio, .onReceive src data now⟩
      (receiveAck (Call.start node) header now).2 := by
  have hd : node.delivers c ⟨radio, .onReceive src data now⟩ = [] := by
    rw [hacc.delivers, if_neg fun hall => ?_]
    exact absurd (ht.symm.trans hall.1) (by decide)
  obtain ⟨channel', state', hfr, hrel, _, hrecv⟩ := receiveAck_spec now hacc.at_channel
  have hat : (receiveAck (Call.start node) header now).2.node.reliableAt
      = Function.update node.reliableAt header.channelId (some channel') := by
    rw [hrecv]
    show Relinow.reliableAt (fragmentTxOnAck _ _).state (fragmentTxOnAck _ _).peerIndex = _
    rw [fragmentTxOnAck_frame, txCacheRemove_frame]
    exact hrel
  have htx : (receiveAck (Call.start node) header now).2.node.onTxEvent = node.onTxEvent := by
    rw [hrecv]
    show (fragmentTxOnAck _ _).onTxEvent = _
    rw [fragmentTxOnAck_frame, txCacheRemove_frame]
  have hlog : ∀ x ∈ (receiveAck (Call.start node) header now).2.log, x.SilentOn c := by
    rw [hrecv]
    exact fun x hx => absurd hx (by simp [Call.start])
  by_cases hc : c = header.channelId
  · subst hc
    have hctx : channel.reliable = e.engine := (Node.engine_at hacc.at_channel).symm.trans h.engine
    refine .one (m := .onAck header.ackId now) ?_ ?_ (List.append_nil _).symm
      (h.onAck _ now ?_ htx hlog)
    · show ackOn header.channelId data = _
      rw [ackOn_decoded (decoded_limit hacc.decoded hmax), if_pos ⟨hacc.mode, rfl, ht⟩]
    · rw [hd, List.append_nil]
      rfl
    · rw [engine_update hat, if_pos rfl, hfr, ← hctx]
  · refine .none hd rfl (h.silent ?_ htx hlog)
    rw [engine_update hat, if_neg hc]

theorem receiveData_shows (h : Shows c node history e) (radio : Radio) {src : Mac}
    {data : List U8} {header : Header} {channel : ChannelState}
    (hacc : Accepts node src data header channel) (ht : header.type = typeData)
    (hmax : node.maxPayload.toNat ≤ maxPayloadLimit) (now : U32) :
    Moves c node history e ⟨radio, .onReceive src data now⟩
      (receiveData radio (Call.start node) src header (framePayload data) now).2 := by
  have htx := (onReceive_sameConfig radio node src data now).onTxEvent
  rw [hacc.onReceive_data ht] at htx
  obtain ⟨channel', state', hfr, hrel, _, hcases⟩ :=
    receiveData_spec radio src (framePayload data) now hacc.at_channel
  -- the node afterwards, and the answer and the messages of the call
  obtain ⟨hat, hsilent, hshows⟩ :
      (receiveData radio (Call.start node) src header (framePayload data) now).2.node.reliableAt
        = Function.update node.reliableAt header.channelId (some channel')
      ∧ (c ≠ header.channelId → ∀ x ∈ (receiveData radio (Call.start node) src header
          (framePayload data) now).2.log, x.SilentOn c)
      ∧ LogShows header.channelId node.onTxEvent (receiveData radio (Call.start node) src header
          (framePayload data) now).2.log [] []
          [(reliableOnData channel.reliable header.seqId).2.ackId]
          (reliableOnData channel.reliable header.seqId).2.deliveredSeq [] := by
    rcases hcases with ⟨_, heq⟩ | ⟨_, _, attempts, answer, hanswer, heq⟩ <;> rw [heq]
    · refine ⟨(arrived_reliableAt _ _ _ _).trans hrel,
        fun _ x hx => absurd hx (by simp [Call.start]), rfl, ?_, ?_, List.nil_sublist _,
        fun _ => List.nil_sublist _⟩
      · simp [Call.start, sentOn, sentFrames]
      · simp [Call.start, acksOn, sentFrames]
    · obtain ⟨messages, hlog, hall, hsub⟩ := deliverAll_handed src header.channelId now
        (deliverable channel.reliable header.seqId)
        ⟨node.arrived header (framePayload data) state', attempts, answer⟩
      have hover := HandsOver.all src header.channelId now
        (deliverable channel.reliable header.seqId)
        ⟨node.arrived header (framePayload data) state', attempts, answer⟩
      refine ⟨(hover.reliableAt.trans (arrived_reliableAt _ _ _ _)).trans hrel,
        fun hc x hx => ?_, ?_⟩
      · dsimp only at hx hlog
        rw [hlog] at hx
        rcases List.mem_append.mp hx with hx | hx
        · rcases hanswer with rfl | ⟨frame, rfl, hframe⟩
          · exact absurd hx (by simp)
          · rw [List.mem_singleton.mp hx]
            exact hframe.silentOn fun hboth => hc hboth.2.symm
        · obtain ⟨site, q, payload, rfl⟩ := hall x hx
          exact fun _ heq => hc heq.symm
      · dsimp only at hlog ⊢
        rw [hlog, reliableOnData_delivered]
        have hmessages := messages_show node.onTxEvent hall hsub
        rcases hanswer with rfl | ⟨frame, rfl, hframe⟩
        · exact ⟨hmessages.assigned, hmessages.data, hmessages.acks.trans (List.nil_sublist _),
            hmessages.handed, hmessages.failed⟩
        · exact (hframe.ackShows node.onTxEvent node.peerMac).append hmessages
  by_cases hc : c = header.channelId
  · subst hc
    have hctx : channel.reliable = e.engine := (Node.engine_at hacc.at_channel).symm.trans h.engine
    rw [hctx] at hshows
    refine .one (m := .onData header.seqId) ?_ ?_ (List.append_nil _).symm
      (h.onData _ ?_ htx hshows)
    · refine ⟨(header.seqId, framePayload data), ?_, rfl⟩
      rw [packetOn, readOn_decoded (decoded_limit hacc.decoded hmax),
        if_pos ⟨hacc.mode, rfl, ht⟩]
    · rw [hacc.delivers, if_pos ⟨ht, rfl⟩, hctx]
      rfl
    · rw [engine_update hat, if_pos rfl, hfr, ← hctx]
  · refine .none ?_ rfl (h.silent ?_ htx (hsilent hc))
    · rw [hacc.delivers, if_neg fun hall => hc hall.2.symm]
    · rw [engine_update hat, if_neg hc]

/-- **A frame** is one move of the end it is meant for. -/
theorem onReceive_shows (h : Shows c node history e) (hc : c ≠ heartbeatChannel)
    (hmax : node.maxPayload.toNat ≤ maxPayloadLimit) (radio : Radio) (src : Mac) (data : List U8)
    (now : U32) :
    Moves c node history e ⟨radio, .onReceive src data now⟩
      (onReceive radio node src data now).2 := by
  rcases onReceive_cases radio node src data now with
    ⟨header, channel, hacc, ⟨ht, heq⟩ | ⟨ht, heq⟩⟩ | hq
  · rw [heq]
    exact receiveAck_shows h radio hacc ht hmax now
  · rw [heq]
    exact receiveData_shows h radio hacc ht hmax now
  · rcases delivers_cases radio node src data c now with ⟨header, channel, hacc, ht⟩ | hd
    · rw [hacc.onReceive_data ht]
      exact receiveData_shows h radio hacc ht hmax now
    · exact .none hd rfl (hq.shows hc h)

/-! ## Polling -/

/-- **The report of a poll**, for the channel it is about: what is sent again has the id that the
engine asks for, and what is given up is reported. -/
theorem pollEvent_shows (radio : Radio) {k : Call} (hcached : k.node.CachesPackets)
    (hlog : ∀ x ∈ k.log, x.SilentOn c) (tx : TxResult) :
    Polled c k.node.onTxEvent (pollEvent radio k c tx).2.log tx := by
  have hraise : ∀ x ∈ (raiseTxEvent k tx.event tx.seqId).log, x.SilentOn c := by
    intro x hx
    rw [raiseTxEvent_log, List.mem_append] at hx
    exact hx.elim (hlog x) (txEvent_silentOn x)
  unfold Polled pollEvent
  obtain ⟨event, q⟩ := tx
  cases event with
  | none => exact LogShows.silent hraise
  | new => exact LogShows.silent hraise
  | failed =>
      have htx : (txCacheRemove k.node q).onTxEvent = k.node.onTxEvent := by
        rw [txCacheRemove_frame]
      dsimp only
      rw [raiseTxEvent_log]
      simp only [Call.setNode, htx]
      refine LogShows.silent_append hlog ?_
      have hsilent : LogShows c k.node.onTxEvent
          (if k.node.onTxEvent then [.txEvent .failed q] else []) [] [] [] [] [] :=
        LogShows.silent txEvent_silentOn
      refine ⟨hsilent.assigned, hsilent.data, hsilent.acks, hsilent.handed, fun hr => ?_⟩
      rw [if_pos hr]
      exact List.Sublist.refl [q]
  | retransmit =>
      dsimp only
      have hmore : ∀ {log : List Event}, (∀ x ∈ log, x.SilentOn c) →
          LogShows c k.node.onTxEvent log [] [q] [] [] [] := fun hl =>
        have hs : LogShows c k.node.onTxEvent _ [] [] [] [] [] := LogShows.silent hl
        ⟨hs.assigned, hs.data.trans (List.nil_sublist _), hs.acks, hs.handed, hs.failed⟩
      cases hfind : txCacheFind k.node q with
      | none => exact hmore hraise
      | some i =>
          obtain ⟨hu, hq⟩ := keyIdx_some TxCache.inUse TxCache.seqId hfind
          dsimp only
          rcases sendFrame_cases radio k modeReliable c typeData k.node.txCache[i].flags
            k.node.txCache[i].seqId 0#16 k.node.txCache[i].payload (hcached i hu).1.lt with
            ⟨er, attempts, hne, heq⟩ | ⟨frame, attempts, hframe, heq⟩ <;> rw [heq]
          · rw [if_pos hne]
            exact hmore hlog
          · rw [if_neg (by simp)]
            dsimp only
            rw [raiseTxEvent_log]
            dsimp only
            rw [List.append_assoc]
            rw [hq] at hframe
            exact LogShows.silent_append hlog
              ((hframe.dataShows k.node.onTxEvent k.node.peerMac).append_silent txEvent_silentOn)

/-- For the other channels it is silent. -/
theorem pollEvent_silent (radio : Radio) {k : Call} {c₁ : U8} (hne : c₁ ≠ c)
    (hcached : k.node.CachesPackets) (hlog : ∀ x ∈ k.log, x.SilentOn c) (tx : TxResult) :
    ∀ x ∈ (pollEvent radio k c₁ tx).2.log, x.SilentOn c := by
  have hraise : ∀ k' : Call, (∀ x ∈ k'.log, x.SilentOn c) →
      ∀ x ∈ (raiseTxEvent k' tx.event tx.seqId).log, x.SilentOn c := by
    intro k' hk' x hx
    rw [raiseTxEvent_log, List.mem_append] at hx
    exact hx.elim (hk' x) (txEvent_silentOn x)
  unfold pollEvent
  split
  · cases hfind : txCacheFind k.node tx.seqId with
    | none => exact hraise k hlog
    | some i =>
        obtain ⟨hu, _⟩ := keyIdx_some TxCache.inUse TxCache.seqId hfind
        dsimp only
        rcases sendFrame_cases radio k modeReliable c₁ typeData k.node.txCache[i].flags
          k.node.txCache[i].seqId 0#16 k.node.txCache[i].payload (hcached i hu).1.lt with
          ⟨er, attempts, he, heq⟩ | ⟨frame, attempts, hframe, heq⟩ <;> rw [heq]
        · rw [if_pos he]
          exact hlog
        · rw [if_neg (by simp)]
          refine hraise _ fun x hx => ?_
          rcases List.mem_append.mp hx with hx | hx
          · exact hlog x hx
          · rw [List.mem_singleton.mp hx]
            exact hframe.silentOn fun hall => hne hall.2
  · exact hraise _ hlog
  · exact hraise k hlog

/-- **A poll** is a poll of the channel that the scheduler picks. -/
theorem poll_shows (h : Shows c node history e) (hc : c ≠ heartbeatChannel)
    (hcached : node.CachesPackets) (radio : Radio) (now : U32) :
    Moves c node history e ⟨radio, .poll now⟩ (poll radio node now).2 := by
  obtain ⟨node₁, hnode₁, hcases⟩ := poll_cases radio node now
  have hconfig := pollReassembly_sameConfig node now
  have h₁ : Shows c node₁ history e := by
    rw [hnode₁]
    exact h.congr (engine_congr (reliableAt_pollReassembly node now) c) hconfig.onTxEvent
  have hcached₁ : node₁.CachesPackets := by
    rw [hnode₁]
    rcases pollReassembly_cases node now with hre | ⟨_, hre⟩ <;> rw [hre] <;> exact hcached
  rcases hcases with ⟨hreport, hq⟩ | ⟨k, c₁, channel, channel', i, state', hk, _, hch, _, hfr, hrel,
    _, hreport, heq⟩
  · exact .none rfl (givesUp_quiet hreport c) (hq.shows hc h₁)
  · have hkset : (k.setNode { k.node with state := state' }).node.CachesPackets := by
      show Node.CachesPackets { k.node with state := state' }
      rw [hk.node_eq]
      exact hcached₁
    have hklog : ∀ x ∈ (k.setNode { k.node with state := state' }).log, x.SilentOn c :=
      fun x hx => (hk.log x hx).silentOn hc
    have hktx : k.node.onTxEvent = node₁.onTxEvent := hk.sameConfig.onTxEvent
    -- the report leaves the engines as the scheduler left them
    have hat : (poll radio node now).2.node.reliableAt
        = Function.update node₁.reliableAt c₁ (some channel') := by
      have hset : ({ k.node with state := state' } : Node).reliableAt
          = Function.update node₁.reliableAt c₁ (some channel') := by
        show Relinow.reliableAt state' k.node.peerIndex = _
        rw [hk.sameConfig.peerIndex]
        exact hrel
      rw [heq, pollEvent_node]
      split
      · rw [txCacheRemove_frame]
        exact hset
      · exact hset
    have htx : (poll radio node now).2.node.onTxEvent = node₁.onTxEvent := by
      rw [hnode₁, hconfig.onTxEvent]
      exact (poll_sameConfig radio node now).onTxEvent
    by_cases hcc : c = c₁
    · subst hcc
      have hctx : channel.reliable = e.engine := (Node.engine_at hch).symm.trans h₁.engine
      have hshows := pollEvent_shows radio hkset hklog (reliablePoll channel.reliable now).2
      change Polled c k.node.onTxEvent _ _ at hshows
      rw [← heq, hktx, hctx] at hshows
      refine .one (m := .poll now) rfl ?_ ?_ (h₁.poll now ?_ htx hshows)
      · exact (e.poll_outcome now).1.trans (List.append_nil _).symm
      · rw [givesUp_report hreport, hctx]
        simp only [true_and]
        exact (e.poll_outcome now).2
      · rw [engine_update hat, if_pos rfl, hfr, ← hctx]
    · refine .none rfl ?_ (h₁.silent ?_ htx ?_)
      · rw [givesUp_report hreport, if_neg fun hall => hcc hall.1.symm]
      · rw [engine_update hat, if_neg hcc]
      · rw [heq]
        exact pollEvent_silent radio (fun heq' => hcc heq'.symm) hkset hklog _

theorem openChannel_shows (h : Shows c node history e) (c₁ mode priority : U8) :
    Shows c (openChannel node c₁ mode priority).2 history e := by
  obtain ⟨state', heq, hcases⟩ := openChannel_cases node c₁ mode priority
  have hat : (openChannel node c₁ mode priority).2.reliableAt
      = Relinow.reliableAt state' node.peerIndex := by
    rw [heq]
    rfl
  have hengine : (openChannel node c₁ mode priority).2.engine c = node.engine c := by
    rcases hcases with hsame | ⟨channel, hch, hprio⟩ | ⟨channel, hno, hfresh, hopen⟩
    · exact engine_congr (hat.trans hsame) c
    · refine (engine_update (hat.trans hprio) c).trans ?_
      split
      · rename_i hcc
        rw [hcc, Node.engine_at hch]
      · rfl
    · refine (engine_update (hat.trans hopen) c).trans ?_
      split
      · -- a channel that is not open has the engine that it will open with
        rename_i hcc
        rw [hcc, hfresh.engine]
        unfold Node.engine
        rw [hno]
        rfl
      · rfl
  exact h.congr hengine (by rw [heq])

end Calls

/-- **Every call of a node is a few moves of each of its ends.** -/
theorem shows_step {c : U8} (hc : c ≠ heartbeatChannel) {w : NodeRun}
    (hcached : w.node.CachesPackets) (hmax : w.node.maxPayload.toNat ≤ maxPayloadLimit)
    {e : LinkEnd} (h : Shows c w.node w.history e) (a : ApiStep) :
    Moves c w.node w.history e a (a.call.run a.radio w.node).2 := by
  obtain ⟨radio, call⟩ := a
  cases call with
  | openChannel c₁ mode priority =>
      refine .none rfl rfl ?_
      show Shows c (openChannel w.node c₁ mode priority).2 (w.history ++ []) e
      rw [List.append_nil]
      exact openChannel_shows h c₁ mode priority
  | sendReliable c₁ payload now =>
      obtain ⟨ms, hms, hshows⟩ := sendReliable_shows h radio c₁ payload now
      have hnone : ms.countP EndMove.isData = 0 := List.countP_eq_zero.mpr fun m hm => by
        obtain ⟨-, _, rfl⟩ := hms m hm
        exact Bool.false_ne_true
      obtain ⟨hd, hf⟩ := sends_run (fun m hm => (hms m hm).2) e
      refine ⟨ms, fun m hm => ?_, by omega, hd.trans (List.append_nil _).symm,
        hf.trans (List.append_nil _).symm, hshows⟩
      obtain ⟨hch, _, rfl⟩ := hms m hm
      exact hch
  | sendUnreliable c₁ payload =>
      exact .none rfl rfl ((sendUnreliable_quiet radio w.node c₁ payload).shows hc h)
  | sendPriority c₁ payload =>
      exact .none rfl rfl ((sendPriority_quiet radio w.node c₁ payload).shows hc h)
  | onReceive src data now => exact onReceive_shows h hc hmax radio src data now
  | poll now => exact poll_shows h hc hcached radio now

/-! ## Before the first call -/

/-- The configuration that the engine of a channel starts with. -/
def Config.engineCfg (cfg : Config) (c : U8) : Option ReliableConfig :=
  if cfg.mode = modeReliable ∧ cfg.channelId = c then some cfg.reliableCfg else none

theorem shows_init {node node' : Node} {cfg : Config} (h : init node cfg = (.ok, node')) (c : U8) :
    Shows c node' [] (LinkEnd.start (cfg.engineCfg c)) := by
  refine ⟨?_, rfl, rfl, ?_, ?_, List.nil_sublist _, fun _ => List.nil_sublist _⟩
  · show node'.engine c = reliableInit (cfg.engineCfg c)
    cases hat : node'.reliableAt c with
    | some channel =>
        obtain ⟨hcc, hctx, -⟩ := init_reliableAt h hat
        obtain ⟨state, ch, hnode, -, -, -, hmode, -, hopen⟩ := init_ok h
        have hm : cfg.mode = modeReliable := by
          obtain ⟨hch, hm⟩ := Node.reliableAt_channelAt hat
          rw [hnode] at hch
          change channelAt state 0#8 c = some channel at hch
          rw [hopen, hcc, Function.update_self] at hch
          rw [← hmode, Option.some.inj hch, hm]
        rw [Node.engine_at hat, hctx, Config.engineCfg, if_pos ⟨hm, hcc.symm⟩]
    | none =>
        have hcfg : cfg.engineCfg c = none := by
          refine if_neg fun hall => ?_
          obtain ⟨hm, rfl⟩ := hall
          obtain ⟨state, ch, hnode, -, -, -, hmode, -, hopen⟩ := init_ok h
          have hch : node'.reliableAt cfg.channelId = some ch := by
            refine Node.reliableAt_eq_some.mpr ⟨?_, hmode.trans hm⟩
            rw [hnode]
            show channelAt state 0#8 cfg.channelId = _
            rw [hopen, Function.update_self]
          exact absurd (hat.symm.trans hch) (by simp)
        unfold Node.engine
        rw [hat, hcfg, Option.elim_none]
  · simp [sentOn, sentFrames]
  · simp [acksOn, sentFrames]

end Relinow
