import Relinow.Proof.Network
import Relinow.Proof.NodeChannels
import Relinow.Proof.ReliableOps

/-!
# How long a reliable channel lasts

The ids a reliable channel delivers go into its receive queue, and nothing takes
them out again: the one call that clears the queue is made when a node is
initialised. So each message handed over uses up a slot for good. A reliable
channel hands over no more messages than its queue has slots, and once they are
used up it hands over nothing any more, whatever arrives.
-/

namespace Relinow

open SlotTable Runs

/-! ## The receive queue only fills -/

theorem pushAllRx_room (ds : List U16) :
    ∀ channel : ChannelState, rxRoom (ChannelState.pushAllRx ds channel).2 ≤ rxRoom channel := by
  induction ds with
  | nil => exact fun channel => Nat.le_refl _
  | cons d ds ih =>
      intro channel
      rw [ChannelState.pushAllRx]
      rcases pushRx_cases channel d with ⟨_, hq⟩ | ⟨queue, hroom, hq⟩
      · rw [hq, if_pos (by simp)]
      · rw [hq, if_neg (by simp)]
        refine (ih { channel with rxQueue := queue }).trans ?_
        rw [hroom]
        exact Nat.le_succ _

/-- No operation makes room in the receive queue, but for a new configuration. -/
theorem ChannelOp.act_room {call : ApiCall} {op : ChannelOp} (hop : call.Performs op)
    (channel : ChannelState) : rxRoom (op.act channel).st ≤ rxRoom channel := by
  obtain ⟨hop, hcfg⟩ := hop.nodeOp
  have hmode {m : U8} {silent : Output} {r : Ret StateErr ChannelState Output}
      (h : rxRoom r.st ≤ rxRoom channel) : rxRoom (channel.inMode m silent r).st
        ≤ rxRoom channel := by
    by_cases hm : channel.mode = m
    · rwa [inMode_same hm]
    · rw [inMode_other hm]
  cases op with
  | nextSequence | getChannelMode | markInflight | clearInflight | clearInflightAny | enqueueTx
  | enqueueRx | reliableGetRttMs | getStats => exact absurd hop id
  | setReliableConfig cfg => exact absurd rfl (hcfg cfg)
  | reliableSend now =>
      refine hmode ?_
      dsimp only
      split
      · exact Nat.le_refl _
      · obtain ⟨queue, heq⟩ := pushTx_eq ((channel.withEngine
          (Relinow.reliableSend channel.reliable now).st).markInflight
            (Relinow.reliableSend channel.reliable now).out.seqId)
          (Relinow.reliableSend channel.reliable now).out.seqId
        rw [heq]
        exact Nat.le_refl _
  | reliableOnAck a now =>
      refine hmode ?_
      obtain ⟨flag, hclear⟩ := clearInflight_eq
        (channel.withEngine (Relinow.reliableOnAck channel.reliable a now)) a
      obtain ⟨queue, heq⟩ := txRemoveSeq_eq
        ((channel.withEngine (Relinow.reliableOnAck channel.reliable a now)).clearInflight a) a
      dsimp only
      rw [heq, hclear]
      exact Nat.le_refl _
  | reliablePoll now =>
      refine hmode ?_
      dsimp only
      split
      · exact Nat.le_refl _
      · obtain ⟨flag, hclear⟩ := clearInflight_eq
          (channel.withEngine (Relinow.reliablePoll channel.reliable now).1)
          (Relinow.reliablePoll channel.reliable now).2.seqId
        rw [hclear]
        obtain ⟨queue, heq⟩ := txRemoveSeq_eq
          { channel.withEngine (Relinow.reliablePoll channel.reliable now).1 with
            hasInflight := flag }
          (Relinow.reliablePoll channel.reliable now).2.seqId
        rw [heq]
        exact Nat.le_refl _
      · exact Nat.le_refl _
  | reliableOnData q =>
      refine hmode ?_
      dsimp only
      split
      · exact pushAllRx_room _ _
      · exact pushAllRx_room _ (channel.withEngine (Relinow.reliableOnData channel.reliable q).1)
  | unreliableSend => exact hmode (Nat.le_refl _)
  | unreliableOnData q =>
      refine hmode ?_
      dsimp only
      split_ifs <;> exact Nat.le_refl _
  | prioritySend => exact hmode (Nat.le_refl _)
  | priorityOnData q =>
      refine hmode ?_
      split_ifs <;> exact Nat.le_refl _

/-! ## Messages handed over -/

/-- How many messages a reliable channel has handed over. -/
def messagesOn (c : U8) (history : List Event) : Nat :=
  (deliveredOn .plain c history).length + (deliveredOn .reassembled c history).length

theorem messagesOn_append (c : U8) (history log : List Event) :
    messagesOn c (history ++ log) = messagesOn c history + messagesOn c log := by
  unfold messagesOn
  rw [deliveredOn_append, deliveredOn_append, List.length_append, List.length_append]
  omega

theorem messagesOn_eq_zero {c : U8} {log : List Event} (h : ∀ e ∈ log, e.NoMessage) :
    messagesOn c log = 0 := by
  unfold messagesOn
  rw [deliveredOn_eq_nil h, deliveredOn_eq_nil h]
  rfl

/-- What is read as no reliable DATA of the channel hands over none of its messages. -/
theorem messagesOn_others {c : U8} {received : Received} {log : List Event}
    (h : ∀ e ∈ log, e.DeliversAs received)
    (hnot : ∀ header, received = .data header → header.channelId ≠ c) :
    messagesOn c log = 0 := by
  unfold messagesOn
  rw [deliveredOn_others h, deliveredOn_others h]
  · rfl
  · intro hd
    cases received with
    | data header => exact hnot header rfl hd.2.symm
    | unreliable header => cases hd.1
    | priority header => cases hd.1
    | _ => exact hd
  · intro hd
    cases received with
    | data header => exact hnot header rfl hd.2.symm
    | unreliable header => cases hd.1
    | priority header => cases hd.1
    | _ => exact hd

theorem messagesOn_le (c : U8) (log : List Event) : messagesOn c log ≤ log.length := by
  induction log with
  | nil => exact Nat.zero_le _
  | cons e log ih =>
      rw [← List.singleton_append, messagesOn_append, List.length_append, List.length_singleton]
      refine Nat.add_le_add ?_ ih
      unfold messagesOn deliveredOn
      cases e with
      | message site src c' q payload => cases site <;> by_cases hc : c' = c <;> simp [hc]
      | _ => exact Nat.zero_le _

/-! ## One step -/

/-- What is delivered takes as many slots. -/
theorem act_onData_room {channel : ChannelState} (hm : channel.mode = modeReliable) {q : U16}
    (hroom : HasRoom channel q) :
    (deliverable channel.reliable q).length
      + rxRoom ((ChannelOp.reliableOnData q).act channel).st = rxRoom channel := by
  obtain ⟨queue, hcases⟩ := pushAllRx_cases (reliableOnData channel.reliable q).2.deliveredSeq
    (channel.withEngine (reliableOnData channel.reliable q).1)
  have hact : (ChannelOp.reliableOnData q).act channel = _ := inMode_same hm _ _
  rw [hact]
  dsimp only
  have hroom₀ : rxRoom (channel.withEngine (reliableOnData channel.reliable q).1)
      = rxRoom channel := rfl
  rw [hroom₀, reliableOnData_delivered] at hcases
  rw [reliableOnData_delivered]
  rcases hcases with ⟨_, hleft, hq⟩ | ⟨hlt, _⟩
  · rw [hq, if_neg (by simp), hleft]
    exact Nat.add_comm _ _
  · exact absurd hroom (Nat.not_le.mpr hlt)

/-- **DATA hands over no more messages than it takes slots.** -/
theorem receiveData_room (radio : Radio) {node : Node} (src : Mac) {header : Header}
    {channel : ChannelState} (hch : node.reliableAt header.channelId = some channel)
    (payload : List U8) (now : U32) :
    messagesOn header.channelId
        (receiveData radio (Call.start node) src header payload now).2.log
      + rxRoom ((ChannelOp.reliableOnData header.seqId).act channel).st ≤ rxRoom channel := by
  rcases receiveData_hands radio src payload now hch with hlog |
    ⟨hroom, k, _, hk, messages, hlog, hlen, _⟩
  · have hop : (ApiCall.onReceive src [] now).Performs (.reliableOnData header.seqId) :=
      Or.inr ⟨_, Or.inl rfl⟩
    rw [hlog]
    exact (Nat.zero_add _).trans_le (ChannelOp.act_room hop channel)
  · have hle := messagesOn_le header.channelId messages
    have hroom' := act_onData_room (Node.reliableAt_eq_some.mp hch).2 hroom
    rw [hlog, messagesOn_append, messagesOn_eq_zero hk]
    omega

theorem messagesOn_step (w : NodeRun) (a : ApiStep) (c : U8) :
    messagesOn c (w.step a).history
      = messagesOn c w.history + messagesOn c (a.call.run a.radio w.node).2.log :=
  messagesOn_append c w.history _

/-- A call hands messages of the channel over only if it is given DATA of it. -/
theorem call_messagesOn {w : NodeRun} {a : ApiStep} {c : U8}
    (h : ∀ src data now header, a.call = .onReceive src data now →
      w.node.judge src data = .data header → header.channelId ≠ c) :
    messagesOn c (a.call.run a.radio w.node).2.log = 0 := by
  by_cases hrecv : ∃ src data now, a.call = .onReceive src data now
  · obtain ⟨src, data, now, hcall⟩ := hrecv
    rw [hcall]
    exact messagesOn_others (onReceive_deliversAs a.radio w.node src data now)
      fun header hj => h src data now header hcall hj
  · exact messagesOn_eq_zero (call_noMessage a.radio w.node a.call
      fun src data now hcall => hrecv ⟨src, data, now, hcall⟩)

/-- **No step hands over more messages than it takes slots.** -/
theorem room_step {w : NodeRun} (htables : TablesOk w.node.state) (a : ApiStep) {c : U8}
    {channel : ChannelState} (hch : w.node.reliableAt c = some channel) :
    ∃ channel', (w.step a).node.reliableAt c = some channel'
      ∧ messagesOn c (w.step a).history + rxRoom channel'
        ≤ messagesOn c w.history + rxRoom channel := by
  obtain ⟨hat, hm⟩ := Node.reliableAt_eq_some.mp hch
  rw [messagesOn_step]
  by_cases hdata : ∃ src data now header, a.call = .onReceive src data now
      ∧ w.node.judge src data = .data header ∧ header.channelId = c
  · obtain ⟨src, data, now, header, hcall, hj, rfl⟩ := hdata
    obtain ⟨radio, call⟩ := a
    subst hcall
    have hchannels : (w.step ⟨radio, .onReceive src data now⟩).node.channelAt header.channelId
        = _ := congrFun (onReceive_channels radio w.node src data now) header.channelId
    rw [hj, Received.op, Option.elim_some] at hchannels
    have hrun : (w.node.performed header.channelId (.reliableOnData header.seqId)).channelAt
        header.channelId = _ := congrFun (channelAt_run w.node.state w.node.peerIndex
          header.channelId (.reliableOnData header.seqId)) header.channelId
    rw [Function.update_self] at hrun
    change _ = (w.node.channelAt header.channelId).map _ at hrun
    rw [hat, Option.map_some] at hrun
    refine ⟨_, Node.reliableAt_eq_some.mpr ⟨hchannels.trans hrun, ?_⟩, ?_⟩
    · rw [((ChannelOp.reliableOnData header.seqId).act_name channel).mode]
      exact hm
    · have hle := receiveData_room radio src hch (framePayload data) now
      have hlog : ((ApiCall.onReceive src data now).run radio w.node).2.log = (receiveData radio
          (Call.start w.node) src header (framePayload data) now).2.log := by
        show (onReceive radio w.node src data now).2.log = _
        rw [onReceive_judge, hj]
        rfl
      rw [hlog]
      omega
  · obtain ⟨channel', hat', hmode, hroom⟩ := channel_step
      (R := fun a b => b.mode = a.mode ∧ rxRoom b ≤ rxRoom a) (fun _ => ⟨rfl, Nat.le_refl _⟩)
      (fun _ _ _ hab hbd => ⟨hbd.1.trans hab.1, hbd.2.trans hab.2⟩)
      (fun _ _ => ⟨rfl, Nat.le_refl _⟩) htables
      (fun op hop channel => ⟨(op.act_name channel).mode, ChannelOp.act_room hop channel⟩) hat
    have hnone : messagesOn c (a.call.run a.radio w.node).2.log = 0 :=
      call_messagesOn fun src data now header hcall hj hc =>
        hdata ⟨src, data, now, header, hcall, hj, hc⟩
    refine ⟨channel', Node.reliableAt_eq_some.mpr ⟨hat', hmode.trans hm⟩, ?_⟩
    omega

/-- **Nor does any run.** -/
theorem room_run (as : List ApiStep) : ∀ {w : NodeRun}, TablesOk w.node.state →
    ∀ {c : U8} {channel : ChannelState}, w.node.reliableAt c = some channel →
      ∃ channel', (run NodeRun.step w as).node.reliableAt c = some channel'
        ∧ messagesOn c (run NodeRun.step w as).history + rxRoom channel'
          ≤ messagesOn c w.history + rxRoom channel := by
  induction as with
  | nil => exact fun _ _ channel hch => ⟨channel, hch, Nat.le_refl _⟩
  | cons a as ih =>
      intro w htables c channel hch
      obtain ⟨channel₁, hch₁, hle₁⟩ := room_step htables a hch
      obtain ⟨channel', hch', hle'⟩ := ih (htables.writes (apiStep_writes w a)).1 hch₁
      exact ⟨channel', hch', hle'.trans hle₁⟩

theorem messagesOn_grows (c : U8) (as : List ApiStep) : ∀ w : NodeRun,
    messagesOn c w.history ≤ messagesOn c (run NodeRun.step w as).history := by
  induction as with
  | nil => exact fun w => Nat.le_refl _
  | cons a as ih =>
      intro w
      refine Nat.le_trans ?_ (ih (w.step a))
      rw [messagesOn_step]
      exact Nat.le_add_right _ _

/-! ## Whole runs -/

/-- What a reliable channel has handed over, and what it can still take, fit its queue. -/
structure WithinQueue (c : U8) (w : NodeRun) : Prop where
  tables : TablesOk w.node.state
  closed : w.node.reliableAt c = none → messagesOn c w.history = 0
  opened : ∀ channel, w.node.reliableAt c = some channel →
    messagesOn c w.history + rxRoom channel ≤ rxQueueSize

theorem withinQueue_step {c : U8} {w : NodeRun} (h : WithinQueue c w) (a : ApiStep) :
    WithinQueue c (w.step a) := by
  have htables := (h.tables.writes (apiStep_writes w a)).1
  cases hch : w.node.reliableAt c with
  | some channel =>
      obtain ⟨channel', hch', hle⟩ := room_step h.tables a hch
      refine ⟨htables, fun hno => absurd (hno.symm.trans hch') (by simp), fun channel₁ hch₁ => ?_⟩
      rw [hch'] at hch₁
      obtain rfl := Option.some.inj hch₁
      exact hle.trans (h.opened channel hch)
  | none =>
      -- a channel that is not open yet hands nothing over
      have hnone : messagesOn c (w.step a).history = 0 := by
        rw [messagesOn_step, h.closed hch, Nat.zero_add]
        refine call_messagesOn fun src data now header _ hj hc => ?_
        have hfound := judge_found w.node src data
        rw [hj] at hfound
        obtain ⟨_, channel, hacc⟩ := hfound
        have hat := hacc.at_channel
        rw [hc, hch] at hat
        cases hat
      refine ⟨htables, fun _ => hnone, fun channel _ => ?_⟩
      rw [hnone, Nat.zero_add]
      exact free_le RxSlot.used channel.rxQueue

theorem withinQueue_run {node₀ node : Node} {cfg : Config} (hinit : init node₀ cfg = (.ok, node))
    (c : U8) (as : List ApiStep) : WithinQueue c (run NodeRun.step ⟨node, []⟩ as) :=
  invariant (I := WithinQueue c) (P := fun _ _ => True) (fun _ a h _ => withinQueue_step h a)
    ⟨tablesOk_run hinit [], fun _ => rfl, fun channel _ => by
      rw [show messagesOn c ([] : List Event) = 0 from rfl, Nat.zero_add]
      exact free_le RxSlot.used channel.rxQueue⟩
    (Along.of_forall (fun _ _ => trivial) as _)

/--
**A reliable channel does not last.** In every run of a node, whatever is called and
whatever arrives, each channel hands over at most as many reliable messages as its
receive queue has slots; and once these are used up, it hands over none any more,
however the run goes on.
-/
theorem reliable_lifetime {node₀ node : Node} {cfg : Config} (hinit : init node₀ cfg = (.ok, node))
    (as bs : List ApiStep) (c : U8) :
    messagesOn c (run NodeRun.step ⟨node, []⟩ as).history ≤ rxQueueSize
    ∧ ∀ channel, (run NodeRun.step ⟨node, []⟩ as).node.reliableAt c = some channel →
      rxRoom channel = 0 →
      messagesOn c (run NodeRun.step ⟨node, []⟩ (as ++ bs)).history
        = messagesOn c (run NodeRun.step ⟨node, []⟩ as).history := by
  have h := withinQueue_run hinit c as
  rw [run_append]
  generalize run NodeRun.step ⟨node, []⟩ as = w at h
  refine ⟨?_, fun channel hch hroom => ?_⟩
  · cases hch : w.node.reliableAt c with
    | none =>
        rw [h.closed hch]
        exact Nat.zero_le _
    | some channel => exact (Nat.le_add_right _ _).trans (h.opened channel hch)
  · obtain ⟨channel', _, hle⟩ := room_run bs h.tables hch
    have hge := messagesOn_grows c bs w
    omega

/-- Nine packets, one after the other. -/
def ninePackets : List ApiStep :=
  let sends := (List.range 9).map fun i =>
    (⟨Radio.up, .sendReliable 1#8 [BitVec.ofNat 8 i] 0#32⟩ : ApiStep)
  (sentFrames (run NodeRun.step ⟨listenNode, []⟩ sends).history).map fun frame =>
    ⟨Radio.up, .onReceive listenConfig.peerMac frame 0#32⟩

def fullChannel : ChannelState :=
  ((run NodeRun.step ⟨listenNode, []⟩ (ninePackets.take 8)).node.reliableAt 1#8).getD
    ChannelState.zero

theorem ninthPacket_dropped :
    messagesOn 1#8 (run NodeRun.step ⟨listenNode, []⟩
        (ninePackets.take 8 ++ ninePackets.drop 8)).history
      = messagesOn 1#8 (run NodeRun.step ⟨listenNode, []⟩ (ninePackets.take 8)).history := by
  have hinit : init Node.zero listenConfig = (.ok, listenNode) := Prod.ext (by decide +kernel) rfl
  have hat : (run NodeRun.step ⟨listenNode, []⟩ (ninePackets.take 8)).node.reliableAt 1#8
      = some fullChannel := by decide +kernel
  exact (reliable_lifetime hinit (ninePackets.take 8) (ninePackets.drop 8) 1#8).2 fullChannel hat
    (by decide +kernel)

end Relinow
