import Relinow.Proof.ChannelObject

/-!
# What the reliable operations can do

The four calls that drive a reliable channel, each with everything it can return
and everything it can leave behind. The scans of the tables are behind
`ChannelOp.run_eq`; what is left is the record and its engine.

A call that is refused changes nothing. The one exception is an arrival whose
ids do not fit in the receive queue: it fails, and its engine has moved on.
-/

namespace Relinow

open SlotTable

theorem Ret.of_mapOut_eq {ε σ α β : Type} {f : α → β} {r : Ret ε σ α} {rc : ε} {st : σ} {out : α}
    (hf : Function.Injective f) (h : r.mapOut f = ⟨rc, st, f out⟩) : r = ⟨rc, st, out⟩ := by
  obtain ⟨rc', st', out'⟩ := r
  unfold Ret.mapOut at h
  rw [Ret.mk.injEq] at h ⊢
  exact ⟨h.1, h.2.1, hf h.2.2⟩

/-- A channel rewritten as it was is a state left as it was. -/
theorem Rewrites.same {state state' : State} {p c : U8} {channel : ChannelState}
    (h : Rewrites state p c channel channel state') : state' = state := by
  obtain ⟨r, _, rfl, _, _, heq⟩ := h
  rw [heq, setChannel_channel]

/-- **A reliable operation is refused and changes nothing, or it acts on a reliable channel.** -/
theorem ChannelOp.reliable_cases (op : ChannelOp) {silent : Output}
    {body : ChannelState → Ret StateErr ChannelState Output}
    (hact : ∀ channel, op.act channel = channel.inMode modeReliable silent (body channel))
    {p : U8} (habsent : op.absent p = (.notFound, silent)) (state : State) (c : U8) :
    (∃ rc, rc ≠ .ok ∧ op.run state p c = ⟨rc, state, silent⟩
        ∧ ∀ channel, channelAt state p c = some channel → channel.mode ≠ modeReliable)
    ∨ ∃ channel state', Rewrites state p c channel (body channel).st state'
        ∧ channel.mode = modeReliable
        ∧ op.run state p c = ⟨(body channel).rc, state', (body channel).out⟩ := by
  rcases op.run_cases state p c with ⟨hno, heq⟩ | ⟨channel, state', hrw, heq⟩
  · rw [habsent] at heq
    refine Or.inl ⟨.notFound, by simp, heq, fun channel h => ?_⟩
    rw [hno] at h
    exact absurd h (by simp)
  · rw [hact] at hrw heq
    unfold ChannelState.inMode at hrw heq
    by_cases hm : channel.mode = modeReliable
    · rw [if_neg (by simp [hm])] at hrw heq
      exact Or.inr ⟨channel, state', hrw, hm, heq⟩
    · rw [if_pos (by simpa using hm)] at hrw heq
      obtain rfl := hrw.same
      refine Or.inl ⟨.wrongMode, by simp, heq, fun channel' h => ?_⟩
      rwa [← Option.some.inj (hrw.before.symm.trans h)]

/-- **A send advances the engine of its channel, or changes nothing.** -/
theorem stateReliableSend_cases (state : State) (p c : U8) (now : U32) :
    ((stateReliableSend state p c now).rc ≠ .ok ∧ (stateReliableSend state p c now).st = state
        ∧ ∀ channel, channelAt state p c = some channel → channel.mode = modeReliable →
          (pendingSeqs channel.reliable).card = maxPending)
    ∨ ∃ channel channel' state', Rewrites state p c channel channel' state'
        ∧ channel.mode = modeReliable
        ∧ channel' = { channel with
            reliable := { channel.reliable with
              pending := channel'.reliable.pending
              nextTxSeq := seqNext channel.reliable.nextTxSeq }
            hasInflight := channel'.hasInflight
            inflightSeq := channel'.inflightSeq
            txQueue := channel'.txQueue }
        ∧ pendingSeqs channel'.reliable =
            channel.reliable.nextTxSeq ::ₘ pendingSeqs channel.reliable
        ∧ stateReliableSend state p c now =
            ⟨.ok, state', ⟨.new, channel.reliable.nextTxSeq⟩⟩ := by
  have hinj : Function.Injective Output.tx := fun _ _ => Output.tx.inj
  rcases ChannelOp.reliable_cases (.reliableSend now) (fun _ => rfl) rfl state c with
    ⟨rc, hrc, heq, hno⟩ | ⟨channel, state', hrw, hm, heq⟩
  · have hret : stateReliableSend state p c now = ⟨rc, state, ⟨.none, 0#16⟩⟩ :=
      Ret.of_mapOut_eq hinj heq
    rw [hret]
    exact Or.inl ⟨hrc, rfl, fun channel h hm => absurd hm (hno channel h)⟩
  · rcases reliableSend_cases channel.reliable now with ⟨hs, hcard⟩ | ⟨ctx', hs, hfr, hks⟩
    · -- the engine has no free slot
      rw [hs] at hrw heq
      rw [if_pos (by simp)] at hrw heq
      obtain rfl := hrw.same
      have hret : stateReliableSend state' p c now = ⟨.queueFull, state', ⟨.none, 0#16⟩⟩ :=
        Ret.of_mapOut_eq hinj heq
      rw [hret]
      refine Or.inl ⟨by simp, rfl, fun channel' h _ => ?_⟩
      rwa [← Option.some.inj (hrw.before.symm.trans h)]
    · rw [hs] at hrw heq
      rw [if_neg (by simp)] at hrw heq
      obtain ⟨queue, hq⟩ := pushTx_eq
        ((channel.withEngine ctx').markInflight channel.reliable.nextTxSeq)
        channel.reliable.nextTxSeq
      dsimp only at hrw heq
      rw [hq] at hrw
      refine Or.inr ⟨channel, _, state', hrw, hm, ?_, hks,
        Ret.of_mapOut_eq hinj heq⟩
      unfold ChannelState.markInflight ChannelState.withEngine
      conv_lhs => rw [hfr]

/-- **An ACK advances the engine of its channel, or changes nothing.** -/
theorem stateReliableOnAck_cases (state : State) (p c : U8) (a : U16) (now : U32) :
    ((stateReliableOnAck state p c a now).rc ≠ .ok
        ∧ (stateReliableOnAck state p c a now).st = state
        ∧ ∀ channel, channelAt state p c = some channel → channel.mode ≠ modeReliable)
    ∨ ∃ channel channel' state', Rewrites state p c channel channel' state'
        ∧ channel.mode = modeReliable
        ∧ channel' = { channel with
            reliable := reliableOnAck channel.reliable a now
            hasInflight := channel'.hasInflight
            txQueue := channel'.txQueue }
        ∧ stateReliableOnAck state p c a now = ⟨.ok, state', ()⟩ := by
  have hinj : Function.Injective fun _ : Unit => Output.none := fun _ _ _ => rfl
  rcases ChannelOp.reliable_cases (.reliableOnAck a now) (fun _ => rfl) rfl state c with
    ⟨rc, hrc, heq, hno⟩ | ⟨channel, state', hrw, hm, heq⟩
  · have hret : stateReliableOnAck state p c a now = ⟨rc, state, ()⟩ :=
      Ret.of_mapOut_eq hinj heq
    rw [hret]
    exact Or.inl ⟨hrc, rfl, hno⟩
  · obtain ⟨flag, hf⟩ := clearInflight_eq
      (channel.withEngine (reliableOnAck channel.reliable a now)) a
    dsimp only at hrw
    rw [hf] at hrw
    obtain ⟨queue, hq⟩ := txRemoveSeq_eq
      { channel.withEngine (reliableOnAck channel.reliable a now) with hasInflight := flag } a
    rw [hq] at hrw
    exact Or.inr ⟨channel, _, state', hrw, hm, rfl,
      Ret.of_mapOut_eq hinj heq⟩

/-- A poll that reports nothing leaves the engine as it was. -/
theorem reliablePoll_quiet {ctx : ReliableCtx} {now : U32}
    (h : (reliablePoll ctx now).2.event = .none) : (reliablePoll ctx now).1 = ctx := by
  rcases reliablePoll_cases ctx now with ⟨heq, _⟩ | ⟨i, ctx', _, _, ⟨_, heq, _⟩ | ⟨_, heq, _⟩⟩
  · rw [heq]
  · rw [heq] at h
    exact absurd h (by simp)
  · rw [heq] at h
    exact absurd h (by simp)

/-- **A poll that has something to report advances the engine of its channel; any other poll
changes nothing.** -/
theorem stateReliablePoll_cases (state : State) (p c : U8) (now : U32) :
    ((stateReliablePoll state p c now).st = state
        ∧ (stateReliablePoll state p c now).out.event = .none
        ∧ ∀ channel, channelAt state p c = some channel → channel.mode = modeReliable →
          (reliablePoll channel.reliable now).2.event = .none)
    ∨ ∃ channel channel' state', Rewrites state p c channel channel' state'
        ∧ channel.mode = modeReliable
        ∧ (reliablePoll channel.reliable now).2.event ≠ .none
        ∧ channel' = { channel with
            reliable := (reliablePoll channel.reliable now).1
            hasInflight := channel'.hasInflight
            inflightSeq := channel'.inflightSeq
            txQueue := channel'.txQueue }
        ∧ stateReliablePoll state p c now =
            ⟨.ok, state', (reliablePoll channel.reliable now).2⟩ := by
  have hinj : Function.Injective Output.tx := fun _ _ => Output.tx.inj
  rcases ChannelOp.reliable_cases (.reliablePoll now) (fun _ => rfl) rfl state c with
    ⟨rc, hrc, heq, hno⟩ | ⟨channel, state', hrw, hm, heq⟩
  · have hret : stateReliablePoll state p c now = ⟨rc, state, ⟨.none, 0#16⟩⟩ :=
      Ret.of_mapOut_eq hinj heq
    rw [hret]
    exact Or.inl ⟨rfl, rfl, fun channel h hm => absurd hm (hno channel h)⟩
  · cases he : (reliablePoll channel.reliable now).2.event with
    | none =>
        dsimp only at hrw heq
        rw [he, reliablePoll_quiet he] at hrw heq
        obtain rfl := hrw.same
        have hret : stateReliablePoll state' p c now =
            ⟨.ok, state', (reliablePoll channel.reliable now).2⟩ := Ret.of_mapOut_eq hinj heq
        rw [hret]
        refine Or.inl ⟨rfl, he, fun channel' h _ => ?_⟩
        rwa [← Option.some.inj (hrw.before.symm.trans h)]
    | new =>
        dsimp only at hrw heq
        rw [he] at hrw heq
        exact Or.inr ⟨channel, _, state', hrw, hm, by simp [he], rfl,
          Ret.of_mapOut_eq hinj heq⟩
    | retransmit =>
        dsimp only at hrw heq
        rw [he] at hrw heq
        exact Or.inr ⟨channel, _, state', hrw, hm, by simp [he], rfl,
          Ret.of_mapOut_eq hinj heq⟩
    -- given up: the marker and the queue entry go
    | failed =>
        dsimp only at hrw heq
        rw [he] at hrw heq
        obtain ⟨flag, hf⟩ := clearInflight_eq
          (channel.withEngine (reliablePoll channel.reliable now).1)
          (reliablePoll channel.reliable now).2.seqId
        dsimp only at hrw
        rw [hf] at hrw
        obtain ⟨queue, hq⟩ := txRemoveSeq_eq
          { channel.withEngine (reliablePoll channel.reliable now).1 with hasInflight := flag }
          (reliablePoll channel.reliable now).2.seqId
        rw [hq] at hrw
        exact Or.inr ⟨channel, _, state', hrw, hm, by simp [he], rfl,
          Ret.of_mapOut_eq hinj heq⟩

/--
**An arrival advances the engine of its channel and queues what the engine
delivers.** When the queue has no room for all of it the call fails, and the
engine stays advanced.
-/
theorem stateReliableOnData_cases (state : State) (p c : U8) (q : U16) :
    ((stateReliableOnData state p c q).rc ≠ .ok ∧ (stateReliableOnData state p c q).st = state
        ∧ ∀ channel, channelAt state p c = some channel → channel.mode ≠ modeReliable)
    ∨ ∃ channel channel' state', Rewrites state p c channel channel' state'
        ∧ channel.mode = modeReliable
        ∧ channel' = { channel with
            reliable := (reliableOnData channel.reliable q).1
            expectedRxSeq := channel'.expectedRxSeq
            rxQueue := channel'.rxQueue }
        ∧ ((HasRoom channel q
              ∧ rxRoom channel = rxRoom channel' + (deliverable channel.reliable q).length
              ∧ stateReliableOnData state p c q =
                  ⟨.ok, state', (reliableOnData channel.reliable q).2⟩)
          ∨ (¬ HasRoom channel q
              ∧ stateReliableOnData state p c q =
                  ⟨.queueFull, state', (reliableOnData channel.reliable q).2⟩)) := by
  have hinj : Function.Injective Output.rx := fun _ _ => Output.rx.inj
  rcases ChannelOp.reliable_cases (.reliableOnData q) (fun _ => rfl) rfl state c with
    ⟨rc, hrc, heq, hno⟩ | ⟨channel, state', hrw, hm, heq⟩
  · have hret : stateReliableOnData state p c q = ⟨rc, state, ⟨.delivered, [], 0#16⟩⟩ :=
      Ret.of_mapOut_eq hinj heq
    rw [hret]
    exact Or.inl ⟨hrc, rfl, hno⟩
  · obtain ⟨queue, hcases⟩ := pushAllRx_cases (reliableOnData channel.reliable q).2.deliveredSeq
      (channel.withEngine (reliableOnData channel.reliable q).1)
    have hroom₀ : rxRoom (channel.withEngine (reliableOnData channel.reliable q).1)
        = rxRoom channel := rfl
    rw [hroom₀, reliableOnData_delivered] at hcases
    dsimp only at hrw heq
    rw [reliableOnData_delivered] at hrw heq
    unfold HasRoom
    -- the queue takes what the engine delivers, or fills up on the way
    rcases hcases with ⟨hle, hroom, hq⟩ | ⟨hlt, hq⟩
    · rw [hq, if_neg (by simp)] at hrw heq
      exact Or.inr ⟨channel, _, state', hrw, hm, rfl, Or.inl ⟨hle, hroom,
        Ret.of_mapOut_eq hinj heq⟩⟩
    · rw [hq, if_pos (by simp)] at hrw heq
      exact Or.inr ⟨channel, _, state', hrw, hm, rfl, Or.inr ⟨Nat.not_le.mpr hlt,
        Ret.of_mapOut_eq hinj heq⟩⟩

end Relinow
