import Relinow.Proof.ReliableOps

/-!
# What a failed operation leaves behind

An operation of the state layer that fails should leave the state as it was.
All but one do: they make their checks first and write afterwards, or they
cannot fail once they have begun to write.

The exception is `relinow_state_reliable_on_data`. It lets the engine advance,
then queues what the engine delivered, and returns as soon as the queue is full.
The engine is not put back. An arrival therefore fails cleanly exactly when the
receive queue has room for everything it delivers.
-/

namespace Relinow

open SlotTable

/-- If the call failed, the state is what it was before. -/
def FailsClean {α : Type} (state : State) (r : Ret StateErr State α) : Prop :=
  r.rc ≠ .ok → r.st = state

section Operations

variable {α : Type} {state : State}

theorem failsClean_ok {r : Ret StateErr State α} (h : r.rc = .ok) : FailsClean state r :=
  fun hne => absurd h hne

theorem failsClean_same {r : Ret StateErr State α} (h : r.st = state) : FailsClean state r :=
  fun _ => h

theorem addPeer_clean (mac : Mac) : FailsClean state (stateAddPeer state mac) := by
  unfold stateAddPeer
  split
  · exact failsClean_ok rfl
  · split
    · exact failsClean_ok rfl
    · exact failsClean_same rfl

theorem openChannel_clean (p c mode priority : U8) :
    FailsClean state (stateOpenChannel state p c mode priority) := by
  rcases stateOpenChannel_places state p c mode priority with
    ⟨_, hst⟩ | ⟨_, _, _, heq⟩ | ⟨_, _, _, _, _, _, _, heq⟩
  · exact failsClean_same hst
  · exact failsClean_ok (by rw [heq])
  · exact failsClean_ok (by rw [heq])

theorem inMode_clean {channel : ChannelState} {mode : U8} {silent : Output}
    {r : Ret StateErr ChannelState Output} (h : r.rc ≠ .ok → r.st = channel) :
    (channel.inMode mode silent r).rc ≠ .ok → (channel.inMode mode silent r).st = channel := by
  unfold ChannelState.inMode
  split
  · exact fun _ => rfl
  · exact h

/-- An operation other than the arrival, seen from its channel: it writes nothing, or does not
fail. -/
theorem ChannelOp.act_clean {channel : ChannelState} {op : ChannelOp}
    (hop : ∀ q, op ≠ .reliableOnData q) :
    (op.act channel).rc ≠ .ok → (op.act channel).st = channel := by
  cases op with
  | nextSequence => exact fun h => absurd rfl h
  | getChannelMode => exact fun _ => rfl
  | markInflight q => exact fun h => absurd rfl h
  | clearInflight q => exact fun h => absurd rfl h
  | clearInflightAny => exact fun h => absurd rfl h
  | enqueueTx q =>
      show (channel.pushTx q).1 ≠ .ok → (channel.pushTx q).2 = channel
      unfold ChannelState.pushTx
      split
      · exact fun h => absurd rfl h
      · exact fun _ => rfl
  | enqueueRx q =>
      show (channel.pushRx q).1 ≠ .ok → (channel.pushRx q).2 = channel
      unfold ChannelState.pushRx
      split
      · exact fun h => absurd rfl h
      · exact fun _ => rfl
  | setReliableConfig cfg => exact inMode_clean fun h => absurd rfl h
  | reliableSend now =>
      refine inMode_clean ?_
      dsimp only
      split
      · exact fun _ => rfl
      · exact fun h => absurd rfl h
  | reliableOnAck a now => exact inMode_clean fun h => absurd rfl h
  | reliablePoll now =>
      refine inMode_clean ?_
      dsimp only
      split <;> exact fun h => absurd rfl h
  | reliableOnData q => exact absurd rfl (hop q)
  | reliableGetRttMs => exact inMode_clean fun _ => rfl
  | unreliableSend => exact inMode_clean fun h => absurd rfl h
  | unreliableOnData q =>
      refine inMode_clean ?_
      dsimp only
      split
      · exact fun h => absurd rfl h
      · split <;> exact fun h => absurd rfl h
  | prioritySend => exact inMode_clean fun h => absurd rfl h
  | priorityOnData q =>
      refine inMode_clean ?_
      split <;> exact fun h => absurd rfl h
  | getStats => exact fun _ => rfl

theorem ChannelOp.run_clean {op : ChannelOp} (hop : ∀ q, op ≠ .reliableOnData q) (p c : U8) :
    FailsClean state (op.run state p c) := by
  rcases op.run_cases state p c with ⟨_, heq⟩ | ⟨channel, state', hrw, heq⟩ <;> rw [heq]
  · exact failsClean_same rfl
  · intro hrc
    rw [ChannelOp.act_clean hop hrc] at hrw
    exact hrw.same

theorem configureHeartbeat_clean (p : U8) (interval : U16) (miss : U8) :
    FailsClean state (stateConfigureHeartbeat state p interval miss) := by
  unfold stateConfigureHeartbeat
  split
  · dsimp only
    split
    · exact failsClean_same rfl
    · exact failsClean_ok rfl
  · exact failsClean_same rfl

theorem pollHeartbeat_clean (p : U8) (now : U32) :
    FailsClean state (statePollHeartbeat state p now) := by
  unfold statePollHeartbeat
  split
  · dsimp only
    split
    · exact failsClean_ok rfl
    · split
      · split
        · exact failsClean_ok rfl
        · exact failsClean_ok rfl
      · exact failsClean_ok rfl
  · exact failsClean_same rfl

theorem onPong_clean (p : U8) : FailsClean state (stateOnPong state p) := by
  unfold stateOnPong
  split
  · dsimp only
    split
    · exact failsClean_same rfl
    · exact failsClean_ok rfl
  · exact failsClean_same rfl

theorem schedulerNext_clean (p : U8) (now : U32) :
    FailsClean state (stateSchedulerNext state p now) := by
  unfold stateSchedulerNext
  split
  · dsimp only
    split
    · exact failsClean_same rfl
    · exact failsClean_ok rfl
  · exact failsClean_same rfl

end Operations

/-! ## The arrival -/

/-- An arrival that delivers something moves the receive window. -/
theorem reliableOnData_moves {ctx : ReliableCtx} {q : U16} (h : deliverable ctx q ≠ []) :
    (reliableOnData ctx q).1 ≠ ctx := by
  rw [← reliableOnData_delivered] at h
  rcases reliableOnData_cases ctx q with ⟨hw, heq⟩ | ⟨hw, hq, ctx', ds, hds, hfr, _, heq⟩ |
    ⟨_, _, _, heq⟩ | ⟨_, _, _, _, ctx', _, _, heq⟩ | ⟨_, _, _, _, heq⟩ | ⟨_, _, _, heq⟩ <;>
    rw [heq] at h ⊢
  · -- the window opens
    intro he
    have := congrArg ReliableCtx.hasRxWindow he
    rw [hw] at this
    exact absurd this (by simp)
  · -- at most eight ids are flushed, so the expected id does not come round
    intro he
    have hexp := congrArg ReliableCtx.expectedRxSeq he
    have hlen : ds.length ≤ 8 := by
      rw [hds]
      exact reorderRun_length_le ctx maxReorder _
    rw [hfr, hq] at hexp
    dsimp only at hexp
    bv_omega
  · -- the other outcomes deliver nothing
    exact absurd rfl h
  · exact absurd rfl h
  · exact absurd rfl h
  · exact absurd rfl h

/-- **An arrival fails cleanly exactly when its channel is not reliable or has room.** -/
theorem reliableOnData_clean_iff (state : State) (p c : U8) (q : U16) :
    FailsClean state (stateReliableOnData state p c q) ↔
      ∀ channel, channelAt state p c = some channel → channel.mode = modeReliable →
        HasRoom channel q := by
  rcases stateReliableOnData_cases state p c q with ⟨_, hst, hno⟩ |
    ⟨channel, channel', state', hrw, hm, hfr, ⟨hroom, _, heq⟩ | ⟨hfull, heq⟩⟩
  · exact ⟨fun _ channel hch hm => absurd hm (hno channel hch), fun _ => failsClean_same hst⟩
  · refine ⟨fun _ a ha _ => ?_, fun _ => failsClean_ok (by rw [heq])⟩
    rw [hrw.before] at ha
    rwa [← Option.some.inj ha]
  · refine ⟨fun h => ?_, fun h => absurd (h channel hrw.before hm) hfull⟩
    -- the queue is full, yet the engine has moved
    exfalso
    have hst : state' = state := by
      have := h (by rw [heq]; simp)
      rwa [heq] at this
    have hsame : channel' = channel := by
      have hafter := hrw.after
      rw [hst] at hafter
      have := congrFun hafter c
      rw [hrw.before, Function.update_self] at this
      exact (Option.some.inj this).symm
    have hmove : (reliableOnData channel.reliable q).1 ≠ channel.reliable := by
      refine reliableOnData_moves fun hnil => hfull ?_
      unfold HasRoom
      rw [hnil]
      exact Nat.zero_le _
    apply hmove
    have := congrArg ChannelState.reliable hfr
    rw [hsame] at this
    exact this.symm

/-! ## All operations -/

/-- The call is an arrival on a reliable channel whose receive queue has no room for what the
arrival delivers. -/
def StateCall.overflows (state : State) (call : StateCall) : Bool :=
  match call.nullArg, call.op with
  | false, .reliableOnData p c q =>
      match channelAt state p c with
      | some channel => channel.mode == modeReliable && !decide (HasRoom channel q)
      | none => false
  | _, _ => false

theorem overflows_reliableOnData {state : State} {p c : U8} {q : U16} :
    StateCall.overflows state ⟨.reliableOnData p c q, false⟩ = false ↔
      ∀ channel, channelAt state p c = some channel → channel.mode = modeReliable →
        HasRoom channel q := by
  unfold StateCall.overflows
  dsimp only
  cases channelAt state p c with
  | none => simp
  | some channel => simp

/-- Every operation but the arrival fails cleanly. -/
theorem StateOp.clean {state : State} {op : StateOp}
    (h : ∀ p c q, op ≠ .reliableOnData p c q) :
    (op.run state).1 ≠ .ok → (op.run state).2 = state := by
  cases op using StateOp.byChannel with
  | channel p c o =>
      have ho : ∀ q, o ≠ .reliableOnData q := by
        rintro q rfl
        exact h p c q rfl
      rw [ChannelOp.at_run]
      exact o.run_clean ho p c
  | findPeer mac => exact fun _ => rfl
  | addPeer mac => exact addPeer_clean mac
  | openChannel p c mode priority => exact openChannel_clean p c mode priority
  | configureHeartbeat p interval miss => exact configureHeartbeat_clean p interval miss
  | pollHeartbeat p now => exact pollHeartbeat_clean p now
  | onPong p => exact onPong_clean p
  | schedulerNext p now => exact schedulerNext_clean p now

/-- **A failed call leaves any state unchanged exactly when it does not overflow.** -/
theorem StateCall.clean_iff (state : State) (call : StateCall) :
    ((call.run state).1 ≠ .ok → (call.run state).2 = state) ↔ call.overflows state = false := by
  obtain ⟨op, nullArg⟩ := call
  cases nullArg with
  | true => exact ⟨fun _ => rfl, fun _ _ => rfl⟩
  | false =>
      by_cases h : ∃ p c q, op = .reliableOnData p c q
      · obtain ⟨p, c, q, rfl⟩ := h
        rw [overflows_reliableOnData]
        exact reliableOnData_clean_iff state p c q
      · have hop : ∀ p c q, op ≠ .reliableOnData p c q := fun p c q he => h ⟨p, c, q, he⟩
        refine ⟨fun _ => ?_, fun _ => StateOp.clean hop⟩
        unfold StateCall.overflows
        split
        · rename_i p c q _ he
          exact absurd he (hop p c q)
        · rfl

/-- **Error atomicity, and where it fails**: after any calls, a further call that fails leaves
the state as it was exactly when it does not overflow a receive queue. -/
theorem stateAfter_clean_iff (calls : List StateCall) (call : StateCall) :
    ((call.run (stateAfter calls)).1 ≠ .ok →
        (call.run (stateAfter calls)).2 = stateAfter calls) ↔
      call.overflows (stateAfter calls) = false :=
  StateCall.clean_iff (stateAfter calls) call

/-- One peer with one reliable channel that has received the ids 0 to 7. -/
def eightArrivals : List StateCall :=
  ⟨.addPeer (Vector.replicate 6 0#8), false⟩ :: ⟨.openChannel 0#8 1#8 modeReliable 0#8, false⟩ ::
    (List.range 8).map fun q => ⟨.reliableOnData 0#8 1#8 (BitVec.ofNat 16 q), false⟩

/-- The ninth arrival in order fails, and the engine has moved past it. -/
theorem stateAfter_not_clean :
    ¬ ∀ (calls : List StateCall) (call : StateCall),
      (call.run (stateAfter calls)).1 ≠ .ok →
        (call.run (stateAfter calls)).2 = stateAfter calls := by
  intro h
  have hc := h eightArrivals ⟨.reliableOnData 0#8 1#8 8#16, false⟩
  revert hc
  decide +kernel

end Relinow
