import Mathlib.Algebra.Order.BigOperators.Group.Multiset
import Relinow.Proof.Traffic

/-!
# Whatever is in flight settles

A RELIABLE channel on which nothing more is sent comes to rest. The application does
what its loop does, it polls; the peer may answer or not, other channels may be busy,
and the radio may fail.

A poll that finds nothing to report is quiet: no packet is expired then. At the next
quiet poll after a long wait every packet that is still in flight has been sent again
in between, or it would be expired now. So each such wait costs every packet one of
the events it is good for, and after two more than there are retries none is left.

Quiet polls come by themselves: polled in a row, a node has no more to report than it
has packets that are expired.
-/

namespace Relinow

open SlotTable Runs

/-! ## How near to its end a packet is -/

/-- At most `n` events are left to the packet if it was not expired at `last`, and fewer if it has
had one since. -/
def Pending.Ends (maxRetries : U8) (last : U32) (n : Nat) (slot : Pending) : Prop :=
  slot.inUse = true → slot.triesLeft maxRetries + 1 < n
    ∨ (slot.expired last = false ∧ slot.triesLeft maxRetries < n)

/-- So it is with every packet of the context. -/
def EngineEnds (last : U32) (n : Nat) (ctx : ReliableCtx) : Prop :=
  ∀ i : Fin maxPending, ctx.pending[i].Ends ctx.cfg.maxRetries last n

section EngineEnds

variable {ctx : ReliableCtx} {last now : U32} {n : Nat}

/-- Before the first wait, no packet has more than all its tries. -/
theorem EngineEnds.start (ctx : ReliableCtx) (last : U32) :
    EngineEnds last (ctx.cfg.maxRetries.toNat + 2) ctx := by
  intro i _
  unfold Pending.triesLeft
  omega

/-- An event of a packet is one less to come. -/
theorem EngineEnds.poll (h : EngineEnds last n ctx) (now : U32) :
    EngineEnds last n (reliablePoll ctx now).1 := by
  rcases reliablePoll_slot ctx now with ⟨heq, -⟩ | ⟨i, hexp, ⟨hr, heq⟩ | ⟨hr, heq⟩⟩ <;> rw [heq]
  · exact h
  · intro j
    refine forall_put (Pending.Ends ctx.cfg.maxRetries last n) h i (fun hu => ?_) j
    exact absurd hu Bool.false_ne_true
  · intro j
    refine forall_put (Pending.Ends ctx.cfg.maxRetries last n) h i (fun _ => Or.inl ?_) j
    have hi := h i (expired_inUse hexp)
    rw [triesLeft_resent now hr] at hi
    omega

theorem EngineEnds.onData (h : EngineEnds last n ctx) (q : U16) :
    EngineEnds last n (reliableOnData ctx q).1 := by
  rw [reliableOnData_tx]
  exact h

theorem EngineEnds.onAck (h : EngineEnds last n ctx) (a : U16) (now : U32) :
    EngineEnds last n (reliableOnAck ctx a now) := by
  unfold reliableOnAck
  cases hf : findPendingSlot ctx a with
  | none => exact h
  | some i =>
      intro j
      refine forall_put (Pending.Ends ctx.cfg.maxRetries last n) h i (fun hu => ?_) j
      exact absurd hu Bool.false_ne_true

/-- **A long wait costs every packet an event**: what nobody touched is expired by now. -/
theorem EngineEnds.quiet (h : EngineEnds last n ctx) (hwait : LongWait last now)
    (hquiet : ∀ i : Fin maxPending, ctx.pending[i].expired now = false) :
    EngineEnds now (n - 1) ctx := by
  intro i hu
  refine Or.inr ⟨hquiet i, ?_⟩
  rcases h i hu with htouched | ⟨hno, -⟩
  · omega
  · have hexp := expired_of_wait hu hno hwait
    rw [hquiet i] at hexp
    exact absurd hexp Bool.false_ne_true

/-- With no events to come nothing is in flight. -/
theorem EngineEnds.empty (h : EngineEnds last 0 ctx) : pendingSeqs ctx = 0 := by
  refine keys_of_none _ fun i => ?_
  by_contra hu
  rcases h i ((Bool.not_eq_false _).mp hu) with hlt | ⟨-, hlt⟩
  · exact absurd hlt (Nat.not_lt_zero _)
  · exact absurd hlt (Nat.not_lt_zero _)

end EngineEnds

/-! ## Quiet polls -/

/-- The call is a poll, and there is nothing to report. -/
def NodeRun.quietAt (w : NodeRun) (a : ApiStep) : Option U32 :=
  match a.call with
  | .poll now => if pollReport a.radio w.node now = none then some now else none
  | _ => none

/-- When the quiet polls of a run were made. -/
def quietPolls : NodeRun → List ApiStep → List U32 := marks NodeRun.step NodeRun.quietAt

theorem pollReport_eq (radio : Radio) (node : Node) (now : U32) :
    pollReport radio node now
      = scheduledEvent node.peerIndex (statePollHeartbeat node.state node.peerIndex now).st
          now :=
  congrArg Ret.out (poll_schedules radio node now)

/-- A call of the scheduler that reports nothing finds no channel overdue. -/
theorem not_overdue {state : State} {peerIndex : U8} {now : U32}
    (h : scheduledEvent peerIndex state now = none) (c : U8) :
    ¬ Overdue state peerIndex c now := by
  intro hover
  obtain ⟨channel, hat, -⟩ := id hover
  obtain ⟨r, hr, -⟩ := channelAt_eq_some.mp (reliableAt_eq_some.mp hat).1
  obtain ⟨hp, hu, -⟩ := findChannelMut_eq_some.mp hr
  rcases stateSchedulerNext_pollsOne hp hu now with ⟨-, hno⟩ | ⟨c', polled, idx, -, -, -, heq⟩
  · exact hno c hover
  · unfold scheduledEvent at h
    rw [heq] at h
    exact absurd h (by simp)

/-- **At a quiet poll nothing is expired**, on any channel. -/
theorem pollReport_expired {radio : Radio} {node : Node} {now : U32}
    (h : pollReport radio node now = none) (c : U8) (i : Fin maxPending) :
    (node.engine c).pending[i].expired now = false := by
  by_contra hexp
  have hexp := (Bool.not_eq_false _).mp hexp
  rw [pollReport_eq] at h
  refine not_overdue h c ?_
  -- the heartbeat leaves the channels as they were
  have hsame := (statePollHeartbeat_quiet node.state node.peerIndex now).reliable
  cases hat : node.reliableAt c with
  | some channel =>
      rw [Node.engine_at hat] at hexp
      exact ⟨channel, (congrFun hsame c).trans hat, i, hexp⟩
  | none =>
      have hidle : (node.engine c).pending[i].inUse = false := by
        unfold Node.engine
        rw [hat]
        simp [reliableInit, ReliableCtx.zero, Pending.zero]
      rw [expired_inUse hexp] at hidle
      exact absurd hidle (by decide)

theorem quietAt_expired {w : NodeRun} {a : ApiStep} {now : U32} (h : w.quietAt a = some now)
    (c : U8) (i : Fin maxPending) : (w.node.engine c).pending[i].expired now = false := by
  obtain ⟨radio, call⟩ := a
  cases call with
  | poll now' =>
      obtain ⟨hnone, hnow⟩ := Option.ite_some_none_eq_some.mp h
      rw [← hnow]
      exact pollReport_expired hnone c i
  | _ => exact absurd h (by simp [NodeRun.quietAt])

/-! ## Quiet polls come -/

theorem statePollHeartbeat_channels (state : State) (peerIndex : U8) (now : U32)
    (p : Fin maxPeers) :
    (statePollHeartbeat state peerIndex now).st.peers[p].channels = state.peers[p].channels := by
  unfold statePollHeartbeat
  split
  · dsimp only
    split
    · rfl
    · split
      · split
        · rfl
        · dsimp only
          rw [setPeer_get]
          split
          · rename_i hp
            rw [← hp]
          · rfl
      · rfl
  · rfl

/-- What is due does not come from the heartbeat. -/
theorem dueAt_pollHeartbeat (p : Fin maxPeers) (now : U32) (state : State) (peerIndex : U8) :
    dueAt p now (statePollHeartbeat state peerIndex now).st = dueAt p now state := by
  unfold dueAt peerEvents
  rw [statePollHeartbeat_channels]

/-- The scheduler has no more to do than there are slots. -/
theorem dueAt_le (p : Fin maxPeers) (now : U32) (state : State) :
    dueAt p now state ≤ maxChannelsPerPeer * maxPending := by
  unfold dueAt peerEvents
  rw [Multiset.card_bind]
  refine (Multiset.sum_le_card_nsmul _ maxPending fun k hk => ?_).trans ?_
  · obtain ⟨channel, -, rfl⟩ := Multiset.mem_map.mp hk
    show (channelEvents now channel).card ≤ maxPending
    unfold channelEvents dueEvents
    rw [Multiset.card_map, card_keys]
    exact card_live_le _ _
  · rw [Multiset.card_map]
    exact Nat.mul_le_mul_right _ (card_live_le _ _)

/-- Only for a peer that is there has the scheduler anything to report. -/
theorem scheduledEvent_inUse {state : State} {p : Fin maxPeers} {peerIndex : U8} {now : U32}
    {event : U8 × TxResult} (hp : p.val = peerIndex.toNat)
    (h : scheduledEvent peerIndex state now = some event) : state.peers[p].inUse = true := by
  have hlt : peerIndex.toNat < maxPeers := hp ▸ p.isLt
  obtain rfl : p = ⟨peerIndex.toNat, hlt⟩ := Fin.ext hp
  unfold scheduledEvent stateSchedulerNext at h
  rw [dif_pos hlt] at h
  dsimp only at h
  split at h
  · exact absurd h (by simp)
  · rename_i hu
    simpa using hu

/-- A poll that is not quiet leaves less to do at that time. -/
theorem poll_fewer {radio : Radio} {node : Node} {now : U32} (h : TablesOk node.state)
    {p : Fin maxPeers} (hp : p.val = node.peerIndex.toNat)
    (hev : pollReport radio node now ≠ none) :
    dueAt p now (poll radio node now).2.node.state < dueAt p now node.state := by
  rw [pollReport_eq] at hev
  rw [poll_state, ← dueAt_pollHeartbeat p now node.state node.peerIndex]
  have hbeat : Writes (fun _ => True) node.state
      (statePollHeartbeat node.state node.peerIndex now).st := pollHeartbeat_writes _ now
  have htables := (h.writes hbeat).1
  generalize (statePollHeartbeat node.state node.peerIndex now).st = state at hev htables ⊢
  obtain ⟨event, hevent⟩ := Option.ne_none_iff_exists'.mp hev
  exact Named.fewer hp ⟨htables, scheduledEvent_inUse hp hevent, fun _ => rfl⟩ hevent

/-- A quiet poll leaves as much to do as there was. -/
theorem poll_same {radio : Radio} {node : Node} {now : U32} (p : Fin maxPeers)
    (h : pollReport radio node now = none) :
    dueAt p now (poll radio node now).2.node.state = dueAt p now node.state := by
  rw [pollReport_eq] at h
  rw [poll_state, ← dueAt_pollHeartbeat p now node.state node.peerIndex]
  generalize (statePollHeartbeat node.state node.peerIndex now).st = state at h ⊢
  rcases stateSchedulerNext_serves state node.peerIndex now with ⟨hst, -, -⟩ |
    ⟨p', count, -, -, -, -, heq⟩
  · rw [hst]
  · unfold scheduledEvent at h
    rw [heq] at h
    exact absurd h (by simp)

/-- Each poll of a row is quiet, or takes one away from what there is to do. -/
theorem polls_due (now : U32) {p : Fin maxPeers} (radios : List Radio) :
    ∀ {w : NodeRun}, Conforms w → p.val = w.node.peerIndex.toNat →
      radios.length ≤ (quietPolls w (radios.map fun radio => ⟨radio, .poll now⟩)).length
        + dueAt p now w.node.state := by
  induction radios with
  | nil => exact fun _ _ => Nat.zero_le _
  | cons radio radios ih =>
      intro w hconforms hp
      have hpeer := (sameConfig_step w ⟨radio, .poll now⟩).peerIndex
      have hrest := ih (conforms_step w ⟨radio, .poll now⟩ hconforms)
        (hp.trans (congrArg BitVec.toNat hpeer.symm))
      change _ ≤ _ + dueAt p now (poll radio w.node now).2.node.state at hrest
      unfold quietPolls at hrest ⊢
      rw [List.map_cons, marks_cons, List.length_append, List.length_cons]
      cases hreport : pollReport radio w.node now with
      | none =>
          have hquiet : w.quietAt ⟨radio, .poll now⟩ = some now := if_pos hreport
          rw [poll_same p hreport] at hrest
          rw [hquiet, Option.toList_some, List.length_singleton]
          omega
      | some event =>
          have hne : pollReport radio w.node now ≠ none := by
            rw [hreport]
            simp
          have hless := poll_fewer hconforms.tables hp hne
          omega

/--
**Polled in a row, a node falls quiet.** In every state that a run leads to, of any
number of polls at one and the same time, all are quiet but for as many as there are
packets expired by then on the node's channels; and that is no more than there are
slots for packets. So the loop that polls until there is no event ends.
-/
theorem polls_fallQuiet {node₀ node : Node} {cfg : Config} (hinit : init node₀ cfg = (.ok, node))
    (as : List ApiStep) {w : NodeRun} (hw : w = run NodeRun.step ⟨node, []⟩ as) (now : U32)
    (radios : List Radio) :
    radios.length ≤ (quietPolls w (radios.map fun radio => ⟨radio, .poll now⟩)).length
        + (peerEvents now w.node.state.peers[(0 : Fin maxPeers)]).card
      ∧ (peerEvents now w.node.state.peers[(0 : Fin maxPeers)]).card
        ≤ maxChannelsPerPeer * maxPending := by
  have hconforms : Conforms w := by
    rw [hw]
    exact conforms_run hinit as
  have hpeer : w.node.peerIndex = 0#8 := by
    rw [hw, (sameConfig_run node as).peerIndex]
    obtain ⟨_, _, rfl, -⟩ := init_ok hinit
    rfl
  refine ⟨polls_due now radios hconforms ?_, dueAt_le 0 now w.node.state⟩
  rw [hpeer]
  rfl

/-- Three packets, and nobody acknowledges them: the fourth poll and the fifth are quiet. -/
theorem busySends_fallQuiet :
    5 ≤ (quietPolls (run NodeRun.step ⟨busyNode, []⟩ busySends)
          ((List.replicate 5 Radio.up).map fun radio => ⟨radio, .poll 70000#32⟩)).length + 3
      ∧ 3 ≤ maxChannelsPerPeer * maxPending := by
  have hdue : (peerEvents 70000#32 (run NodeRun.step ⟨busyNode, []⟩
      busySends).node.state.peers[(0 : Fin maxPeers)]).card = 3 := by decide +kernel
  have hrow := polls_fallQuiet busyNode_init busySends rfl 70000#32 (List.replicate 5 Radio.up)
  rw [hdue] at hrow
  exact hrow

/-! ## A node whose application sends nothing more -/

/-- The call is a send on the channel. -/
def ApiStep.sendsOn (c : U8) (a : ApiStep) : Bool :=
  match a.call with
  | .sendReliable c' _ _ => c' == c
  | _ => false

/-- A node with the end that it shows, which is near to rest. -/
structure NodeEnds (c : U8) (last : U32) (n : Nat) (w : NodeRun) (e : LinkEnd) : Prop where
  conforms : Conforms w
  fits : w.node.maxPayload.toNat ≤ maxPayloadLimit
  shows : Shows c w.node w.history e
  ends : EngineEnds last n e.engine

section NodeEnds

variable {c : U8} {last now : U32} {n : Nat} {w : NodeRun} {e : LinkEnd}

theorem EngineEnds.step (h : EngineEnds last n e.engine) {move : EndMove}
    (hmove : ∀ now, move ≠ .send now) : EngineEnds last n (e.step move).engine := by
  cases move with
  | send now => exact absurd rfl (hmove now)
  | poll now =>
      show EngineEnds last n (e.poll now).engine
      rw [(e.poll_engine now).1]
      exact h.poll now
  | onData q => exact h.onData q
  | onAck a now => exact h.onAck a now

/-- **No call but a send on the channel adds an event.** -/
theorem NodeEnds.step (hc : c ≠ heartbeatChannel) (h : NodeEnds c last n w e) {a : ApiStep}
    (ha : a.sendsOn c = false) : ∃ e', NodeEnds c last n (w.step a) e' := by
  obtain ⟨moves, hmoves⟩ := shows_step hc h.conforms.cached h.fits h.shows a
  have hnone : ∀ move ∈ moves, ∀ now, move ≠ EndMove.send now := by
    intro move hm now hsend
    have hof := hmoves.of move hm
    rw [hsend] at hof
    unfold ApiStep.sendsOn at ha
    cases hcall : a.call with
    | sendReliable c' payload now' =>
        rw [hcall] at ha hof
        exact beq_eq_false_iff_ne.mp ha hof
    | _ =>
        rw [hcall] at hof
        exact hof
  refine ⟨_, conforms_step w a h.conforms, ?_, hmoves.shows, ?_⟩
  · rw [(sameConfig_step w a).maxPayload]
    exact h.fits
  · exact invariant (I := fun e : LinkEnd => EngineEnds last n e.engine)
      (fun _ _ hs hm => hs.step hm) h.ends (Along.of_mem hnone _)

/-- At a quiet poll after a long wait there is one event less to come. -/
theorem NodeEnds.quiet (h : NodeEnds c last n w e) {a : ApiStep} (hquiet : w.quietAt a = some now)
    (hwait : LongWait last now) : NodeEnds c now (n - 1) w e := by
  refine ⟨h.conforms, h.fits, h.shows, h.ends.quiet hwait fun i => ?_⟩
  have hno := quietAt_expired hquiet c i
  rw [h.shows.engine] at hno
  exact hno

end NodeEnds

/--
**Whatever is in flight settles.** Let any run of a node go on with any calls but sends
on the channel, among them `max_retries + 2` quiet polls with long waits between them.
Then nothing is in flight on the channel any more, whatever arrived and whatever
became of the frames.
-/
theorem reliable_settles {node₀ node : Node} {cfg : Config} (hinit : init node₀ cfg = (.ok, node))
    (as bs : List ApiStep) {c : U8} (hnone : ∀ b ∈ bs, b.sendsOn c = false) {w : NodeRun}
    (hw : w = run NodeRun.step ⟨node, []⟩ as) (times : List U32)
    (hsub : times.Sublist (quietPolls w bs)) (hwait : times.IsChain LongWait)
    (hlen : (reliableInit (cfg.engineCfg c)).cfg.maxRetries.toNat + 2 ≤ times.length) :
    pendingSeqs ((run NodeRun.step w bs).node.engine c) = 0 := by
  by_cases hc : c = heartbeatChannel
  · -- no reliable channel has this id
    have htables : TablesOk (run NodeRun.step w bs).node.state := by
      rw [hw, ← run_append]
      exact tablesOk_run hinit (as ++ bs)
    have hat : (run NodeRun.step w bs).node.reliableAt c = none :=
      Option.eq_none_iff_forall_ne_some.mpr fun channel hch => htables.notHeartbeat hch hc
    unfold Node.engine
    rw [hat]
    exact pendingSeqs_init none
  · obtain ⟨e, h⟩ := nodeFrugal_run hc as (nodeFrugal_init hinit c)
    rw [← hw] at h
    cases times with
    | nil => exact absurd hlen (by simp)
    | cons now times =>
        -- what was in flight before the first quiet poll has all its tries
        have hfirst : LongWait (now - 65535#32) now := by
          unfold LongWait
          bv_omega
        have hstart := EngineEnds.start e.engine (now - 65535#32)
        rw [h.frugal.retries] at hstart
        have hstep : ∀ last n w (b : ApiStep), b.sendsOn c = false →
            (∃ e, NodeEnds c last n w e) → ∃ e, NodeEnds c last n (w.step b) e :=
          fun _ _ _ _ hb ⟨_, hs⟩ => hs.step hc hb
        have hmark : ∀ last now n w b, NodeRun.quietAt w b = some now → LongWait last now →
            (∃ e, NodeEnds c last n w e) → ∃ e, NodeEnds c now (n - 1) w e :=
          fun _ _ _ _ _ hquiet hlong ⟨e, hs⟩ => ⟨e, hs.quiet hquiet hlong⟩
        obtain ⟨last, e', hend⟩ := marks_countdown hstep hmark hnone
          ⟨e, h.conforms, h.fits, h.shows, hstart⟩ hsub
          (List.isChain_cons_cons.mpr ⟨hfirst, hwait⟩) hlen
        rw [hend.shows.engine]
        exact hend.ends.empty

/-- The peer is there, for its packets arrive, but it acknowledges nothing. -/
def deafPeer : List ApiStep :=
  [70000#32, 140000#32, 210000#32, 280000#32, 350000#32].flatMap fun now =>
    byteArrives 1#8 0#8 7#8 :: List.replicate 4 ⟨Radio.up, .poll now⟩

theorem deafPeer_settles :
    pendingSeqs ((run NodeRun.step (run NodeRun.step ⟨busyNode, []⟩ busySends) deafPeer).node.engine
      1#8) = 0 :=
  reliable_settles busyNode_init busySends deafPeer (by decide) rfl
    [70000#32, 140000#32, 210000#32, 280000#32, 350000#32] (by decide +kernel) (by decide)
    (by decide +kernel)

end Relinow
