import Relinow.Proof.Scheduler
import Relinow.Proof.RttEstimate
import Mathlib.Data.Multiset.Bind

/-!
# Draining the scheduler

At one instant the scheduler has a fixed amount of work: an event for each packet
of the peer that is expired. A call takes one away. It cannot add one, since a
packet that is sent again gets a timeout of at least a millisecond, and none has
passed; the packets of other slots and other channels it leaves alone.

So the work is a multiset of events, of the engine and then of the whole peer,
and the rule for draining does the rest.
-/

namespace Relinow

open SlotTable Runs

/-! ## One engine -/

/-- What a poll reports of an expired packet. -/
def Pending.dueEvent (maxRetries : U8) (slot : Pending) : TxResult :=
  ⟨if maxRetries ≤ slot.retries then .failed else .retransmit, slot.seqId⟩

/-- The events a context has to report. -/
def dueEvents (now : U32) (ctx : ReliableCtx) : Multiset TxResult :=
  keys (Pending.expired now) (Pending.dueEvent ctx.cfg.maxRetries) ctx.pending

/-- A packet that was just sent again is not expired. -/
theorem resent_not_expired (ctx : ReliableCtx) (slot : Pending) (now : U32) :
    (resentPending ctx slot now).expired now = false := by
  have hpos := computeTimeoutMs_pos ctx.rttEstimateMs (slot.retries + 1#8)
  unfold Pending.expired resentPending
  dsimp only
  rw [BitVec.sub_self, Bool.and_eq_false_iff, decide_eq_false_iff_not]
  right
  show ¬ _ ≤ 0
  omega

/-- **A poll reports one of the events and leaves the others**, or there are none. -/
theorem reliablePoll_due (ctx : ReliableCtx) (now : U32) :
    (reliablePoll ctx now = (ctx, ⟨.none, 0#16⟩) ∧ dueEvents now ctx = 0)
    ∨ ((reliablePoll ctx now).2.event ≠ .none
      ∧ dueEvents now ctx
        = (reliablePoll ctx now).2 ::ₘ dueEvents now (reliablePoll ctx now).1) := by
  unfold reliablePoll
  cases hf : firstIdx (Pending.expired now) ctx.pending with
  | none => exact Or.inl ⟨rfl, keys_of_none _ (firstIdx_eq_none.mp hf)⟩
  | some i =>
      have hexp := firstIdx_sat hf
      right
      dsimp only
      by_cases hr : ctx.cfg.maxRetries ≤ ctx.pending[i].retries
      · rw [if_pos hr]
        have hrel := keys_release (Pending.dueEvent ctx.cfg.maxRetries)
          (x := { ctx.pending[i] with inUse := false }) hexp rfl
        rw [show ctx.pending[i].dueEvent ctx.cfg.maxRetries = ⟨.failed, ctx.pending[i].seqId⟩ by
          unfold Pending.dueEvent
          rw [if_pos hr]] at hrel
        exact ⟨by simp, hrel⟩
      · rw [if_neg hr]
        have hrel := keys_release (Pending.dueEvent ctx.cfg.maxRetries) hexp
          (resent_not_expired ctx ctx.pending[i] now)
        rw [show ctx.pending[i].dueEvent ctx.cfg.maxRetries = ⟨.retransmit, ctx.pending[i].seqId⟩ by
          unfold Pending.dueEvent
          rw [if_neg hr]] at hrel
        exact ⟨by simp, hrel⟩

/-! ## A peer -/

/-- A channel the scheduler looks after. -/
def ChannelState.isReliable (channel : ChannelState) : Bool :=
  channel.inUse && channel.mode == modeReliable

/-- The events of a channel, under its id. -/
def channelEvents (now : U32) (channel : ChannelState) : Multiset (U8 × TxResult) :=
  (dueEvents now channel.reliable).map (Prod.mk channel.channelId)

/-- The events of all reliable channels of a peer: one for each pending slot that is expired. -/
def peerEvents (now : U32) (peer : PeerState) : Multiset (U8 × TxResult) :=
  (live ChannelState.isReliable peer.channels).bind (channelEvents now)

/-- What a call hands back. -/
def scheduledEvent (peerIndex : U8) (state : State) (now : U32) : Option (U8 × TxResult) :=
  (stateSchedulerNext state peerIndex now).out

/-- A peer none of whose channels is overdue has no events. -/
theorem peerEvents_none {state : State} (h : TablesOk state) {p : Fin maxPeers} {peerIndex : U8}
    (hp : p.val = peerIndex.toNat) (hu : state.peers[p].inUse = true) {now : U32}
    (hno : ∀ c, ¬ Overdue state peerIndex c now) : peerEvents now state.peers[p] = 0 := by
  rw [Multiset.eq_zero_iff_forall_notMem]
  intro e he
  obtain ⟨channel, hlive, he⟩ := Multiset.mem_bind.mp he
  obtain ⟨j, hj, hrel⟩ := mem_live.mp hlive
  obtain ⟨hin, hm⟩ := Bool.and_eq_true_iff.mp hrel
  obtain ⟨tx, htx, _⟩ := Multiset.mem_map.mp he
  obtain ⟨i, hexp, _⟩ := mem_keys.mp htx
  have hslot : state.channel (p, j) = channel := hj
  have hr := findChannelMut_of_inUse (r := (p, j)) h hp hu (by rw [hslot]; exact hin)
  refine hno (state.channel (p, j)).channelId ⟨channel, ?_, i, hexp⟩
  exact reliableAt_eq_some.mpr ⟨channelAt_eq_some.mpr ⟨_, hr, hslot⟩, beq_iff_eq.mp hm⟩

/-- Polling the channel in one slot takes its event out of the peer's. -/
theorem peerEvents_poll {now : U32} {peer peer' : PeerState} {j : Fin maxChannelsPerPeer}
    {channel' : ChannelState} (hch : peer'.channels = peer.channels.put j channel')
    (hrel : peer.channels[j].isReliable = true)
    (hev : (reliablePoll peer.channels[j].reliable now).2.event ≠ .none)
    (heng : channel'.reliable = (reliablePoll peer.channels[j].reliable now).1)
    (hn : SameName peer.channels[j] channel') :
    peerEvents now peer
      = (peer.channels[j].channelId, (reliablePoll peer.channels[j].reliable now).2)
        ::ₘ peerEvents now peer' := by
  have hrel' : channel'.isReliable = true := by
    unfold ChannelState.isReliable at hrel ⊢
    rwa [hn.inUse, hn.mode]
  obtain ⟨rest, hbefore, hafter⟩ := live_replace hrel hrel'
  unfold peerEvents
  rw [hch, hbefore, hafter, Multiset.cons_bind, Multiset.cons_bind, ← Multiset.cons_add]
  congr 1
  unfold channelEvents
  rw [hn.channelId, heng]
  rcases reliablePoll_due peer.channels[j].reliable now with ⟨heq, _⟩ | ⟨_, hdue⟩
  · rw [heq] at hev
    exact absurd rfl hev
  · rw [hdue, Multiset.map_cons]

/-- The channels of a peer after one is written. -/
theorem setChannel_channels (state : State) (p : Fin maxPeers) (j : Fin maxChannelsPerPeer)
    (channel : ChannelState) :
    (state.setChannel (p, j) channel).peers[p].channels
      = state.peers[p].channels.put j channel := by
  unfold State.setChannel
  dsimp only
  rw [setPeer_get, if_pos rfl]

/-- **A call takes one event away**, or there are none. -/
theorem Named.drains {names : State} {p : Fin maxPeers} {peerIndex : U8} {state : State}
    (hp : p.val = peerIndex.toNat) (h : Named names p peerIndex state) (now : U32) :
    (scheduledEvent peerIndex state now = none ∧ schedule peerIndex state now = state
        ∧ peerEvents now state.peers[p] = 0)
    ∨ ∃ e, scheduledEvent peerIndex state now = some e
        ∧ Named names p peerIndex (schedule peerIndex state now)
        ∧ peerEvents now state.peers[p]
          = e ::ₘ peerEvents now (schedule peerIndex state now).peers[p] := by
  have hkeep := h.keep now
  unfold scheduledEvent
  unfold schedule at hkeep ⊢
  rcases stateSchedulerNext_pollsOne hp h.inUse now with
    ⟨heq, hno⟩ | ⟨c, polled, idx, rfl, _, hev, heq⟩
  · rw [heq]
    exact Or.inl ⟨rfl, rfl, peerEvents_none h.tables hp h.inUse hno⟩
  · rcases stateReliablePoll_cases state peerIndex c now with ⟨_, hnone, _⟩ |
      ⟨channel, channel', state', ⟨⟨p', j⟩, hr, hch, hin', hid', hst⟩, hm, hev', hfr, hpoll⟩
    · exact absurd hnone hev
    · obtain rfl : p' = p := Fin.ext ((findChannelMut_eq_some.mp hr).1.trans hp.symm)
      obtain ⟨hin, hid⟩ := findChannelMut_found hr
      change state.peers[p'].channels[j] = channel at hch
      subst hch
      refine Or.inr ⟨_, congrArg Ret.out heq, hkeep, ?_⟩
      rw [heq, hpoll]
      dsimp only
      rw [setPeer_get, if_pos rfl]
      have hrel : state.peers[p'].channels[j].isReliable = true := by
        unfold ChannelState.isReliable
        rw [Bool.and_eq_true, beq_iff_eq]
        exact ⟨hin, hm⟩
      have hmode : channel'.mode = state.peers[p'].channels[j].mode := by rw [hfr]
      have hchannels : state'.peers[p'].channels = state.peers[p'].channels.put j channel' := by
        rw [hst, setChannel_channels]
      rw [show c = state.peers[p'].channels[j].channelId from hid.symm]
      exact peerEvents_poll hchannels hrel hev' (by rw [hfr]) ⟨hin', hid', hmode⟩

/--
**Draining the scheduler handles every expired packet once.** In every state the
operations lead to, calls at one and the same time hand back one event for each
pending slot of the peer's reliable channels that is expired by then, under the
channel and the id it has, and after that no event however often they are made. So
the loop that polls until there is no event ends.
-/
theorem scheduler_drains (calls : List StateCall) (p : Fin maxPeers) (peerIndex : U8)
    (hp : p.val = peerIndex.toNat) (hu : (stateAfter calls).peers[p].inUse = true) (now : U32) :
    ∃ events : List (U8 × TxResult),
      (events : Multiset (U8 × TxResult)) = peerEvents now (stateAfter calls).peers[p]
      ∧ (∀ m, outputs (schedule peerIndex) (scheduledEvent peerIndex) (stateAfter calls)
          (List.replicate (events.length + m) now)
        = events.map some ++ List.replicate m none)
      ∧ LoopRuns (untilNone (schedule peerIndex) (scheduledEvent peerIndex) now) (stateAfter calls)
          (events.length + 1)
          (run (schedule peerIndex) (stateAfter calls) (List.replicate events.length now)) := by
  have hnamed : Named (stateAfter calls) p peerIndex (stateAfter calls) :=
    ⟨(stateAfter_tables calls).1, hu, fun _ => rfl⟩
  have hstep := fun state (h : Named (stateAfter calls) p peerIndex state) => h.drains hp now
  exact drained hstep hnamed

/-- A packet that was sent once, and one on another channel that has had its only retry. -/
def lastTry : List StateCall :=
  [⟨.addPeer (Vector.replicate 6 0#8), false⟩, ⟨.openChannel 0#8 4#8 modeReliable 0#8, false⟩,
    ⟨.openChannel 0#8 7#8 modeReliable 0#8, false⟩,
    ⟨.setReliableConfig 0#8 7#8 ⟨1#8, 50#16, 32#8⟩, false⟩,
    ⟨.reliableSend 0#8 4#8 1000#32, false⟩, ⟨.reliableSend 0#8 7#8 1000#32, false⟩,
    ⟨.reliablePoll 0#8 7#8 2000#32, false⟩]

theorem lastTry_drains :
    ∃ events : List (U8 × TxResult),
      (events : Multiset (U8 × TxResult)) = {(4#8, ⟨.retransmit, 0#16⟩), (7#8, ⟨.failed, 0#16⟩)}
      ∧ ∀ m, outputs (schedule 0#8) (scheduledEvent 0#8) (stateAfter lastTry)
          (List.replicate (events.length + m) 3000#32)
        = events.map some ++ List.replicate m none := by
  obtain ⟨events, hevents, houts, _⟩ :=
    scheduler_drains lastTry 0 0#8 rfl (by decide +kernel) 3000#32
  exact ⟨events, hevents.trans (by decide +kernel), houts⟩

end Relinow
