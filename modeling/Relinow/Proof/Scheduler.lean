import Relinow.Lib.RoundRobin
import Relinow.Proof.ReliableChannels
import Relinow.Proof.StateTables

/-!
# The scheduler is fair

`relinow_state_scheduler_next` goes round the sixteen channel slots of a peer,
starting behind the one it served last, and polls each reliable channel until a
poll reports something. A poll that reports nothing changes nothing, so what a
call does is one poll, of the first channel that has an expired packet.

That is round robin over the slots. Ids are found in the same slots all along,
so what it says of slots holds of channels.
-/

namespace Relinow

open SlotTable Runs

/-- Channel `c` of the peer is reliable and has a packet whose timeout has run out. -/
def Overdue (state : State) (peerIndex c : U8) (now : U32) : Prop :=
  ∃ channel ∈ reliableAt state peerIndex c,
    ∃ i : Fin maxPending, channel.reliable.pending[i].expired now = true

instance (state : State) (peerIndex c : U8) (now : U32) :
    Decidable (Overdue state peerIndex c now) :=
  inferInstanceAs (Decidable (∃ channel ∈ reliableAt state peerIndex c,
    ∃ i : Fin maxPending, channel.reliable.pending[i].expired now = true))

/-! ## One call -/

/-- The engine reports an event if a packet is expired. -/
theorem reliablePoll_reports {ctx : ReliableCtx} {now : U32} :
    (reliablePoll ctx now).2.event ≠ .none ↔
      ∃ i : Fin maxPending, ctx.pending[i].expired now = true := by
  rcases reliablePoll_cases ctx now with ⟨heq, hno⟩ | ⟨i, ctx', hi, _, ⟨_, heq, _⟩ | ⟨_, heq, _⟩⟩
  · rw [heq]
    refine ⟨fun h => absurd rfl h, ?_⟩
    rintro ⟨i, hi⟩
    rw [hno] at hi
    exact absurd hi Bool.false_ne_true
  · rw [heq]
    exact ⟨fun _ => ⟨i, firstIdx_sat hi⟩, fun _ => by simp⟩
  · rw [heq]
    exact ⟨fun _ => ⟨i, firstIdx_sat hi⟩, fun _ => by simp⟩

theorem stateReliablePoll_reports {state : State} {peerIndex c : U8} {now : U32} :
    (stateReliablePoll state peerIndex c now).out.event ≠ .none ↔
      Overdue state peerIndex c now := by
  unfold Overdue
  rcases stateReliablePoll_cases state peerIndex c now with ⟨_, hnone, hall⟩ |
    ⟨channel, channel', state', hrw, hm, hev, hfr, heq⟩
  · refine ⟨fun h => absurd hnone h, ?_⟩
    rintro ⟨channel, hat, hexp⟩
    obtain ⟨hat, hm⟩ := reliableAt_eq_some.mp hat
    exact absurd (hall channel hat hm) (reliablePoll_reports.mpr hexp)
  · rw [heq]
    exact ⟨fun h => ⟨channel, reliableAt_eq_some.mpr ⟨hrw.before, hm⟩, reliablePoll_reports.mp h⟩,
      fun _ => hev⟩

/-- The call is one poll, of the channel it returns, but for `last_polled_channel_idx`; or no
channel is overdue and it changes nothing. -/
def PollsOne (state : State) (p : Fin maxPeers) (peerIndex : U8) (now : U32) : Prop :=
  (stateSchedulerNext state peerIndex now = ⟨.ok, state, none⟩
    ∧ ∀ c, ¬ Overdue state peerIndex c now)
  ∨ ∃ (c : U8) (polled : Ret StateErr State TxResult) (idx : U8),
      polled = stateReliablePoll state peerIndex c now ∧ polled.rc = .ok
      ∧ polled.out.event ≠ .none
      ∧ stateSchedulerNext state peerIndex now =
        ⟨.ok, polled.st.setPeer p { polled.st.peers[p] with lastPolledChannelIdx := idx },
          some (c, polled.out)⟩

theorem stateSchedulerNext_rc {state : State} {p : Fin maxPeers} {peerIndex : U8}
    (hp : p.val = peerIndex.toNat) (hu : state.peers[p].inUse = true) (now : U32) :
    (stateSchedulerNext state peerIndex now).rc = .ok := by
  have hlt : peerIndex.toNat < maxPeers := hp ▸ p.isLt
  obtain rfl : p = ⟨peerIndex.toNat, hlt⟩ := Fin.ext hp
  unfold stateSchedulerNext
  rw [dif_pos hlt]
  dsimp only
  rw [if_neg (by simpa using hu)]

/-- Each slot has its round. -/
theorem scheduled_round (state : State) (p : Fin maxPeers) (j : Fin maxChannelsPerPeer) :
    scheduled state p (RoundRobin.round state.peers[p].lastPolledChannelIdx.toNat j)
      = state.channel (p, j) := by
  show state.channel (p, RoundRobin.look maxChannelsPerPeer _ _) = _
  rw [RoundRobin.look_round]

/-- A channel that is overdue is due in the round that comes to its slot. -/
theorem overdue_due {state : State} {p : Fin maxPeers} {peerIndex c : U8} {now : U32}
    (hp : p.val = peerIndex.toNat) (h : Overdue state peerIndex c now) :
    ∃ k, k < maxChannelsPerPeer ∧ Due state p peerIndex now k := by
  have hev := stateReliablePoll_reports.mpr h
  obtain ⟨channel, hat, _⟩ := h
  obtain ⟨hat, hm⟩ := reliableAt_eq_some.mp hat
  obtain ⟨⟨p', j⟩, hr, rfl⟩ := channelAt_eq_some.mp hat
  obtain rfl : p' = p := Fin.ext ((findChannelMut_eq_some.mp hr).1.trans hp.symm)
  obtain ⟨hin, hid⟩ := findChannelMut_found hr
  refine ⟨RoundRobin.round state.peers[p'].lastPolledChannelIdx.toNat j,
    RoundRobin.round_lt _ j, ?_⟩
  unfold Due
  rw [scheduled_round, hid]
  exact ⟨hin, hm, hev⟩

theorem stateSchedulerNext_pollsOne {state : State} {p : Fin maxPeers} {peerIndex : U8}
    (hp : p.val = peerIndex.toNat) (hu : state.peers[p].inUse = true) (now : U32) :
    PollsOne state p peerIndex now := by
  rcases stateSchedulerNext_serves state peerIndex now with ⟨hst, hout, hno⟩ |
    ⟨p', count, hp', hlt, hdue, _, heq⟩
  · have hret : stateSchedulerNext state peerIndex now = ⟨.ok, state, none⟩ := by
      have hrc := stateSchedulerNext_rc hp hu now
      generalize stateSchedulerNext state peerIndex now = r at hst hout hrc
      obtain ⟨rc, st, out⟩ := r
      dsimp only at hst hout hrc
      rw [hst, hout, hrc]
    refine Or.inl ⟨hret, fun c hc => ?_⟩
    obtain ⟨k, hk, hdue⟩ := overdue_due hp hc
    exact hno p hp hu k hk hdue
  · obtain rfl : p' = p := Fin.ext (hp'.trans hp.symm)
    refine Or.inr ⟨(scheduled state p' count).channelId, _, _, rfl, ?_, hdue.2.2, heq⟩
    rcases stateReliablePoll_cases state peerIndex (scheduled state p' count).channelId now with
      ⟨_, hnone, _⟩ | ⟨_, _, _, _, _, _, _, hpoll⟩
    · exact absurd hnone hdue.2.2
    · rw [hpoll]

/-! ## The slots in a circle -/

/-- The slot a channel is found in. -/
def slotOf (state : State) (peerIndex c : U8) : Option (Fin maxChannelsPerPeer) :=
  (findChannelMut state peerIndex c).map Prod.snd

theorem slotOf_eq_some {state : State} {p : Fin maxPeers} {peerIndex c : U8}
    {j : Fin maxChannelsPerPeer} (hp : p.val = peerIndex.toNat) :
    slotOf state peerIndex c = some j ↔ findChannelMut state peerIndex c = some (p, j) := by
  unfold slotOf
  rw [Option.map_eq_some_iff]
  constructor
  · rintro ⟨⟨p', j'⟩, hr, rfl⟩
    obtain rfl : p' = p := Fin.ext ((findChannelMut_eq_some.mp hr).1.trans hp.symm)
    exact hr
  · exact fun hr => ⟨(p, j), hr, rfl⟩

/-- The state after a call. -/
def schedule (peerIndex : U8) (state : State) (now : U32) : State :=
  (stateSchedulerNext state peerIndex now).st

/-- The channel a call returns an event for. -/
def servedChannel (peerIndex : U8) (state : State) (now : U32) : Option U8 :=
  (stateSchedulerNext state peerIndex now).out.map Prod.fst

/-- Round robin over the slots of a peer; ids name the slots they have in `names`. -/
def slotScheduler (names : State) (p : Fin maxPeers) (peerIndex : U8) :
    RoundRobin.Scheduler State U32 maxChannelsPerPeer where
  step := schedule peerIndex
  served state now := (servedChannel peerIndex state now).bind (slotOf names peerIndex)
  last state := state.peers[p].lastPolledChannelIdx.toNat
  due state now j := (state.channel (p, j)).inUse = true
    ∧ (state.channel (p, j)).mode = modeReliable
    ∧ (stateReliablePoll state peerIndex (state.channel (p, j)).channelId now).out.event ≠ .none

/-- The peer is there, and its channels are found where they are in `names`. -/
structure Named (names : State) (p : Fin maxPeers) (peerIndex : U8) (state : State) : Prop where
  tables : TablesOk state
  inUse : state.peers[p].inUse = true
  found : ∀ c, findChannelMut state peerIndex c = findChannelMut names peerIndex c

theorem schedule_found (state : State) (peerIndex : U8) (now : U32) (p c : U8) :
    findChannelMut (schedule peerIndex state now) p c = findChannelMut state p c := by
  unfold schedule
  rcases stateSchedulerNext_serves state peerIndex now with ⟨hst, _, _⟩ |
    ⟨p', count, _, _, _, _, heq⟩
  · rw [hst]
  · rw [heq]
    have hpoll : ∀ c', findChannelMut (stateReliablePoll state peerIndex c' now).st p c
        = findChannelMut state p c := by
      intro c'
      show findChannelMut ((ChannelOp.reliablePoll now).run state peerIndex c').st p c = _
      cases hr : findChannelMut state peerIndex c' with
      | none => rw [ChannelOp.run_absent hr]
      | some r =>
          rw [ChannelOp.run_eq hr]
          have hn := ChannelOp.act_name (state.channel r) (.reliablePoll now)
          exact findChannelMut_setChannel hn.inUse hn.channelId p c
    rw [← hpoll (scheduled state p' count).channelId]
    unfold serve
    refine findChannelMut_congr (fun i => ?_) (fun r => ?_)
    · rw [setPeer_get]
      split
      · rename_i h
        rw [h]
      · rfl
    · rw [setPeer_channel]
      split
      · rename_i h
        rw [h]
        exact ⟨rfl, rfl⟩
      · exact ⟨rfl, rfl⟩

theorem Named.keep {names : State} {p : Fin maxPeers} {peerIndex : U8} {state : State}
    (h : Named names p peerIndex state) (now : U32) :
    Named names p peerIndex (schedule peerIndex state now) := by
  have hw : Writes (fun _ => True) state (schedule peerIndex state now) :=
    schedulerNext_writes (fun _ => trivial) peerIndex now
  obtain ⟨hok, hgrows⟩ := h.tables.writes hw
  exact ⟨hok, (hgrows.peers p h.inUse).1,
    fun c => (schedule_found state peerIndex now peerIndex c).trans (h.found c)⟩

/-- **The scheduler serves the slots in turn.** -/
theorem Named.inTurn {names : State} {p : Fin maxPeers} {peerIndex : U8} {state : State}
    (hp : p.val = peerIndex.toNat) (h : Named names p peerIndex state) (now : U32) :
    (slotScheduler names p peerIndex).InTurn state now := by
  have hround : ∀ j : Fin maxChannelsPerPeer,
      Due state p peerIndex now (RoundRobin.round state.peers[p].lastPolledChannelIdx.toNat j) ↔
        (slotScheduler names p peerIndex).due state now j := by
    intro j
    unfold Due
    rw [scheduled_round]
    exact Iff.rfl
  rcases stateSchedulerNext_serves state peerIndex now with ⟨_, hout, hno⟩ |
    ⟨p', count, hp', hlt, hdue, hfirst, heq⟩
  · refine Or.inl ⟨?_, fun j hj => hno p hp h.inUse _ (RoundRobin.round_lt _ j) ((hround j).mpr hj)⟩
    show ((stateSchedulerNext state peerIndex now).out.map Prod.fst).bind _ = none
    rw [hout]
    rfl
  · obtain rfl : p' = p := Fin.ext (hp'.trans hp.symm)
    have hcount := RoundRobin.round_look (n := maxChannelsPerPeer)
      state.peers[p'].lastPolledChannelIdx.toNat hlt
    refine Or.inr ⟨pollIdx state.peers[p'].lastPolledChannelIdx count, ?_, fun j hj => ?_, ?_⟩
    · show ((stateSchedulerNext state peerIndex now).out.map Prod.fst).bind _ = _
      rw [heq]
      show slotOf names peerIndex (scheduled state p' count).channelId = _
      rw [slotOf_eq_some hp', ← h.found]
      exact findChannelMut_of_inUse (r := (p', _)) h.tables hp' h.inUse hdue.1
    · exact fun hdue' => hfirst _ (lt_of_lt_of_eq hj hcount) ((hround j).mpr hdue')
    · show (stateSchedulerNext state peerIndex now).st.peers[p'].lastPolledChannelIdx.toNat = _
      rw [heq]
      unfold serve
      dsimp only
      rw [setPeer_get, if_pos rfl, BitVec.toNat_ofNat]
      exact Nat.mod_eq_of_lt (lt_of_lt_of_le (Fin.isLt _) (by decide))

/-! ## From slots to channels -/

/-- The slot a channel is found in is due while the channel is overdue. -/
theorem Named.due {names : State} {p : Fin maxPeers} {peerIndex c : U8} {state : State}
    {j : Fin maxChannelsPerPeer} {now : U32} (h : Named names p peerIndex state)
    (hj : findChannelMut names peerIndex c = some (p, j))
    (hover : Overdue state peerIndex c now) :
    (slotScheduler names p peerIndex).due state now j := by
  have hev := stateReliablePoll_reports.mpr hover
  obtain ⟨channel, hat, _⟩ := hover
  obtain ⟨hat, hm⟩ := reliableAt_eq_some.mp hat
  obtain ⟨r, hr, rfl⟩ := channelAt_eq_some.mp hat
  obtain rfl : r = (p, j) := Option.some.inj (hr.symm.trans ((h.found c).trans hj))
  obtain ⟨hin, hid⟩ := findChannelMut_found hr
  exact ⟨hin, hm, hid.symm ▸ hev⟩

/-- A channel is served when its slot is. -/
theorem served_slot {names : State} {p : Fin maxPeers} {peerIndex c : U8}
    {j : Fin maxChannelsPerPeer} (hp : p.val = peerIndex.toNat)
    (hj : findChannelMut names peerIndex c = some (p, j)) {served : List (Option U8)} :
    some j ∈ served.map (fun o => o.bind (slotOf names peerIndex)) ↔ some c ∈ served := by
  rw [List.mem_map]
  constructor
  · rintro ⟨o, ho, hslot⟩
    obtain ⟨c', rfl, hc'⟩ := Option.bind_eq_some_iff.mp hslot
    have hr := (slotOf_eq_some hp).mp hc'
    rwa [(findChannelMut_found hj).2.symm.trans (findChannelMut_found hr).2]
  · exact fun ho => ⟨some c, ho, (slotOf_eq_some hp).mpr hj⟩

/-- The channels the calls return events for. -/
def servedAt (peerIndex : U8) (state : State) (times : List U32) : List (Option U8) :=
  outputs (schedule peerIndex) (servedChannel peerIndex) state times

/-- A channel that is not open is never overdue. -/
theorem Overdue.found {state : State} {peerIndex c : U8} {now : U32}
    (h : Overdue state peerIndex c now) : ∃ r, findChannelMut state peerIndex c = some r := by
  obtain ⟨channel, hat, _⟩ := h
  obtain ⟨r, hr, _⟩ := channelAt_eq_some.mp (reliableAt_eq_some.mp hat).1
  exact ⟨r, hr⟩

/-- **The scheduler is fair**, in a state whose tables are in order. -/
theorem TablesOk.fair {state : State} (h : TablesOk state) {p : Fin maxPeers} {peerIndex : U8}
    (hp : p.val = peerIndex.toNat) (hu : state.peers[p].inUse = true) {c : U8} {times : List U32}
    (hdue : ∀ k now, times[k]? = some now → some c ∉ servedAt peerIndex state (times.take k) →
      Overdue (run (schedule peerIndex) state (times.take k)) peerIndex c now) :
    (maxChannelsPerPeer ≤ times.length →
        some c ∈ servedAt peerIndex state (times.take maxChannelsPerPeer))
      ∧ ∀ k, some c ∉ servedAt peerIndex state (times.take k) →
        (servedAt peerIndex state (times.take k)).Nodup := by
  have hnamed : Named state p peerIndex state := ⟨h, hu, fun _ => rfl⟩
  cases hr : findChannelMut state peerIndex c with
  | none =>
      cases times with
      | nil => exact ⟨fun hlen => absurd hlen (by decide), fun k _ => by
          rw [List.take_nil]
          exact List.nodup_nil⟩
      | cons now times =>
          obtain ⟨r, hr'⟩ := (hdue 0 now rfl List.not_mem_nil).found
          exact absurd (hr.symm.trans hr') (by simp)
  | some r =>
      obtain ⟨p', j⟩ := r
      obtain rfl : p' = p := Fin.ext ((findChannelMut_eq_some.mp hr).1.trans hp.symm)
      have hkeep : ∀ s now, Named state p' peerIndex s →
          Named state p' peerIndex (schedule peerIndex s now) := fun s now hs => hs.keep now
      have hturn : ∀ s now, Named state p' peerIndex s →
          (slotScheduler state p' peerIndex).InTurn s now := fun s now hs => hs.inTurn hp now
      have hslots : ∀ k, outputs (schedule peerIndex) (slotScheduler state p' peerIndex).served
          state (times.take k) = (servedAt peerIndex state (times.take k)).map fun o =>
            o.bind (slotOf state peerIndex) :=
        fun k => outputs_map (f := fun o : Option U8 => o.bind (slotOf state peerIndex))
      have hmem : ∀ k, some j ∈ outputs (schedule peerIndex)
          (slotScheduler state p' peerIndex).served state (times.take k) ↔
            some c ∈ servedAt peerIndex state (times.take k) := by
        intro k
        rw [hslots]
        exact served_slot hp hr
      -- the slot is due whenever the channel is overdue
      have hdue' : ∀ k now, times[k]? = some now →
          some j ∉ outputs (schedule peerIndex) (slotScheduler state p' peerIndex).served state
            (times.take k) →
          (slotScheduler state p' peerIndex).due
            (run (schedule peerIndex) state (times.take k)) now j := by
        intro k now hk hnot
        have hs : Named state p' peerIndex (run (schedule peerIndex) state (times.take k)) :=
          invariant (fun s now hs _ => hkeep s now hs) hnamed
            (Along.of_forall (P := fun _ _ => True) (fun _ _ => trivial) _ _)
        exact hs.due hr (hdue k now hk fun hc => hnot ((hmem k).mpr hc))
      refine ⟨fun hlen => (hmem _).mp ?_, fun k hnot => ?_⟩
      · exact RoundRobin.served_within hturn hkeep hnamed hlen hdue'
      · have hnodup := RoundRobin.served_once hturn hkeep hnamed hdue' (k := k)
          fun hj => hnot ((hmem k).mp hj)
        exact List.Nodup.of_map _ (hslots k ▸ hnodup)

/--
**The scheduler never starves a channel.** In every state the operations lead to,
a call is one poll of the channel it returns an event for, and there is no event
only if no reliable channel has an expired packet. If in calls one after the other,
at any times, channel `c` has an expired packet at each call until it is served,
one of the first sixteen serves it, and before that none serves a channel that was
served before.
-/
theorem scheduler_fair (calls : List StateCall) (p : Fin maxPeers) (peerIndex : U8)
    (hp : p.val = peerIndex.toNat) (hu : (stateAfter calls).peers[p].inUse = true) :
    (∀ now, PollsOne (stateAfter calls) p peerIndex now)
    ∧ ∀ (c : U8) (times : List U32),
      (∀ k now, times[k]? = some now →
        some c ∉ servedAt peerIndex (stateAfter calls) (times.take k) →
        Overdue (run (schedule peerIndex) (stateAfter calls) (times.take k)) peerIndex c now) →
      (16 ≤ times.length → some c ∈ servedAt peerIndex (stateAfter calls) (times.take 16))
        ∧ ∀ k, some c ∉ servedAt peerIndex (stateAfter calls) (times.take k) →
          (servedAt peerIndex (stateAfter calls) (times.take k)).Nodup :=
  ⟨stateSchedulerNext_pollsOne hp hu, fun _ _ hdue =>
    (stateAfter_tables calls).1.fair hp hu hdue⟩

/-- Two reliable channels with a packet in flight each, and an unreliable one. -/
def twoChannels : List StateCall :=
  [⟨.addPeer (Vector.replicate 6 0#8), false⟩, ⟨.openChannel 0#8 0#8 modeReliable 10#8, false⟩,
    ⟨.openChannel 0#8 1#8 modeReliable 10#8, false⟩,
    ⟨.openChannel 0#8 2#8 modeUnreliable 10#8, false⟩, ⟨.reliableSend 0#8 0#8 1000#32, false⟩,
    ⟨.reliableSend 0#8 1#8 1000#32, false⟩]

theorem twoChannels_fair :
    some 0#8 ∈ servedAt 0#8 (stateAfter twoChannels) ((List.replicate 16 2000#32).take 16) :=
  ((scheduler_fair twoChannels 0 0#8 rfl (by decide +kernel)).2 0#8 (List.replicate 16 2000#32)
    (by
      intro k now hk hnot
      match k with
      | 0 => exact Option.some.inj hk ▸ by decide +kernel
      | 1 => exact Option.some.inj hk ▸ by decide +kernel
      | k + 2 =>
          -- the second call serves it
          refine absurd (List.mem_cons_of_mem _ (List.mem_cons.mpr (Or.inl ?_))) hnot
          decide +kernel)).1 (by decide)

end Relinow
