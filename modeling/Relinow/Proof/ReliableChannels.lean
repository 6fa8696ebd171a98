import Relinow.Proof.ReliableOps

/-!
# The reliable channels of a peer

`reliableAt` is the part of the map from ids to channels that the reliable mode
works on. Operations of the other modes, heartbeats included, leave it alone;
the reliable operations update it at one id; opening a channel may add a fresh
channel to it.

No channel is ever open under the id set aside for heartbeats.
-/

namespace Relinow

open SlotTable

/-- The reliable channel of peer `p` that is open under the id `c`. -/
def reliableAt (state : State) (p c : U8) : Option ChannelState :=
  (channelAt state p c).filter fun channel => channel.mode == modeReliable

theorem reliableAt_eq_some {state : State} {p c : U8} {channel : ChannelState} :
    reliableAt state p c = some channel ↔
      channelAt state p c = some channel ∧ channel.mode = modeReliable := by
  unfold reliableAt
  rw [Option.filter_eq_some_iff, beq_iff_eq]

theorem reliableAt_of_channelAt {state state' : State} {p c : U8}
    (h : channelAt state' p c = channelAt state p c) :
    reliableAt state' p c = reliableAt state p c := by
  unfold reliableAt
  rw [h]

/-- Rewriting a reliable channel updates the map at its id. -/
theorem Rewrites.reliable {state state' : State} {p c : U8} {a b : ChannelState}
    (h : Rewrites state p c a b state') (ha : a.mode = modeReliable) (hb : b.mode = modeReliable) :
    reliableAt state p c = some a
      ∧ reliableAt state' p = Function.update (reliableAt state p) c (some b) := by
  refine ⟨reliableAt_eq_some.mpr ⟨h.before, ha⟩, ?_⟩
  funext c'
  by_cases hc : c' = c
  · subst hc
    rw [Function.update_self]
    exact reliableAt_eq_some.mpr ⟨by rw [h.after, Function.update_self], hb⟩
  · rw [Function.update_of_ne hc]
    exact reliableAt_of_channelAt (by rw [h.after, Function.update_of_ne hc])

/-- Rewriting a channel of another mode does not show. -/
theorem Rewrites.unreliable {state state' : State} {p c : U8} {a b : ChannelState}
    (h : Rewrites state p c a b state') (ha : a.mode ≠ modeReliable)
    (hb : b.mode ≠ modeReliable) : reliableAt state' p = reliableAt state p := by
  funext c'
  by_cases hc : c' = c
  · subst hc
    have hnone : ∀ {s : State} {x : ChannelState}, channelAt s p c' = some x →
        x.mode ≠ modeReliable → reliableAt s p c' = none := by
      intro s x hx hm
      rw [Option.eq_none_iff_forall_ne_some]
      intro y hy
      obtain ⟨hy, hym⟩ := reliableAt_eq_some.mp hy
      rw [hx] at hy
      exact hm (Option.some.inj hy ▸ hym)
    rw [hnone h.before ha, hnone (by rw [h.after, Function.update_self]) hb]
  · exact reliableAt_of_channelAt (by rw [h.after, Function.update_of_ne hc])

/-- Rewriting opens and closes no channel. -/
theorem Rewrites.opened {state state' : State} {p c : U8} {a b : ChannelState}
    (h : Rewrites state p c a b state') (c' : U8) :
    channelAt state' p c' = none ↔ channelAt state p c' = none := by
  rw [h.after]
  by_cases hc : c' = c
  · subst hc
    rw [Function.update_self, h.before]
    simp
  · rw [Function.update_of_ne hc]

/-! ## What leaves the reliable channels alone -/

/-- Nothing the reliable mode sees has changed, and no channel was opened. -/
structure Quiet (p : U8) (state state' : State) : Prop where
  reliable : reliableAt state' p = reliableAt state p
  opened : ∀ c, channelAt state' p c = none ↔ channelAt state p c = none

theorem Quiet.refl (p : U8) (state : State) : Quiet p state state := ⟨rfl, fun _ => Iff.rfl⟩

theorem Quiet.trans {p : U8} {s s' s'' : State} (h : Quiet p s s') (h' : Quiet p s' s'') :
    Quiet p s s'' :=
  ⟨h'.reliable.trans h.reliable, fun c => (h'.opened c).trans (h.opened c)⟩

theorem Quiet.of_channelAt {p : U8} {state state' : State}
    (h : channelAt state' p = channelAt state p) : Quiet p state state' :=
  ⟨funext fun c => reliableAt_of_channelAt (congrFun h c), fun c => by rw [h]⟩

/-- An operation on a channel of another mode is quiet. -/
theorem Quiet.rewrite {p c : U8} {state : State} {r : ChannelRef} {channel : ChannelState}
    (hr : findChannelMut state p c = some r) (hm : (state.channel r).mode ≠ modeReliable)
    (hu : channel.inUse = (state.channel r).inUse)
    (hc : channel.channelId = (state.channel r).channelId)
    (hm' : channel.mode = (state.channel r).mode) :
    Quiet p state (state.setChannel r channel) := by
  have h : Rewrites state p c (state.channel r) channel (state.setChannel r channel) :=
    ⟨r, hr, rfl, hu, hc, rfl⟩
  exact ⟨h.unreliable hm (by rwa [hm']), h.opened⟩

theorem stateUnreliableSend_quiet (state : State) (p c : U8) :
    Quiet p state (stateUnreliableSend state p c).st := by
  unfold stateUnreliableSend
  cases hr : findChannelMut state p c with
  | none => exact Quiet.refl p state
  | some r =>
      dsimp only
      by_cases hm : (state.channel r).mode = modeUnreliable
      · rw [if_neg (by simp [hm])]
        exact Quiet.rewrite hr (by rw [hm]; decide) rfl rfl rfl
      · rw [if_pos (by simpa using hm)]
        exact Quiet.refl p state

theorem stateUnreliableOnData_quiet (state : State) (p c : U8) (q : U16) :
    Quiet p state (stateUnreliableOnData state p c q).st := by
  unfold stateUnreliableOnData
  cases hr : findChannelMut state p c with
  | none => exact Quiet.refl p state
  | some r =>
      dsimp only
      by_cases hm : (state.channel r).mode = modeUnreliable
      · have hne : (state.channel r).mode ≠ modeReliable := by rw [hm]; decide
        rw [if_neg (by simp [hm])]
        split
        · exact Quiet.rewrite hr hne rfl rfl rfl
        · split
          · exact Quiet.rewrite hr hne rfl rfl rfl
          · exact Quiet.rewrite hr hne rfl rfl rfl
      · rw [if_pos (by simpa using hm)]
        exact Quiet.refl p state

theorem statePrioritySend_quiet (state : State) (p c : U8) :
    Quiet p state (statePrioritySend state p c).st := by
  unfold statePrioritySend
  cases hr : findChannelMut state p c with
  | none => exact Quiet.refl p state
  | some r =>
      dsimp only
      by_cases hm : (state.channel r).mode = modePriority
      · rw [if_neg (by simp [hm])]
        exact Quiet.rewrite hr (by rw [hm]; decide) rfl rfl rfl
      · rw [if_pos (by simpa using hm)]
        exact Quiet.refl p state

theorem statePriorityOnData_quiet (state : State) (p c : U8) (q : U16) :
    Quiet p state (statePriorityOnData state p c q).st := by
  unfold statePriorityOnData
  cases hr : findChannelMut state p c with
  | none => exact Quiet.refl p state
  | some r =>
      dsimp only
      by_cases hm : (state.channel r).mode = modePriority
      · rw [if_neg (by simp [hm])]
        split
        · exact Quiet.rewrite hr (by rw [hm]; decide) rfl rfl rfl
        · exact Quiet.refl p state
      · rw [if_pos (by simpa using hm)]
        exact Quiet.refl p state

/-- Writing a peer's heartbeat fields is quiet. -/
theorem Quiet.setPeer {p : U8} {state : State} {i : Fin maxPeers} {peer : PeerState}
    (hu : peer.inUse = state.peers[i].inUse) (hc : peer.channels = state.peers[i].channels) :
    Quiet p state (state.setPeer i peer) :=
  Quiet.of_channelAt (by rw [channelAt_setPeer hu hc])

theorem stateOnPong_quiet (state : State) (p : U8) : Quiet p state (stateOnPong state p).st := by
  unfold stateOnPong
  split
  · dsimp only
    split
    · exact Quiet.refl p state
    · exact Quiet.setPeer rfl rfl
  · exact Quiet.refl p state

theorem statePollHeartbeat_quiet (state : State) (p : U8) (now : U32) :
    Quiet p state (statePollHeartbeat state p now).st := by
  unfold statePollHeartbeat
  split
  · dsimp only
    split
    · exact Quiet.refl p state
    · split
      · split
        · exact Quiet.refl p state
        · exact Quiet.setPeer rfl rfl
      · exact Quiet.refl p state
  · exact Quiet.refl p state

/-! ## Opening a channel -/

/-- A reliable channel as `relinow_state_open_channel` leaves it. -/
structure IsFresh (channel : ChannelState) : Prop where
  engine : channel.reliable = reliableInit none
  queue : channel.rxQueue = Vector.replicate rxQueueSize ⟨false, 0#16⟩

/-- Filling a free channel slot adds one channel to the map. -/
theorem channelAt_open {state : State} {p c : U8} {i : Fin maxPeers} {j : Fin maxChannelsPerPeer}
    {channel : ChannelState} (hi : i.val = p.toNat) (hu : state.peers[i].inUse = true)
    (hno : channelAt state p c = none) (hfree : (state.channel (i, j)).inUse = false)
    (hin : channel.inUse = true) (hc : channel.channelId = c) :
    channelAt (state.setChannel (i, j) channel) p
      = Function.update (channelAt state p) c (some channel) := by
  have hget : ∀ k : Fin maxChannelsPerPeer,
      (state.setChannel (i, j) channel).peers[i].channels[k]
        = if j = k then channel else state.peers[i].channels[k] := by
    intro k
    unfold State.setChannel State.setPeer
    dsimp only
    rw [put_self]
    exact get_put _ _ _ _
  have hpu : (state.setChannel (i, j) channel).peers[i].inUse = true := by
    rw [setChannel_peer]
    exact hu
  have hold : findChannelIdx state.peers[i] c = none := (channelAt_none_scan hi hu).mp hno
  funext c'
  by_cases hcc : c' = c
  · subst hcc
    rw [Function.update_self]
    refine channelAt_eq_some.mpr ⟨(i, j), findChannelMut_eq_some.mpr ⟨hi, hpu, ?_⟩,
      channel_setChannel _ _ _⟩
    -- no slot before the filled one bears the id, since none did
    refine firstIdx_eq_some.mpr ⟨?_, fun k hk => ?_⟩
    · rw [hget, if_pos rfl, hin, hc]
      simp
    · rw [hget, if_neg (ne_of_gt hk)]
      exact firstIdx_eq_none.mp hold k
  · rw [Function.update_of_ne hcc]
    -- the scan for another id passes over the filled slot, as it passed over the free one
    have hscan : findChannelIdx (state.setChannel (i, j) channel).peers[i] c'
        = findChannelIdx state.peers[i] c' := by
      refine firstIdx_congr fun k => ?_
      rw [hget]
      by_cases hk : j = k
      · subst hk
        have hfree' : state.peers[i].channels[j].inUse = false := hfree
        rw [if_pos rfl, hfree', hc, hin]
        simpa using fun he => hcc he.symm
      · rw [if_neg hk]
    apply Option.ext
    intro x
    rw [channelAt_eq_some, channelAt_eq_some]
    refine exists_congr fun r => ?_
    obtain ⟨i', k⟩ := r
    rw [findChannelMut_eq_some, findChannelMut_eq_some]
    by_cases hii : i' = i
    · subst hii
      rw [hscan, hpu, hu]
      refine and_congr_right fun h => ?_
      rw [channel_setChannel_ne]
      rintro ⟨_⟩
      have hused := (keyIdx_some ChannelState.inUse ChannelState.channelId h.2.2).1
      have hfree' : state.peers[i'].channels[j].inUse = false := hfree
      rw [hfree'] at hused
      exact absurd hused (by decide)
    · have hne : i'.val ≠ p.toNat := fun he => hii (Fin.ext (he.trans hi.symm))
      simp [hne]

/-- **Opening a channel** refuses and changes nothing, changes the priority of the channel that
is open under the id, or adds a channel under an id that is not the heartbeats'. -/
theorem stateOpenChannel_cases (state : State) (p c mode priority : U8) :
    ((stateOpenChannel state p c mode priority).rc ≠ .ok
        ∧ (stateOpenChannel state p c mode priority).st = state)
    ∨ (∃ channel state', Rewrites state p c channel { channel with priority := priority } state'
        ∧ stateOpenChannel state p c mode priority = ⟨.ok, state', ()⟩)
    ∨ ∃ channel state', c ≠ heartbeatChannel ∧ channelAt state p c = none
        ∧ channel.mode = mode ∧ (mode = modeReliable → IsFresh channel)
        ∧ channelAt state' p = Function.update (channelAt state p) c (some channel)
        ∧ stateOpenChannel state p c mode priority = ⟨.ok, state', ()⟩ := by
  rcases stateOpenChannel_places state p c mode priority with
    hrefused | ⟨r, hr, _, heq⟩ | ⟨⟨i, j⟩, hi, hu, hnew, hfree, _, hhb, heq⟩
  · exact Or.inl hrefused
  · exact Or.inr (Or.inl ⟨_, _, ⟨r, hr, rfl, rfl, rfl, rfl⟩, heq⟩)
  · have hno : channelAt state p c = none := (channelAt_none_scan hi hu).mpr hnew
    have hfresh : mode = modeReliable → IsFresh (openedChannel c mode priority) := by
      intro hm
      refine ⟨?_, rfl⟩
      unfold openedChannel
      rw [if_pos (by rw [hm]; rfl)]
    exact Or.inr (Or.inr ⟨_, _, hhb, hno, rfl, hfresh,
      channelAt_open hi hu hno hfree rfl rfl, heq⟩)

/-! ## The scheduler -/

/-- The slot the scheduler looks at in round `count`, after the channel polled last. -/
def pollIdx (last : U8) (count : Nat) : Fin maxChannelsPerPeer :=
  Fin.ofNat maxChannelsPerPeer (last.toNat + 1 + count)

/-- The channel slot of round `count`. -/
def scheduled (state : State) (p : Fin maxPeers) (count : Nat) : ChannelState :=
  state.peers[p].channels[pollIdx state.peers[p].lastPolledChannelIdx count]

/-- Polling the channel of round `count` reports something. -/
def Due (state : State) (p : Fin maxPeers) (peerIndex : U8) (now : U32) (count : Nat) : Prop :=
  (scheduled state p count).inUse = true ∧ (scheduled state p count).mode = modeReliable
    ∧ (stateReliablePoll state peerIndex (scheduled state p count).channelId now).out.event ≠ .none

/-- The channel of round `count` is polled, and the scheduler notes where it was. -/
def serve (state : State) (p : Fin maxPeers) (peerIndex : U8) (now : U32) (count : Nat) : State :=
  let polled := stateReliablePoll state peerIndex (scheduled state p count).channelId now
  polled.st.setPeer p { polled.st.peers[p] with
    lastPolledChannelIdx :=
      BitVec.ofNat 8 (pollIdx state.peers[p].lastPolledChannelIdx count).val }

/-- **The scan stops at the first channel that is due**, and changes nothing if there is none. -/
theorem schedulerScan_cases (p : Fin maxPeers) (peerIndex : U8) (now : U32) (state : State) :
    ∀ n, n ≤ maxChannelsPerPeer →
      (schedulerScan p peerIndex now n state = (state, none)
        ∧ ∀ k, maxChannelsPerPeer - n ≤ k → k < maxChannelsPerPeer →
          ¬ Due state p peerIndex now k)
      ∨ ∃ count, count < maxChannelsPerPeer ∧ Due state p peerIndex now count
        ∧ (∀ k, maxChannelsPerPeer - n ≤ k → k < count → ¬ Due state p peerIndex now k)
        ∧ schedulerScan p peerIndex now n state
          = (serve state p peerIndex now count,
              some ((scheduled state p count).channelId,
                (stateReliablePoll state peerIndex
                  (scheduled state p count).channelId now).out)) := by
  intro n
  induction n with
  | zero => exact fun _ => Or.inl ⟨rfl, fun k h1 h2 => absurd h2 (by omega)⟩
  | succ n ih =>
      intro hn
      have hcount : maxChannelsPerPeer - n = maxChannelsPerPeer - (n + 1) + 1 := by omega
      have hslot : state.peers[p].channels[Fin.ofNat maxChannelsPerPeer
          (state.peers[p].lastPolledChannelIdx.toNat + 1 + (maxChannelsPerPeer - (n + 1)))]
          = scheduled state p (maxChannelsPerPeer - (n + 1)) := rfl
      -- a round that is not due hands the state on as it is
      have hskip : ¬ Due state p peerIndex now (maxChannelsPerPeer - (n + 1)) →
          schedulerScan p peerIndex now (n + 1) state = schedulerScan p peerIndex now n state := by
        intro hdue
        rw [schedulerScan]
        dsimp only
        rw [hslot]
        split
        · rename_i hch
          rw [Bool.and_eq_true, beq_iff_eq] at hch
          have hnone : (stateReliablePoll state peerIndex
              (scheduled state p (maxChannelsPerPeer - (n + 1))).channelId now).out.event
                = .none := by
            by_contra hne
            exact hdue ⟨hch.1, hch.2, hne⟩
          rw [if_neg (by rw [hnone]; decide)]
          rcases stateReliablePoll_cases state peerIndex
            (scheduled state p (maxChannelsPerPeer - (n + 1))).channelId now with
            ⟨hst, _, _⟩ | ⟨_, _, _, _, _, hev, _, heq⟩
          · rw [hst]
          · rw [heq] at hnone
            exact absurd hnone hev
        · rfl
      by_cases hdue : Due state p peerIndex now (maxChannelsPerPeer - (n + 1))
      · refine Or.inr ⟨maxChannelsPerPeer - (n + 1), by omega, hdue, fun k h1 h2 => by omega, ?_⟩
        rw [schedulerScan]
        dsimp only
        rw [hslot, if_pos (by rw [hdue.1, hdue.2.1]; rfl), if_pos (by simpa using hdue.2.2)]
        rfl
      · rw [hskip hdue]
        have hfirst : ∀ k, maxChannelsPerPeer - (n + 1) ≤ k →
            (maxChannelsPerPeer - n ≤ k → ¬ Due state p peerIndex now k) →
            ¬ Due state p peerIndex now k := by
          intro k hk hrest
          rcases Nat.eq_or_lt_of_le hk with rfl | hlt
          · exact hdue
          · exact hrest (by omega)
        rcases ih (by omega) with ⟨heq, hall⟩ | ⟨count, hlt, hd, hall, heq⟩
        · exact Or.inl ⟨heq, fun k h1 h2 => hfirst k h1 fun h => hall k h h2⟩
        · exact Or.inr ⟨count, hlt, hd, fun k h1 h2 => hfirst k h1 fun h => hall k h h2, heq⟩

/-- **What the scheduler does**: it serves the first channel that is due, or there is none. -/
theorem stateSchedulerNext_serves (state : State) (peerIndex : U8) (now : U32) :
    ((stateSchedulerNext state peerIndex now).st = state
        ∧ (stateSchedulerNext state peerIndex now).out = none
        ∧ ∀ p : Fin maxPeers, p.val = peerIndex.toNat → state.peers[p].inUse = true →
          ∀ k, k < maxChannelsPerPeer → ¬ Due state p peerIndex now k)
    ∨ ∃ (p : Fin maxPeers) (count : Nat), p.val = peerIndex.toNat ∧ count < maxChannelsPerPeer
        ∧ Due state p peerIndex now count ∧ (∀ k, k < count → ¬ Due state p peerIndex now k)
        ∧ stateSchedulerNext state peerIndex now
          = ⟨.ok, serve state p peerIndex now count,
              some ((scheduled state p count).channelId,
                (stateReliablePoll state peerIndex
                  (scheduled state p count).channelId now).out)⟩ := by
  unfold stateSchedulerNext
  by_cases hp : peerIndex.toNat < maxPeers
  · rw [dif_pos hp]
    dsimp only
    by_cases hu : state.peers[(⟨peerIndex.toNat, hp⟩ : Fin maxPeers)].inUse = true
    · rw [if_neg (by simpa using hu)]
      rcases schedulerScan_cases ⟨peerIndex.toNat, hp⟩ peerIndex now state maxChannelsPerPeer
        (Nat.le_refl _) with ⟨heq, hall⟩ | ⟨count, hlt, hdue, hall, heq⟩
      · rw [heq]
        refine Or.inl ⟨rfl, rfl, fun p hval _ k hk => ?_⟩
        obtain rfl : p = ⟨peerIndex.toNat, hp⟩ := Fin.ext hval
        exact hall k (by omega) hk
      · rw [heq]
        exact Or.inr ⟨⟨peerIndex.toNat, hp⟩, count, rfl, hlt, hdue,
          fun k hk => hall k (by omega) hk, rfl⟩
    · rw [if_pos (by simpa using hu)]
      refine Or.inl ⟨rfl, rfl, fun p hval hin => ?_⟩
      obtain rfl : p = ⟨peerIndex.toNat, hp⟩ := Fin.ext hval
      exact absurd hin hu
  · rw [dif_neg hp]
    exact Or.inl ⟨rfl, rfl, fun p hval => absurd (hval ▸ p.isLt) hp⟩

/-- The same in terms of the reliable channels. -/
theorem stateSchedulerNext_cases (state : State) (peerIndex : U8) (now : U32) :
    ((stateSchedulerNext state peerIndex now).st = state
        ∧ (stateSchedulerNext state peerIndex now).out = none)
    ∨ ∃ (p : Fin maxPeers) (count : Nat), p.val = peerIndex.toNat ∧ count < maxChannelsPerPeer
        ∧ Due state p peerIndex now count ∧ (∀ k, k < count → ¬ Due state p peerIndex now k)
        ∧ ∃ channel channel',
          reliableAt state peerIndex (scheduled state p count).channelId = some channel
          ∧ (reliablePoll channel.reliable now).2.event ≠ .none
          ∧ channel' = { channel with
              reliable := (reliablePoll channel.reliable now).1
              hasInflight := channel'.hasInflight
              inflightSeq := channel'.inflightSeq
              txQueue := channel'.txQueue }
          ∧ reliableAt (stateSchedulerNext state peerIndex now).st peerIndex
              = Function.update (reliableAt state peerIndex) (scheduled state p count).channelId
                (some channel')
          ∧ (∀ c, channelAt (stateSchedulerNext state peerIndex now).st peerIndex c = none
              ↔ channelAt state peerIndex c = none)
          ∧ (stateSchedulerNext state peerIndex now).out
              = some ((scheduled state p count).channelId,
                  (reliablePoll channel.reliable now).2) := by
  rcases stateSchedulerNext_serves state peerIndex now with ⟨hst, hout, _⟩ |
    ⟨p, count, hp, hlt, hdue, hall, heq⟩
  · exact Or.inl ⟨hst, hout⟩
  · refine Or.inr ⟨p, count, hp, hlt, hdue, hall, ?_⟩
    rw [heq]
    unfold serve
    -- the channel that is due is polled once, and reports
    rcases stateReliablePoll_cases state peerIndex (scheduled state p count).channelId now with
      ⟨_, hnone, _⟩ | ⟨channel, channel', state', hrw, hm, hev, hfr, hpoll⟩
    · exact absurd hnone hdue.2.2
    · rw [hpoll]
      dsimp only
      have hq : Quiet peerIndex state' (state'.setPeer p { state'.peers[p] with
          lastPolledChannelIdx :=
            BitVec.ofNat 8 (pollIdx state.peers[p].lastPolledChannelIdx count).val }) :=
        Quiet.setPeer rfl rfl
      obtain ⟨h1, h2⟩ := hrw.reliable hm (by rw [hfr]; exact hm)
      refine ⟨channel, channel', h1, hev, hfr, ?_, fun c => ?_, rfl⟩
      · exact hq.reliable.trans h2
      · exact (hq.opened c).trans (hrw.opened c)

end Relinow
