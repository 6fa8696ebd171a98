import Relinow.Lib.Rounds
import Relinow.Proof.Drain

/-!
# A peer that has gone silent

Nothing comes back any more, and the application does what its loop does: it polls
the scheduler until there is no event, waits, and polls again. Each packet in
flight is then good for a fixed number of events, its remaining retransmissions and
one failure, whenever the polls are made; a poll that reports something reports one
of these and leaves the others.

Each wait is longer than the longest timeout. A round leaves nothing expired, so at
the next one everything in flight is, and comes one event nearer to its end. After
two rounds more than there are retries nothing is in flight.
-/

namespace Relinow

open SlotTable Runs

/-! ## What a packet is good for -/

/-- The retransmissions that remain. -/
def Pending.triesLeft (maxRetries : U8) (slot : Pending) : Nat :=
  maxRetries.toNat - slot.retries.toNat

/-- The events of a packet that is never acknowledged. -/
def Pending.owed (maxRetries : U8) (slot : Pending) : Multiset TxResult :=
  ⟨.failed, slot.seqId⟩ ::ₘ
    Multiset.replicate (slot.triesLeft maxRetries) ⟨.retransmit, slot.seqId⟩

/-- The events of all packets in flight. -/
def owedEvents (ctx : ReliableCtx) : Multiset TxResult :=
  (live Pending.inUse ctx.pending).bind (Pending.owed ctx.cfg.maxRetries)

theorem owed_exhausted {maxRetries : U8} {slot : Pending} (h : maxRetries ≤ slot.retries) :
    slot.owed maxRetries = {⟨.failed, slot.seqId⟩} := by
  unfold Pending.owed Pending.triesLeft
  rw [show maxRetries.toNat - slot.retries.toNat = 0 by bv_omega]
  rfl

theorem triesLeft_resent {ctx : ReliableCtx} {slot : Pending} (now : U32)
    (h : ¬ ctx.cfg.maxRetries ≤ slot.retries) :
    slot.triesLeft ctx.cfg.maxRetries
      = (resentPending ctx slot now).triesLeft ctx.cfg.maxRetries + 1 := by
  unfold Pending.triesLeft resentPending
  dsimp only
  bv_omega

theorem owed_resent {ctx : ReliableCtx} {slot : Pending} (now : U32)
    (h : ¬ ctx.cfg.maxRetries ≤ slot.retries) :
    slot.owed ctx.cfg.maxRetries
      = ⟨.retransmit, slot.seqId⟩ ::ₘ (resentPending ctx slot now).owed ctx.cfg.maxRetries := by
  unfold Pending.owed
  rw [triesLeft_resent now h, Multiset.replicate_succ, Multiset.cons_swap]
  rfl

/-- A poll handles the first expired packet. -/
theorem reliablePoll_slot (ctx : ReliableCtx) (now : U32) :
    (reliablePoll ctx now = (ctx, ⟨.none, 0#16⟩)
      ∧ ∀ i : Fin maxPending, ctx.pending[i].expired now = false)
    ∨ ∃ i : Fin maxPending, ctx.pending[i].expired now = true
      ∧ ((ctx.cfg.maxRetries ≤ ctx.pending[i].retries
          ∧ reliablePoll ctx now
            = ({ ctx with pending := ctx.pending.put i { ctx.pending[i] with inUse := false } },
              ⟨.failed, ctx.pending[i].seqId⟩))
        ∨ (¬ ctx.cfg.maxRetries ≤ ctx.pending[i].retries
          ∧ reliablePoll ctx now
            = ({ ctx with pending := ctx.pending.put i (resentPending ctx ctx.pending[i] now) },
              ⟨.retransmit, ctx.pending[i].seqId⟩))) := by
  unfold reliablePoll
  cases hf : firstIdx (Pending.expired now) ctx.pending with
  | none => exact Or.inl ⟨rfl, firstIdx_eq_none.mp hf⟩
  | some i =>
      refine Or.inr ⟨i, firstIdx_sat hf, ?_⟩
      dsimp only
      by_cases hr : ctx.cfg.maxRetries ≤ ctx.pending[i].retries
      · rw [if_pos hr]
        exact Or.inl ⟨hr, rfl⟩
      · rw [if_neg hr]
        exact Or.inr ⟨hr, rfl⟩

/-- **A poll reports an event that is owed**, and the others stay owed. -/
theorem reliablePoll_owed (ctx : ReliableCtx) (now : U32)
    (hev : (reliablePoll ctx now).2.event ≠ .none) :
    owedEvents ctx = (reliablePoll ctx now).2 ::ₘ owedEvents (reliablePoll ctx now).1 := by
  rcases reliablePoll_slot ctx now with ⟨heq, -⟩ | ⟨i, hexp, ⟨hr, heq⟩ | ⟨hr, heq⟩⟩
  · rw [heq] at hev
    exact absurd rfl hev
  · rw [heq]
    unfold owedEvents
    dsimp only
    rw [live_release (expired_inUse hexp) (x := { ctx.pending[i] with inUse := false }) rfl,
      Multiset.cons_bind, owed_exhausted hr, Multiset.singleton_add]
  · rw [heq]
    unfold owedEvents
    dsimp only
    have hin := expired_inUse hexp
    have hin' : (resentPending ctx ctx.pending[i] now).inUse = true := hin
    obtain ⟨rest, hbefore, hafter⟩ := live_replace hin hin'
    rw [hbefore, hafter, Multiset.cons_bind, Multiset.cons_bind, owed_resent now hr,
      Multiset.cons_add]

/-! ## How near to its end a packet is -/

/-- The packet takes at most `n` more events after this round, which is at `now`. -/
def Pending.Within (maxRetries : U8) (now : U32) (n : Nat) (slot : Pending) : Prop :=
  slot.inUse = true →
    slot.triesLeft maxRetries + 1 ≤ n + if slot.expired now = true then 1 else 0

/-- So does every packet of the context. -/
def EngineWithin (now : U32) (n : Nat) (ctx : ReliableCtx) : Prop :=
  ∀ i : Fin maxPending, ctx.pending[i].Within ctx.cfg.maxRetries now n

theorem EngineWithin.poll {now : U32} {n : Nat} {ctx : ReliableCtx} (h : EngineWithin now n ctx) :
    EngineWithin now n (reliablePoll ctx now).1 := by
  rcases reliablePoll_slot ctx now with ⟨heq, -⟩ | ⟨i, hexp, ⟨hr, heq⟩ | ⟨hr, heq⟩⟩ <;> rw [heq]
  · exact h
  · intro j
    refine forall_put (Pending.Within ctx.cfg.maxRetries now n) h i (fun hu => ?_) j
    exact absurd hu Bool.false_ne_true
  · intro j
    refine forall_put (Pending.Within ctx.cfg.maxRetries now n) h i (fun _ => ?_) j
    have hi := h i (expired_inUse hexp)
    rw [if_pos hexp, triesLeft_resent now hr] at hi
    rw [if_neg (by rw [resent_not_expired]; decide)]
    omega

/-! ## One call of the scheduler -/

/-- A reliable channel is found under its id. -/
theorem Named.reliable_found {names : State} {p : Fin maxPeers} {peerIndex : U8} {state : State}
    (hp : p.val = peerIndex.toNat) (h : Named names p peerIndex state)
    {j : Fin maxChannelsPerPeer} (hrel : state.peers[p].channels[j].isReliable = true) :
    reliableAt state peerIndex state.peers[p].channels[j].channelId
      = some state.peers[p].channels[j] := by
  obtain ⟨hin, hm⟩ := Bool.and_eq_true_iff.mp hrel
  have hr := findChannelMut_of_inUse (r := (p, j)) h.tables hp h.inUse hin
  exact reliableAt_eq_some.mpr ⟨channelAt_eq_some.mpr ⟨_, hr, rfl⟩, beq_iff_eq.mp hm⟩

/-- A call changes one channel, and that by one poll; or no packet of the peer is expired. -/
theorem Named.polls {names : State} {p : Fin maxPeers} {peerIndex : U8} {state : State}
    (hp : p.val = peerIndex.toNat) (h : Named names p peerIndex state) (now : U32) :
    (scheduledEvent peerIndex state now = none ∧ schedule peerIndex state now = state
      ∧ ∀ j : Fin maxChannelsPerPeer, state.peers[p].channels[j].isReliable = true →
        ∀ i : Fin maxPending, state.peers[p].channels[j].reliable.pending[i].expired now = false)
    ∨ ∃ (j : Fin maxChannelsPerPeer) (channel' : ChannelState),
        state.peers[p].channels[j].isReliable = true
        ∧ (reliablePoll state.peers[p].channels[j].reliable now).2.event ≠ .none
        ∧ scheduledEvent peerIndex state now = some (state.peers[p].channels[j].channelId,
          (reliablePoll state.peers[p].channels[j].reliable now).2)
        ∧ (schedule peerIndex state now).peers[p].channels
          = state.peers[p].channels.put j channel'
        ∧ channel'.reliable = (reliablePoll state.peers[p].channels[j].reliable now).1
        ∧ SameName state.peers[p].channels[j] channel' := by
  unfold scheduledEvent schedule
  rcases stateSchedulerNext_pollsOne hp h.inUse now with
    ⟨heq, hno⟩ | ⟨c, polled, idx, rfl, _, hev, heq⟩
  · rw [heq]
    refine Or.inl ⟨rfl, rfl, fun j hrel i => ?_⟩
    by_contra hexp
    exact hno _ ⟨_, h.reliable_found hp hrel, i, (Bool.not_eq_false _).mp hexp⟩
  · rcases stateReliablePoll_cases state peerIndex c now with ⟨_, hnone, _⟩ |
      ⟨channel, channel', state', ⟨⟨p', j⟩, hr, hch, hin', hid', hst⟩, hm, hev', hfr, hpoll⟩
    · exact absurd hnone hev
    · obtain rfl : p' = p := Fin.ext ((findChannelMut_eq_some.mp hr).1.trans hp.symm)
      obtain ⟨hin, hid⟩ := findChannelMut_found hr
      change state.peers[p'].channels[j] = channel at hch
      subst hch
      refine Or.inr ⟨j, channel', ?_, hev', ?_, ?_, by rw [hfr], hin', hid', by rw [hfr]⟩
      · unfold ChannelState.isReliable
        rw [Bool.and_eq_true, beq_iff_eq]
        exact ⟨hin, hm⟩
      · rw [heq, hpoll]
        show some (c, _) = some (state.peers[p'].channels[j].channelId, _)
        rw [← hid]
        rfl
      · rw [heq, hpoll]
        dsimp only
        rw [setPeer_get, if_pos rfl, hst, setChannel_channels]

/-- The events of all packets of a peer, under the ids of their channels. -/
def peerOwed (peer : PeerState) : Multiset (U8 × TxResult) :=
  (live ChannelState.isReliable peer.channels).bind fun channel =>
    (owedEvents channel.reliable).map (Prod.mk channel.channelId)

def owedAt (p : Fin maxPeers) (state : State) : Multiset (U8 × TxResult) :=
  peerOwed state.peers[p]

def dueAt (p : Fin maxPeers) (now : U32) (state : State) : Nat :=
  (peerEvents now state.peers[p]).card

/-- Every packet of the peer takes at most `n` more events after this round. -/
def PeerWithin (now : U32) (n : Nat) (peer : PeerState) : Prop :=
  ∀ j : Fin maxChannelsPerPeer, peer.channels[j].isReliable = true →
    EngineWithin now n peer.channels[j].reliable

theorem isReliable_sameName {channel channel' : ChannelState} (hn : SameName channel channel') :
    channel'.isReliable = channel.isReliable := by
  unfold ChannelState.isReliable
  rw [hn.inUse, hn.mode]

section OneCall

variable {names : State} {p : Fin maxPeers} {peerIndex : U8} {state : State}

/-- **A call reports an event that is owed**, or changes nothing. -/
theorem Named.pays (hp : p.val = peerIndex.toNat) (h : Named names p peerIndex state) (now : U32) :
    (scheduledEvent peerIndex state now = none
        ∧ owedAt p (schedule peerIndex state now) = owedAt p state)
    ∨ ∃ e, scheduledEvent peerIndex state now = some e
        ∧ owedAt p state = e ::ₘ owedAt p (schedule peerIndex state now) := by
  rcases h.polls hp now with ⟨hout, hst, -⟩ | ⟨j, channel', hrel, hev, hout, hch, heng, hn⟩
  · exact Or.inl ⟨hout, by rw [hst]⟩
  · refine Or.inr ⟨_, hout, ?_⟩
    have hrel' : channel'.isReliable = true := (isReliable_sameName hn).trans hrel
    obtain ⟨rest, hbefore, hafter⟩ := live_replace hrel hrel'
    unfold owedAt peerOwed
    rw [hch, hbefore, hafter, Multiset.cons_bind, Multiset.cons_bind, ← Multiset.cons_add]
    congr 1
    rw [hn.channelId, heng, reliablePoll_owed _ now hev, Multiset.map_cons]

/-- Each event is one less for the round. -/
theorem Named.fewer (hp : p.val = peerIndex.toNat) (h : Named names p peerIndex state)
    {now : U32} {e : U8 × TxResult} (he : scheduledEvent peerIndex state now = some e) :
    dueAt p now (schedule peerIndex state now) < dueAt p now state := by
  rcases h.drains hp now with ⟨hnone, _⟩ | ⟨e', _, _, hcons⟩
  · rw [he] at hnone
    exact absurd hnone (by simp)
  · unfold dueAt
    rw [hcons, Multiset.card_cons]
    exact Nat.lt_succ_self _

theorem Named.within (hp : p.val = peerIndex.toNat) (h : Named names p peerIndex state)
    {now : U32} {n : Nat} (hw : PeerWithin now n state.peers[p]) :
    PeerWithin now n (schedule peerIndex state now).peers[p] := by
  rcases h.polls hp now with ⟨_, hst, -⟩ | ⟨j, channel', hrel, _, _, hch, heng, hn⟩
  · rw [hst]
    exact hw
  · unfold PeerWithin
    rw [hch]
    intro k
    refine forall_put (fun channel : ChannelState => channel.isReliable = true →
      EngineWithin now n channel.reliable) hw j (fun _ => ?_) k
    rw [heng]
    exact (hw j hrel).poll

end OneCall

/-! ## Rounds -/

/-- The waits: longer than any timeout, and short of the clock coming round. -/
def LongWait (now next : U32) : Prop :=
  65535 ≤ (next - now).toNat ∧ (next - now).toNat ≤ 2 ^ 32 - 65535

instance (now next : U32) : Decidable (LongWait now next) := inferInstanceAs (Decidable (_ ∧ _))

/-- After a round nothing is expired, and every packet takes at most `n` more events. -/
structure RoundOver (names : State) (p : Fin maxPeers) (peerIndex : U8) (n : Nat) (now : U32)
    (state : State) : Prop where
  named : Named names p peerIndex state
  quiet : ∀ j : Fin maxChannelsPerPeer, state.peers[p].channels[j].isReliable = true →
    ∀ i : Fin maxPending, state.peers[p].channels[j].reliable.pending[i].expired now = false
  within : PeerWithin now n state.peers[p]

/-- A packet that is not expired is, after a long wait. -/
theorem expired_of_wait {slot : Pending} {now next : U32} (hu : slot.inUse = true)
    (hno : slot.expired now = false) (hwait : LongWait now next) : slot.expired next = true := by
  unfold Pending.expired at hno ⊢
  unfold LongWait at hwait
  rw [hu, Bool.true_and] at hno ⊢
  rw [decide_eq_false_iff_not] at hno
  rw [decide_eq_true_iff]
  bv_omega

section RoundOver

variable {names : State} {p : Fin maxPeers} {peerIndex : U8} {state state' : State} {n : Nat}
  {now next : U32}

theorem roundOver (hp : p.val = peerIndex.toNat) {events : List (U8 × TxResult)}
    (h : Round (schedule peerIndex) (scheduledEvent peerIndex) now state events state') :
    Named names p peerIndex state → PeerWithin now n state.peers[p] →
      RoundOver names p peerIndex n now state' := by
  induction h with
  | @stop s hout =>
      intro hs hw
      rcases hs.polls hp now with ⟨_, hst, hquiet⟩ | ⟨_, _, _, _, hsome, _⟩
      · rw [hst]
        exact ⟨hs, hquiet, hw⟩
      · rw [hout] at hsome
        exact absurd hsome (by simp)
  | next _ _ ih => exact fun hs hw => ih (hs.keep now) (hs.within hp hw)

/-- At the next round everything in flight is expired, and one event nearer to its end. -/
theorem RoundOver.wait (h : RoundOver names p peerIndex (n + 1) now state)
    (hwait : LongWait now next) : PeerWithin next n state.peers[p] := by
  intro j hrel i hu
  have hno := h.quiet j hrel i
  have hi := h.within j hrel i hu
  rw [if_neg (by rw [hno]; decide)] at hi
  rw [if_pos (expired_of_wait hu hno hwait)]
  exact hi

/-- With no events to come nothing is in flight. -/
theorem RoundOver.empty (h : RoundOver names p peerIndex 0 now state)
    {j : Fin maxChannelsPerPeer} (hrel : state.peers[p].channels[j].isReliable = true)
    (i : Fin maxPending) : state.peers[p].channels[j].reliable.pending[i].inUse = false := by
  by_contra hu
  have hi := h.within j hrel i ((Bool.not_eq_false _).mp hu)
  rw [h.quiet j hrel i, if_neg (by decide)] at hi
  omega

theorem RoundOver.paid (h : RoundOver names p peerIndex 0 now state) :
    owedAt p state = 0 := by
  unfold owedAt
  rw [Multiset.eq_zero_iff_forall_notMem]
  intro e he
  obtain ⟨channel, hlive, he⟩ := Multiset.mem_bind.mp he
  obtain ⟨j, rfl, hrel⟩ := mem_live.mp hlive
  unfold owedEvents at he
  rw [live_of_none (h.empty hrel), Multiset.zero_bind, Multiset.map_zero] at he
  exact absurd he (Multiset.notMem_zero e)

theorem RoundOver.idle (h : RoundOver names p peerIndex 0 now state)
    (hp : p.val = peerIndex.toNat) {c : U8} {channel : ChannelState}
    (hat : reliableAt state peerIndex c = some channel) : pendingSeqs channel.reliable = 0 := by
  obtain ⟨hat, hm⟩ := reliableAt_eq_some.mp hat
  obtain ⟨⟨p', j⟩, hr, rfl⟩ := channelAt_eq_some.mp hat
  obtain rfl : p' = p := Fin.ext ((findChannelMut_eq_some.mp hr).1.trans hp.symm)
  have hrel : state.peers[p'].channels[j].isReliable = true := by
    unfold ChannelState.isReliable
    rw [Bool.and_eq_true, beq_iff_eq]
    exact ⟨(findChannelMut_found hr).1, hm⟩
  exact keys_of_none _ (h.empty hrel)

end RoundOver

/--
**A peer that stays silent is given up.** In every state the operations lead to, let
the application poll the scheduler until it reports nothing, at times that lie
farther apart than the longest timeout. If no reliable channel allows more than `M`
retries, then after `M + 2` such rounds no packet is in flight on any of them. What
was reported until then is, for each packet that was in flight, its remaining
retransmissions and one failure, each under the channel and the id it had, and
nothing else.
-/
theorem silentPeer_givenUp (calls : List StateCall) (p : Fin maxPeers) (peerIndex : U8)
    (hp : p.val = peerIndex.toNat) (hu : (stateAfter calls).peers[p].inUse = true) (M : Nat)
    (hM : ∀ j : Fin maxChannelsPerPeer,
      (stateAfter calls).peers[p].channels[j].isReliable = true →
        (stateAfter calls).peers[p].channels[j].reliable.cfg.maxRetries.toNat ≤ M)
    (times : List U32) (hlen : M + 2 ≤ times.length) (hwait : times.IsChain LongWait) :
    ∃ events state', Rounds (schedule peerIndex) (scheduledEvent peerIndex) times
        (stateAfter calls) events state'
      ∧ (events : Multiset (U8 × TxResult)) = peerOwed (stateAfter calls).peers[p]
      ∧ ∀ c channel, reliableAt state' peerIndex c = some channel →
        pendingSeqs channel.reliable = 0 := by
  have hnamed : Named (stateAfter calls) p peerIndex (stateAfter calls) :=
    ⟨(stateAfter_tables calls).1, hu, fun _ => rfl⟩
  have hkeep : ∀ state now, Named (stateAfter calls) p peerIndex state →
      Named (stateAfter calls) p peerIndex (schedule peerIndex state now) :=
    fun _ now h => h.keep now
  have hless : ∀ state now e, Named (stateAfter calls) p peerIndex state →
      scheduledEvent peerIndex state now = some e →
      dueAt p now (schedule peerIndex state now) < dueAt p now state :=
    fun _ _ _ h he => h.fewer hp he
  have hpay := fun state now (h : Named (stateAfter calls) p peerIndex state) => h.pays hp now
  obtain ⟨events, state', hrounds⟩ : ∃ events state', Rounds (schedule peerIndex)
      (scheduledEvent peerIndex) times (stateAfter calls) events state' :=
    Rounds.ends hkeep hless hnamed
  have hpays := hrounds.pays hkeep hpay hnamed
  cases times with
  | nil => exact absurd hlen (by simp)
  | cons now times =>
      have hfirst : PeerWithin now times.length (stateAfter calls).peers[p] := by
        intro j hrel i _
        have htries := hM j hrel
        rw [List.length_cons] at hlen
        unfold Pending.triesLeft
        omega
      obtain ⟨last, hover⟩ := Rounds.countdown
        (P := fun n now state => Named (stateAfter calls) p peerIndex state
          ∧ PeerWithin now n state.peers[p])
        (Q := RoundOver (stateAfter calls) p peerIndex)
        (fun n now state events state' h hround => roundOver hp hround h.1 h.2)
        (fun n now next state h hlong => ⟨h.named, h.wait hlong⟩) hwait ⟨hnamed, hfirst⟩ hrounds
      rw [hover.paid, Multiset.add_zero] at hpays
      exact ⟨events, state', hrounds, hpays.symm, fun c channel hat => hover.idle hp hat⟩

/-- One packet on channel 4 with three tries left, and one on channel 7 with none. -/
theorem lastTry_givenUp :
    ∃ events state', Rounds (schedule 0#8) (scheduledEvent 0#8)
        [3000#32, 70000#32, 140000#32, 210000#32, 280000#32] (stateAfter lastTry) events state'
      ∧ (events : Multiset (U8 × TxResult))
        = {(7#8, ⟨.failed, 0#16⟩), (4#8, ⟨.failed, 0#16⟩), (4#8, ⟨.retransmit, 0#16⟩),
          (4#8, ⟨.retransmit, 0#16⟩), (4#8, ⟨.retransmit, 0#16⟩)}
      ∧ ∀ c channel, reliableAt state' 0#8 c = some channel → pendingSeqs channel.reliable = 0 := by
  obtain ⟨events, state', hrounds, howed, hidle⟩ :=
    silentPeer_givenUp lastTry 0 0#8 rfl (by decide +kernel) 3 (by decide +kernel)
      [3000#32, 70000#32, 140000#32, 210000#32, 280000#32] (by decide) (by decide)
  exact ⟨events, state', hrounds, howed.trans (by decide +kernel), hidle⟩

end Relinow
