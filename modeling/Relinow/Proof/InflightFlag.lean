import Relinow.Proof.Scheduler

/-!
# Does the in-flight flag tell the truth?

A reliable channel keeps up to sixteen packets in flight, and sums them up in a
flag and the id of the one that was marked last. Sending marks and retransmitting
marks; an ACK or a failure of the packet that is marked takes the flag down, with
no look at the others.

So the flag is right as long as the marked packet is the last to go. That is the
exact condition: each time an ACK or a failure retires the marked packet of a
channel, it has to be the only one in flight there.
-/

namespace Relinow

open SlotTable Runs

/-- The flag says whether a packet is in flight, and the id is that of one. -/
structure Truthful (channel : ChannelState) : Prop where
  flag : channel.hasInflight = true ↔
    ∃ i : Fin maxPending, channel.reliable.pending[i].inUse = true
  named : channel.hasInflight = true → ∃ i : Fin maxPending,
    channel.reliable.pending[i].inUse = true
      ∧ channel.reliable.pending[i].seqId = channel.inflightSeq

/-- If the packet is the one that is marked, no other is in flight. -/
def OnlyMarked (channel : ChannelState) (q : U16) : Prop :=
  channel.inflightSeq = q → pendingSeqs channel.reliable = {q}

/-- A packet that a poll gives up is not marked, or it is the only one. -/
def GivesUpLast (channel : ChannelState) (now : U32) : Prop :=
  ∀ i, firstIdx (Pending.expired now) channel.reliable.pending = some i →
    channel.reliable.cfg.maxRetries ≤ channel.reliable.pending[i].retries →
    OnlyMarked channel channel.reliable.pending[i].seqId

/-- An operation retires the marked packet only as the last one. -/
def ChannelOp.RetiresLast (channel : ChannelState) : ChannelOp → Prop
  | .reliableOnAck a _ => a ∈ pendingSeqs channel.reliable → OnlyMarked channel a
  | .reliablePoll now => GivesUpLast channel now
  | _ => True

/-- The channel has an expired packet. -/
def HasExpired (channel : ChannelState) (now : U32) : Prop :=
  channel.inUse = true ∧ channel.mode = modeReliable
    ∧ ∃ i : Fin maxPending, channel.reliable.pending[i].expired now = true

/-- So does an operation of the state layer. The scheduler operates on the first channel, from the
one served last, that has an expired packet. -/
def StateOp.RetiresLast (state : State) : StateOp → Prop
  | .reliableOnAck p c a _ => ∀ channel ∈ reliableAt state p c,
      a ∈ pendingSeqs channel.reliable → OnlyMarked channel a
  | .reliablePoll p c now => ∀ channel ∈ reliableAt state p c, GivesUpLast channel now
  | .schedulerNext peerIndex now => ∀ (p : Fin maxPeers) (count : Nat), p.val = peerIndex.toNat →
      state.peers[p].inUse = true → count < maxChannelsPerPeer →
      HasExpired (scheduled state p count) now →
      (∀ k, k < count → ¬ HasExpired (scheduled state p k) now) →
      GivesUpLast (scheduled state p count) now
  | _ => True

/-- A call with a `NULL` argument does nothing. -/
def StateCall.RetiresLast (state : State) (call : StateCall) : Prop :=
  call.nullArg = false → call.op.RetiresLast state

/-- The operations that set the flag by hand. -/
def ChannelOp.setsFlag : ChannelOp → Bool
  | .markInflight _ | .clearInflight _ | .clearInflightAny => true
  | _ => false

def StateOp.setsFlag : StateOp → Bool
  | .markInflight _ _ _ | .clearInflight _ _ _ | .clearInflightAny _ _ => true
  | _ => false

/-- The flags of all open reliable channels are true. -/
def FlagsTrue (state : State) : Prop :=
  ∀ r : ChannelRef, (state.channel r).inUse = true → (state.channel r).mode = modeReliable →
    Truthful (state.channel r)

/-! ## One channel -/

theorem truthful_iff {channel : ChannelState} :
    Truthful channel ↔ (channel.hasInflight = true ↔ pendingSeqs channel.reliable ≠ 0)
      ∧ (channel.hasInflight = true → channel.inflightSeq ∈ pendingSeqs channel.reliable) := by
  have hsome : (∃ i : Fin maxPending, channel.reliable.pending[i].inUse = true) ↔
      pendingSeqs channel.reliable ≠ 0 := by
    rw [Ne, Multiset.eq_zero_iff_forall_notMem, not_forall]
    constructor
    · rintro ⟨i, hi⟩
      exact ⟨_, not_not.mpr (mem_keys.mpr ⟨i, hi, rfl⟩)⟩
    · rintro ⟨q, hq⟩
      obtain ⟨i, hi, _⟩ := mem_keys.mp (not_not.mp hq)
      exact ⟨i, hi⟩
  rw [← hsome]
  constructor
  · exact fun h => ⟨h.flag, fun hf => mem_keys.mpr (h.named hf)⟩
  · exact fun h => ⟨h.1, fun hf => mem_keys.mp (h.2 hf)⟩

theorem Truthful.congr {channel channel' : ChannelState}
    (hf : channel'.hasInflight = channel.hasInflight)
    (hq : channel'.inflightSeq = channel.inflightSeq)
    (hp : channel'.reliable.pending = channel.reliable.pending) :
    Truthful channel' ↔ Truthful channel := by
  rw [truthful_iff, truthful_iff]
  unfold pendingSeqs
  rw [hf, hq, hp]

theorem Truthful.keep {channel channel' : ChannelState} (h : Truthful channel)
    (hf : channel'.hasInflight = channel.hasInflight)
    (hq : channel'.inflightSeq = channel.inflightSeq)
    (hp : channel'.reliable.pending = channel.reliable.pending) : Truthful channel' :=
  (Truthful.congr hf hq hp).mpr h

/-- Marking a packet in flight makes the flag true. -/
theorem truthful_mark {channel : ChannelState} {q : U16} (hf : channel.hasInflight = true)
    (hq : channel.inflightSeq = q) (hp : q ∈ pendingSeqs channel.reliable) : Truthful channel := by
  refine truthful_iff.mpr ⟨⟨fun _ hzero => ?_, fun _ => hf⟩, fun _ => hq ▸ hp⟩
  rw [hzero] at hp
  exact Multiset.notMem_zero q hp

/-- **Retiring a packet** leaves a true flag if the packet was not marked, or the only one. -/
theorem truthful_retire {channel : ChannelState} (h : Truthful channel) {ctx : ReliableCtx}
    {q : U16} (hp : pendingSeqs channel.reliable = q ::ₘ pendingSeqs ctx) :
    Truthful (txRemoveSeq ((channel.withEngine ctx).clearInflight q) q) ↔ OnlyMarked channel q := by
  have hflag : channel.hasInflight = true := (truthful_iff.mp h).1.mpr (hp ▸ Multiset.cons_ne_zero)
  have hqueue : Truthful (txRemoveSeq ((channel.withEngine ctx).clearInflight q) q) ↔
      Truthful ((channel.withEngine ctx).clearInflight q) := by
    obtain ⟨queue, heq⟩ := txRemoveSeq_eq ((channel.withEngine ctx).clearInflight q) q
    rw [heq]
    exact Truthful.congr rfl rfl rfl
  rw [hqueue]
  unfold ChannelState.clearInflight OnlyMarked
  by_cases hm : channel.inflightSeq = q
  · -- the flag goes down
    have hclear : ((channel.withEngine ctx).hasInflight
        && (channel.withEngine ctx).inflightSeq == q) = true := by
      rw [Bool.and_eq_true, beq_iff_eq]
      exact ⟨hflag, hm⟩
    rw [if_pos hclear, truthful_iff]
    show ((false = true ↔ pendingSeqs ctx ≠ 0) ∧ _) ↔ _
    rw [hp, ← Multiset.cons_zero, Multiset.cons_inj_right]
    constructor
    · intro ht _
      by_contra hne
      exact Bool.false_ne_true (ht.1.mpr hne)
    · intro hzero
      exact ⟨⟨fun hf => absurd hf Bool.false_ne_true, fun hne => absurd (hzero hm) hne⟩,
        fun hf => absurd hf Bool.false_ne_true⟩
  · have hkeep : ¬ ((channel.withEngine ctx).hasInflight
        && (channel.withEngine ctx).inflightSeq == q) = true := by
      rw [Bool.and_eq_true, beq_iff_eq]
      exact fun hc => hm hc.2
    rw [if_neg hkeep]
    refine ⟨fun _ he => absurd he hm, fun _ => truthful_mark hflag rfl ?_⟩
    have hmem := (truthful_iff.mp h).2 hflag
    rw [hp, Multiset.mem_cons] at hmem
    exact hmem.resolve_left hm

/-- An ACK for a packet that is not in flight finds the flag down or another packet marked. -/
theorem truthful_absent {channel : ChannelState} (h : Truthful channel) {q : U16}
    (hq : q ∉ pendingSeqs channel.reliable) :
    Truthful (txRemoveSeq (channel.clearInflight q) q) := by
  have hkeep : channel.clearInflight q = channel := by
    unfold ChannelState.clearInflight
    refine if_neg fun hc => hq ?_
    rw [Bool.and_eq_true, beq_iff_eq] at hc
    exact hc.2 ▸ (truthful_iff.mp h).2 hc.1
  obtain ⟨queue, heq⟩ := txRemoveSeq_eq channel q
  rw [hkeep, heq]
  exact h.keep rfl rfl rfl

/-- A channel with nothing in flight and the flag down. -/
theorem truthful_idle {channel : ChannelState} (hf : channel.hasInflight = false)
    (hp : pendingSeqs channel.reliable = 0) : Truthful channel := by
  refine truthful_iff.mpr ⟨?_, fun hflag => ?_⟩
  · rw [hf, hp]
    exact ⟨fun hc => absurd hc Bool.false_ne_true, fun hne => absurd rfl hne⟩
  · rw [hf] at hflag
    exact absurd hflag Bool.false_ne_true

theorem inMode_truthful {channel : ChannelState} {mode : U8} (hm : channel.mode = mode)
    {silent : Output} {r : Ret StateErr ChannelState Output} :
    Truthful (channel.inMode mode silent r).st ↔ Truthful r.st := by
  rw [inMode_same hm]

theorem reliableSend_truthful {channel : ChannelState} (hm : channel.mode = modeReliable)
    (h : Truthful channel) (now : U32) :
    Truthful ((ChannelOp.reliableSend now).act channel).st := by
  refine (inMode_truthful hm).mpr ?_
  dsimp only
  rcases reliableSend_cases channel.reliable now with ⟨heq, _⟩ | ⟨ctx', heq, _, hp⟩
  · rw [heq]
    exact h
  · rw [heq]
    obtain ⟨queue, hpush⟩ := pushTx_eq
      ((channel.withEngine ctx').markInflight channel.reliable.nextTxSeq)
      channel.reliable.nextTxSeq
    dsimp only
    rw [hpush]
    refine truthful_mark rfl rfl ?_
    show channel.reliable.nextTxSeq ∈ pendingSeqs ctx'
    rw [hp]
    exact Multiset.mem_cons_self _ _

theorem reliableOnAck_truthful {channel : ChannelState} (hm : channel.mode = modeReliable)
    (h : Truthful channel) (a : U16) (now : U32) :
    Truthful ((ChannelOp.reliableOnAck a now).act channel).st ↔
      (a ∈ pendingSeqs channel.reliable → OnlyMarked channel a) := by
  refine (inMode_truthful hm).trans ?_
  dsimp only
  rcases reliableOnAck_cases channel.reliable a now with ⟨hno, heq⟩ | ⟨ctx', heq, _, hp⟩
  · rw [heq]
    exact iff_of_true (truthful_absent h hno) fun hmem => absurd hmem hno
  · rw [heq, truthful_retire h hp]
    exact ⟨fun hl _ => hl, fun hl => hl (hp ▸ Multiset.mem_cons_self _ _)⟩

theorem reliablePoll_truthful {channel : ChannelState} (hm : channel.mode = modeReliable)
    (h : Truthful channel) (now : U32) :
    Truthful ((ChannelOp.reliablePoll now).act channel).st ↔ GivesUpLast channel now := by
  unfold GivesUpLast
  refine (inMode_truthful hm).trans ?_
  dsimp only
  rcases reliablePoll_cases channel.reliable now with ⟨heq, hno⟩ |
    ⟨i, ctx', hi, _, ⟨hr, heq, hp⟩ | ⟨hr, heq, hmem, hp⟩⟩
  · rw [heq]
    refine iff_of_true h fun i hi => ?_
    rw [firstIdx_eq_none.mpr hno] at hi
    exact absurd hi (by simp)
  · -- the first expired packet is out of retries
    rw [heq]
    dsimp only
    rw [truthful_retire h hp]
    constructor
    · intro hl j hj _
      rwa [← Option.some.inj (hi.symm.trans hj)]
    · exact fun hl => hl i hi hr
  · rw [heq]
    refine iff_of_true (truthful_mark rfl rfl ?_) fun j hj hr' => ?_
    · show _ ∈ pendingSeqs ctx'
      rw [hp]
      exact hmem
    · rw [← Option.some.inj (hi.symm.trans hj)] at hr'
      exact absurd hr' hr

theorem reliableOnData_truthful {channel : ChannelState} (h : Truthful channel) (q : U16) :
    Truthful ((ChannelOp.reliableOnData q).act channel).st := by
  show Truthful (channel.inMode modeReliable _ _).st
  unfold ChannelState.inMode
  split
  · exact h
  · have hp : (Relinow.reliableOnData channel.reliable q).1.pending = channel.reliable.pending := by
      rw [reliableOnData_tx]
    obtain ⟨queue, hcases⟩ := pushAllRx_cases
      (Relinow.reliableOnData channel.reliable q).2.deliveredSeq
      (channel.withEngine (Relinow.reliableOnData channel.reliable q).1)
    dsimp only
    rcases hcases with ⟨_, _, heq⟩ | ⟨_, heq⟩ <;> rw [heq] <;> split <;>
      exact h.keep rfl rfl hp

/-- **What each operation does to a true flag.** -/
theorem ChannelOp.act_truthful {channel : ChannelState} (hm : channel.mode = modeReliable)
    (h : Truthful channel) {op : ChannelOp} (hop : op.setsFlag = false) :
    Truthful (op.act channel).st ↔ op.RetiresLast channel := by
  have hkeep : ∀ {channel' : ChannelState}, channel'.hasInflight = channel.hasInflight →
      channel'.inflightSeq = channel.inflightSeq →
      channel'.reliable.pending = channel.reliable.pending → (Truthful channel' ↔ True) :=
    fun hf hq hp => iff_of_true (h.keep hf hq hp) trivial
  -- the operations of other modes are refused
  have hother : ∀ {mode : U8} {silent : Output} {r : Ret StateErr ChannelState Output},
      channel.mode ≠ mode → (Truthful (channel.inMode mode silent r).st ↔ True) := by
    intro mode silent r hne
    rw [inMode_other hne]
    exact hkeep rfl rfl rfl
  have hunreliable : channel.mode ≠ modeUnreliable := by
    rw [hm]
    decide
  have hpriority : channel.mode ≠ modePriority := by
    rw [hm]
    decide
  cases op with
  | nextSequence => exact hkeep rfl rfl rfl
  | getChannelMode => exact hkeep rfl rfl rfl
  | markInflight q => exact Bool.noConfusion hop
  | clearInflight q => exact Bool.noConfusion hop
  | clearInflightAny => exact Bool.noConfusion hop
  | enqueueTx q =>
      obtain ⟨queue, heq⟩ := pushTx_eq channel q
      show Truthful (channel.pushTx q).2 ↔ True
      rw [heq]
      exact hkeep rfl rfl rfl
  | enqueueRx q =>
      show Truthful (channel.pushRx q).2 ↔ True
      rcases pushRx_cases channel q with ⟨_, heq⟩ | ⟨queue, _, heq⟩ <;> rw [heq] <;>
        exact hkeep rfl rfl rfl
  | setReliableConfig cfg =>
      refine (inMode_truthful hm).trans (iff_of_true ?_ trivial)
      exact truthful_idle rfl (pendingSeqs_init (some cfg))
  | reliableSend now => exact iff_of_true (reliableSend_truthful hm h now) trivial
  | reliableOnAck a now => exact reliableOnAck_truthful hm h a now
  | reliablePoll now => exact reliablePoll_truthful hm h now
  | reliableOnData q => exact iff_of_true (reliableOnData_truthful h q) trivial
  | reliableGetRttMs => exact (inMode_truthful hm).trans (hkeep rfl rfl rfl)
  | unreliableSend => exact hother hunreliable
  | unreliableOnData q => exact hother hunreliable
  | prioritySend => exact hother hpriority
  | priorityOnData q => exact hother hpriority
  | getStats => exact hkeep rfl rfl rfl

/-! ## All channels -/

theorem setsFlag_at (p c : U8) (op : ChannelOp) : (op.at p c).setsFlag = op.setsFlag := by
  cases op <;> rfl

theorem retiresLast_at {state : State} (p c : U8) (op : ChannelOp) :
    (op.at p c).RetiresLast state ↔ ∀ channel ∈ reliableAt state p c, op.RetiresLast channel := by
  cases op with
  | reliableOnAck a now => exact Iff.rfl
  | reliablePoll now => exact Iff.rfl
  | _ => exact iff_of_true trivial fun _ _ => trivial

/-- **An operation on a channel** keeps the flags true if it keeps that of its channel. -/
theorem FlagsTrue.channelOp {state : State} (h : FlagsTrue state) {op : ChannelOp}
    (hop : op.setsFlag = false) (p c : U8) :
    FlagsTrue (op.run state p c).st ↔
      ∀ channel ∈ reliableAt state p c, op.RetiresLast channel := by
  cases hr : findChannelMut state p c with
  | none =>
      rw [ChannelOp.run_absent hr]
      refine iff_of_true h fun channel hat => ?_
      obtain ⟨r, hr', _⟩ := channelAt_eq_some.mp (reliableAt_eq_some.mp hat).1
      exact absurd (hr.symm.trans hr') (by simp)
  | some r =>
      rw [ChannelOp.run_eq hr]
      have hn := op.act_name (state.channel r)
      obtain ⟨hin, _⟩ := findChannelMut_found hr
      constructor
      · intro hf channel hat
        obtain ⟨hat, hm⟩ := reliableAt_eq_some.mp hat
        obtain ⟨r', hr', rfl⟩ := channelAt_eq_some.mp hat
        obtain rfl : r = r' := Option.some.inj (hr.symm.trans hr')
        have htrue := hf r
        unfold Ret.writeBack at htrue
        rw [channel_setChannel] at htrue
        exact (ChannelOp.act_truthful hm (h r hin hm) hop).mp
          (htrue (hn.inUse.trans hin) (hn.mode.trans hm))
      · intro hlast r' hin' hm'
        unfold Ret.writeBack at hin' hm' ⊢
        rw [setChannel_get] at hin' hm' ⊢
        by_cases hrr : r = r'
        · rw [if_pos hrr] at hm' ⊢
          have hm := hn.mode.symm.trans hm'
          refine (ChannelOp.act_truthful hm (h r hin hm) hop).mpr (hlast _ ?_)
          exact reliableAt_eq_some.mpr ⟨channelAt_eq_some.mpr ⟨r, hr, rfl⟩, hm⟩
        · rw [if_neg hrr] at hin' hm' ⊢
          exact h r' hin' hm'

/-- Operations on peers touch no engine, and a new channel has nothing in flight. -/
theorem FlagsTrue.writes {state state' : State} (h : FlagsTrue state)
    (hw : Writes (fun _ => False) state state') : FlagsTrue state' := by
  induction hw with
  | refl => exact h
  | tail _ hw ih =>
      refine write_channels (I := fun channel => channel.inUse = true →
        channel.mode = modeReliable → Truthful channel) (fun _ _ hop _ => hop.elim)
        (fun channel priority hc hin hm => (hc hin hm).keep rfl rfl rfl)
        (fun hin => absurd hin (by decide)) (fun c mode priority _ _ => ?_) ih hw
      refine truthful_idle rfl ?_
      unfold openedChannel
      dsimp only
      split <;> rfl

/-- The channel the scheduler looks at is found under its id. -/
theorem scheduled_reliable {state : State} (h : TablesOk state) {p : Fin maxPeers} {peerIndex : U8}
    (hp : p.val = peerIndex.toNat) (hu : state.peers[p].inUse = true) {count : Nat}
    (hin : (scheduled state p count).inUse = true)
    (hm : (scheduled state p count).mode = modeReliable) :
    reliableAt state peerIndex (scheduled state p count).channelId
      = some (scheduled state p count) := by
  have hr := findChannelMut_of_inUse
    (r := (p, pollIdx state.peers[p].lastPolledChannelIdx count)) h hp hu hin
  exact reliableAt_eq_some.mpr ⟨channelAt_eq_some.mpr ⟨_, hr, rfl⟩, hm⟩

/-- The scheduler's rounds are due where a channel has an expired packet. -/
theorem due_iff {state : State} (h : TablesOk state) {p : Fin maxPeers} {peerIndex : U8}
    (hp : p.val = peerIndex.toNat) (hu : state.peers[p].inUse = true) {now : U32} {count : Nat} :
    Due state p peerIndex now count ↔ HasExpired (scheduled state p count) now := by
  unfold Due HasExpired
  refine and_congr_right fun hin => and_congr_right fun hm => ?_
  rw [stateReliablePoll_reports]
  unfold Overdue
  rw [scheduled_reliable h hp hu hin hm]
  constructor
  · rintro ⟨channel, hc, hexp⟩
    rwa [Option.mem_some.mp hc]
  · exact fun hexp => ⟨_, rfl, hexp⟩

/-- **A call of the scheduler** is a poll of the first channel with an expired packet. -/
theorem FlagsTrue.scheduler {state : State} (h : FlagsTrue state) (hok : TablesOk state)
    (peerIndex : U8) (now : U32) :
    FlagsTrue (stateSchedulerNext state peerIndex now).st ↔
      (StateOp.schedulerNext peerIndex now).RetiresLast state := by
  rcases stateSchedulerNext_serves state peerIndex now with ⟨hst, _, hno⟩ |
    ⟨p, count, hp, hlt, hdue, hfirst, heq⟩
  · rw [hst]
    refine iff_of_true h fun p count hp hu hlt hexp _ => ?_
    exact absurd ((due_iff hok hp hu).mpr hexp) (hno p hp hu count hlt)
  · have hover := stateReliablePoll_reports.mp hdue.2.2
    have hu : state.peers[p].inUse = true := by
      obtain ⟨⟨p', j⟩, hr⟩ := hover.found
      obtain ⟨hp', hpu, _⟩ := findChannelMut_eq_some.mp hr
      obtain rfl : p' = p := Fin.ext (hp'.trans hp.symm)
      exact hpu
    -- noting where it was touches no channel
    have hserve : FlagsTrue (serve state p peerIndex now count) ↔
        FlagsTrue
          (stateReliablePoll state peerIndex (scheduled state p count).channelId now).st := by
      unfold FlagsTrue serve
      refine forall_congr' fun r => ?_
      dsimp only
      rw [setPeer_channel]
      split
      · rename_i hpr
        rw [hpr]
        exact Iff.rfl
      · exact Iff.rfl
    have hpoll : FlagsTrue (stateReliablePoll state peerIndex
        (scheduled state p count).channelId now).st ↔
          GivesUpLast (scheduled state p count) now := by
      have hop : (ChannelOp.reliablePoll now).setsFlag = false := rfl
      refine (h.channelOp hop peerIndex _).trans ?_
      rw [scheduled_reliable hok hp hu hdue.1 hdue.2.1]
      exact ⟨fun hl => hl _ rfl, fun hl channel hc => Option.mem_some.mp hc ▸ hl⟩
    rw [heq]
    refine hserve.trans (hpoll.trans ?_)
    constructor
    · intro hl p' count' hp' hu' hlt' hexp' hfirst'
      obtain rfl : p' = p := Fin.ext (hp'.trans hp.symm)
      rcases Nat.lt_trichotomy count' count with hc | rfl | hc
      · exact absurd ((due_iff hok hp hu).mpr hexp') (hfirst count' hc)
      · exact hl
      · exact absurd ((due_iff hok hp hu).mp hdue) (hfirst' count hc)
    · exact fun hl => hl p count hp hu hlt ((due_iff hok hp hu).mp hdue)
        fun k hk hexp => hfirst k hk ((due_iff hok hp hu).mpr hexp)

/-- **What each call does to true flags.** -/
theorem FlagsTrue.step {state : State} (h : FlagsTrue state) (hok : TablesOk state)
    {call : StateCall} (hcall : call.op.setsFlag = false) :
    FlagsTrue (call.run state).2 ↔ call.RetiresLast state := by
  unfold StateCall.run StateCall.RetiresLast
  by_cases hnull : call.nullArg = true
  · rw [if_pos hnull, hnull]
    exact iff_of_true h fun hc => absurd hc (by decide)
  · rw [if_neg hnull]
    have himp : (call.nullArg = false → call.op.RetiresLast state) ↔ call.op.RetiresLast state :=
      ⟨fun hr => hr (Bool.eq_false_iff.mpr hnull), fun hr _ => hr⟩
    rw [himp]
    generalize call.op = op at hcall
    cases op using StateOp.byChannel with
    | channel p c o =>
        rw [setsFlag_at] at hcall
        rw [retiresLast_at, ChannelOp.at_run]
        exact h.channelOp hcall p c
    | findPeer mac => exact iff_of_true h trivial
    | addPeer mac => exact iff_of_true (h.writes (addPeer_writes mac)) trivial
    | openChannel p c mode priority =>
        exact iff_of_true (h.writes (openChannel_writes p c mode priority)) trivial
    | configureHeartbeat p interval miss =>
        exact iff_of_true (h.writes (configureHeartbeat_writes p interval miss)) trivial
    | pollHeartbeat p now => exact iff_of_true (h.writes (pollHeartbeat_writes p now)) trivial
    | onPong p => exact iff_of_true (h.writes (onPong_writes p)) trivial
    | schedulerNext p now => exact h.scheduler hok p now

theorem TablesOk.call {state : State} (h : TablesOk state) (call : StateCall) :
    TablesOk (call.run state).2 := by
  have hw : Writes (fun _ => True) state (call.run state).2 :=
    calls_writes (fun _ => trivial) [call] (fun _ _ _ _ _ _ => trivial) state
  exact (h.writes hw).1

theorem flagsTrue_init : FlagsTrue stateInit := by
  intro r hin
  unfold State.channel stateInit PeerState.zero at hin
  dsimp only at hin
  rw [get_replicate, get_replicate] at hin
  exact absurd hin (by decide)

/--
**When the in-flight flag tells the truth.** In a run that does not set it by hand
the flag and the id of every reliable channel are right in all states if and only
if each ACK and each failure that retires the packet a channel has marked finds no
other in flight there.
-/
theorem inflight_truthful_iff (calls : List StateCall)
    (hcalls : ∀ call ∈ calls, call.op.setsFlag = false) :
    (∀ k, ∀ r : ChannelRef, ((stateAfter (calls.take k)).channel r).inUse = true →
        ((stateAfter (calls.take k)).channel r).mode = modeReliable →
        Truthful ((stateAfter (calls.take k)).channel r))
      ↔ Along (fun state call => (StateCall.run state call).2) StateCall.RetiresLast stateInit
          calls := by
  exact always_iff_along (G := FlagsTrue) (I := TablesOk)
    (A := fun call : StateCall => call.op.setsFlag = false)
    (fun state call ha hok hf => ⟨hf.step hok ha, fun _ => hok.call call⟩)
    hcalls tablesOk_init flagsTrue_init

/-- Two packets on one channel, and ACKs for them. -/
def twoAcked (acks : List U16) : List StateCall :=
  oneChannel modeReliable
    ++ [⟨.reliableSend 0#8 1#8 0#32, false⟩, ⟨.reliableSend 0#8 1#8 0#32, false⟩]
    ++ acks.map fun a => ⟨.reliableOnAck 0#8 1#8 a 10#32, false⟩

/-- The marked packet is acknowledged last: between the two ACKs the flag is up. -/
theorem inOrder_truthful :
    Truthful ((stateAfter ((twoAcked [0#16, 1#16]).take 5)).channel (0, 0)) := by
  refine (inflight_truthful_iff (twoAcked [0#16, 1#16]) (by decide)).mpr ?_ 5 (0, 0)
    (by decide +kernel) (by decide +kernel)
  refine ⟨fun _ => trivial, fun _ => trivial, fun _ => trivial, fun _ => trivial,
    fun _ => ?_, fun _ => ?_, trivial⟩
  · unfold StateOp.RetiresLast OnlyMarked
    decide +kernel
  · unfold StateOp.RetiresLast OnlyMarked
    decide +kernel

/-- An ACK for the second packet takes the flag down while the first is in flight. -/
theorem inflight_not_truthful :
    ¬ ∀ calls : List StateCall, (∀ call ∈ calls, call.op.setsFlag = false) →
      ∀ r : ChannelRef, ((stateAfter calls).channel r).inUse = true →
        ((stateAfter calls).channel r).mode = modeReliable →
        Truthful ((stateAfter calls).channel r) := by
  intro h
  have hdown : ((stateAfter (twoAcked [1#16])).channel (0, 0)).hasInflight = false := by
    decide +kernel
  have hup := (h (twoAcked [1#16]) (by decide) (0, 0) (by decide +kernel)
    (by decide +kernel)).flag.mpr ⟨0, by decide +kernel⟩
  rw [hdown] at hup
  exact Bool.false_ne_true hup

end Relinow
