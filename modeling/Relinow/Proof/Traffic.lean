import Relinow.Proof.LinkRefinement
import Relinow.Proof.RxCache
import Relinow.Proof.SilentPeer

/-!
# What a RELIABLE channel puts on the air

Every frame of a RELIABLE channel has a cause, and no cause brings more than its
share. A packet pays for its first transmission and for the retransmissions it is
allowed; an ACK is paid for by the packet that it answers. The account is kept for
each id: what was on the air already and what the packets in flight may still ask
for never comes to more than what the packets given that id have paid.

So a node does not flood: not by polling often, not for what a peer or a stranger
sends it, not whatever becomes of the frames.
-/

namespace Relinow

open SlotTable Runs

/-! ## The account of an engine -/

/-- The retransmissions that packets in flight with the id may still ask for. -/
def retriesOpen (ctx : ReliableCtx) (q : U16) : Nat := (owedEvents ctx).count ⟨.retransmit, q⟩

theorem owed_count (maxRetries : U8) (slot : Pending) (q : U16) :
    (slot.owed maxRetries).count ⟨.retransmit, q⟩
      = if slot.seqId = q then slot.triesLeft maxRetries else 0 := by
  unfold Pending.owed
  rw [Multiset.count_cons_of_ne (by simp), Multiset.count_replicate]
  simp [TxResult.mk.injEq]

theorem owedEvents_send {ctx : ReliableCtx} {now : U32} (h : (reliableSend ctx now).rc = .ok) :
    owedEvents (reliableSend ctx now).st
      = (newPending ctx now).owed ctx.cfg.maxRetries + owedEvents ctx := by
  unfold reliableSend at h ⊢
  cases hf : findFreePendingSlot ctx with
  | none =>
      rw [hf] at h
      exact absurd h (by simp)
  | some i =>
      dsimp only
      unfold owedEvents
      dsimp only
      rw [← Multiset.cons_bind]
      exact congrArg (fun slots => Multiset.bind slots (Pending.owed ctx.cfg.maxRetries))
        (live_fill (freeIdx_some Pending.inUse hf) rfl)

/-- A new packet pays for as many retransmissions as are allowed. -/
theorem retriesOpen_send {ctx : ReliableCtx} {now : U32} (h : (reliableSend ctx now).rc = .ok)
    (q : U16) :
    retriesOpen (reliableSend ctx now).st q
      = (if ctx.nextTxSeq = q then ctx.cfg.maxRetries.toNat else 0) + retriesOpen ctx q := by
  unfold retriesOpen
  rw [owedEvents_send h, Multiset.count_add, owed_count]
  rfl

theorem owedEvents_onAck (ctx : ReliableCtx) (a : U16) (now : U32) :
    owedEvents (reliableOnAck ctx a now) ≤ owedEvents ctx := by
  unfold reliableOnAck
  cases hf : findPendingSlot ctx a with
  | none => exact le_refl _
  | some i =>
      obtain ⟨hu, _⟩ := keyIdx_some Pending.inUse Pending.seqId hf
      unfold owedEvents
      dsimp only
      rw [live_release hu (x := { ctx.pending[i] with inUse := false }) rfl, Multiset.cons_bind]
      exact Multiset.le_add_left _ _

theorem owedEvents_onData (ctx : ReliableCtx) (q : U16) :
    owedEvents (reliableOnData ctx q).1 = owedEvents ctx := by
  rw [reliableOnData_tx]
  rfl

/-- A retransmission uses up one that was open. -/
theorem retriesOpen_poll (ctx : ReliableCtx) (now : U32) (q : U16) :
    retriesOpen (reliablePoll ctx now).1 q
        + (if (reliablePoll ctx now).2 = ⟨.retransmit, q⟩ then 1 else 0) = retriesOpen ctx q := by
  unfold retriesOpen
  by_cases hev : (reliablePoll ctx now).2.event = .none
  · rcases reliablePoll_slot ctx now with ⟨heq, -⟩ | ⟨i, -, ⟨_, heq⟩ | ⟨_, heq⟩⟩ <;>
      rw [heq] at hev ⊢
    · simp
    · exact absurd hev (by simp)
    · exact absurd hev (by simp)
  · have howed := reliablePoll_owed ctx now hev
    rw [howed, Multiset.count_cons]
    simp only [eq_comm]

theorem reliablePoll_cfg (ctx : ReliableCtx) (now : U32) :
    (reliablePoll ctx now).1.cfg = ctx.cfg := by
  rcases reliablePoll_slot ctx now with ⟨heq, -⟩ | ⟨i, -, ⟨_, heq⟩ | ⟨_, heq⟩⟩ <;> rw [heq]

/-! ## The account of an end -/

/-- **The account of each id is kept.** -/
structure Frugal (maxRetries : Nat) (e : LinkEnd) : Prop where
  retries : e.engine.cfg.maxRetries.toNat = maxRetries
  next : e.engine.nextTxSeq = BitVec.ofNat 16 e.sends
  account : ∀ q, e.data.count q + retriesOpen e.engine q
    ≤ (1 + maxRetries) * (idsBetween 0 e.sends).count q

theorem frugal_start (cfg : Option ReliableConfig) :
    Frugal (reliableInit cfg).cfg.maxRetries.toNat (LinkEnd.start cfg) := by
  refine ⟨rfl, rfl, fun q => ?_⟩
  have hnone : owedEvents (reliableInit cfg) = 0 := by
    unfold owedEvents
    rw [live_of_none fun i => by simp [reliableInit, ReliableCtx.zero, Pending.zero]]
    rfl
  show [].count q + retriesOpen (reliableInit cfg) q ≤ _
  unfold retriesOpen
  rw [hnone]
  simp

section Frugal

variable {m : Nat} {e : LinkEnd}

theorem Frugal.send (h : Frugal m e) (now : U32) : Frugal m (e.send now) := by
  have hnext := LinkEnd.next_step h.next (.send now)
  rcases e.send_cases now with ⟨_, heq⟩ | ⟨ctx', hsend, hfr, heq⟩
  · rw [heq]
    exact h
  · have hok : (reliableSend e.engine now).rc = .ok := by rw [hsend]
    have hopen := retriesOpen_send hok
    rw [hsend] at hopen
    dsimp only at hopen
    refine ⟨?_, hnext, fun q => ?_⟩
    · rw [heq, hfr]
      exact h.retries
    · have hacc := h.account q
      rw [heq]
      dsimp only
      rw [idsBetween_sends h.next, hopen q, h.retries, List.count_append, List.count_append,
        List.count_singleton]
      by_cases hq : e.engine.nextTxSeq = q
      · simp only [hq, beq_self_eq_true, if_true, Nat.mul_add, Nat.mul_one]
        omega
      · simp only [beq_iff_eq, hq, if_false, Nat.add_zero, Nat.zero_add]
        exact hacc

theorem Frugal.poll (h : Frugal m e) (now : U32) : Frugal m (e.poll now) := by
  have hcfg := reliablePoll_cfg e.engine now
  have hopen := retriesOpen_poll e.engine now
  have hnext := reliablePoll_next e.engine now
  unfold LinkEnd.poll
  generalize reliablePoll e.engine now = r at hcfg hopen hnext ⊢
  obtain ⟨ctx, event, id⟩ := r
  have hretries : ctx.cfg.maxRetries.toNat = m := by
    rw [show ctx.cfg = e.engine.cfg from hcfg]
    exact h.retries
  have hids : ctx.nextTxSeq = BitVec.ofNat 16 e.sends := hnext.trans h.next
  cases event with
  | retransmit =>
      refine ⟨hretries, hids, fun q => ?_⟩
      have hacc := h.account q
      have hq := hopen q
      show (e.data ++ [id]).count q + retriesOpen ctx q
        ≤ (1 + m) * (idsBetween 0 e.sends).count q
      rw [List.count_append, List.count_singleton]
      simp only [TxResult.mk.injEq, true_and] at hq
      by_cases hid : id = q
      · simp only [hid, beq_self_eq_true, if_true] at hq ⊢
        omega
      · simp only [beq_iff_eq, hid, if_false] at hq ⊢
        omega
  | none | new | failed =>
      refine ⟨hretries, hids, fun q => ?_⟩
      have hacc := h.account q
      have hq := hopen q
      simp only [TxResult.mk.injEq, reduceCtorEq, false_and, if_false, Nat.add_zero] at hq
      show e.data.count q + retriesOpen ctx q ≤ (1 + m) * (idsBetween 0 e.sends).count q
      omega

theorem Frugal.onData (h : Frugal m e) (q : U16) : Frugal m (e.onData q) := by
  refine ⟨?_, LinkEnd.next_step h.next (.onData q), fun q' => ?_⟩
  · show (reliableOnData e.engine q).1.cfg.maxRetries.toNat = m
    rw [reliableOnData_tx]
    exact h.retries
  · show e.data.count q' + retriesOpen (reliableOnData e.engine q).1 q' ≤ _
    unfold retriesOpen
    rw [owedEvents_onData]
    exact h.account q'

theorem Frugal.onAck (h : Frugal m e) (a : U16) (now : U32) : Frugal m (e.onAck a now) := by
  have hcfg : (reliableOnAck e.engine a now).cfg = e.engine.cfg := by
    rcases reliableOnAck_cases e.engine a now with ⟨_, heq⟩ | ⟨ctx', heq, hfr, _⟩ <;> rw [heq]
    rw [hfr]
  refine ⟨?_, LinkEnd.next_step h.next (.onAck a now), fun q => ?_⟩
  · show (reliableOnAck e.engine a now).cfg.maxRetries.toNat = m
    rw [hcfg]
    exact h.retries
  · have hle := Multiset.count_le_of_le (⟨.retransmit, q⟩ : TxResult)
      (owedEvents_onAck e.engine a now)
    have hacc := h.account q
    unfold retriesOpen at hacc
    show e.data.count q + (owedEvents (reliableOnAck e.engine a now)).count ⟨.retransmit, q⟩
      ≤ (1 + m) * (idsBetween 0 e.sends).count q
    omega

/-- **Every move keeps the account.** -/
theorem Frugal.step (h : Frugal m e) (move : EndMove) : Frugal m (e.step move) := by
  cases move with
  | send now => exact h.send now
  | poll now => exact h.poll now
  | onData q => exact h.onData q
  | onAck a now => exact h.onAck a now

end Frugal

/-- One ACK for each packet that arrives. -/
theorem acks_run (moves : List EndMove) : ∀ e : LinkEnd,
    (run LinkEnd.step e moves).acks.length = e.acks.length + moves.countP EndMove.isData := by
  induction moves with
  | nil => exact fun e => rfl
  | cons move moves ih =>
      intro e
      rw [run_cons, ih, List.countP_cons]
      cases move with
      | onData q =>
          show (e.acks ++ [_]).length + _ = _
          rw [List.length_append, List.length_singleton]
          simp [EndMove.isData]
          omega
      | send now =>
          have hsame : (e.step (.send now)).acks = e.acks := by
            show (e.send now).acks = e.acks
            rcases e.send_cases now with ⟨_, heq⟩ | ⟨_, _, _, heq⟩ <;> rw [heq]
          rw [hsame]
          simp [EndMove.isData]
      | poll now =>
          have hsame : (e.step (.poll now)).acks = e.acks := (e.poll_engine now).2.2
          rw [hsame]
          simp [EndMove.isData]
      | onAck a now => rfl

/-! ## A node -/

/-- The call brings a packet of the channel. -/
def ApiStep.bringsData (c : U8) (a : ApiStep) : Bool :=
  match a.call with
  | .onReceive _ data _ => (packetOn modeReliable c data).isSome
  | _ => false

/-- What the node has shown, with its account. -/
structure NodeFrugal (c : U8) (maxRetries received : Nat) (w : NodeRun) (e : LinkEnd) : Prop where
  conforms : Conforms w
  fits : w.node.maxPayload.toNat ≤ maxPayloadLimit
  shows : Shows c w.node w.history e
  frugal : Frugal maxRetries e
  acks : e.acks.length ≤ received

theorem NodeFrugal.step {c : U8} (hc : c ≠ heartbeatChannel) {m received : Nat} {w : NodeRun}
    {e : LinkEnd} (h : NodeFrugal c m received w e) (a : ApiStep) :
    ∃ e', NodeFrugal c m (received + if a.bringsData c then 1 else 0) (w.step a) e' := by
  obtain ⟨moves, hmoves⟩ := shows_step hc h.conforms.cached h.fits h.shows a
  have hone := hmoves.onePacket
  refine ⟨_, conforms_step w a h.conforms, ?_, hmoves.shows, ?_, ?_⟩
  · rw [(sameConfig_step w a).maxPayload]
    exact h.fits
  · exact invariant (P := fun _ _ => True) (fun _ move hf _ => hf.step move) h.frugal
      (Along.of_forall (fun _ _ => trivial) moves _)
  · rw [acks_run]
    have hacks := h.acks
    cases hb : a.bringsData c with
    | true =>
        rw [if_pos rfl]
        omega
    | false =>
        -- then no move of the end is a packet
        have hnone : moves.countP EndMove.isData = 0 := List.countP_eq_zero.mpr fun move hm => by
          have hof := hmoves.of move hm
          cases move with
          | onData q =>
              unfold ApiStep.bringsData at hb
              cases hcall : a.call with
              | onReceive src data now =>
                  rw [hcall] at hof hb
                  obtain ⟨p, hp, -⟩ := hof
                  dsimp only at hb
                  rw [hp] at hb
                  exact absurd hb (by simp)
              | _ =>
                  rw [hcall] at hof
                  exact absurd hof id
          | _ => exact Bool.false_ne_true
        omega

theorem nodeFrugal_init {node₀ node : Node} {cfg : Config} (hinit : init node₀ cfg = (.ok, node))
    (c : U8) :
    NodeFrugal c (reliableInit (cfg.engineCfg c)).cfg.maxRetries.toNat 0 ⟨node, []⟩
      (LinkEnd.start (cfg.engineCfg c)) :=
  ⟨conforms_init hinit, (maxPayload_run hinit []).2, shows_init hinit c, frugal_start _, le_refl 0⟩

/-- **Every run keeps the account.** -/
theorem nodeFrugal_run {c : U8} (hc : c ≠ heartbeatChannel) {m : Nat} (as : List ApiStep) :
    ∀ {received : Nat} {w : NodeRun} {e : LinkEnd}, NodeFrugal c m received w e →
      ∃ e', NodeFrugal c m (received + as.countP (ApiStep.bringsData c))
        (run NodeRun.step w as) e' := by
  induction as with
  | nil => exact fun h => ⟨_, h⟩
  | cons a as ih =>
      intro received w e h
      obtain ⟨e', h'⟩ := h.step hc a
      obtain ⟨e'', h''⟩ := ih h'
      refine ⟨e'', ?_⟩
      rw [List.countP_cons, Nat.add_comm (as.countP _), ← Nat.add_assoc]
      exact h''

/--
**No flood.** In every run of a node, whatever is called, however often it is polled,
and whatever arrives, on every RELIABLE channel: for each id, the DATA frames of the
channel that were put on the air with it, and the retransmissions that packets in
flight may still ask for, are at most as many as `1 + max_retries` for each packet that
was given the id; and there are no more ACKs of the channel on the air than DATA frames
of the channel arrived.
-/
theorem traffic_bounded {node₀ node : Node} {cfg : Config} (hinit : init node₀ cfg = (.ok, node))
    (as : List ApiStep) {c : U8} (hc : c ≠ heartbeatChannel) {w : NodeRun}
    (hw : w = run NodeRun.step ⟨node, []⟩ as) :
    (∀ q, ((sentOn modeReliable c w.history).map Prod.fst).count q
        + retriesOpen (w.node.engine c) q
      ≤ (1 + (reliableInit (cfg.engineCfg c)).cfg.maxRetries.toNat)
          * (assignedOn c w.history).count q)
      ∧ (acksOn c w.history).length ≤ as.countP (ApiStep.bringsData c) := by
  obtain ⟨e, h⟩ := nodeFrugal_run hc as (nodeFrugal_init hinit c)
  rw [← hw, Nat.zero_add] at h
  refine ⟨fun q => ?_, ?_⟩
  · have hdata := h.shows.shown.data.count_le q
    have hacc := h.frugal.account q
    rw [h.shows.engine, h.shows.shown.assigned]
    omega
  · exact h.shows.shown.acks.length_le.trans h.acks

/-- Two fragments nobody acknowledges, and a packet that comes twice. -/
def busyPolls : List ApiStep :=
  busySends ++ [⟨Radio.up, .poll 1000#32⟩, byteArrives 1#8 0#8 7#8, ⟨Radio.up, .poll 2000#32⟩,
    byteArrives 1#8 0#8 7#8, ⟨Radio.up, .poll 3000#32⟩]

theorem busyPolls_bounded :
    (∀ q, ((sentOn modeReliable 1#8 (run NodeRun.step ⟨busyNode, []⟩ busyPolls).history).map
          Prod.fst).count q
        + retriesOpen ((run NodeRun.step ⟨busyNode, []⟩ busyPolls).node.engine 1#8) q
      ≤ (1 + (reliableInit (busyConfig.engineCfg 1#8)).cfg.maxRetries.toNat)
          * (assignedOn 1#8 (run NodeRun.step ⟨busyNode, []⟩ busyPolls).history).count q)
      ∧ (acksOn 1#8 (run NodeRun.step ⟨busyNode, []⟩ busyPolls).history).length
        ≤ busyPolls.countP (ApiStep.bringsData 1#8) :=
  traffic_bounded busyNode_init busyPolls (by decide) rfl

end Relinow
