import Relinow.Proof.Link

/-!
# Does the ACK of a packet release it?

The receiver acknowledges cumulatively: the id in its ACK is the last one it has
delivered in order. The sender reads the ACK literally: it releases the one slot
that holds exactly this id. The two agree only while the id just received is
also the last one delivered. When an arrival closes a gap, or a duplicate of an
older id comes in, the ACK names a later id, and the slot of the packet that
arrived stays taken until its retries run out.
-/

namespace Relinow

open SlotTable Runs Link

/-- The receiver, as it is before `s` arrives, will answer with an ACK for `s` itself: its window
is not open, or it expects `s` and does not hold the id after it, or `s` is the id it delivered
last. -/
def acksItself (ctx : ReliableCtx) (s : U16) : Bool :=
  !ctx.hasRxWindow || (s == ctx.expectedRxSeq && !reorderContains ctx (seqNext s))
    || seqNext s == ctx.expectedRxSeq

/-- A run is empty exactly when its first id is not buffered. -/
theorem reorderRun_eq_nil {ctx : ReliableCtx} {e : U16} :
    reorderRun ctx maxReorder e = [] ↔ reorderContains ctx e = false := by
  show (if reorderContains ctx e then _ else _) = [] ↔ _
  cases reorderContains ctx e with
  | true => simp
  | false => simp

theorem ackId_eq_iff {ctx : ReliableCtx} {s : U16}
    (h : (reliableOnData ctx s).2.status = .delivered
      ∨ (reliableOnData ctx s).2.status = .duplicate) :
    (reliableOnData ctx s).2.ackId = s ↔ acksItself ctx s = true := by
  unfold acksItself
  rcases reliableOnData_cases ctx s with ⟨hw, heq⟩ | ⟨hw, hq, ctx', ds, hds, _, _, heq⟩ |
    ⟨_, _, _, heq⟩ | ⟨_, _, _, _, ctx', _, _, heq⟩ | ⟨_, _, _, _, heq⟩ | ⟨hw, hq, _, heq⟩ <;>
    rw [heq] at h ⊢
  · simp [hw]
  · -- in order: the ACK names `s` exactly when nothing is flushed after it
    have hnext : seqNext s ≠ ctx.expectedRxSeq := by
      rw [hq]
      unfold seqNext
      bv_omega
    have hlen : ds.length ≤ 8 := by
      rw [hds]
      exact reorderRun_length_le ctx maxReorder _
    have hnil : s + BitVec.ofNat 16 ds.length = s ↔ ds = [] := by
      rw [← List.length_eq_zero_iff]
      constructor
      · intro he
        bv_omega
      · intro he
        rw [he]
        bv_omega
    dsimp only
    rw [hnil, hds, reorderRun_eq_nil, hw, beq_iff_eq.mpr hq, beq_false_of_ne hnext]
    simp
  · -- the remaining outcomes are neither a delivery nor a duplicate
    simp at h
  · simp at h
  · simp at h
  · -- behind the window: the ACK names the id delivered last
    have hprev : ctx.expectedRxSeq - 1#16 = s ↔ seqNext s = ctx.expectedRxSeq := by
      unfold seqNext
      constructor <;> intro he <;> bv_omega
    dsimp only
    rw [hprev, hw]
    simp [hq]

/--
**When the ACK of a delivered packet releases it.** The receiver gets `s` after
the run `pre` and answers DELIVERED, or DUPLICATE for an `s` it has delivered;
after any further run `post` that answer reaches the sender. Then no slot holds
`s` any more exactly when the receiver acknowledged `s` itself, or no slot held
`s` anyway.
-/
theorem onAck_releases_iff (cfgS cfgR : Option ReliableConfig) (pre post : List LinkAction)
    (s : U16) (now : U32)
    (hst : (reliableOnData (linkAfter cfgS cfgR pre).receiver s).2.status = .delivered
      ∨ (reliableOnData (linkAfter cfgS cfgR pre).receiver s).2.status = .duplicate
        ∧ s ∈ (linkAfter cfgS cfgR pre).delivered)
    (hfew : (linkAfter cfgS cfgR (pre ++ .onData s :: post)).sends < 32768) :
    s ∉ pendingSeqs (reliableOnAck (linkAfter cfgS cfgR (pre ++ .onData s :: post)).sender
        (reliableOnData (linkAfter cfgS cfgR pre).receiver s).2.ackId now)
      ↔ acksItself (linkAfter cfgS cfgR pre).receiver s = true
        ∨ s ∉ pendingSeqs (linkAfter cfgS cfgR (pre ++ .onData s :: post)).sender := by
  have htx := (linkAfter_inv cfgS cfgR (pre ++ .onData s :: post)).tx hfew
  rw [← ackId_eq_iff (hst.imp_right And.left), mem_reliableOnAck htx, not_and_or, not_not,
    or_comm, eq_comm]

/-- One packet, delivered and acknowledged. -/
theorem onAck_releases_first :
    0#16 ∉ pendingSeqs
        (reliableOnAck (linkAfter none none ([.send 0#32] ++ .onData 0#16 :: [])).sender
          (reliableOnData (linkAfter none none [.send 0#32]).receiver 0#16).2.ackId 5#32)
      ↔ acksItself (linkAfter none none [.send 0#32]).receiver 0#16 = true
        ∨ 0#16 ∉ pendingSeqs (linkAfter none none ([.send 0#32] ++ .onData 0#16 :: [])).sender :=
  onAck_releases_iff none none [.send 0#32] [] 0#16 5#32 (Or.inl (by decide +kernel))
    (by decide +kernel)

/-- Three packets of which the third overtakes the second: the ACK for the second names the
third. -/
theorem onAck_not_releases :
    ¬ ∀ (cfgS cfgR : Option ReliableConfig) (pre post : List LinkAction) (s : U16) (now : U32),
      LinkRun cfgS cfgR (pre ++ .onData s :: post) →
      ((reliableOnData (linkAfter cfgS cfgR pre).receiver s).2.status = .delivered
        ∨ (reliableOnData (linkAfter cfgS cfgR pre).receiver s).2.status = .duplicate
          ∧ s ∈ (linkAfter cfgS cfgR pre).delivered) →
      (linkAfter cfgS cfgR (pre ++ .onData s :: post)).sends < 32768 →
      s ∉ pendingSeqs (reliableOnAck (linkAfter cfgS cfgR (pre ++ .onData s :: post)).sender
        (reliableOnData (linkAfter cfgS cfgR pre).receiver s).2.ackId now) := by
  intro h
  have h1 := h none none [.send 0#32, .send 0#32, .send 0#32, .onData 0#16, .onData 2#16] [] 1#16
    5#32 (by decide +kernel) (Or.inl (by decide +kernel)) (by decide +kernel)
  revert h1
  decide +kernel

end Relinow
