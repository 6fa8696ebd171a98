import Relinow.Reliable
import Mathlib.Data.Finset.Dedup
import Mathlib.Tactic.Common

/-!
# What each engine call can do

One lemma for each function of the reliable engine, saying everything the call
can do: which ids are in flight or buffered afterwards, what it reports, and
that the other half of the context is untouched. The modules above reason with
these and never open the definitions again.

The in-use slots of `pending` and `reorder` enter only through the multiset of
their ids.
-/

namespace Relinow

open SlotTable

/-- The ids of the packets in flight. -/
def pendingSeqs (ctx : ReliableCtx) : Multiset U16 :=
  keys Pending.inUse Pending.seqId ctx.pending

/-- The ids held for a gap to close. -/
def reorderSeqs (ctx : ReliableCtx) : Multiset U16 :=
  keys Reorder.inUse Reorder.seqId ctx.reorder

theorem pendingSeqs_init (cfg : Option ReliableConfig) : pendingSeqs (reliableInit cfg) = 0 := by
  rfl

theorem reorderSeqs_init (cfg : Option ReliableConfig) : reorderSeqs (reliableInit cfg) = 0 := by
  rfl

theorem card_pendingSeqs (ctx : ReliableCtx) :
    (pendingSeqs ctx).card = (live Pending.inUse ctx.pending).card :=
  card_keys _ _ _

theorem card_reorderSeqs (ctx : ReliableCtx) :
    (reorderSeqs ctx).card = (live Reorder.inUse ctx.reorder).card :=
  card_keys _ _ _

/-! ## Sending -/

/-- **A send takes the next id, or finds no free slot and changes nothing.** -/
theorem reliableSend_cases (ctx : ReliableCtx) (now : U32) :
    (reliableSend ctx now = ⟨.invalidPacket, ctx, ⟨.none, 0#16⟩⟩
        ∧ (pendingSeqs ctx).card = maxPending)
    ∨ ∃ ctx', reliableSend ctx now = ⟨.ok, ctx', ⟨.new, ctx.nextTxSeq⟩⟩
        ∧ ctx' = { ctx with pending := ctx'.pending, nextTxSeq := seqNext ctx.nextTxSeq }
        ∧ pendingSeqs ctx' = ctx.nextTxSeq ::ₘ pendingSeqs ctx := by
  unfold reliableSend findFreePendingSlot
  cases hf : firstIdx (fun slot => !slot.inUse) ctx.pending with
  | none =>
      refine Or.inl ⟨rfl, ?_⟩
      rw [card_pendingSeqs]
      exact freeIdx_none Pending.inUse hf
  | some i => exact Or.inr ⟨_, rfl, rfl, keys_fill _ (freeIdx_some Pending.inUse hf) rfl⟩

/-- **An ACK releases the packet it names, or names none and changes nothing.** -/
theorem reliableOnAck_cases (ctx : ReliableCtx) (a : U16) (now : U32) :
    (a ∉ pendingSeqs ctx ∧ reliableOnAck ctx a now = ctx)
    ∨ ∃ ctx', reliableOnAck ctx a now = ctx'
        ∧ ctx' = { ctx with pending := ctx'.pending, rttEstimateMs := ctx'.rttEstimateMs }
        ∧ pendingSeqs ctx = a ::ₘ pendingSeqs ctx' := by
  unfold reliableOnAck findPendingSlot
  cases hf : firstIdx (fun slot => slot.inUse && slot.seqId == a) ctx.pending with
  | none =>
      exact Or.inl ⟨(keyIdx_none Pending.inUse Pending.seqId).mp hf, rfl⟩
  | some i =>
      refine Or.inr ⟨_, rfl, rfl, ?_⟩
      obtain ⟨hu, hk⟩ := keyIdx_some Pending.inUse Pending.seqId hf
      have := keys_release Pending.seqId
        (x := { ctx.pending[i] with inUse := false }) hu rfl
      rw [hk] at this
      exact this

theorem reliableOnAck_next (ctx : ReliableCtx) (a : U16) (now : U32) :
    (reliableOnAck ctx a now).nextTxSeq = ctx.nextTxSeq := by
  rcases reliableOnAck_cases ctx a now with ⟨_, heq⟩ | ⟨ctx', heq, hfr, _⟩
  · rw [heq]
  · rw [heq, hfr]

/-- **A poll handles one expired packet: it gives it up, or sends it again.** -/
theorem reliablePoll_cases (ctx : ReliableCtx) (now : U32) :
    (reliablePoll ctx now = (ctx, ⟨.none, 0#16⟩)
        ∧ ∀ i : Fin maxPending, ctx.pending[i].expired now = false)
    ∨ ∃ (i : Fin maxPending) (ctx' : ReliableCtx),
        firstIdx (Pending.expired now) ctx.pending = some i
        ∧ ctx' = { ctx with pending := ctx'.pending }
        ∧ ((ctx.cfg.maxRetries ≤ ctx.pending[i].retries
            ∧ reliablePoll ctx now = (ctx', ⟨.failed, ctx.pending[i].seqId⟩)
            ∧ pendingSeqs ctx = ctx.pending[i].seqId ::ₘ pendingSeqs ctx')
          ∨ (¬ ctx.cfg.maxRetries ≤ ctx.pending[i].retries
            ∧ reliablePoll ctx now = (ctx', ⟨.retransmit, ctx.pending[i].seqId⟩)
            ∧ ctx.pending[i].seqId ∈ pendingSeqs ctx
            ∧ pendingSeqs ctx' = pendingSeqs ctx)) := by
  unfold reliablePoll
  cases hf : firstIdx (Pending.expired now) ctx.pending with
  | none => exact Or.inl ⟨rfl, firstIdx_eq_none.mp hf⟩
  | some i =>
      right
      have hu : ctx.pending[i].inUse = true := by
        have := firstIdx_sat hf
        unfold Pending.expired at this
        rw [Bool.and_eq_true] at this
        exact this.1
      by_cases hr : ctx.cfg.maxRetries ≤ ctx.pending[i].retries
      · -- out of retries: the slot is released
        refine ⟨i, { ctx with pending := ctx.pending.put i { ctx.pending[i] with inUse := false } },
          rfl, rfl, Or.inl ⟨hr, ?_, keys_release Pending.seqId hu rfl⟩⟩
        dsimp only
        rw [if_pos hr]
      · -- one more try, with the timeout of the new retry count
        let slot' : Pending :=
          { ctx.pending[i] with
            retries := ctx.pending[i].retries + 1#8
            lastSendMs := now
            timeoutMs := computeTimeoutMs ctx.rttEstimateMs (ctx.pending[i].retries + 1#8) }
        refine ⟨i, { ctx with pending := ctx.pending.put i slot' }, rfl, rfl,
          Or.inr ⟨hr, ?_, mem_keys.mpr ⟨i, hu, rfl⟩, keys_replace hu hu rfl⟩⟩
        dsimp only
        rw [if_neg hr]

theorem reliablePoll_next (ctx : ReliableCtx) (now : U32) :
    (reliablePoll ctx now).1.nextTxSeq = ctx.nextTxSeq := by
  rcases reliablePoll_cases ctx now with
    ⟨heq, _⟩ | ⟨_, ctx', _, hfr, ⟨_, heq, _⟩ | ⟨_, heq, _⟩⟩ <;> rw [heq]
  · rw [hfr]
  · rw [hfr]

/-! ## The reorder buffer -/

theorem reorderContains_iff {ctx : ReliableCtx} {q : U16} :
    reorderContains ctx q = true ↔ q ∈ reorderSeqs ctx := by
  unfold reorderContains
  exact keyIdx_isSome Reorder.inUse Reorder.seqId

theorem reorderInsert_cases (ctx : ReliableCtx) (q : U16) :
    (reorderInsert ctx q = none ∧ (reorderSeqs ctx).card = maxReorder)
    ∨ ∃ ctx', reorderInsert ctx q = some ctx' ∧ ctx' = { ctx with reorder := ctx'.reorder }
        ∧ reorderSeqs ctx' = q ::ₘ reorderSeqs ctx ∧ (reorderSeqs ctx).card < maxReorder := by
  unfold reorderInsert
  cases hf : firstIdx (fun e => !e.inUse) ctx.reorder with
  | none =>
      refine Or.inl ⟨rfl, ?_⟩
      rw [card_reorderSeqs]
      exact freeIdx_none Reorder.inUse hf
  | some i =>
      have hi := freeIdx_some Reorder.inUse hf
      refine Or.inr ⟨_, rfl, rfl, keys_fill _ hi rfl, ?_⟩
      rw [card_reorderSeqs]
      exact card_live_lt_of_free hi

theorem reorderTakeExpected_cases (ctx : ReliableCtx) (q : U16) :
    (reorderTakeExpected ctx q = none ∧ q ∉ reorderSeqs ctx)
    ∨ ∃ ctx', reorderTakeExpected ctx q = some ctx' ∧ ctx' = { ctx with reorder := ctx'.reorder }
        ∧ reorderSeqs ctx = q ::ₘ reorderSeqs ctx' := by
  unfold reorderTakeExpected
  cases hf : firstIdx (fun e => e.inUse && e.seqId == q) ctx.reorder with
  | none =>
      exact Or.inl ⟨rfl, (keyIdx_none Reorder.inUse Reorder.seqId).mp hf⟩
  | some i =>
      refine Or.inr ⟨_, rfl, rfl, ?_⟩
      obtain ⟨hu, hk⟩ := keyIdx_some Reorder.inUse Reorder.seqId hf
      have := keys_release Reorder.seqId
        (x := { ctx.reorder[i] with inUse := false }) hu rfl
      rw [hk] at this
      exact this

/-! ## What an arrival will deliver -/

/-- The buffered ids that follow one another from `e`, at most `n` of them. -/
def reorderRun (ctx : ReliableCtx) : Nat → U16 → List U16
  | 0, _ => []
  | n + 1, e => if reorderContains ctx e then e :: reorderRun ctx n (seqNext e) else []

/-- The ids an arrival of `q` will deliver, as the context stands before it. -/
def deliverable (ctx : ReliableCtx) (q : U16) : List U16 :=
  if !ctx.hasRxWindow then [q]
  else if q == ctx.expectedRxSeq then q :: reorderRun ctx maxReorder (seqNext q)
  else []

theorem reorderRun_congr {ctx ctx' : ReliableCtx} :
    ∀ (n : Nat) (e : U16),
      (∀ k, k < n → (e + BitVec.ofNat 16 k ∈ reorderSeqs ctx ↔
        e + BitVec.ofNat 16 k ∈ reorderSeqs ctx')) →
      reorderRun ctx n e = reorderRun ctx' n e := by
  intro n
  induction n with
  | zero => intro e _; rfl
  | succ n ih =>
      intro e h
      have h0 : reorderContains ctx e = reorderContains ctx' e := by
        rw [Bool.eq_iff_iff, reorderContains_iff, reorderContains_iff]
        simpa using h 0 (by omega)
      have hrec : reorderRun ctx n (seqNext e) = reorderRun ctx' n (seqNext e) := by
        refine ih _ fun k hk => ?_
        have := h (k + 1) (by omega)
        rwa [show e + BitVec.ofNat 16 (k + 1) = seqNext e + BitVec.ofNat 16 k by
          unfold seqNext; bv_omega] at this
      rw [reorderRun, reorderRun, h0, hrec]

theorem reorderRun_length_le (ctx : ReliableCtx) :
    ∀ (n : Nat) (e : U16), (reorderRun ctx n e).length ≤ n := by
  intro n
  induction n with
  | zero => intro e; exact Nat.le_refl 0
  | succ n ih =>
      intro e
      rw [reorderRun]
      split
      · have := ih (seqNext e)
        simp only [List.length_cons]
        omega
      · exact Nat.zero_le _

/-- The ids of a run follow one another. -/
theorem reorderRun_last (ctx : ReliableCtx) :
    ∀ (n : Nat) (q : U16), (q :: reorderRun ctx n (seqNext q)).getLast?
      = some (q + BitVec.ofNat 16 (reorderRun ctx n (seqNext q)).length) := by
  intro n
  induction n with
  | zero => intro q; simp [reorderRun]
  | succ n ih =>
      intro q
      rw [reorderRun]
      split
      · rw [List.getLast?_cons_cons, ih (seqNext q), List.length_cons, Option.some.injEq]
        unfold seqNext
        bv_omega
      · simp

/-- **The flush delivers the run that starts at the expected id**, moves the expected id past
it, and touches nothing but the reorder buffer. -/
theorem reorderFlush_spec :
    ∀ (n : Nat) (ctx : ReliableCtx), n < 2 ^ 16 →
      (reorderFlush n ctx).2 = reorderRun ctx n ctx.expectedRxSeq
      ∧ (reorderFlush n ctx).1 =
          { ctx with
            reorder := (reorderFlush n ctx).1.reorder
            expectedRxSeq :=
              ctx.expectedRxSeq + BitVec.ofNat 16 (reorderFlush n ctx).2.length }
      ∧ reorderSeqs ctx = ↑(reorderFlush n ctx).2 + reorderSeqs (reorderFlush n ctx).1 := by
  intro n
  induction n with
  | zero => intro ctx _; simp [reorderFlush, reorderRun]
  | succ n ih =>
      intro ctx hn
      rcases reorderTakeExpected_cases ctx ctx.expectedRxSeq with ⟨ht, hnot⟩ | ⟨ctx', ht, hfr, hks⟩
      · have hc : reorderContains ctx ctx.expectedRxSeq = false := by
          rw [Bool.eq_false_iff]
          exact fun h => hnot (reorderContains_iff.mp h)
        simp [reorderFlush, reorderRun, ht, hc]
      · have hc : reorderContains ctx ctx.expectedRxSeq = true := by
          rw [reorderContains_iff, hks]
          exact Multiset.mem_cons_self _ _
        obtain ⟨h1, h2, h3⟩ :=
          ih { ctx' with expectedRxSeq := seqNext ctx.expectedRxSeq } (by omega)
        -- taking one id out does not change which later ids are there
        have hrun : reorderRun { ctx' with expectedRxSeq := seqNext ctx.expectedRxSeq } n
            (seqNext ctx.expectedRxSeq) = reorderRun ctx n (seqNext ctx.expectedRxSeq) := by
          refine reorderRun_congr n _ fun k hk => ?_
          have hne : seqNext ctx.expectedRxSeq + BitVec.ofNat 16 k ≠ ctx.expectedRxSeq := by
            unfold seqNext
            bv_omega
          rw [hks, Multiset.mem_cons]
          show _ ∈ reorderSeqs ctx' ↔ _
          tauto
        have hunf : reorderFlush (n + 1) ctx =
            ((reorderFlush n { ctx' with expectedRxSeq := seqNext ctx.expectedRxSeq }).1,
              ctx.expectedRxSeq ::
                (reorderFlush n { ctx' with expectedRxSeq := seqNext ctx.expectedRxSeq }).2) := by
          rw [reorderFlush, ht]
        rw [hunf]
        refine ⟨?_, ?_, ?_⟩
        · dsimp only
          rw [h1, hrun, reorderRun, if_pos hc]
        · dsimp only
          rw [h2, hfr]
          simp only [List.length_cons, ReliableCtx.mk.injEq, true_and, and_true]
          unfold seqNext
          bv_omega
        · dsimp only
          rw [hks, ← Multiset.cons_coe, Multiset.cons_add, ← h3]
          rfl

/--
**Everything `relinow_reliable_on_data` can do.** An arrival opens the window,
delivers a run, is buffered, finds the buffer full, or is behind the window; in
every case the transmit half of the context stays as it was.
-/
theorem reliableOnData_cases (ctx : ReliableCtx) (q : U16) :
    (ctx.hasRxWindow = false
      ∧ reliableOnData ctx q =
          ({ ctx with hasRxWindow := true, expectedRxSeq := seqNext q }, ⟨.delivered, [q], q⟩))
    ∨ (ctx.hasRxWindow = true ∧ q = ctx.expectedRxSeq ∧ ∃ ctx' ds,
        ds = reorderRun ctx maxReorder (seqNext q)
        ∧ ctx' = { ctx with
            reorder := ctx'.reorder
            expectedRxSeq := q + BitVec.ofNat 16 (ds.length + 1) }
        ∧ reorderSeqs ctx = ↑ds + reorderSeqs ctx'
        ∧ reliableOnData ctx q =
            (ctx', ⟨.delivered, q :: ds, q + BitVec.ofNat 16 ds.length⟩))
    ∨ (ctx.hasRxWindow = true ∧ isSeqNewer q ctx.expectedRxSeq = true ∧ q ∈ reorderSeqs ctx
        ∧ reliableOnData ctx q = (ctx, ⟨.outOfOrder, [], ctx.expectedRxSeq - 1#16⟩))
    ∨ (ctx.hasRxWindow = true ∧ isSeqNewer q ctx.expectedRxSeq = true ∧ q ∉ reorderSeqs ctx
        ∧ (reorderSeqs ctx).card < maxReorder ∧ ∃ ctx',
          ctx' = { ctx with reorder := ctx'.reorder }
          ∧ reorderSeqs ctx' = q ::ₘ reorderSeqs ctx
          ∧ reliableOnData ctx q = (ctx', ⟨.outOfOrder, [], ctx.expectedRxSeq - 1#16⟩))
    ∨ (ctx.hasRxWindow = true ∧ isSeqNewer q ctx.expectedRxSeq = true ∧ q ∉ reorderSeqs ctx
        ∧ (reorderSeqs ctx).card = maxReorder
        ∧ reliableOnData ctx q = (ctx, ⟨.dropped, [], ctx.expectedRxSeq - 1#16⟩))
    ∨ (ctx.hasRxWindow = true ∧ q ≠ ctx.expectedRxSeq ∧ isSeqNewer q ctx.expectedRxSeq = false
        ∧ reliableOnData ctx q = (ctx, ⟨.duplicate, [], ctx.expectedRxSeq - 1#16⟩)) := by
  unfold reliableOnData
  by_cases hw : ctx.hasRxWindow = true
  · right
    rw [if_neg (by rw [hw]; decide)]
    by_cases hq : q = ctx.expectedRxSeq
    · left
      -- in order: the flush starts at the id after this one
      obtain ⟨h1, h2, h3⟩ := reorderFlush_spec maxReorder
        { ctx with expectedRxSeq := seqNext ctx.expectedRxSeq } (by decide)
      have hexp : (reorderFlush maxReorder
          { ctx with expectedRxSeq := seqNext ctx.expectedRxSeq }).1.expectedRxSeq
          = seqNext ctx.expectedRxSeq + BitVec.ofNat 16 (reorderFlush maxReorder
            { ctx with expectedRxSeq := seqNext ctx.expectedRxSeq }).2.length := by
        conv_lhs => rw [h2]
      refine ⟨hw, hq, _, _, ?_, ?_, h3, ?_⟩
      · rw [h1, hq]
        exact reorderRun_congr _ _ fun k _ => Iff.rfl
      · conv_lhs => rw [h2]
        rw [hq]
        simp only [ReliableCtx.mk.injEq, true_and, and_true]
        unfold seqNext
        bv_omega
      · rw [if_pos (by rw [hq, beq_self_eq_true])]
        dsimp only
        rw [hexp, hq]
        refine congrArg₂ Prod.mk rfl (congrArg _ ?_)
        unfold seqNext
        bv_omega
    · right
      rw [if_neg (by rwa [beq_iff_eq])]
      cases hn : isSeqNewer q ctx.expectedRxSeq with
      | false => exact Or.inr (Or.inr (Or.inr ⟨hw, hq, rfl, rfl⟩))
      | true =>
          rw [if_pos rfl]
          by_cases hc : q ∈ reorderSeqs ctx
          · left
            rw [if_pos (reorderContains_iff.mpr hc)]
            exact ⟨hw, rfl, hc, rfl⟩
          · right
            rw [if_neg (fun h => hc (reorderContains_iff.mp h))]
            -- newer and not buffered yet
            rcases reorderInsert_cases ctx q with ⟨hi, hcard⟩ | ⟨ctx', hi, hfr, hks, hcard⟩
            · right; left
              rw [hi]
              exact ⟨hw, rfl, hc, hcard, rfl⟩
            · left
              rw [hi]
              exact ⟨hw, rfl, hc, hcard, ctx', hfr, hks, rfl⟩
  · have hw' : ctx.hasRxWindow = false := by rwa [Bool.not_eq_true] at hw
    exact Or.inl ⟨hw', if_pos (by rw [hw']; rfl)⟩

theorem reliableOnData_delivered (ctx : ReliableCtx) (q : U16) :
    (reliableOnData ctx q).2.deliveredSeq = deliverable ctx q := by
  unfold deliverable
  rcases reliableOnData_cases ctx q with ⟨hw, h⟩ | ⟨hw, hq, ctx', ds, hds, _, _, h⟩ |
    ⟨hw, hn, _, h⟩ | ⟨hw, hn, _, _, ctx', _, _, h⟩ | ⟨hw, hn, _, _, h⟩ | ⟨hw, hq, _, h⟩ <;>
    rw [h, hw]
  · rfl
  · simp [hq.symm, hds]
  · simp [SerialNumber.ne_of_newer hn]
  · simp [SerialNumber.ne_of_newer hn]
  · simp [SerialNumber.ne_of_newer hn]
  · simp [hq]

/-- The receive half of the engine leaves the transmit half alone. -/
theorem reliableOnData_tx (ctx : ReliableCtx) (q : U16) :
    (reliableOnData ctx q).1 =
      { ctx with
        hasRxWindow := (reliableOnData ctx q).1.hasRxWindow
        expectedRxSeq := (reliableOnData ctx q).1.expectedRxSeq
        reorder := (reliableOnData ctx q).1.reorder } := by
  rcases reliableOnData_cases ctx q with ⟨hw, h⟩ | ⟨hw, hq, ctx', ds, hds, hfr, _, h⟩ |
    ⟨hw, hn, _, h⟩ | ⟨hw, hn, _, _, ctx', hfr, _, h⟩ | ⟨hw, hn, _, _, h⟩ | ⟨hw, hq, _, h⟩
  · rw [h]
  · rw [h, hfr]
  · rw [h]
  · rw [h, hfr]
  · rw [h]
  · rw [h]

/-- The id acknowledged is the one before the id now expected. -/
theorem reliableOnData_ackId (ctx : ReliableCtx) (q : U16) :
    (reliableOnData ctx q).2.ackId = (reliableOnData ctx q).1.expectedRxSeq - 1#16 := by
  rcases reliableOnData_cases ctx q with ⟨_, h⟩ | ⟨_, _, ctx', ds, _, hfr, _, h⟩ |
    ⟨_, _, _, h⟩ | ⟨_, _, _, _, ctx', hfr, _, h⟩ | ⟨_, _, _, _, h⟩ | ⟨_, _, _, h⟩ <;> rw [h]
  · unfold seqNext
    bv_omega
  · rw [hfr]
    bv_omega
  · rw [hfr]

theorem reliableOnData_opens (ctx : ReliableCtx) (q : U16) :
    (reliableOnData ctx q).1.hasRxWindow = true := by
  rcases reliableOnData_cases ctx q with ⟨_, h⟩ | ⟨hw, _, ctx', ds, _, hfr, _, h⟩ |
    ⟨hw, _, _, h⟩ | ⟨hw, _, _, _, ctx', hfr, _, h⟩ | ⟨hw, _, _, _, h⟩ | ⟨hw, _, _, h⟩ <;> rw [h]
  · rw [hfr]; exact hw
  · exact hw
  · rw [hfr]; exact hw
  · exact hw
  · exact hw

/-- The last id delivered is the one acknowledged. -/
theorem deliverable_last {ctx : ReliableCtx} {q d : U16}
    (h : (deliverable ctx q).getLast? = some d) : (reliableOnData ctx q).2.ackId = d := by
  rw [← reliableOnData_delivered] at h
  rcases reliableOnData_cases ctx q with ⟨_, heq⟩ | ⟨_, _, ctx', ds, hds, _, _, heq⟩ |
    ⟨_, _, _, heq⟩ | ⟨_, _, _, _, ctx', _, _, heq⟩ | ⟨_, _, _, _, heq⟩ | ⟨_, _, _, heq⟩ <;>
    rw [heq] at h ⊢
  · exact Option.some.inj h
  · have hlast := reorderRun_last ctx maxReorder q
    rw [← hds] at hlast
    exact Option.some.inj (hlast.symm.trans h)
  all_goals exact absurd h (by simp)

/-- An arrival that delivers nothing finds the window open, and leaves it where it is. -/
theorem deliverable_eq_nil {ctx : ReliableCtx} {q : U16} (h : deliverable ctx q = []) :
    ctx.hasRxWindow = true ∧ (reliableOnData ctx q).1.expectedRxSeq = ctx.expectedRxSeq := by
  rw [← reliableOnData_delivered] at h
  rcases reliableOnData_cases ctx q with ⟨_, heq⟩ | ⟨_, _, ctx', ds, _, _, _, heq⟩ |
    ⟨hw, _, _, heq⟩ | ⟨hw, _, _, _, ctx', hfr, _, heq⟩ | ⟨hw, _, _, _, heq⟩ | ⟨hw, _, _, heq⟩ <;>
    rw [heq] at h ⊢
  · exact absurd h (by simp)
  · exact absurd h (by simp)
  · exact ⟨hw, rfl⟩
  · exact ⟨hw, by rw [hfr]⟩
  · exact ⟨hw, rfl⟩
  · exact ⟨hw, rfl⟩

end Relinow
