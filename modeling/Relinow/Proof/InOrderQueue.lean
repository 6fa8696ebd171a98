import Relinow.Proof.Engine
import Relinow.Lib.InOrder

/-!
# The receive engine is an in-order queue

`InOrder` says what a receiver of numbered items is for; this file says that the
receive half of the reliable engine is one. The correspondence needs an
invariant of the reorder buffer: its ids are distinct and all lie ahead of the
expected one. Distinctness is what makes eight slots hold eight ids, and lying
ahead is what keeps an id from being expected while it sits in the buffer.

The bound on the flush loop never bites: the loop may take eight entries, and
there are no more than eight to take.
-/

namespace Relinow

open SlotTable InOrder

/-- Sequence ids as a space of sequence numbers. -/
def seqSpace : Space U16 where
  succ := seqNext
  newer := isSeqNewer
  newer_irrefl := SerialNumber.newer_irrefl
  newer_succ := SerialNumber.newer_of_ne_add_one

theorem seqNext_iterate (q : U16) (n : Nat) : seqNext^[n] q = q + BitVec.ofNat 16 n := by
  induction n with
  | zero => simp
  | succ n ih =>
      rw [Function.iterate_succ_apply', ih]
      unfold seqNext
      bv_omega

/-- The engine's answer, as the queue's verdict. -/
def RxStatus.verdict : RxStatus → Verdict
  | .delivered => .delivered
  | .outOfOrder => .early
  | .duplicate => .stale
  | .dropped => .refused

theorem verdict_early {s : RxStatus} : s.verdict = .early ↔ s = .outOfOrder := by
  cases s <;> simp [RxStatus.verdict]

/-- What a context awaits and holds. -/
def rxQueueOf (ctx : ReliableCtx) : Queue U16 :=
  ⟨if ctx.hasRxWindow then some ctx.expectedRxSeq else none, (reorderSeqs ctx).toFinset⟩

/-- The invariant of the receive half. -/
structure RxInv (ctx : ReliableCtx) : Prop where
  /-- No id is buffered twice. -/
  nodup : (reorderSeqs ctx).Nodup
  /-- Nothing is buffered before the first arrival. -/
  closed : ctx.hasRxWindow = false → reorderSeqs ctx = 0
  /-- What is buffered lies ahead of what is expected. -/
  ahead : ctx.hasRxWindow = true → ∀ q ∈ reorderSeqs ctx, isSeqNewer q ctx.expectedRxSeq = true

theorem rxInv_init (cfg : Option ReliableConfig) : RxInv (reliableInit cfg) where
  nodup := by rw [reorderSeqs_init]; exact Multiset.nodup_zero
  closed := fun _ => reorderSeqs_init cfg
  ahead := by
    intro _ q hq
    rw [reorderSeqs_init] at hq
    exact absurd hq (Multiset.notMem_zero q)

/-- The expected id is never in the buffer. -/
theorem RxInv.expected_notMem {ctx : ReliableCtx} (h : RxInv ctx) (hw : ctx.hasRxWindow = true) :
    ctx.expectedRxSeq ∉ reorderSeqs ctx :=
  fun hm => SerialNumber.ne_of_newer (h.ahead hw _ hm) rfl

theorem rxQueueOf_closed {ctx : ReliableCtx} (hw : ctx.hasRxWindow = false) :
    rxQueueOf ctx = ⟨none, (reorderSeqs ctx).toFinset⟩ := by
  unfold rxQueueOf
  rw [hw]
  rfl

theorem rxQueueOf_open {ctx : ReliableCtx} (hw : ctx.hasRxWindow = true) :
    rxQueueOf ctx = ⟨some ctx.expectedRxSeq, (reorderSeqs ctx).toFinset⟩ := by
  unfold rxQueueOf
  rw [hw]
  rfl

/-- What the invariant says about the queue. -/
theorem RxInv.queue {ctx : ReliableCtx} (h : RxInv ctx) :
    (∀ e, (rxQueueOf ctx).next = some e → ∀ x ∈ (rxQueueOf ctx).held, seqSpace.newer x e = true)
      ∧ ((rxQueueOf ctx).next = none → (rxQueueOf ctx).held = ∅) := by
  cases hw : ctx.hasRxWindow with
  | false =>
      rw [rxQueueOf_closed hw, h.closed hw]
      exact ⟨fun e he => absurd he (by simp), fun _ => rfl⟩
  | true =>
      rw [rxQueueOf_open hw]
      refine ⟨fun e he x hx => ?_, fun hnone => absurd hnone (by simp)⟩
      obtain rfl := Option.some.inj he
      exact h.ahead hw x (Multiset.mem_toFinset.mp hx)

/-- **A bounded flush is a whole drain** when the bound is at least the number of ids held. -/
theorem drain_reorderRun (ctx : ReliableCtx) :
    ∀ (n : Nat) (e : U16) (H : Finset U16), n < 2 ^ 16 → H.card ≤ n →
      (∀ k, k < n → (e + BitVec.ofNat 16 k ∈ H ↔ e + BitVec.ofNat 16 k ∈ reorderSeqs ctx)) →
      Drain seqSpace e H (reorderRun ctx n e)
        (e + BitVec.ofNat 16 (reorderRun ctx n e).length)
        (H \ (reorderRun ctx n e).toFinset) := by
  -- on the bound: each round takes one id out of what is held
  intro n
  induction n with
  | zero =>
      intro e H _ hc _
      obtain rfl : H = ∅ := Finset.card_eq_zero.mp (Nat.le_zero.mp hc)
      have hd := Drain.stop (S := seqSpace) (e := e) (H := ∅) (Finset.notMem_empty e)
      simpa [reorderRun] using hd
  | succ n ih =>
      intro e H hn hc hmem
      have h0 : e ∈ H ↔ e ∈ reorderSeqs ctx := by simpa using hmem 0 (by omega)
      rw [reorderRun]
      by_cases he : reorderContains ctx e = true
      · rw [if_pos he]
        have heH : e ∈ H := h0.mpr (reorderContains_iff.mp he)
        have hcard : (H.erase e).card ≤ n := by
          rw [Finset.card_erase_of_mem heH]
          omega
        -- `e` itself does not come up again within the bound
        have hd := ih (seqNext e) (H.erase e) (by omega) hcard (fun k hk => by
          have hne : seqNext e + BitVec.ofNat 16 k ≠ e := by
            unfold seqNext
            bv_omega
          rw [Finset.mem_erase]
          have := hmem (k + 1) (by omega)
          rw [show e + BitVec.ofNat 16 (k + 1) = seqNext e + BitVec.ofNat 16 k by
            unfold seqNext; bv_omega] at this
          tauto)
        have ht := Drain.take heH hd
        rw [List.length_cons, List.toFinset_cons]
        rw [show e + BitVec.ofNat 16 ((reorderRun ctx n (seqNext e)).length + 1)
            = seqNext e + BitVec.ofNat 16 (reorderRun ctx n (seqNext e)).length by
          unfold seqNext; bv_omega]
        rw [show H \ insert e (reorderRun ctx n (seqNext e)).toFinset
            = H.erase e \ (reorderRun ctx n (seqNext e)).toFinset by
          ext x
          simp only [Finset.mem_sdiff, Finset.mem_insert, Finset.mem_erase, not_or]
          tauto]
        exact ht
      · rw [if_neg he]
        have heH : e ∉ H := fun h => he (reorderContains_iff.mpr (h0.mp h))
        simpa using Drain.stop (S := seqSpace) heH

/-- **An arrival in order drains the buffer.** The bound on the flush is the size of the buffer, so
it is never reached. -/
theorem RxInv.inOrder {ctx ctx' : ReliableCtx} {q : U16} {ds : List U16} (h : RxInv ctx)
    (hw : ctx.hasRxWindow = true) (hq : q = ctx.expectedRxSeq)
    (hds : ds = reorderRun ctx maxReorder (seqNext q))
    (hfr : ctx' = { ctx with
      reorder := ctx'.reorder
      expectedRxSeq := q + BitVec.ofNat 16 (ds.length + 1) })
    (hks : reorderSeqs ctx = ↑ds + reorderSeqs ctx') :
    Receive seqSpace maxReorder (rxQueueOf ctx) q .delivered (q :: ds) (rxQueueOf ctx')
      ∧ RxInv ctx' := by
  have hw' : ctx'.hasRxWindow = true := by rw [hfr]; exact hw
  have hnext : seqNext q + BitVec.ofNat 16 ds.length = ctx'.expectedRxSeq := by
    rw [hfr]
    unfold seqNext
    bv_omega
  have hnd := h.nodup
  rw [hks, Multiset.nodup_add] at hnd
  -- what is left is what was not taken out
  have hheld : (reorderSeqs ctx).toFinset \ ds.toFinset = (reorderSeqs ctx').toFinset := by
    ext x
    have hdj : x ∈ (↑ds : Multiset U16) → x ∉ reorderSeqs ctx' :=
      fun hx => Multiset.disjoint_left.mp hnd.2.2 hx
    rw [Finset.mem_sdiff, Multiset.mem_toFinset, Multiset.mem_toFinset, List.mem_toFinset, hks,
      Multiset.mem_add, Multiset.mem_coe]
    rw [Multiset.mem_coe] at hdj
    tauto
  have hfits : (reorderSeqs ctx).toFinset.card ≤ maxReorder := by
    rw [Multiset.toFinset_card_of_nodup h.nodup, card_reorderSeqs]
    exact card_live_le _ _
  have hdrain := drain_reorderRun ctx maxReorder (seqNext q) (reorderSeqs ctx).toFinset (by decide)
    hfits fun k _ => Multiset.mem_toFinset
  rw [← hds, hheld, hnext] at hdrain
  have hrecv : Receive seqSpace maxReorder (rxQueueOf ctx) q .delivered (q :: ds)
      (rxQueueOf ctx') := by
    rw [rxQueueOf_open hw, rxQueueOf_open hw', ← hq]
    exact Receive.deliver hdrain
  -- that it all lies ahead is a fact about queues
  have hahead := hrecv.ahead h.queue.1 h.queue.2
  rw [rxQueueOf_open hw'] at hahead
  refine ⟨hrecv, hnd.2.1, fun hclosed => ?_, fun _ x hx => ?_⟩
  · exact absurd (hclosed.symm.trans hw') (by decide)
  · exact hahead ctx'.expectedRxSeq rfl x (Multiset.mem_toFinset.mpr hx)

/-- **One call is one arrival at the queue**, and keeps the invariant. -/
theorem reliableOnData_refines {ctx : ReliableCtx} (h : RxInv ctx) (q : U16) :
    Receive seqSpace maxReorder (rxQueueOf ctx) q (reliableOnData ctx q).2.status.verdict
        (reliableOnData ctx q).2.deliveredSeq (rxQueueOf (reliableOnData ctx q).1)
      ∧ RxInv (reliableOnData ctx q).1 := by
  have hcard : (reorderSeqs ctx).toFinset.card = (reorderSeqs ctx).card :=
    Multiset.toFinset_card_of_nodup h.nodup
  rcases reliableOnData_cases ctx q with ⟨hw, heq⟩ | ⟨hw, hq, ctx', ds, hds, hfr, hks, heq⟩ |
    ⟨hw, hn, hin, heq⟩ | ⟨hw, hn, hin, hlt, ctx', hfr, hks, heq⟩ | ⟨hw, hn, hin, hfull, heq⟩ |
    ⟨hw, hq, hn, heq⟩ <;> rw [heq]
  · -- the first arrival opens the window, and nothing is buffered yet
    have h0 := h.closed hw
    refine ⟨?_, h.nodup, fun _ => h0, fun _ x hx => ?_⟩
    · rw [rxQueueOf_closed hw]
      exact Receive.adopt
    · rw [show reorderSeqs { ctx with hasRxWindow := true, expectedRxSeq := seqNext q }
        = reorderSeqs ctx from rfl, h0] at hx
      exact absurd hx (Multiset.notMem_zero x)
  · exact h.inOrder hw hq hds hfr hks
  · -- already buffered
    have hm := Multiset.mem_toFinset.mpr hin
    have hr : Receive seqSpace maxReorder ⟨some ctx.expectedRxSeq, _⟩ q .early [] _ :=
      Receive.hold hn (Or.inl hm)
    rw [Finset.insert_eq_of_mem hm] at hr
    rw [rxQueueOf_open hw]
    exact ⟨hr, h⟩
  · -- newly buffered
    have hw' : ctx'.hasRxWindow = true := by rw [hfr]; exact hw
    have hexp : ctx'.expectedRxSeq = ctx.expectedRxSeq := by rw [hfr]
    refine ⟨?_, ?_, fun hclosed => absurd (hclosed.symm.trans hw') (by decide), fun _ x hx => ?_⟩
    · have hr : Receive seqSpace maxReorder ⟨some ctx.expectedRxSeq, _⟩ q .early [] _ :=
        Receive.hold hn (Or.inr (by rw [hcard]; exact hlt))
      rw [rxQueueOf_open hw, rxQueueOf_open hw', hexp, hks, Multiset.toFinset_cons]
      exact hr
    · rw [hks, Multiset.nodup_cons]
      exact ⟨hin, h.nodup⟩
    · rw [hexp]
      rw [hks, Multiset.mem_cons] at hx
      rcases hx with rfl | hx
      · exact hn
      · exact h.ahead hw x hx
  · -- no room
    rw [rxQueueOf_open hw]
    refine ⟨Receive.refuse hn (fun hm => hin (Multiset.mem_toFinset.mp hm)) ?_, h⟩
    rw [hcard, hfull]
  · -- behind the window
    rw [rxQueueOf_open hw]
    exact ⟨Receive.stale hq hn, h⟩

/-- **What is buffered after an arrival**: what was and is not delivered now, and the arrival
itself if it came early. -/
theorem RxInv.held_iff {ctx : ReliableCtx} (h : RxInv ctx) (q d : U16) :
    d ∈ reorderSeqs (reliableOnData ctx q).1 ↔
      (q = d ∧ (reliableOnData ctx q).2.status = .outOfOrder)
      ∨ (d ∈ reorderSeqs ctx ∧ d ∉ deliverable ctx q) := by
  have hheld := (reliableOnData_refines h q).1.held_iff h.queue.1 h.queue.2 d
  unfold rxQueueOf at hheld
  simp only [Multiset.mem_toFinset, reliableOnData_delivered, verdict_early] at hheld
  exact hheld

/-! ## Histories -/

/-- One call of `relinow_reliable_on_data` and what it reported. -/
structure RxCall where
  seq : U16
  result : RxResult
  deriving DecidableEq, Repr

/-- One more call. -/
def rxFeed (s : List RxCall × ReliableCtx) (q : U16) : List RxCall × ReliableCtx :=
  (s.1 ++ [⟨q, (reliableOnData s.2 q).2⟩], (reliableOnData s.2 q).1)

/-- The calls made with these ids on a fresh context, and the context they leave. -/
def rxHistory (cfg : Option ReliableConfig) (ids : List U16) : List RxCall × ReliableCtx :=
  ids.foldl rxFeed ([], reliableInit cfg)

theorem rxHistory_snoc (cfg : Option ReliableConfig) (ids : List U16) (q : U16) :
    rxHistory cfg (ids ++ [q]) = rxFeed (rxHistory cfg ids) q := by
  unfold rxHistory
  rw [List.foldl_append]
  rfl

/-- `d` was reported OUT_OF_ORDER at some point, and has not been delivered since. -/
def Buffered (h : List RxCall) (d : U16) : Prop :=
  ∃ pre c post, h = pre ++ c :: post ∧ c.seq = d ∧ c.result.status = .outOfOrder
    ∧ ∀ x ∈ post, d ∉ x.result.deliveredSeq

/-- Everything delivered so far, in order. -/
def deliveredSoFar (h : List RxCall) : List U16 := h.flatMap (·.result.deliveredSeq)

/-- A call, as an arrival. -/
def RxCall.arrival (c : RxCall) : Arrival U16 :=
  ⟨c.seq, c.result.status.verdict, c.result.deliveredSeq⟩

theorem buffered_iff {h : List RxCall} {d : U16} :
    Buffered h d ↔ Outstanding (h.map RxCall.arrival) d := by
  constructor
  · rintro ⟨pre, c, post, rfl, hs, hst, hpost⟩
    refine ⟨pre.map RxCall.arrival, c.arrival, post.map RxCall.arrival, by simp, hs,
      verdict_early.mpr hst, ?_⟩
    intro b hb
    obtain ⟨x, hx, rfl⟩ := List.mem_map.mp hb
    exact hpost x hx
  · rintro ⟨pre, a, post, heq, hid, hv, hpost⟩
    obtain ⟨l₁, l₂, rfl, rfl, h2⟩ := List.map_eq_append_iff.mp heq
    obtain ⟨c, l₃, rfl, rfl, rfl⟩ := List.map_eq_cons_iff.mp h2
    exact ⟨l₁, c, l₃, rfl, hid, verdict_early.mp hv,
      fun x hx => hpost x.arrival (List.mem_map_of_mem hx)⟩

/-- **Every history of calls is a run of the queue.** -/
theorem rxHistory_run (cfg : Option ReliableConfig) (ids : List U16) :
    Run seqSpace maxReorder ((rxHistory cfg ids).1.map RxCall.arrival)
        (rxQueueOf (rxHistory cfg ids).2)
      ∧ RxInv (rxHistory cfg ids).2 := by
  induction ids using List.reverseRecOn with
  | nil =>
      refine ⟨?_, rxInv_init cfg⟩
      have hempty : rxQueueOf (rxHistory cfg []).2 = ⟨none, ∅⟩ := by
        rw [show (rxHistory cfg []).2 = reliableInit cfg from rfl, rxQueueOf_closed rfl,
          reorderSeqs_init]
        rfl
      rw [hempty]
      exact Run.nil
  | append_singleton ids q ih =>
      rw [rxHistory_snoc]
      obtain ⟨hrecv, hinv⟩ := reliableOnData_refines ih.2 q
      refine ⟨?_, hinv⟩
      show Run _ _ (List.map _ (_ ++ [_])) _
      rw [List.map_append]
      exact Run.snoc (a := RxCall.arrival ⟨q, (reliableOnData (rxHistory cfg ids).2 q).2⟩)
        ih.1 hrecv

theorem deliveredSoFar_eq (h : List RxCall) :
    deliveredSoFar h = (h.map RxCall.arrival).flatMap (·.released) := by
  unfold deliveredSoFar
  rw [List.flatMap_map]
  rfl

theorem rxHistory_seqs (cfg : Option ReliableConfig) (ids : List U16) :
    (rxHistory cfg ids).1.map (·.seq) = ids := by
  induction ids using List.reverseRecOn with
  | nil => rfl
  | append_singleton ids q ih =>
      rw [rxHistory_snoc]
      show List.map _ (_ ++ [_]) = _
      rw [List.map_append, ih]
      rfl

/-- What has been delivered and what is expected, together. -/
theorem rxHistory_delivered (cfg : Option ReliableConfig) (ids : List U16) :
    ∃ n, deliveredSoFar (rxHistory cfg ids).1
        = (List.range n).map (fun k => ids.headD 0#16 + BitVec.ofNat 16 k)
      ∧ ((rxHistory cfg ids).2.hasRxWindow = true ↔ 1 ≤ n)
      ∧ (1 ≤ n → (rxHistory cfg ids).2.expectedRxSeq = ids.headD 0#16 + BitVec.ofNat 16 n) := by
  have hseqs := rxHistory_seqs cfg ids
  rcases (rxHistory_run cfg ids).1.released with
    ⟨hnil, hnext⟩ | ⟨a, rest, n, hcons, hn, hrel, hnext⟩
  · -- no call yet
    cases hw : (rxHistory cfg ids).2.hasRxWindow with
    | false =>
        refine ⟨0, ?_, by simp, by omega⟩
        rw [deliveredSoFar_eq, hnil]
        rfl
    | true =>
        rw [rxQueueOf_open hw] at hnext
        exact absurd hnext (by simp)
  · -- the first call opened the window at its own id
    obtain ⟨c, rest', hc, rfl, -⟩ := List.map_eq_cons_iff.mp hcons
    have hhead : ids.headD 0#16 = c.seq := by
      rw [← hseqs, hc]
      rfl
    cases hw : (rxHistory cfg ids).2.hasRxWindow with
    | false =>
        rw [rxQueueOf_closed hw] at hnext
        exact absurd hnext (by simp)
    | true =>
        rw [rxQueueOf_open hw] at hnext
        refine ⟨n, ?_, by simp [hn], fun _ => ?_⟩
        · rw [deliveredSoFar_eq, hrel, hhead]
          exact List.map_congr_left fun k _ => seqNext_iterate c.seq k
        · rw [Option.some.inj hnext, hhead]
          exact seqNext_iterate c.seq n

/--
**What in-order delivery means for the engine**, after the calls `h` with the
ids `ids` have left the context `ctx`, and for any next call.
-/
structure InOrderDelivery (ids : List U16) (h : List RxCall) (ctx : ReliableCtx) : Prop where
  /-- What was delivered is a run of consecutive ids from the first one received. -/
  consecutive : ∃ n, deliveredSoFar h
    = (List.range n).map (fun k => ids.headD 0#16 + BitVec.ofNat 16 k)
  /-- The buffered ids are distinct. -/
  distinct : (reorderSeqs ctx).Nodup
  /-- Each lies 1 to 32767 ahead of the expected id. -/
  window : ∀ q ∈ reorderSeqs ctx,
    1 ≤ (q - ctx.expectedRxSeq).toNat ∧ (q - ctx.expectedRxSeq).toNat ≤ 32767
  /-- No id that could be delivered is left in the buffer. -/
  flushed : ctx.expectedRxSeq ∉ reorderSeqs ctx
  /-- An id reported OUT_OF_ORDER stays buffered until it is delivered. -/
  kept : ∀ d, Buffered h d → d ∈ reorderSeqs ctx
  /-- The next call delivers its own id and ids that were buffered. -/
  source : ∀ q, ∀ d ∈ (reliableOnData ctx q).2.deliveredSeq, d = q ∨ Buffered h d
  /-- The next call drops its id only if every entry holds another undelivered id. -/
  full : ∀ q, (reliableOnData ctx q).2.status = .dropped → ∀ i : Fin maxReorder,
    ctx.reorder[i].inUse = true ∧ ctx.reorder[i].seqId ≠ q ∧ Buffered h ctx.reorder[i].seqId
  /-- The next call acknowledges the id delivered last. -/
  acked : ∀ q, (deliveredSoFar (h ++ [⟨q, (reliableOnData ctx q).2⟩])).getLast?
    = some (reliableOnData ctx q).2.ackId

/-- A drop is reported only by the branch that found no free entry. -/
theorem reliableOnData_dropped {ctx : ReliableCtx} {q : U16}
    (h : (reliableOnData ctx q).2.status = .dropped) (i : Fin maxReorder) :
    q ∉ reorderSeqs ctx ∧ ctx.reorder[i].inUse = true := by
  rcases reliableOnData_cases ctx q with ⟨_, heq⟩ | ⟨_, _, ctx', ds, _, _, _, heq⟩ |
    ⟨_, _, _, heq⟩ | ⟨_, _, _, _, ctx', _, _, heq⟩ | ⟨_, _, hin, hcard, -⟩ | ⟨_, _, _, heq⟩
  case inr.inr.inr.inr.inl =>
    refine ⟨hin, ?_⟩
    by_contra hno
    rw [Bool.not_eq_true] at hno
    have hlt := card_live_lt_of_free hno
    rw [card_reorderSeqs] at hcard
    omega
  all_goals
    rw [heq] at h
    exact absurd h (by simp)

/-- The next call acknowledges the id delivered last. -/
theorem rxHistory_acked (cfg : Option ReliableConfig) (ids : List U16) (q : U16) :
    (deliveredSoFar ((rxHistory cfg ids).1
        ++ [⟨q, (reliableOnData (rxHistory cfg ids).2 q).2⟩])).getLast?
      = some (reliableOnData (rxHistory cfg ids).2 q).2.ackId := by
  obtain ⟨n, hn, hw, hexp⟩ := rxHistory_delivered cfg (ids ++ [q])
  rw [rxHistory_snoc] at hn hw hexp
  have hpos : 1 ≤ n := hw.mp (reliableOnData_opens _ q)
  rw [show (rxHistory cfg ids).1 ++ [⟨q, (reliableOnData (rxHistory cfg ids).2 q).2⟩]
    = (rxFeed (rxHistory cfg ids) q).1 from rfl, hn, reliableOnData_ackId]
  rw [show (reliableOnData (rxHistory cfg ids).2 q).1.expectedRxSeq
    = (rxFeed (rxHistory cfg ids) q).2.expectedRxSeq from rfl, hexp hpos]
  -- the last of `n` consecutive ids is one behind the expected one
  obtain ⟨m, rfl⟩ : ∃ m, n = m + 1 := ⟨n - 1, by omega⟩
  rw [List.range_succ, List.map_append, List.map_singleton, List.getLast?_append]
  simp only [List.getLast?_singleton, Option.some_or, Option.some.injEq]
  bv_omega

/-- **The receive engine refines the in-order queue**, for every sequence of ids. -/
theorem rxHistory_inOrder (cfg : Option ReliableConfig) (ids : List U16) :
    InOrderDelivery ids (rxHistory cfg ids).1 (rxHistory cfg ids).2 := by
  obtain ⟨hrun, hinv⟩ := rxHistory_run cfg ids
  have hheld : ∀ d, d ∈ reorderSeqs (rxHistory cfg ids).2 ↔ Buffered (rxHistory cfg ids).1 d := by
    intro d
    rw [buffered_iff, ← hrun.held_iff d]
    exact Multiset.mem_toFinset.symm
  have hopen : ∀ q ∈ reorderSeqs (rxHistory cfg ids).2,
      (rxHistory cfg ids).2.hasRxWindow = true := by
    intro q hq
    cases hw : (rxHistory cfg ids).2.hasRxWindow with
    | true => rfl
    | false =>
        rw [hinv.closed hw] at hq
        exact absurd hq (Multiset.notMem_zero q)
  refine ⟨?_, hinv.nodup, ?_, ?_, fun d => (hheld d).mpr, ?_, ?_, rxHistory_acked cfg ids⟩
  · obtain ⟨n, hn, -⟩ := rxHistory_delivered cfg ids
    exact ⟨n, hn⟩
  · intro q hq
    have hnew := SerialNumber.newer_iff.mp (hinv.ahead (hopen q hq) q hq)
    omega
  · intro hm
    exact hinv.expected_notMem (hopen _ hm) hm
  · intro q d hd
    rcases (reliableOnData_refines hinv q).1.released_mem d hd with rfl | hm
    · exact Or.inl rfl
    · exact Or.inr ((hheld d).mp (Multiset.mem_toFinset.mp hm))
  · intro q hdrop i
    obtain ⟨hin, hu⟩ := reliableOnData_dropped hdrop i
    have hm : (rxHistory cfg ids).2.reorder[i].seqId ∈ reorderSeqs (rxHistory cfg ids).2 :=
      mem_keys.mpr ⟨i, hu, rfl⟩
    exact ⟨hu, fun he => hin (he ▸ hm), (hheld _).mp hm⟩

end Relinow
