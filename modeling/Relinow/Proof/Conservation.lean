import Relinow.Proof.Frontier
import Relinow.Proof.Link

/-!
# Nothing is lost silently

The accounts of a link, over runs in which what arrives was sent. As long as ids
have not come round, every id sent is delivered, still in flight at the sender, or
reported as failed, and what is delivered is one run of ids without a gap.

So a sender with nothing in flight and nothing failed knows that the receiver has
delivered all of it. And a link can always be completed: nothing the receiver has
buffered, refused or delivered so far stands in the way of the frames it still
lacks.
-/

namespace Relinow

open SlotTable Runs

/-- The ids of the sends `d, …, e - 1`. -/
def idsBetween (d e : Nat) : List U16 := (List.range' d (e - d)).map (BitVec.ofNat 16)

theorem mem_idsBetween {d e : Nat} {q : U16} :
    q ∈ idsBetween d e ↔ ∃ i, d ≤ i ∧ i < e ∧ q = BitVec.ofNat 16 i := by
  unfold idsBetween
  simp only [List.mem_map, List.mem_range'_1]
  constructor
  · rintro ⟨i, ⟨hd, hi⟩, rfl⟩
    exact ⟨i, hd, by omega, rfl⟩
  · rintro ⟨i, hd, hi, rfl⟩
    exact ⟨i, ⟨hd, by omega⟩, rfl⟩

theorem idsBetween_append {d e f : Nat} (hde : d ≤ e) (hef : e ≤ f) :
    idsBetween d e ++ idsBetween e f = idsBetween d f := by
  unfold idsBetween
  rw [← List.map_append]
  have happ := @List.range'_append_1 d (e - d) (f - e)
  rw [show d + (e - d) = e by omega, show e - d + (f - e) = f - d by omega] at happ
  rw [happ]

theorem idsBetween_self (d : Nat) : idsBetween d d = [] := by
  unfold idsBetween
  rw [Nat.sub_self]
  rfl

theorem idsBetween_succ {d e : Nat} (h : d < e) :
    idsBetween d e = BitVec.ofNat 16 d :: idsBetween (d + 1) e := by
  unfold idsBetween
  rw [show e - d = e - (d + 1) + 1 by omega, List.range'_succ]
  rfl

theorem idsBetween_length (d e : Nat) : (idsBetween d e).length = e - d := by
  unfold idsBetween
  rw [List.length_map, List.length_range']

/-! ## The receive half -/

/-- The receive half of two contexts is the same. -/
structure SameRx (ctx ctx' : ReliableCtx) : Prop where
  window : ctx'.hasRxWindow = ctx.hasRxWindow
  expected : ctx'.expectedRxSeq = ctx.expectedRxSeq
  held : reorderSeqs ctx' = reorderSeqs ctx

theorem reliableSend_sameRx (ctx : ReliableCtx) (now : U32) :
    SameRx ctx (reliableSend ctx now).st := by
  rcases reliableSend_cases ctx now with ⟨heq, _⟩ | ⟨ctx', heq, hfr, _⟩ <;> rw [heq]
  · exact ⟨rfl, rfl, rfl⟩
  · exact ⟨by rw [hfr], by rw [hfr], by rw [hfr]; rfl⟩

theorem reliablePoll_sameRx (ctx : ReliableCtx) (now : U32) :
    SameRx ctx (reliablePoll ctx now).1 := by
  rcases reliablePoll_cases ctx now with ⟨heq, _⟩ |
    ⟨i, ctx', _, hfr, ⟨_, heq, _⟩ | ⟨_, heq, _, _⟩⟩ <;> rw [heq]
  · exact ⟨rfl, rfl, rfl⟩
  · exact ⟨by rw [hfr], by rw [hfr], by rw [hfr]; rfl⟩
  · exact ⟨by rw [hfr], by rw [hfr], by rw [hfr]; rfl⟩

theorem reliableOnAck_sameRx (ctx : ReliableCtx) (a : U16) (now : U32) :
    SameRx ctx (reliableOnAck ctx a now) := by
  rcases reliableOnAck_cases ctx a now with ⟨_, heq⟩ | ⟨ctx', heq, hfr, _⟩ <;> rw [heq]
  · exact ⟨rfl, rfl, rfl⟩
  · exact ⟨by rw [hfr], by rw [hfr], by rw [hfr]; rfl⟩

/-- Of `n` sends the receiver has delivered `d, …, e - 1`, or nothing yet. -/
structure RxSpan (ctx : ReliableCtx) (n : Nat) (delivered : List U16) (d e : Nat) : Prop where
  le : d ≤ e
  bound : e ≤ n
  delivered : delivered = idsBetween d e
  opened : ctx.hasRxWindow = true → d < e ∧ ctx.expectedRxSeq = BitVec.ofNat 16 e
  closed : ctx.hasRxWindow = false → d = e
  held : ∀ q ∈ reorderSeqs ctx, q.toNat < n

/-- How the arrival of the send `i` moves the span. -/
structure Extended (ctx : ReliableCtx) (i d e d' e' : Nat) : Prop where
  kept : ctx.hasRxWindow = true → d' = d ∧ e ≤ e'
  first : ctx.hasRxWindow = false → d' = i
  past : ctx.hasRxWindow = true → i = e → i < e'

section RxSpan

variable {ctx ctx' : ReliableCtx} {n d e : Nat} {ds : List U16}

theorem RxSpan.congr (h : RxSpan ctx n ds d e) (hsame : SameRx ctx ctx') :
    RxSpan ctx' n ds d e where
  le := h.le
  bound := h.bound
  delivered := h.delivered
  opened := by rw [hsame.window, hsame.expected]; exact h.opened
  closed := by rw [hsame.window]; exact h.closed
  held := by rw [hsame.held]; exact h.held

theorem RxSpan.more (h : RxSpan ctx n ds d e) {m : Nat} (hm : n ≤ m) : RxSpan ctx m ds d e where
  le := h.le
  bound := h.bound.trans hm
  delivered := h.delivered
  opened := h.opened
  closed := h.closed
  held := fun q hq => (h.held q hq).trans_le hm

/-- The ids flushed from the buffer were sent: the run stops where the sends do. -/
theorem RxSpan.flushed (h : RxSpan ctx n ds d e) (hn : n < 2 ^ 16) (he : e < n) :
    ∃ f, e < f ∧ f ≤ n
      ∧ reorderRun ctx maxReorder (seqNext (BitVec.ofNat 16 e)) = idsBetween (e + 1) f := by
  obtain ⟨len, -, hrun, hmem, -⟩ := reorderRun_maximal ctx 0#16 maxReorder (e + 1)
  simp only [BitVec.zero_add] at hrun hmem
  refine ⟨e + 1 + len, by omega, ?_, ?_⟩
  · -- otherwise the first id not sent would be among those held
    by_contra hlt
    have hid := h.held _ (hmem n (by omega) (by omega))
    rw [BitVec.toNat_ofNat, Nat.mod_eq_of_lt hn] at hid
    exact absurd hid (Nat.lt_irrefl n)
  · have hnext : seqNext (BitVec.ofNat 16 e) = BitVec.ofNat 16 (e + 1) := by
      have := add_ofNat_succ 0#16 e
      simpa only [BitVec.zero_add] using this
    unfold idsBetween
    rw [hnext, hrun, Nat.add_sub_cancel_left]

/-- An arrival that is not the next id leaves the span as it is. -/
theorem RxSpan.stays (h : RxSpan ctx n ds d e) {i : Nat} (hw : ctx.hasRxWindow = true)
    (hne : BitVec.ofNat 16 i ≠ ctx.expectedRxSeq) (hw' : ctx'.hasRxWindow = true)
    (hexp : ctx'.expectedRxSeq = ctx.expectedRxSeq)
    (hheld : ∀ q ∈ reorderSeqs ctx', q.toNat < n) :
    ∃ d' e', RxSpan ctx' n (ds ++ []) d' e' ∧ Extended ctx i d e d' e' := by
  have hid := (h.opened hw).2
  refine ⟨d, e, ⟨h.le, h.bound, (List.append_nil ds).trans h.delivered, fun _ => ?_, fun hc => ?_,
    hheld⟩, fun _ => ⟨rfl, Nat.le_refl e⟩, fun hc => ?_, fun _ hie => ?_⟩
  · exact hexp ▸ h.opened hw
  · exact absurd (hw'.symm.trans hc) (by decide)
  · exact absurd (hw.symm.trans hc) (by decide)
  · exact absurd (hie ▸ hid).symm hne

/-- **An arrival extends the span, and takes it past its own id when that one is next.** -/
theorem RxSpan.onData (h : RxSpan ctx n ds d e) (hn : n < 2 ^ 16) {i : Nat} (hi : i < n) :
    ∃ d' e', RxSpan (reliableOnData ctx (BitVec.ofNat 16 i)).1 n
        (ds ++ (reliableOnData ctx (BitVec.ofNat 16 i)).2.deliveredSeq) d' e'
      ∧ Extended ctx i d e d' e' := by
  have hopens := reliableOnData_opens ctx (BitVec.ofNat 16 i)
  have hid : (BitVec.ofNat 16 i).toNat = i := by
    rw [BitVec.toNat_ofNat, Nat.mod_eq_of_lt (hi.trans hn)]
  rcases reliableOnData_cases ctx (BitVec.ofNat 16 i) with ⟨hw, heq⟩ |
    ⟨hw, hq, ctx', run, hrun, hfr, hks, heq⟩ | ⟨hw, hnew, hin, heq⟩ |
    ⟨hw, hnew, -, -, ctx', hfr, hks, heq⟩ | ⟨hw, hnew, -, -, heq⟩ | ⟨hw, hne, hold, heq⟩ <;>
    rw [heq] at hopens ⊢
  · -- the window opens here, and nothing was delivered before
    have hnil : ds = [] := by rw [h.delivered, h.closed hw, idsBetween_self]
    refine ⟨i, i + 1, ⟨by omega, by omega, ?_, fun _ => ⟨by omega, ?_⟩, fun hc => ?_, h.held⟩,
      fun hc => ?_, fun _ => rfl, fun hc => ?_⟩
    · rw [hnil, idsBetween_succ (by omega), idsBetween_self]
      rfl
    · have := add_ofNat_succ 0#16 i
      simpa only [BitVec.zero_add] using this
    · rw [hopens] at hc
      exact absurd hc (by decide)
    · rw [hw] at hc
      exact absurd hc (by decide)
    · rw [hw] at hc
      exact absurd hc (by decide)
  · obtain ⟨hde, hexp⟩ := h.opened hw
    -- the id expected is the one of the send `e`
    have hie : i = e := by
      have hbound := h.bound
      have := congrArg BitVec.toNat (hq.trans hexp)
      rw [hid, BitVec.toNat_ofNat, Nat.mod_eq_of_lt (by omega)] at this
      exact this
    subst hie
    obtain ⟨f, hef, hfn, hflush⟩ := h.flushed hn hi
    rw [hflush] at hrun
    have hlen : run.length = f - (i + 1) := by
      rw [hrun]
      unfold idsBetween
      rw [List.length_map, List.length_range']
    refine ⟨d, f, ⟨by omega, hfn, ?_, fun _ => ⟨by omega, ?_⟩, fun hc => ?_, fun q hm => ?_⟩,
      fun _ => ⟨rfl, by omega⟩, fun hc => ?_, fun _ _ => hef⟩
    · rw [h.delivered, hrun, ← idsBetween_succ hef, idsBetween_append (by omega) (by omega)]
    · rw [hfr, hlen, ← BitVec.ofNat_add, show i + (f - (i + 1) + 1) = f by omega]
    · rw [hopens] at hc
      exact absurd hc (by decide)
    · exact h.held q (by rw [hks]; exact Multiset.mem_add.mpr (Or.inr hm))
    · rw [hw] at hc
      exact absurd hc (by decide)
  · exact h.stays hw (SerialNumber.ne_of_newer hnew) hw rfl h.held
  · refine h.stays hw (SerialNumber.ne_of_newer hnew) (by rw [hfr]; exact hw) (by rw [hfr])
      fun q hm => ?_
    rw [hks, Multiset.mem_cons] at hm
    rcases hm with rfl | hm
    · rw [hid]
      exact hi
    · exact h.held q hm
  · exact h.stays hw (SerialNumber.ne_of_newer hnew) hw rfl h.held
  · exact h.stays hw hne hw rfl h.held

end RxSpan

/-! ## The accounts of a link -/

/-- Where the ids sent are. -/
structure Accounts (w : Link) (d e : Nat) : Prop where
  tx : TxInv w.sender w.sends
  rx : RxSpan w.receiver w.sends w.delivered d e
  sent : ∀ q, q ∈ w.data ↔ q.toNat < w.sends
  acked : ∀ a ∈ w.acks, a ∈ w.delivered
  placed : ∀ q : U16, q.toNat < w.sends →
    q ∈ w.delivered ∨ q ∈ pendingSeqs w.sender ∨ q ∈ w.failed

theorem accounts_start (cfgS cfgR : Option ReliableConfig) :
    Accounts (Link.start cfgS cfgR) 0 0 where
  tx := txInv_init cfgS
  rx :=
    { le := Nat.le_refl 0
      bound := Nat.le_refl 0
      delivered := rfl
      opened := fun hw => absurd hw (by simp [Link.start, reliableInit, ReliableCtx.zero])
      closed := fun _ => rfl
      held := fun q hq => by
        rw [Link.start, reorderSeqs_init] at hq
        exact absurd hq (Multiset.notMem_zero q) }
  sent := fun q => ⟨fun hq => absurd hq List.not_mem_nil, fun hq => absurd hq (Nat.not_lt_zero _)⟩
  acked := fun a ha => absurd ha List.not_mem_nil
  placed := fun q hq => absurd hq (Nat.not_lt_zero _)

theorem Accounts.send {w : Link} {d e : Nat} (h : Accounts w d e) (now : U32)
    (hn : (w.send now).sends < 2 ^ 16) : Accounts (w.send now) d e := by
  revert hn
  unfold Link.send
  rcases reliableSend_cases w.sender now with ⟨heq, _⟩ | ⟨ctx', heq, hfr, hks⟩ <;> rw [heq]
  · exact fun _ => h
  · intro hn
    have hn' : w.sends + 1 < 2 ^ 16 := hn
    have hnew : ∀ q : U16, q.toNat < w.sends + 1 ↔ q.toNat < w.sends ∨ q = w.sender.nextTxSeq := by
      intro q
      rw [h.tx.next]
      bv_omega
    refine ⟨h.tx.send (by omega) (congrArg ReliableCtx.nextTxSeq hfr) hks,
      h.rx.more (Nat.le_succ _), fun q => ?_, h.acked, fun q hq => ?_⟩
    · show q ∈ w.data ++ [w.sender.nextTxSeq] ↔ q.toNat < w.sends + 1
      rw [List.mem_append, List.mem_singleton, h.sent, hnew]
    · show q ∈ w.delivered ∨ q ∈ pendingSeqs ctx' ∨ q ∈ w.failed
      rw [hks, Multiset.mem_cons]
      rcases (hnew q).mp hq with hq | rfl
      · exact (h.placed q hq).imp_right (Or.imp_left Or.inr)
      · exact Or.inr (Or.inl (Or.inl rfl))

theorem Accounts.poll {w : Link} {d e : Nat} (h : Accounts w d e) (now : U32) :
    Accounts (w.poll now) d e := by
  have htx := h.tx.poll now
  unfold Link.poll
  rcases reliablePoll_cases w.sender now with ⟨heq, _⟩ |
    ⟨i, ctx', _, hfr, ⟨_, heq, hks⟩ | ⟨_, heq, hmem, hks⟩⟩ <;> rw [heq] at htx ⊢
  · exact h
  · -- given up: it leaves the packets in flight for those reported
    refine ⟨htx, h.rx, h.sent, h.acked, fun q hq => ?_⟩
    show q ∈ w.delivered ∨ q ∈ pendingSeqs ctx' ∨ q ∈ w.failed ++ [w.sender.pending[i].seqId]
    rw [List.mem_append, List.mem_singleton]
    rcases h.placed q hq with hd | hp | hf
    · exact Or.inl hd
    · rw [hks, Multiset.mem_cons] at hp
      exact Or.inr (hp.symm.imp_right Or.inr)
    · exact Or.inr (Or.inr (Or.inl hf))
  · refine ⟨htx, h.rx, fun q => ?_, h.acked, fun q hq => ?_⟩
    · show q ∈ w.data ++ [w.sender.pending[i].seqId] ↔ q.toNat < w.sends
      rw [List.mem_append, List.mem_singleton, h.sent]
      refine ⟨fun hq => hq.elim id ?_, Or.inl⟩
      rintro rfl
      exact h.tx.assigned _ hmem
    · show q ∈ w.delivered ∨ q ∈ pendingSeqs ctx' ∨ q ∈ w.failed
      rw [hks]
      exact h.placed q hq

/-- An ACK on the network names an id delivered: releasing it loses nothing. -/
theorem Accounts.onAck {w : Link} {d e : Nat} (h : Accounts w d e) {a : U16} (ha : a ∈ w.acks)
    (now : U32) : Accounts { w with sender := reliableOnAck w.sender a now } d e where
  tx := h.tx.onAck a now
  rx := h.rx
  sent := h.sent
  acked := h.acked
  placed := by
    intro q hq
    show q ∈ w.delivered ∨ q ∈ pendingSeqs (reliableOnAck w.sender a now) ∨ q ∈ w.failed
    rw [mem_reliableOnAck h.tx]
    by_cases hqa : q = a
    · exact Or.inl (hqa ▸ h.acked a ha)
    · exact (h.placed q hq).imp_right (Or.imp_left fun hp => ⟨hp, hqa⟩)

theorem Accounts.receiver {w : Link} {d e : Nat} (h : Accounts w d e) {ctx : ReliableCtx}
    (hsame : SameRx w.receiver ctx) : Accounts { w with receiver := ctx } d e where
  tx := h.tx
  rx := h.rx.congr hsame
  sent := h.sent
  acked := h.acked
  placed := h.placed

theorem Accounts.onData {w : Link} {d e : Nat} (h : Accounts w d e) (hn : w.sends < 2 ^ 16)
    {i : Nat} (hi : i < w.sends) :
    ∃ d' e', Accounts (w.onData (BitVec.ofNat 16 i)) d' e'
      ∧ Extended w.receiver i d e d' e' := by
  obtain ⟨d', e', hrx, hext⟩ := h.rx.onData hn hi
  refine ⟨d', e', ⟨h.tx, hrx, h.sent, fun a ha => ?_, fun q hq => ?_⟩, hext⟩
  · show a ∈ w.delivered ++ (reliableOnData w.receiver (BitVec.ofNat 16 i)).2.deliveredSeq
    have ha' : a ∈ w.acks ++ [(reliableOnData w.receiver (BitVec.ofNat 16 i)).2.ackId] := ha
    rw [List.mem_append, List.mem_singleton] at ha'
    rcases ha' with ha' | rfl
    · exact List.mem_append_left _ (h.acked a ha')
    · -- the ACK names the last id delivered
      obtain ⟨hlt, hexp⟩ := hrx.opened (reliableOnData_opens _ _)
      have hde : w.delivered ++ (reliableOnData w.receiver (BitVec.ofNat 16 i)).2.deliveredSeq
          = idsBetween d' e' := hrx.delivered
      rw [hde, reliableOnData_ackId, hexp, mem_idsBetween]
      refine ⟨e' - 1, by omega, by omega, ?_⟩
      bv_omega
  · exact (h.placed q hq).imp_left fun hd => List.mem_append_left _ hd

/-- **One step keeps the accounts**, as long as ids have not come round. -/
theorem Accounts.step {w : Link} {d e : Nat} {a : LinkAction} (h : Accounts w d e)
    (ha : w.Allowed a) (hn : (w.step a).sends < 2 ^ 16) : ∃ d' e', Accounts (w.step a) d' e' := by
  cases a with
  | send now => exact ⟨d, e, h.send now hn⟩
  | poll now => exact ⟨d, e, h.poll now⟩
  | onData q =>
      have hq : q.toNat < w.sends := (h.sent q).mp ha
      obtain ⟨d', e', h', -⟩ := h.onData hn hq
      rw [BitVec.ofNat_toNat, BitVec.setWidth_eq] at h'
      exact ⟨d', e', h'⟩
  | onAck a now => exact ⟨d, e, h.onAck ha now⟩
  | senderOnData q => exact ⟨d, e, h.tx.onData q, h.rx, h.sent, h.acked, by
      intro p hp
      have hsame : pendingSeqs (reliableOnData w.sender q).1 = pendingSeqs w.sender := by
        conv_lhs => rw [reliableOnData_tx]
        rfl
      show p ∈ w.delivered ∨ p ∈ pendingSeqs (reliableOnData w.sender q).1 ∨ p ∈ w.failed
      rw [hsame]
      exact h.placed p hp⟩
  | receiverSend now => exact ⟨d, e, h.receiver (reliableSend_sameRx w.receiver now)⟩
  | receiverPoll now => exact ⟨d, e, h.receiver (reliablePoll_sameRx w.receiver now)⟩
  | receiverOnAck a now => exact ⟨d, e, h.receiver (reliableOnAck_sameRx w.receiver a now)⟩

theorem Link.sends_le_step (w : Link) (a : LinkAction) : w.sends ≤ (w.step a).sends := by
  cases a with
  | send now =>
      show w.sends ≤ (w.send now).sends
      unfold Link.send
      dsimp only
      split
      · exact Nat.le_succ _
      · exact Nat.le_refl _
  | poll now =>
      show w.sends ≤ (w.poll now).sends
      unfold Link.poll
      dsimp only
      split <;> exact Nat.le_refl _
  | _ => exact Nat.le_refl _

theorem accounts_after {cfgS cfgR : Option ReliableConfig} {as : List LinkAction}
    (hrun : LinkRun cfgS cfgR as) (hn : (linkAfter cfgS cfgR as).sends < 2 ^ 16) :
    ∃ d e, Accounts (linkAfter cfgS cfgR as) d e := by
  refine invariant (I := fun w => w.sends < 2 ^ 16 → ∃ d e, Accounts w d e) ?_
    (fun _ => ⟨0, 0, accounts_start cfgS cfgR⟩) hrun hn
  intro w a h ha hn'
  obtain ⟨d, e, hacc⟩ := h ((w.sends_le_step a).trans_lt hn')
  exact hacc.step ha hn'

/--
**Nothing is lost silently.** In every run in which what arrives was sent, and with
fewer than 65536 sends, the receiver has delivered one gapless run of the ids sent,
each once and in order. Every other id sent is in flight at the sender or was
reported as failed. So a sender with nothing in flight and nothing failed has had
everything it sent delivered, in order.
-/
theorem link_conserves (cfgS cfgR : Option ReliableConfig) (as : List LinkAction)
    (hrun : LinkRun cfgS cfgR as) (hn : (linkAfter cfgS cfgR as).sends < 2 ^ 16) :
    (∃ d e, d ≤ e ∧ e ≤ (linkAfter cfgS cfgR as).sends
      ∧ (linkAfter cfgS cfgR as).delivered = idsBetween d e
      ∧ ∀ i < (linkAfter cfgS cfgR as).sends, (d ≤ i ∧ i < e)
        ∨ BitVec.ofNat 16 i ∈ pendingSeqs (linkAfter cfgS cfgR as).sender
        ∨ BitVec.ofNat 16 i ∈ (linkAfter cfgS cfgR as).failed)
    ∧ (pendingSeqs (linkAfter cfgS cfgR as).sender = 0 → (linkAfter cfgS cfgR as).failed = [] →
      (linkAfter cfgS cfgR as).delivered = idsBetween 0 (linkAfter cfgS cfgR as).sends) := by
  obtain ⟨d, e, h⟩ := accounts_after hrun hn
  generalize linkAfter cfgS cfgR as = w at h hn ⊢
  have hplaced : ∀ i < w.sends, (d ≤ i ∧ i < e) ∨ BitVec.ofNat 16 i ∈ pendingSeqs w.sender
      ∨ BitVec.ofNat 16 i ∈ w.failed := by
    intro i hi
    have hid : (BitVec.ofNat 16 i).toNat < w.sends := by
      rw [BitVec.toNat_ofNat, Nat.mod_eq_of_lt (hi.trans hn)]
      exact hi
    refine (h.placed _ hid).imp_left fun hd => ?_
    rw [h.rx.delivered, mem_idsBetween] at hd
    obtain ⟨j, hdj, hje, hij⟩ := hd
    have hbound := h.rx.bound
    obtain rfl := SerialNumber.eq_of_ofNat_eq (by omega) (by omega) hij
    exact ⟨hdj, hje⟩
  refine ⟨⟨d, e, h.rx.le, h.rx.bound, h.rx.delivered, hplaced⟩, fun hp hf => ?_⟩
  have hall : ∀ i < w.sends, d ≤ i ∧ i < e := by
    intro i hi
    refine (hplaced i hi).resolve_right (not_or.mpr ⟨?_, ?_⟩)
    · rw [hp]
      exact Multiset.notMem_zero _
    · rw [hf]
      exact List.not_mem_nil
  have hle := h.rx.le
  have hbound := h.rx.bound
  rw [h.rx.delivered]
  rcases Nat.eq_zero_or_pos w.sends with hzero | hpos
  · obtain rfl : d = e := by omega
    rw [hzero, idsBetween_self, idsBetween_self]
  · have h0 := hall 0 hpos
    have hlast := hall (w.sends - 1) (by omega)
    rw [show d = 0 by omega, show e = w.sends by omega]

/-- Three sends; the second arrives early and the first is repeated. All are acknowledged. -/
def settledRun : List LinkAction :=
  [.send 0#32, .onData 0#16, .onAck 0#16 1#32, .send 2#32, .onData 1#16, .onData 0#16,
    .onAck 1#16 3#32]

theorem settledRun_conserves :
    (linkAfter none none settledRun).delivered
      = idsBetween 0 (linkAfter none none settledRun).sends :=
  (link_conserves none none settledRun (by decide +kernel) (by decide +kernel)).2
    (by decide +kernel) (by decide +kernel)

/-! ## A link can always be completed -/

/-- Everything sent so far arrives once more, in the order it was sent. -/
def redelivery (w : Link) : List LinkAction :=
  (List.range w.sends).map fun i => .onData (BitVec.ofNat 16 i)

/-- The send the receiver's deliveries begin with; the first one, when there are none yet. -/
def Link.firstSend (w : Link) : Nat := (w.delivered.headD 0#16).toNat

theorem Accounts.firstSend_opened {w : Link} {d e : Nat} (h : Accounts w d e)
    (hn : w.sends < 2 ^ 16) (hw : w.receiver.hasRxWindow = true) : w.firstSend = d := by
  have hbound := h.rx.bound
  have hlt := (h.rx.opened hw).1
  unfold Link.firstSend
  rw [h.rx.delivered, idsBetween_succ hlt, List.headD_cons, BitVec.toNat_ofNat,
    Nat.mod_eq_of_lt (by omega)]

theorem Accounts.firstSend_closed {w : Link} {d e : Nat} (h : Accounts w d e)
    (hw : w.receiver.hasRxWindow = false) : w.firstSend = 0 := by
  unfold Link.firstSend
  rw [h.rx.delivered, h.rx.closed hw, idsBetween_self]
  rfl

/-- Where the link stands when the sends `0, …, k - 1` have arrived once more. -/
structure Redelivered (w : Link) (k : Nat) (w' : Link) (d e : Nat) : Prop where
  accounts : Accounts w' d e
  sends : w'.sends = w.sends
  reached : k ≤ e
  opened : 0 < k → w'.receiver.hasRxWindow = true
  first : w.receiver.hasRxWindow = true ∨ 0 < k → d = w.firstSend
  unopened : k = 0 → w' = w

theorem Redelivered.next {w w' : Link} {k d e : Nat} (h : Redelivered w k w' d e)
    (hn : w.sends < 2 ^ 16) (hk : k < w.sends) :
    ∃ d' e', Redelivered w (k + 1) (w'.onData (BitVec.ofNat 16 k)) d' e' := by
  obtain ⟨d', e', hacc, hext⟩ := h.accounts.onData (by rw [h.sends]; exact hn)
    (by rw [h.sends]; exact hk)
  have hopen : (w'.onData (BitVec.ofNat 16 k)).receiver.hasRxWindow = true :=
    reliableOnData_opens _ _
  refine ⟨d', e', hacc, h.sends, ?_, fun _ => hopen, fun _ => ?_, fun hz => absurd hz (by omega)⟩
  · cases hw : w'.receiver.hasRxWindow with
    | true =>
        have hkept := (hext.kept hw).2
        have hreached := h.reached
        rcases Nat.lt_or_eq_of_le hreached with hlt | heq
        · omega
        · exact hext.past hw heq
    | false =>
        have hlt := (hacc.rx.opened hopen).1
        rw [hext.first hw] at hlt
        exact hlt
  · cases hw : w'.receiver.hasRxWindow with
    | true =>
        rw [(hext.kept hw).1]
        refine h.first ?_
        rcases Nat.eq_zero_or_pos k with hz | hpos
        · exact Or.inl (h.unopened hz ▸ hw)
        · exact Or.inr hpos
    | false =>
        -- the window opens at the send 0
        obtain rfl : k = 0 := by
          by_contra hne
          exact absurd ((h.opened (by omega)).symm.trans hw) (by decide)
        rw [h.unopened rfl] at hw
        have hacc' := h.accounts
        rw [h.unopened rfl] at hacc'
        rw [hext.first (h.unopened rfl ▸ hw), hacc'.firstSend_closed hw]

theorem redelivered_run {w : Link} {d e : Nat} (h : Accounts w d e) (hn : w.sends < 2 ^ 16) :
    ∀ k ≤ w.sends, ∃ d' e', Redelivered w k
      (run Link.step w ((List.range k).map fun i => .onData (BitVec.ofNat 16 i))) d' e' := by
  intro k
  induction k with
  | zero =>
      refine fun _ => ⟨d, e, h, rfl, Nat.zero_le e, fun hz => absurd hz (Nat.lt_irrefl 0), ?_,
        fun _ => rfl⟩
      rintro (hw | hz)
      · exact (h.firstSend_opened hn hw).symm
      · exact absurd hz (Nat.lt_irrefl 0)
  | succ k ih =>
      intro hk
      obtain ⟨d', e', hk'⟩ := ih (by omega)
      obtain ⟨d'', e'', hnext⟩ := hk'.next hn hk
      refine ⟨d'', e'', ?_⟩
      rw [List.range_succ, List.map_append, run_append]
      exact hnext

theorem redelivery_allowed {w : Link} {d e : Nat} (h : Accounts w d e) (hn : w.sends < 2 ^ 16) :
    Along Link.step Link.Allowed w (redelivery w) := by
  refine along_iff.mpr fun i a ha => ?_
  unfold redelivery at ha ⊢
  rw [List.getElem?_map, Option.map_eq_some_iff] at ha
  obtain ⟨j, hj, rfl⟩ := ha
  obtain ⟨hi, rfl⟩ := List.getElem?_eq_some_iff.mp hj
  rw [List.length_range] at hi
  rw [List.getElem_range, ← List.map_take, List.take_range, Nat.min_eq_left (by omega)]
  obtain ⟨d', e', hk⟩ := redelivered_run h hn i (by omega)
  refine (hk.accounts.sent _).mpr ?_
  rw [hk.sends, BitVec.toNat_ofNat, Nat.mod_eq_of_lt (by omega)]
  exact hi

/--
**A link can always be completed.** Whatever was lost, repeated, reordered, buffered
or refused so far: when the network delivers the frames of all sends once more, in
the order they were sent, the receiver has delivered every send from the first one
it delivered on, in order and without a gap. That is every send, unless the first
one to arrive overtook an earlier one.
-/
theorem link_completes (cfgS cfgR : Option ReliableConfig) (as : List LinkAction)
    (hrun : LinkRun cfgS cfgR as) (hn : (linkAfter cfgS cfgR as).sends < 2 ^ 16) :
    LinkRun cfgS cfgR (as ++ redelivery (linkAfter cfgS cfgR as))
    ∧ (linkAfter cfgS cfgR (as ++ redelivery (linkAfter cfgS cfgR as))).delivered
      = idsBetween (linkAfter cfgS cfgR as).firstSend (linkAfter cfgS cfgR as).sends := by
  obtain ⟨d, e, h⟩ := accounts_after hrun hn
  refine ⟨along_append.mpr ⟨hrun, redelivery_allowed h hn⟩, ?_⟩
  rw [linkAfter_append]
  generalize linkAfter cfgS cfgR as = w at h hn ⊢
  obtain ⟨d', e', hall⟩ := redelivered_run h hn w.sends (Nat.le_refl _)
  have hbound := hall.accounts.rx.bound
  rw [hall.sends] at hbound
  have hend : e' = w.sends := Nat.le_antisymm hbound hall.reached
  show (run Link.step w ((List.range w.sends).map _)).delivered = _
  rw [hall.accounts.rx.delivered, hend]
  rcases Nat.eq_zero_or_pos w.sends with hzero | hpos
  · unfold idsBetween
    rw [hzero, Nat.zero_sub, Nat.zero_sub]
    rfl
  · rw [hall.first (Or.inr hpos)]

/-- Three sends, of which the second is lost and the third waits in the buffer. -/
def gappedRun : List LinkAction :=
  [.send 0#32, .send 0#32, .send 0#32, .onData 0#16, .onData 2#16]

theorem gappedRun_completes :
    (linkAfter none none (gappedRun ++ redelivery (linkAfter none none gappedRun))).delivered
      = idsBetween (linkAfter none none gappedRun).firstSend
        (linkAfter none none gappedRun).sends :=
  (link_completes none none gappedRun (by decide +kernel) (by decide +kernel)).2

end Relinow
