import Relinow.Proof.InOrderQueue
import Relinow.Lib.Runs

/-!
# Two engines and a network

A sending and a receiving context, and the DATA and ACK ids in flight between
them. The network may lose, duplicate and reorder: what is on it stays on it and
may arrive any number of times, in any order, or never.

Either context may serve the opposite direction at the same time. Those calls
work on the other half of the context, so they are free to happen with any
arguments.
-/

namespace Relinow

open SlotTable Runs

/-- The two contexts and the network. `delivered` and `failed` record what the receiver has
delivered and what the sender has reported as failed, in order. -/
structure Link where
  sender : ReliableCtx
  receiver : ReliableCtx
  /-- How many sends have been given an id. -/
  sends : Nat
  /-- DATA ids on the network. -/
  data : List U16
  /-- ACK ids on the network. -/
  acks : List U16
  delivered : List U16
  failed : List U16
  deriving DecidableEq, Repr

/-- What can happen next. -/
inductive LinkAction where
  | send (nowMs : U32)
  | poll (nowMs : U32)
  | onData (seqId : U16)
  | onAck (ackId : U16) (nowMs : U32)
  /-- The sender receives in the opposite direction. -/
  | senderOnData (seqId : U16)
  /-- The receiver sends in the opposite direction. -/
  | receiverSend (nowMs : U32)
  | receiverPoll (nowMs : U32)
  | receiverOnAck (ackId : U16) (nowMs : U32)
  deriving DecidableEq, Repr

namespace Link

/-- Two fresh contexts and an empty network. -/
def start (cfgS cfgR : Option ReliableConfig) : Link :=
  { sender := reliableInit cfgS, receiver := reliableInit cfgR
    sends := 0, data := [], acks := [], delivered := [], failed := [] }

def send (w : Link) (nowMs : U32) : Link :=
  let r := reliableSend w.sender nowMs
  if r.rc = .ok then
    { w with sender := r.st, sends := w.sends + 1, data := w.data ++ [r.out.seqId] }
  else { w with sender := r.st }

def poll (w : Link) (nowMs : U32) : Link :=
  let r := reliablePoll w.sender nowMs
  match r.2.event with
  | .retransmit => { w with sender := r.1, data := w.data ++ [r.2.seqId] }
  | .failed => { w with sender := r.1, failed := w.failed ++ [r.2.seqId] }
  | _ => { w with sender := r.1 }

def onData (w : Link) (seqId : U16) : Link :=
  let r := reliableOnData w.receiver seqId
  { w with
    receiver := r.1
    acks := w.acks ++ [r.2.ackId]
    delivered := w.delivered ++ r.2.deliveredSeq }

def step (w : Link) : LinkAction → Link
  | .send nowMs => w.send nowMs
  | .poll nowMs => w.poll nowMs
  | .onData seqId => w.onData seqId
  | .onAck ackId nowMs => { w with sender := reliableOnAck w.sender ackId nowMs }
  | .senderOnData seqId => { w with sender := (reliableOnData w.sender seqId).1 }
  | .receiverSend nowMs => { w with receiver := (reliableSend w.receiver nowMs).st }
  | .receiverPoll nowMs => { w with receiver := (reliablePoll w.receiver nowMs).1 }
  | .receiverOnAck ackId nowMs => { w with receiver := reliableOnAck w.receiver ackId nowMs }

/-- Only what is on the network can arrive. -/
def Allowed (w : Link) : LinkAction → Prop
  | .onData seqId => seqId ∈ w.data
  | .onAck ackId _ => ackId ∈ w.acks
  | _ => True

instance (w : Link) (a : LinkAction) : Decidable (w.Allowed a) := by
  unfold Allowed
  cases a <;> infer_instance

end Link

/-! ## The transmit half -/

/-- What a sender keeps: the ids it has in flight are distinct and were assigned. -/
structure TxInv (ctx : ReliableCtx) (sends : Nat) : Prop where
  next : ctx.nextTxSeq = BitVec.ofNat 16 sends
  nodup : (pendingSeqs ctx).Nodup
  assigned : ∀ q ∈ pendingSeqs ctx, q.toNat < sends

theorem txInv_init (cfg : Option ReliableConfig) : TxInv (reliableInit cfg) 0 where
  next := rfl
  nodup := by rw [pendingSeqs_init]; exact Multiset.nodup_zero
  assigned := by
    intro q hq
    rw [pendingSeqs_init] at hq
    exact absurd hq (Multiset.notMem_zero q)

/-- Dropping ids from what is in flight keeps the invariant. -/
theorem TxInv.anti {ctx ctx' : ReliableCtx} {n : Nat} (h : TxInv ctx n)
    (hnext : ctx'.nextTxSeq = ctx.nextTxSeq) (hle : pendingSeqs ctx' ≤ pendingSeqs ctx) :
    TxInv ctx' n where
  next := hnext.trans h.next
  nodup := Multiset.nodup_of_le hle h.nodup
  assigned := fun q hq => h.assigned q (Multiset.mem_of_le hle hq)

theorem TxInv.send {ctx ctx' : ReliableCtx} {n : Nat} (h : TxInv ctx n) (hn : n < 2 ^ 16)
    (hnext : ctx'.nextTxSeq = seqNext ctx.nextTxSeq)
    (hks : pendingSeqs ctx' = ctx.nextTxSeq ::ₘ pendingSeqs ctx) : TxInv ctx' (n + 1) where
  next := by
    rw [hnext, h.next]
    unfold seqNext
    bv_omega
  nodup := by
    rw [hks, Multiset.nodup_cons]
    refine ⟨fun hm => ?_, h.nodup⟩
    have := h.assigned _ hm
    rw [h.next] at this
    bv_omega
  assigned := by
    intro q hq
    rw [hks, Multiset.mem_cons] at hq
    rcases hq with rfl | hq
    · rw [h.next]
      bv_omega
    · have := h.assigned q hq
      omega

theorem TxInv.onAck {ctx : ReliableCtx} {n : Nat} (h : TxInv ctx n) (a : U16) (now : U32) :
    TxInv (reliableOnAck ctx a now) n := by
  rcases reliableOnAck_cases ctx a now with ⟨_, heq⟩ | ⟨ctx', heq, hfr, hks⟩ <;> rw [heq]
  · exact h
  · refine h.anti (by rw [hfr]) ?_
    rw [hks]
    exact Multiset.le_cons_self _ _

theorem TxInv.poll {ctx : ReliableCtx} {n : Nat} (h : TxInv ctx n) (now : U32) :
    TxInv (reliablePoll ctx now).1 n := by
  rcases reliablePoll_cases ctx now with ⟨heq, _⟩ |
    ⟨i, ctx', _, hfr, ⟨_, heq, hks⟩ | ⟨_, heq, _, hks⟩⟩ <;> rw [heq]
  · exact h
  · refine h.anti (by rw [hfr]) ?_
    rw [hks]
    exact Multiset.le_cons_self _ _
  · exact h.anti (by rw [hfr]) (by rw [hks])

theorem TxInv.onData {ctx : ReliableCtx} {n : Nat} (h : TxInv ctx n) (q : U16) :
    TxInv (reliableOnData ctx q).1 n := by
  refine h.anti ?_ ?_
  · rw [reliableOnData_tx]
  · conv_lhs => rw [reliableOnData_tx]
    exact le_of_eq rfl

/-- An ACK that names an id releases it, and nothing else. -/
theorem mem_reliableOnAck {ctx : ReliableCtx} {n : Nat} (h : TxInv ctx n) (a : U16) (now : U32)
    (s : U16) :
    s ∈ pendingSeqs (reliableOnAck ctx a now) ↔ s ∈ pendingSeqs ctx ∧ s ≠ a := by
  rcases reliableOnAck_cases ctx a now with ⟨hno, heq⟩ | ⟨ctx', heq, hfr, hks⟩ <;> rw [heq]
  · exact ⟨fun hs => ⟨hs, fun he => hno (he ▸ hs)⟩, fun hs => hs.1⟩
  · have hnd := h.nodup
    rw [hks, Multiset.nodup_cons] at hnd
    rw [hks, Multiset.mem_cons]
    constructor
    · exact fun hs => ⟨Or.inr hs, fun he => hnd.1 (he ▸ hs)⟩
    · rintro ⟨rfl | hs, hne⟩
      · exact absurd rfl hne
      · exact hs

/-! ## The receive half -/

/-- What a receiver keeps: the window is open once something was delivered, and awaits the id
after the last one delivered. -/
structure DeliveredInv (ctx : ReliableCtx) (delivered : List U16) : Prop where
  opened : ctx.hasRxWindow = true ↔ delivered ≠ []
  last : ∀ d, delivered.getLast? = some d → ctx.expectedRxSeq = seqNext d

theorem deliveredInv_init (cfg : Option ReliableConfig) : DeliveredInv (reliableInit cfg) [] where
  opened := by simp [reliableInit, ReliableCtx.zero]
  last := by simp

theorem DeliveredInv.congr {ctx ctx' : ReliableCtx} {ds : List U16} (h : DeliveredInv ctx ds)
    (hw : ctx'.hasRxWindow = ctx.hasRxWindow) (he : ctx'.expectedRxSeq = ctx.expectedRxSeq) :
    DeliveredInv ctx' ds where
  opened := by rw [hw]; exact h.opened
  last := fun d hd => he.trans (h.last d hd)

theorem DeliveredInv.onData {ctx : ReliableCtx} {ds : List U16} (h : DeliveredInv ctx ds)
    (q : U16) :
    DeliveredInv (reliableOnData ctx q).1 (ds ++ (reliableOnData ctx q).2.deliveredSeq) := by
  rcases reliableOnData_cases ctx q with ⟨_, heq⟩ | ⟨hw, _, ctx', run, hrun, hfr, _, heq⟩ |
    ⟨_, _, _, heq⟩ | ⟨_, _, _, _, ctx', hfr, _, heq⟩ | ⟨_, _, _, _, heq⟩ | ⟨_, _, _, heq⟩ <;>
    rw [heq]
  · exact ⟨by simp, by simp⟩
  · refine ⟨by rw [hfr, hw]; simp, fun d hd => ?_⟩
    have hl := reorderRun_last ctx maxReorder q
    rw [← hrun] at hl
    rw [List.getLast?_append, hl, Option.some_or, Option.some.injEq] at hd
    rw [hfr, ← hd]
    unfold seqNext
    bv_omega
  · rw [List.append_nil]; exact h
  · rw [List.append_nil]; exact h.congr (by rw [hfr]) (by rw [hfr])
  · rw [List.append_nil]; exact h
  · rw [List.append_nil]; exact h

namespace Link

/-- The invariant of a link, as long as ids have not come round. -/
structure Inv (w : Link) : Prop where
  tx : w.sends < 2 ^ 15 → TxInv w.sender w.sends
  rx : DeliveredInv w.receiver w.delivered

theorem inv_start (cfgS cfgR : Option ReliableConfig) : (start cfgS cfgR).Inv :=
  ⟨fun _ => txInv_init cfgS, deliveredInv_init cfgR⟩

theorem inv_step {w : Link} (a : LinkAction) (h : w.Inv) : (w.step a).Inv := by
  cases a with
  | send now =>
      show (w.send now).Inv
      unfold send
      rcases reliableSend_cases w.sender now with ⟨heq, _⟩ | ⟨ctx', heq, hfr, hks⟩ <;> rw [heq]
      · exact h
      · refine ⟨fun hn => ?_, h.rx⟩
        have hn' : w.sends + 1 < 2 ^ 15 := hn
        exact (h.tx (by omega)).send (by omega) (congrArg ReliableCtx.nextTxSeq hfr) hks
  | poll now =>
      show (w.poll now).Inv
      unfold poll
      dsimp only
      split <;> exact ⟨fun hn => (h.tx hn).poll now, h.rx⟩
  | onData q => exact ⟨h.tx, h.rx.onData q⟩
  | onAck a now => exact ⟨fun hn => (h.tx hn).onAck a now, h.rx⟩
  | senderOnData q => exact ⟨fun hn => (h.tx hn).onData q, h.rx⟩
  | receiverSend now =>
      -- the transmit half of the receiver shares nothing with its receive half
      refine ⟨h.tx, ?_⟩
      show DeliveredInv (reliableSend w.receiver now).st w.delivered
      rcases reliableSend_cases w.receiver now with ⟨heq, _⟩ | ⟨ctx', heq, hfr, _⟩ <;> rw [heq]
      · exact h.rx
      · exact h.rx.congr (by rw [hfr]) (by rw [hfr])
  | receiverPoll now =>
      refine ⟨h.tx, ?_⟩
      show DeliveredInv (reliablePoll w.receiver now).1 w.delivered
      rcases reliablePoll_cases w.receiver now with ⟨heq, _⟩ |
        ⟨i, ctx', _, hfr, ⟨_, heq, _⟩ | ⟨_, heq, _, _⟩⟩ <;> rw [heq]
      · exact h.rx
      · exact h.rx.congr (by rw [hfr]) (by rw [hfr])
      · exact h.rx.congr (by rw [hfr]) (by rw [hfr])
  | receiverOnAck a now =>
      refine ⟨h.tx, ?_⟩
      show DeliveredInv (reliableOnAck w.receiver a now) w.delivered
      rcases reliableOnAck_cases w.receiver a now with ⟨_, heq⟩ | ⟨ctx', heq, hfr, _⟩ <;> rw [heq]
      · exact h.rx
      · exact h.rx.congr (by rw [hfr]) (by rw [hfr])

end Link

/-- The link after a run. -/
def linkAfter (cfgS cfgR : Option ReliableConfig) (as : List LinkAction) : Link :=
  run Link.step (Link.start cfgS cfgR) as

/-- A run in which only what was sent arrives. -/
def LinkRun (cfgS cfgR : Option ReliableConfig) (as : List LinkAction) : Prop :=
  Along Link.step Link.Allowed (Link.start cfgS cfgR) as

instance (cfgS cfgR : Option ReliableConfig) (as : List LinkAction) :
    Decidable (LinkRun cfgS cfgR as) :=
  inferInstanceAs (Decidable (Along _ _ _ _))

/-- **The invariant holds after every run**, whatever arrives. -/
theorem linkAfter_inv (cfgS cfgR : Option ReliableConfig) (as : List LinkAction) :
    (linkAfter cfgS cfgR as).Inv :=
  invariant (fun _ a h _ => Link.inv_step a h) (Link.inv_start cfgS cfgR)
    (Along.of_forall (P := fun _ _ => True) (fun _ _ => trivial) as _)

theorem linkAfter_append (cfgS cfgR : Option ReliableConfig) (as bs : List LinkAction) :
    linkAfter cfgS cfgR (as ++ bs) = run Link.step (linkAfter cfgS cfgR as) bs :=
  run_append _ as bs

end Relinow
