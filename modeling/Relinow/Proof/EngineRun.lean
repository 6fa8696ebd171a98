import Relinow.Proof.Engine
import Relinow.Lib.Runs

/-!
# Runs of one engine

Any sequence of calls on one context, with a record of what became of each
packet. Sends are numbered from 0; `owner` says whose packet a pending slot
holds, and `log` what happened to it, in order. The record is made of what the
engine reports and of the slots its own scans find, and the engine never reads
it.

Times are on a clock that does not wrap. The engine gets their low 32 bits, so
that any 32-bit argument is among them.
-/

namespace Relinow

open SlotTable Runs

/-- A call on the engine, with its arguments. -/
inductive EngineCall where
  | send (now : Nat)
  | onAck (ackId : U16) (now : Nat)
  | poll (now : Nat)
  | onData (seqId : U16)
  deriving DecidableEq, Repr

/-- The time of a call, if it is given one. -/
def EngineCall.time : EngineCall → Option Nat
  | .send now | .onAck _ now | .poll now => some now
  | .onData _ => none

/-- What the engine is told of the time. -/
def clock (now : Nat) : U32 := BitVec.ofNat 32 now

/-- What happened to packet `n`. Transmissions carry the estimate they were made with, and ACKs the
sample they gave. -/
inductive Note where
  | sent (n : Nat) (slot : Fin maxPending) (now : Nat) (rtt : U16)
  | resent (n : Nat) (now : Nat) (rtt : U16)
  | acked (n : Nat) (now : Nat) (sample : Nat)
  | failed (n : Nat) (now : Nat)
  deriving DecidableEq, Repr

/-- A context, and what became of the packets sent on it. -/
structure EngineRun where
  ctx : ReliableCtx
  /-- How many sends have succeeded. -/
  sends : Nat
  /-- The number of the packet in a slot. -/
  owner : Vector Nat maxPending
  log : List Note
  deriving DecidableEq, Repr

/-- A sample as it is used. -/
def capped (sample : Nat) : Nat := if 65535 < sample then 65535 else sample

/-- The sample an ACK for this slot gives: the time since its last transmission. -/
def ackSample (slot : Pending) (now : U32) : Nat := capped (now - slot.lastSendMs).toNat

namespace EngineRun

def start (ctx : ReliableCtx) : EngineRun :=
  { ctx := ctx, sends := 0, owner := Vector.replicate maxPending 0, log := [] }

/-- The packet is booked when the send succeeds, in the slot the engine found free. -/
def send (w : EngineRun) (now : Nat) : EngineRun :=
  let r := reliableSend w.ctx (clock now)
  match r.rc, findFreePendingSlot w.ctx with
  | .ok, some i =>
      { ctx := r.st, sends := w.sends + 1, owner := w.owner.put i w.sends
        log := w.log ++ [.sent w.sends i now w.ctx.rttEstimateMs] }
  | _, _ => { w with ctx := r.st }

def onAck (w : EngineRun) (ackId : U16) (now : Nat) : EngineRun :=
  match findPendingSlot w.ctx ackId with
  | some i =>
      { w with
        ctx := reliableOnAck w.ctx ackId (clock now)
        log := w.log ++ [.acked w.owner[i] now (ackSample w.ctx.pending[i] (clock now))] }
  | none => { w with ctx := reliableOnAck w.ctx ackId (clock now) }

/-- The event is booked for the slot the poll found expired. -/
def poll (w : EngineRun) (now : Nat) : EngineRun :=
  let r := reliablePoll w.ctx (clock now)
  match r.2.event, firstIdx (Pending.expired (clock now)) w.ctx.pending with
  | .retransmit, some i =>
      { w with ctx := r.1, log := w.log ++ [.resent w.owner[i] now w.ctx.rttEstimateMs] }
  | .failed, some i => { w with ctx := r.1, log := w.log ++ [.failed w.owner[i] now] }
  | _, _ => { w with ctx := r.1 }

def step (w : EngineRun) : EngineCall → EngineRun
  | .send now => w.send now
  | .onAck ackId now => w.onAck ackId now
  | .poll now => w.poll now
  | .onData seqId => { w with ctx := (reliableOnData w.ctx seqId).1 }

/-- Slot `i` holds packet `n`. -/
def Holds (w : EngineRun) (i : Fin maxPending) (n : Nat) : Prop :=
  w.ctx.pending[i].inUse = true ∧ w.owner[i] = n

end EngineRun

/-- The record after the calls, on a fresh context. -/
def engineAfter (cfg : Option ReliableConfig) (calls : List EngineCall) : EngineRun :=
  run EngineRun.step (EngineRun.start (reliableInit cfg)) calls

theorem engineAfter_snoc (cfg : Option ReliableConfig) (calls : List EngineCall)
    (call : EngineCall) : engineAfter cfg (calls ++ [call]) = (engineAfter cfg calls).step call :=
  run_append _ _ _

/-! ## The record follows the engine -/

theorem EngineRun.send_ctx (w : EngineRun) (now : Nat) :
    (w.send now).ctx = (reliableSend w.ctx (clock now)).st := by
  unfold EngineRun.send
  dsimp only
  split <;> rfl

theorem EngineRun.onAck_ctx (w : EngineRun) (a : U16) (now : Nat) :
    (w.onAck a now).ctx = reliableOnAck w.ctx a (clock now) := by
  unfold EngineRun.onAck
  split <;> rfl

/-! ## What a call does to the slots -/

/-- The slot of a new packet. -/
def newPending (ctx : ReliableCtx) (now : U32) : Pending :=
  { inUse := true, seqId := ctx.nextTxSeq, lastSendMs := now
    timeoutMs := computeTimeoutMs ctx.rttEstimateMs 0#8, retries := 0#8 }

/-- A slot after its packet was sent again. -/
def resentPending (ctx : ReliableCtx) (slot : Pending) (now : U32) : Pending :=
  { slot with
    retries := slot.retries + 1#8
    lastSendMs := now
    timeoutMs := computeTimeoutMs ctx.rttEstimateMs (slot.retries + 1#8) }

theorem expired_inUse {now : U32} {slot : Pending} (h : slot.expired now = true) :
    slot.inUse = true := by
  unfold Pending.expired at h
  rw [Bool.and_eq_true] at h
  exact h.1

/-- The engine's difference of two times is the true one. -/
theorem clock_sub {t now : Nat} (h : t ≤ now) : clock now - clock t = clock (now - t) := by
  conv_lhs => rw [← Nat.sub_add_cancel h]
  unfold clock
  rw [BitVec.ofNat_add]
  exact BitVec.add_sub_cancel _ _

/-- Elapsed time modulo `2 ^ 32` is at most the true one. -/
theorem elapsed_le {t now : Nat} (h : t ≤ now) : (clock now - clock t).toNat ≤ now - t := by
  rw [clock_sub h]
  unfold clock
  rw [BitVec.toNat_ofNat]
  exact Nat.mod_le _ _

theorem elapsed_eq {t now : Nat} (h : t ≤ now) (hlt : now - t < 2 ^ 32) :
    (clock now - clock t).toNat = now - t := by
  rw [clock_sub h]
  unfold clock
  rw [BitVec.toNat_ofNat, Nat.mod_eq_of_lt hlt]

theorem capped_le (sample : Nat) : capped sample ≤ 65535 := by
  unfold capped
  split <;> omega

theorem capped_of_le {sample : Nat} (h : sample ≤ 65535) : capped sample = sample :=
  if_neg (Nat.not_lt.mpr h)

/-- The estimate takes the sample capped. -/
theorem rttUpdate_capped (alpha : U8) (rtt : U16) (sample : Nat) :
    rttUpdate alpha rtt (capped sample) = rttUpdate alpha rtt sample := by
  have htwice : capped (capped sample) = capped sample := capped_of_le (capped_le sample)
  unfold capped at htwice
  unfold rttUpdate capped
  dsimp only
  rw [htwice]

namespace EngineRun

variable (w : EngineRun)

/-- **A send fills a free slot**, or finds none and changes nothing. -/
theorem send_cases (now : Nat) :
    ((pendingSeqs w.ctx).card = maxPending ∧ w.send now = w)
    ∨ ∃ i : Fin maxPending, w.ctx.pending[i].inUse = false ∧ w.send now =
        { ctx := { w.ctx with
            pending := w.ctx.pending.put i (newPending w.ctx (clock now))
            nextTxSeq := seqNext w.ctx.nextTxSeq }
          sends := w.sends + 1
          owner := w.owner.put i w.sends
          log := w.log ++ [.sent w.sends i now w.ctx.rttEstimateMs] } := by
  unfold EngineRun.send reliableSend
  cases hf : findFreePendingSlot w.ctx with
  | none =>
      refine Or.inl ⟨?_, rfl⟩
      rw [card_pendingSeqs]
      exact freeIdx_none Pending.inUse hf
  | some i => exact Or.inr ⟨i, freeIdx_some Pending.inUse hf, rfl⟩

/-- **An ACK releases the slot that holds its id**, or finds none and changes nothing. -/
theorem onAck_cases (a : U16) (now : Nat) :
    (a ∉ pendingSeqs w.ctx ∧ w.onAck a now = w)
    ∨ ∃ i : Fin maxPending, w.ctx.pending[i].inUse = true ∧ w.ctx.pending[i].seqId = a
      ∧ w.onAck a now =
        { w with
          ctx := { w.ctx with
            rttEstimateMs := rttUpdate w.ctx.cfg.rttAlphaQ8 w.ctx.rttEstimateMs
              (ackSample w.ctx.pending[i] (clock now))
            pending := w.ctx.pending.put i { w.ctx.pending[i] with inUse := false } }
          log := w.log ++ [.acked w.owner[i] now (ackSample w.ctx.pending[i] (clock now))] } := by
  unfold EngineRun.onAck reliableOnAck
  cases hf : findPendingSlot w.ctx a with
  | none => exact Or.inl ⟨(keyIdx_none Pending.inUse Pending.seqId).mp hf, rfl⟩
  | some i =>
      obtain ⟨hu, hk⟩ := keyIdx_some Pending.inUse Pending.seqId hf
      refine Or.inr ⟨i, hu, hk, ?_⟩
      unfold ackSample
      rw [rttUpdate_capped]

/-- **A poll gives up or sends again the packet of an expired slot**, or finds none and changes
nothing. -/
theorem poll_cases (now : Nat) :
    (w.poll now = w ∧ (reliablePoll w.ctx (clock now)).2 = ⟨.none, 0#16⟩
      ∧ ∀ i : Fin maxPending, w.ctx.pending[i].expired (clock now) = false)
    ∨ ∃ i : Fin maxPending, w.ctx.pending[i].expired (clock now) = true ∧
        ((w.ctx.cfg.maxRetries ≤ w.ctx.pending[i].retries
          ∧ (reliablePoll w.ctx (clock now)).2 = ⟨.failed, w.ctx.pending[i].seqId⟩
          ∧ w.poll now =
          { w with
            ctx := { w.ctx with
              pending := w.ctx.pending.put i { w.ctx.pending[i] with inUse := false } }
            log := w.log ++ [.failed w.owner[i] now] })
        ∨ (¬ w.ctx.cfg.maxRetries ≤ w.ctx.pending[i].retries
          ∧ (reliablePoll w.ctx (clock now)).2 = ⟨.retransmit, w.ctx.pending[i].seqId⟩
          ∧ w.poll now =
          { w with
            ctx := { w.ctx with
              pending :=
                w.ctx.pending.put i (resentPending w.ctx w.ctx.pending[i] (clock now)) }
            log := w.log ++ [.resent w.owner[i] now w.ctx.rttEstimateMs] })) := by
  unfold EngineRun.poll reliablePoll
  cases hf : firstIdx (Pending.expired (clock now)) w.ctx.pending with
  | none => exact Or.inl ⟨rfl, rfl, firstIdx_eq_none.mp hf⟩
  | some i =>
      refine Or.inr ⟨i, firstIdx_sat hf, ?_⟩
      by_cases hr : w.ctx.cfg.maxRetries ≤ w.ctx.pending[i].retries
      · left
        dsimp only
        rw [if_pos hr]
        exact ⟨hr, rfl, rfl⟩
      · right
        dsimp only
        rw [if_neg hr]
        exact ⟨hr, rfl, rfl⟩

/-- Data in the opposite direction leaves the transmit half and the record alone. -/
theorem onData_eq (q : U16) : w.step (.onData q) =
    { w with ctx := { w.ctx with
      hasRxWindow := (reliableOnData w.ctx q).1.hasRxWindow
      expectedRxSeq := (reliableOnData w.ctx q).1.expectedRxSeq
      reorder := (reliableOnData w.ctx q).1.reorder } } := by
  show { w with ctx := (reliableOnData w.ctx q).1 } = _
  rw [reliableOnData_tx]

end EngineRun

/-! ## Numbers and ids -/

/-- The id of a packet is the low half of its number, and no two slots hold one packet. -/
structure SlotsNumbered (w : EngineRun) : Prop where
  next : w.ctx.nextTxSeq = BitVec.ofNat 16 w.sends
  seqId : ∀ i n, w.Holds i n → w.ctx.pending[i].seqId = BitVec.ofNat 16 n
  lt : ∀ i n, w.Holds i n → n < w.sends
  unique : ∀ i j n, w.Holds i n → w.Holds j n → i = j

theorem holds_start (ctx : ReliableCtx) (h : pendingSeqs ctx = 0) (i : Fin maxPending) (n : Nat) :
    ¬ (EngineRun.start ctx).Holds i n := by
  rintro ⟨hu, _⟩
  have hm : ctx.pending[i].seqId ∈ pendingSeqs ctx := mem_keys.mpr ⟨i, hu, rfl⟩
  rw [h] at hm
  exact Multiset.notMem_zero _ hm

theorem numbered_init (cfg : Option ReliableConfig) :
    SlotsNumbered (EngineRun.start (reliableInit cfg)) where
  next := rfl
  seqId i n h := absurd h (holds_start _ (pendingSeqs_init cfg) i n)
  lt i n h := absurd h (holds_start _ (pendingSeqs_init cfg) i n)
  unique i _ n h := absurd h (holds_start _ (pendingSeqs_init cfg) i n)

namespace EngineRun

variable {w : EngineRun} {i j : Fin maxPending} {n : Nat}

/-- What the slots hold after a send into slot `i`. -/
theorem holds_fill {slot : Pending} {ctx : ReliableCtx} {sends : Nat} {log : List Note}
    (hu : slot.inUse = true) (hctx : ctx.pending = w.ctx.pending.put i slot) :
    (EngineRun.mk ctx sends (w.owner.put i w.sends) log).Holds j n ↔
      (i = j ∧ n = w.sends) ∨ (i ≠ j ∧ w.Holds j n) := by
  unfold Holds
  dsimp only
  rw [hctx, get_put, get_put]
  by_cases hij : i = j
  · rw [if_pos hij, if_pos hij]
    exact ⟨fun h => Or.inl ⟨hij, h.2.symm⟩, fun h => ⟨hu, by
      rcases h with ⟨_, rfl⟩ | ⟨hne, _⟩
      · rfl
      · exact absurd hij hne⟩⟩
  · rw [if_neg hij, if_neg hij]
    exact ⟨fun h => Or.inr ⟨hij, h⟩, fun h => by
      rcases h with ⟨he, _⟩ | ⟨_, h⟩
      · exact absurd he hij
      · exact h⟩

/-- What they hold after slot `i` is released. -/
theorem holds_release {slot : Pending} {ctx : ReliableCtx} {sends : Nat} {log : List Note}
    (hu : slot.inUse = false) (hctx : ctx.pending = w.ctx.pending.put i slot) :
    (EngineRun.mk ctx sends w.owner log).Holds j n ↔ i ≠ j ∧ w.Holds j n := by
  unfold Holds
  dsimp only
  rw [hctx, get_put]
  by_cases hij : i = j
  · rw [if_pos hij, hu]
    simp [hij]
  · rw [if_neg hij]
    simp [hij]

/-- What they hold after the packet of slot `i` is sent again. -/
theorem holds_replace {slot : Pending} {ctx : ReliableCtx} {sends : Nat} {log : List Note}
    (hu : slot.inUse = true) (hi : w.ctx.pending[i].inUse = true)
    (hctx : ctx.pending = w.ctx.pending.put i slot) :
    (EngineRun.mk ctx sends w.owner log).Holds j n ↔ w.Holds j n := by
  unfold Holds
  dsimp only
  rw [hctx, get_put]
  by_cases hij : i = j
  · rw [if_pos hij, hu, ← hij, hi]
  · rw [if_neg hij]

end EngineRun

/-- Every call but a send leaves the numbers as they are, and puts no packet into a slot. -/
structure EngineRun.Keeps (w w' : EngineRun) : Prop where
  next : w'.ctx.nextTxSeq = w.ctx.nextTxSeq
  sends : w'.sends = w.sends
  held : ∀ i n, w'.Holds i n → w.Holds i n ∧ w'.ctx.pending[i].seqId = w.ctx.pending[i].seqId
  pending : pendingSeqs w'.ctx ≤ pendingSeqs w.ctx

/-- Releasing a slot keeps all but its packet. -/
theorem EngineRun.release_keeps {w : EngineRun} {i : Fin maxPending}
    (hu : w.ctx.pending[i].inUse = true) (rtt : U16) (log : List Note) :
    w.Keeps { w with
      ctx := { w.ctx with
        rttEstimateMs := rtt
        pending := w.ctx.pending.put i { w.ctx.pending[i] with inUse := false } }
      log := log } := by
  refine ⟨rfl, rfl, fun j n hj => ?_, ?_⟩
  · obtain ⟨hne, hj⟩ := (EngineRun.holds_release rfl rfl).mp hj
    exact ⟨hj, congrArg Pending.seqId (put_ne hne)⟩
  · have hks := keys_release Pending.seqId (x := { w.ctx.pending[i] with inUse := false }) hu rfl
    unfold pendingSeqs
    rw [hks]
    exact Multiset.le_cons_self _ _

theorem EngineRun.onAck_keeps (w : EngineRun) (a : U16) (now : Nat) : w.Keeps (w.onAck a now) := by
  rcases w.onAck_cases a now with ⟨_, heq⟩ | ⟨i, hu, _, heq⟩ <;> rw [heq]
  · exact ⟨rfl, rfl, fun _ _ hj => ⟨hj, rfl⟩, le_rfl⟩
  · exact EngineRun.release_keeps hu _ _

/-- Sending again keeps all. -/
theorem EngineRun.resend_keeps {w : EngineRun} {i : Fin maxPending}
    (hu : w.ctx.pending[i].inUse = true) (now : U32) (log : List Note) :
    w.Keeps { w with
      ctx := { w.ctx with
        pending := w.ctx.pending.put i (resentPending w.ctx w.ctx.pending[i] now) }
      log := log } := by
  have hnew : (resentPending w.ctx w.ctx.pending[i] now).inUse = true := hu
  refine ⟨rfl, rfl, fun j n hj => ⟨(EngineRun.holds_replace hnew hu rfl).mp hj, ?_⟩, ?_⟩
  · show (w.ctx.pending.put i (resentPending w.ctx w.ctx.pending[i] now))[j].seqId
      = w.ctx.pending[j].seqId
    rw [get_put]
    split
    · rename_i hij
      rw [← hij]
      rfl
    · rfl
  · exact le_of_eq (keys_replace hu hnew rfl)

theorem EngineRun.poll_keeps (w : EngineRun) (now : Nat) : w.Keeps (w.poll now) := by
  rcases w.poll_cases now with ⟨heq, _⟩ | ⟨i, hexp, ⟨_, _, heq⟩ | ⟨_, _, heq⟩⟩ <;> rw [heq]
  · exact ⟨rfl, rfl, fun _ _ hj => ⟨hj, rfl⟩, le_rfl⟩
  · exact EngineRun.release_keeps (expired_inUse hexp) w.ctx.rttEstimateMs _
  · exact EngineRun.resend_keeps (expired_inUse hexp) _ _

theorem EngineRun.onData_keeps (w : EngineRun) (q : U16) : w.Keeps (w.step (.onData q)) := by
  rw [w.onData_eq]
  exact ⟨rfl, rfl, fun _ _ hi => ⟨hi, rfl⟩, le_rfl⟩

theorem SlotsNumbered.keeps {w w' : EngineRun} (h : SlotsNumbered w) (hk : w.Keeps w') :
    SlotsNumbered w' where
  next := by rw [hk.next, hk.sends, h.next]
  seqId i n hi := (hk.held i n hi).2.trans (h.seqId i n (hk.held i n hi).1)
  lt i n hi := hk.sends ▸ h.lt i n (hk.held i n hi).1
  unique i j n hi hj := h.unique i j n (hk.held i n hi).1 (hk.held j n hj).1

theorem SlotsNumbered.send {w : EngineRun} (h : SlotsNumbered w) (now : Nat) :
    SlotsNumbered (w.send now) := by
  rcases w.send_cases now with ⟨_, heq⟩ | ⟨i, _, heq⟩ <;> rw [heq]
  · exact h
  · -- the new packet has the next number, and the next id
    refine ⟨?_, fun j n hj => ?_, fun j n hj => ?_, fun j k n hj hk => ?_⟩
    · show seqNext w.ctx.nextTxSeq = BitVec.ofNat 16 (w.sends + 1)
      rw [h.next, BitVec.ofNat_add]
      rfl
    · show (w.ctx.pending.put i (newPending w.ctx (clock now)))[j].seqId = BitVec.ofNat 16 n
      rcases (EngineRun.holds_fill rfl rfl).mp hj with ⟨rfl, rfl⟩ | ⟨hne, hj⟩
      · rw [put_self]
        exact h.next
      · rw [put_ne hne]
        exact h.seqId j n hj
    · rcases (EngineRun.holds_fill rfl rfl).mp hj with ⟨_, rfl⟩ | ⟨_, hj⟩
      · exact Nat.lt_succ_self _
      · exact Nat.lt_succ_of_lt (h.lt j n hj)
    · rcases (EngineRun.holds_fill rfl rfl).mp hj with ⟨rfl, rfl⟩ | ⟨hne, hj⟩ <;>
        rcases (EngineRun.holds_fill rfl rfl).mp hk with ⟨rfl, hn⟩ | ⟨hne', hk⟩
      · rfl
      · exact absurd (h.lt k _ hk) (Nat.lt_irrefl _)
      · rw [hn] at hj
        exact absurd (h.lt j _ hj) (Nat.lt_irrefl _)
      · exact h.unique j k n hj hk

theorem SlotsNumbered.step {w : EngineRun} (h : SlotsNumbered w) (call : EngineCall) :
    SlotsNumbered (w.step call) := by
  cases call with
  | send now => exact h.send now
  | onAck a now => exact h.keeps (w.onAck_keeps a now)
  | poll now => exact h.keeps (w.poll_keeps now)
  | onData q => exact h.keeps (w.onData_keeps q)

end Relinow
