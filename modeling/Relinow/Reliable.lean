import Relinow.Packet
import Relinow.Lib.SlotTable

/-!
# The reliable engine

`relinow_reliable.h` and `relinow_reliable.c`: one context for each reliable
channel. The transmit half keeps the packets in flight in `pending`, with a
retransmission timer each; the receive half keeps the next sequence id it
expects and, in `reorder`, the ids that came early. It handles sequence ids
only: payloads are the node's business.

Arrays are vectors of their size in the source, `uint8_t` flags are `Bool`, and
an array that comes with a count is the list of its counted entries.
-/

namespace Relinow

open SlotTable (firstIdx)

/-- `RELINOW_RELIABLE_MAX_PENDING`. -/
abbrev maxPending : Nat := 16

/-- `RELINOW_RELIABLE_MAX_REORDER`. -/
abbrev maxReorder : Nat := 8

/-- `relinow_reliable_tx_event_t`. -/
inductive TxEvent where
  | none
  | new
  | retransmit
  | failed
  deriving DecidableEq, Repr

/-- `relinow_reliable_rx_status_t`. -/
inductive RxStatus where
  | delivered
  | outOfOrder
  | duplicate
  | dropped
  deriving DecidableEq, Repr

/-- `relinow_reliable_config_t`. -/
structure ReliableConfig where
  maxRetries : U8
  initialRttMs : U16
  rttAlphaQ8 : U8
  deriving DecidableEq, Repr

/-- `relinow_reliable_tx_result_t`. -/
structure TxResult where
  event : TxEvent
  seqId : U16
  deriving DecidableEq, Repr

/-- `relinow_reliable_rx_result_t`; `deliveredSeq` is `delivered_seq[0..delivered_count)`. -/
structure RxResult where
  status : RxStatus
  deliveredSeq : List U16
  ackId : U16
  deriving DecidableEq, Repr

/-- `relinow_reliable_pending_t`. -/
structure Pending where
  inUse : Bool
  seqId : U16
  lastSendMs : U32
  timeoutMs : U16
  retries : U8
  deriving DecidableEq, Repr

/-- `relinow_reliable_reorder_t`. -/
structure Reorder where
  inUse : Bool
  seqId : U16
  deriving DecidableEq, Repr

/-- `relinow_reliable_ctx_t`. -/
structure ReliableCtx where
  cfg : ReliableConfig
  nextTxSeq : U16
  rttEstimateMs : U16
  hasRxWindow : Bool
  expectedRxSeq : U16
  pending : Vector Pending maxPending
  reorder : Vector Reorder maxReorder
  deriving DecidableEq, Repr

/-- What a call that can fail leaves behind: its return code, the state, and its out-parameters. -/
structure Ret (ε σ α : Type) where
  rc : ε
  st : σ
  out : α
  deriving DecidableEq, Repr

def Pending.zero : Pending := ⟨false, 0#16, 0#32, 0#16, 0#8⟩

def Reorder.zero : Reorder := ⟨false, 0#16⟩

def ReliableCtx.zero : ReliableCtx :=
  { cfg := ⟨0#8, 0#16, 0#8⟩
    nextTxSeq := 0#16
    rttEstimateMs := 0#16
    hasRxWindow := false
    expectedRxSeq := 0#16
    pending := Vector.replicate maxPending Pending.zero
    reorder := Vector.replicate maxReorder Reorder.zero }

/-- `relinow_compute_timeout_ms`: 1.5, 2 or 3 times the estimate, clamped to `1..65535`. The
product fits in 32 bits, so it is taken in the naturals. -/
def computeTimeoutMs (rttMs : U16) (retryIndex : U8) : U16 :=
  let timeout :=
    if retryIndex == 0#8 then rttMs.toNat * 3 / 2
    else if retryIndex == 1#8 then rttMs.toNat * 2
    else rttMs.toNat * 3
  let timeout := if timeout = 0 then 1 else timeout
  let timeout := if 65535 < timeout then 65535 else timeout
  BitVec.ofNat 16 timeout

def findPendingSlot (ctx : ReliableCtx) (seqId : U16) : Option (Fin maxPending) :=
  firstIdx (fun slot => slot.inUse && slot.seqId == seqId) ctx.pending

def findFreePendingSlot (ctx : ReliableCtx) : Option (Fin maxPending) :=
  firstIdx (fun slot => !slot.inUse) ctx.pending

def reorderContains (ctx : ReliableCtx) (seqId : U16) : Bool :=
  (firstIdx (fun e => e.inUse && e.seqId == seqId) ctx.reorder).isSome

/-- `relinow_reorder_insert`: `none` when every entry is taken. -/
def reorderInsert (ctx : ReliableCtx) (seqId : U16) : Option ReliableCtx :=
  match firstIdx (fun e => !e.inUse) ctx.reorder with
  | none => none
  | some i => some { ctx with reorder := ctx.reorder.put i ⟨true, seqId⟩ }

/-- `relinow_reorder_take_expected`: `none` when no entry holds the id. -/
def reorderTakeExpected (ctx : ReliableCtx) (expected : U16) : Option ReliableCtx :=
  match firstIdx (fun e => e.inUse && e.seqId == expected) ctx.reorder with
  | none => none
  | some i =>
      some { ctx with reorder := ctx.reorder.put i { ctx.reorder[i] with inUse := false } }

def reliableDefaultConfig : ReliableConfig := ⟨3#8, 50#16, 32#8⟩

/-- `relinow_reliable_init`; no configuration means the default one. -/
def reliableInit (cfg : Option ReliableConfig) : ReliableCtx :=
  let given := cfg.getD reliableDefaultConfig
  let cfg : ReliableConfig :=
    { maxRetries := if given.maxRetries == 0#8 then 1#8 else given.maxRetries
      initialRttMs :=
        if given.initialRttMs == 0#16 then reliableDefaultConfig.initialRttMs
        else given.initialRttMs
      rttAlphaQ8 :=
        if given.rttAlphaQ8 == 0#8 then reliableDefaultConfig.rttAlphaQ8 else given.rttAlphaQ8 }
  { ReliableCtx.zero with cfg := cfg, rttEstimateMs := cfg.initialRttMs }

/-- `relinow_reliable_send`: takes a pending slot and the next sequence id, or fails. -/
def reliableSend (ctx : ReliableCtx) (nowMs : U32) : Ret Err ReliableCtx TxResult :=
  match findFreePendingSlot ctx with
  | none => ⟨.invalidPacket, ctx, ⟨.none, 0#16⟩⟩
  | some i =>
      let slot : Pending :=
        { inUse := true
          seqId := ctx.nextTxSeq
          lastSendMs := nowMs
          timeoutMs := computeTimeoutMs ctx.rttEstimateMs 0#8
          retries := 0#8 }
      ⟨.ok,
        { ctx with pending := ctx.pending.put i slot, nextTxSeq := seqNext ctx.nextTxSeq },
        ⟨.new, ctx.nextTxSeq⟩⟩

/-- The estimate after one sample: `((256 - alpha) * rtt + alpha * sample) / 256`, at least 1. -/
def rttUpdate (alpha : U8) (rtt : U16) (sample : Nat) : U16 :=
  let sample := if 65535 < sample then 65535 else sample
  let rtt := BitVec.ofNat 16 (((256 - alpha.toNat) * rtt.toNat + alpha.toNat * sample) / 256)
  if rtt == 0#16 then 1#16 else rtt

/-- `relinow_reliable_on_ack`: an ACK that names no packet in flight changes nothing. -/
def reliableOnAck (ctx : ReliableCtx) (ackId : U16) (nowMs : U32) : ReliableCtx :=
  match findPendingSlot ctx ackId with
  | none => ctx
  | some i =>
      let slot := ctx.pending[i]
      { ctx with
        rttEstimateMs :=
          rttUpdate ctx.cfg.rttAlphaQ8 ctx.rttEstimateMs (nowMs - slot.lastSendMs).toNat
        pending := ctx.pending.put i { slot with inUse := false } }

/-- In use, and its timeout has run out. -/
def Pending.expired (nowMs : U32) (slot : Pending) : Bool :=
  slot.inUse && decide (slot.timeoutMs.toNat ≤ (nowMs - slot.lastSendMs).toNat)

/-- `relinow_reliable_poll`: handles the first expired slot, if there is one. -/
def reliablePoll (ctx : ReliableCtx) (nowMs : U32) : ReliableCtx × TxResult :=
  match firstIdx (Pending.expired nowMs) ctx.pending with
  | none => (ctx, ⟨.none, 0#16⟩)
  | some i =>
      let slot := ctx.pending[i]
      if ctx.cfg.maxRetries ≤ slot.retries then
        ({ ctx with pending := ctx.pending.put i { slot with inUse := false } },
          ⟨.failed, slot.seqId⟩)
      else
        let retries := slot.retries + 1#8
        let slot' : Pending :=
          { slot with
            retries := retries
            lastSendMs := nowMs
            timeoutMs := computeTimeoutMs ctx.rttEstimateMs retries }
        ({ ctx with pending := ctx.pending.put i slot' }, ⟨.retransmit, slot.seqId⟩)

/-- The flush loop of `relinow_reliable_on_data`, at most `n` more rounds. -/
def reorderFlush : Nat → ReliableCtx → ReliableCtx × List U16
  | 0, ctx => (ctx, [])
  | n + 1, ctx =>
      match reorderTakeExpected ctx ctx.expectedRxSeq with
      | none => (ctx, [])
      | some ctx' =>
          let r := reorderFlush n { ctx' with expectedRxSeq := seqNext ctx.expectedRxSeq }
          (r.1, ctx.expectedRxSeq :: r.2)

/-- `relinow_reliable_on_data`. The flush starts with one id delivered, so of the
`1 + RELINOW_RELIABLE_MAX_REORDER` rounds its bound allows eight remain. -/
def reliableOnData (ctx : ReliableCtx) (seqId : U16) : ReliableCtx × RxResult :=
  if !ctx.hasRxWindow then
    ({ ctx with hasRxWindow := true, expectedRxSeq := seqNext seqId },
      ⟨.delivered, [seqId], seqId⟩)
  else if seqId == ctx.expectedRxSeq then
    let r := reorderFlush maxReorder { ctx with expectedRxSeq := seqNext ctx.expectedRxSeq }
    (r.1, ⟨.delivered, seqId :: r.2, r.1.expectedRxSeq - 1#16⟩)
  else if isSeqNewer seqId ctx.expectedRxSeq then
    if reorderContains ctx seqId then
      (ctx, ⟨.outOfOrder, [], ctx.expectedRxSeq - 1#16⟩)
    else
      match reorderInsert ctx seqId with
      | some ctx' => (ctx', ⟨.outOfOrder, [], ctx.expectedRxSeq - 1#16⟩)
      | none => (ctx, ⟨.dropped, [], ctx.expectedRxSeq - 1#16⟩)
  else (ctx, ⟨.duplicate, [], ctx.expectedRxSeq - 1#16⟩)

/-- `relinow_reliable_current_rtt_ms`. -/
def reliableCurrentRttMs (ctx : ReliableCtx) : U16 := ctx.rttEstimateMs

end Relinow
