import Relinow.Proof.Network
import Relinow.Proof.InOrderQueue

/-!
# The cache and the gap

The cache of received payloads should hold what waits for a gap and nothing else:
the payloads of the ids in the reorder buffer. The node claims an entry for an
arriving frame before the engine judges it, and gives entries up only when it
hands them over. So an entry claimed for a frame that is then found to be behind
the window, or refused by a full reorder buffer, stays taken; and so do the
entries of everything the engine lets go when the receive queue has no room.
-/

namespace Relinow

open SlotTable Runs

/-- A call of `relinow_on_receive`. -/
structure Reception where
  radio : Radio
  src : Mac
  data : List U8
  nowMs : U32

def Reception.call (r : Reception) : ApiCall := .onReceive r.src r.data r.nowMs

def NodeRun.receive (w : NodeRun) (r : Reception) : NodeRun := w.step ⟨r.radio, r.call⟩

/-- The in-use entries of the cache have the ids that the in-use entries of the reorder buffer
have, and one entry is free. -/
structure CachesWaiting (c : U8) (node : Node) : Prop where
  ids : ∀ channel, node.reliableAt c = some channel → ∀ d,
    (∃ i : Fin rxCacheSize, node.rxCache[i].inUse = true ∧ node.rxCache[i].seqId = d) ↔
      ∃ i : Fin maxReorder, channel.reliable.reorder[i].inUse = true
        ∧ channel.reliable.reorder[i].seqId = d
  free : ∃ i : Fin rxCacheSize, node.rxCache[i].inUse = false

/-- The engine does not turn the id away: it is not behind the window, and if it is ahead it is
buffered already or there is a free entry for it. -/
def InWindow (ctx : ReliableCtx) (q : U16) : Prop :=
  ctx.hasRxWindow = true → q = ctx.expectedRxSeq
    ∨ (isSeqNewer q ctx.expectedRxSeq = true
      ∧ (q ∈ reorderSeqs ctx ∨ (reorderSeqs ctx).card < maxReorder))

instance (ctx : ReliableCtx) (q : U16) : Decidable (InWindow ctx q) := by
  unfold InWindow
  infer_instance

/-- A DATA frame for a reliable channel is in the window, and the receive queue has room for what
it delivers. -/
def Taken (node : Node) (call : ApiCall) : Prop :=
  match arrival node call with
  | none => True
  | some (header, _, channel) =>
      InWindow channel.reliable header.seqId ∧ HasRoom channel header.seqId

instance (node : Node) (call : ApiCall) : Decidable (Taken node call) := by
  unfold Taken
  exact match arrival node call with
    | none => instDecidableTrue
    | some (_, _, _) => inferInstance

/-! ## The engine's judgement -/

theorem deliverable_mem {ctx : ReliableCtx} {q : U16} (h : deliverable ctx q ≠ []) :
    q ∈ deliverable ctx q := by
  unfold deliverable at h ⊢
  split
  · exact List.mem_singleton_self q
  · rename_i hw
    rw [if_neg hw] at h
    split
    · exact List.mem_cons_self
    · rename_i hq
      rw [if_neg hq] at h
      exact absurd rfl h

/-- **An id is in the window** when it is delivered at once, or buffered before or now. -/
theorem RxInv.inWindow_iff {ctx : ReliableCtx} (h : RxInv ctx) (q : U16) :
    InWindow ctx q ↔ q ∈ deliverable ctx q ∨ q ∈ reorderSeqs ctx
      ∨ (reliableOnData ctx q).2.status = .outOfOrder := by
  unfold InWindow
  rw [← reliableOnData_delivered]
  rcases reliableOnData_cases ctx q with ⟨hw, heq⟩ | ⟨hw, hq, ctx', ds, _, _, _, heq⟩ |
    ⟨hw, hnew, hin, heq⟩ | ⟨hw, hnew, _, hfree, ctx', _, _, heq⟩ | ⟨hw, hnew, hno, hfull, heq⟩ |
    ⟨hw, hne, hold, heq⟩ <;> rw [heq, hw]
  · exact ⟨fun _ => Or.inl (List.mem_singleton_self q), fun _ hopen => absurd hopen (by decide)⟩
  · exact ⟨fun _ => Or.inl List.mem_cons_self, fun _ _ => Or.inl hq⟩
  · exact ⟨fun _ => Or.inr (Or.inl hin), fun _ _ => Or.inr ⟨hnew, Or.inl hin⟩⟩
  · exact ⟨fun _ => Or.inr (Or.inr rfl), fun _ _ => Or.inr ⟨hnew, Or.inr hfree⟩⟩
  · -- refused: ahead, and the buffer is full
    refine ⟨fun hwin => ?_, fun hkept => ?_⟩
    · rcases hwin rfl with hq | ⟨_, hin | hfree⟩
      · exact absurd hq (SerialNumber.ne_of_newer hnew)
      · exact absurd hin hno
      · omega
    · rcases hkept with hd | hin | hs
      · exact absurd hd (List.not_mem_nil)
      · exact absurd hin hno
      · exact absurd hs (by simp)
  · -- behind the window, where nothing is buffered
    refine ⟨fun hwin => ?_, fun hkept => ?_⟩
    · rcases hwin rfl with hq | ⟨hnew, _⟩
      · exact absurd hq hne
      · exact absurd (hold.symm.trans hnew) (by decide)
    · rcases hkept with hd | hin | hs
      · exact absurd hd (List.not_mem_nil)
      · exact absurd (hold.symm.trans (h.ahead hw q hin)) (by decide)
      · exact absurd hs (by simp)

/-- What is delivered at once is not buffered. -/
theorem RxInv.delivered_gone {ctx : ReliableCtx} (h : RxInv ctx) {q : U16}
    (hq : q ∈ deliverable ctx q) : q ∉ reorderSeqs (reliableOnData ctx q).1 := by
  rw [h.held_iff]
  rintro (⟨-, hearly⟩ | ⟨-, hnot⟩)
  · rw [← reliableOnData_delivered] at hq
    rcases reliableOnData_cases ctx q with ⟨_, heq⟩ | ⟨_, _, _, _, _, _, _, heq⟩ | ⟨_, _, _, heq⟩ |
      ⟨_, _, _, _, _, _, _, heq⟩ | ⟨_, _, _, _, heq⟩ | ⟨_, _, _, heq⟩ <;> rw [heq] at hq hearly
    · exact absurd hearly (by simp)
    · exact absurd hearly (by simp)
    all_goals exact absurd hq (List.not_mem_nil)
  · exact hnot hq

/-- Of two buffers that agreed, one takes in every arrival `q` and one takes it in only when it is
early; both let go what is given. They still agree unless `q` is none of these. -/
theorem keeps_same_iff {α : Type} {q : α} {held given : α → Prop} {early : Prop}
    (hearly : given q → ¬ early) :
    (∀ d, (d = q ∨ held d) ∧ ¬ given d ↔ (q = d ∧ early) ∨ (held d ∧ ¬ given d)) ↔
      given q ∨ held q ∨ early := by
  constructor
  · -- `q` itself is where they could differ
    intro hall
    by_cases hq : given q
    · exact Or.inl hq
    · rcases (hall q).mp ⟨Or.inl rfl, hq⟩ with ⟨-, he⟩ | ⟨hh, -⟩
      · exact Or.inr (Or.inr he)
      · exact Or.inr (Or.inl hh)
  · intro hkept d
    constructor
    · rintro ⟨rfl | hh, hd⟩
      · rcases hkept with hq | hh | he
        · exact absurd hq hd
        · exact Or.inr ⟨hh, hd⟩
        · exact Or.inl ⟨rfl, he⟩
      · exact Or.inr ⟨hh, hd⟩
    · rintro (⟨rfl, he⟩ | ⟨hh, hd⟩)
      · exact ⟨Or.inl rfl, fun hq => hearly hq he⟩
      · exact ⟨Or.inr hh, hd⟩

/-! ## One call -/

/-- What holds of a node that receives on its one channel. -/
structure ReceiveInv (c : U8) (node : Node) : Prop where
  solo : Solo c node
  window : ∀ channel, node.reliableAt c = some channel → RxInv channel.reliable
  nodup : (arrivedSeqs node).Nodup

/-- The entries waiting for a gap, as sets of ids. -/
theorem ReceiveInv.caches_iff {c : U8} {node : Node} (h : ReceiveInv c node)
    {channel : ChannelState} (hch : node.reliableAt c = some channel) :
    CachesWaiting c node ↔ ∀ d, d ∈ arrivedSeqs node ↔ d ∈ reorderSeqs channel.reliable := by
  constructor
  · intro hw d
    exact mem_keys.trans ((hw.ids channel hch d).trans mem_keys.symm)
  · intro hids
    refine ⟨fun ch hch' d => ?_, free_iff.mpr ?_⟩
    · obtain rfl := Option.some.inj (hch.symm.trans hch')
      exact mem_keys.symm.trans ((hids d).trans mem_keys)
    · -- as many entries as there are ids in the smaller buffer
      have heq : arrivedSeqs node = reorderSeqs channel.reliable :=
        (Multiset.Nodup.ext h.nodup (h.window channel hch).nodup).mpr hids
      have hcard := congrArg Multiset.card heq
      unfold arrivedSeqs at hcard
      rw [card_keys, card_reorderSeqs] at hcard
      have hle := card_live_le Reorder.inUse channel.reliable.reorder
      have hsize : rxCacheSize = 1 + maxReorder := rfl
      omega

/-- The ids cached once an arrival is stored. -/
theorem ReceiveInv.stored {c : U8} {node : Node} (h : ReceiveInv c node)
    (hfree : (arrivedSeqs node).card < rxCacheSize) (header : Header) (payload : List U8)
    (state : State) :
    (arrivedSeqs (node.arrived header payload state)).Nodup
      ∧ ∀ d, d ∈ arrivedSeqs (node.arrived header payload state) ↔
        d = header.seqId ∨ d ∈ arrivedSeqs node := by
  have hkeys : arrivedSeqs (node.arrived header payload state)
      = arrivedSeqs (rxCacheStore node header payload) := rfl
  rw [hkeys]
  rcases arrivedSeqs_store node header payload with ⟨heq, hin | hfull⟩ | ⟨hno, heq⟩
  · rw [heq]
    refine ⟨h.nodup, fun d => ⟨Or.inr, ?_⟩⟩
    rintro (rfl | hd)
    · exact hin
    · exact hd
  · omega
  · rw [heq]
    exact ⟨Multiset.nodup_cons.mpr ⟨hno, h.nodup⟩, fun d => Multiset.mem_cons⟩

/-- **A DATA frame keeps the cache to what waits** exactly when it is taken. -/
theorem ReceiveInv.arrive {c : U8} {node : Node} (h : ReceiveInv c node)
    (hw : CachesWaiting c node) {header : Header} {channel : ChannelState}
    (hch : node.reliableAt header.channelId = some channel) (hc : header.channelId = c)
    (radio : Radio) (src : Mac) (payload : List U8) (now : U32) :
    let node' := (receiveData radio (Call.start node) src header payload now).2.node
    ∃ channel', node'.reliableAt c = some channel' ∧ RxInv channel'.reliable
      ∧ (arrivedSeqs node').Nodup
      ∧ ((∀ d, d ∈ arrivedSeqs node' ↔ d ∈ reorderSeqs channel'.reliable) ↔
        InWindow channel.reliable header.seqId ∧ HasRoom channel header.seqId) := by
  subst hc
  have hinv := h.window channel hch
  have hids := (h.caches_iff hch).mp hw
  have hfree : (arrivedSeqs node).card < rxCacheSize := by
    unfold arrivedSeqs
    rw [card_keys]
    exact free_iff.mp hw.free
  obtain ⟨channel', state', hfr, hrel, -, hcases⟩ := receiveData_spec radio src payload now hch
  have hctx : channel'.reliable = (reliableOnData channel.reliable header.seqId).1 := by rw [hfr]
  have hinv' : RxInv channel'.reliable := hctx ▸ (reliableOnData_refines hinv header.seqId).2
  obtain ⟨hnodup, hstored⟩ := h.stored hfree header payload state'
  have hat : (node.arrived header payload state').reliableAt header.channelId = some channel' := by
    rw [arrived_reliableAt, hrel, Function.update_self]
  rcases hcases with ⟨hfull, heq⟩ | ⟨hroom, -, attempts, answer, -, heq⟩ <;> rw [heq]
  · -- without room the engine lets the id go, and its payload stays cached
    refine ⟨channel', hat, hinv', hnodup, fun hsame => ?_, fun htaken => absurd htaken.2 hfull⟩
    have hdelivered : header.seqId ∈ deliverable channel.reliable header.seqId := by
      refine deliverable_mem fun hnil => hfull ?_
      unfold HasRoom
      rw [hnil]
      exact Nat.zero_le _
    refine absurd ((hsame header.seqId).mp ((hstored _).mpr (Or.inl rfl))) ?_
    rw [hctx]
    exact hinv.delivered_gone hdelivered
  · have hover := HandsOver.all src header.channelId now (deliverable channel.reliable header.seqId)
      ⟨node.arrived header payload state', attempts, answer⟩
    obtain ⟨hnodup', htaken⟩ := arrivedSeqs_deliverAll src header.channelId now
      (deliverable channel.reliable header.seqId)
      ⟨node.arrived header payload state', attempts, answer⟩ hnodup
    refine ⟨channel', (congrFun hover.reliableAt _).trans hat, hinv', hnodup', ?_⟩
    -- cache and buffer can differ at the arriving id only
    have hboth : (∀ d, d ∈ arrivedSeqs ((deliverable channel.reliable header.seqId).foldl
          (deliverOne src header.channelId now)
          ⟨node.arrived header payload state', attempts, answer⟩).node ↔
          d ∈ reorderSeqs channel'.reliable) ↔
        InWindow channel.reliable header.seqId := by
      rw [hinv.inWindow_iff]
      have hcached := fun d => (htaken d).trans (and_congr_left' ((hstored d).trans
        (or_congr_right (hids d))))
      have hnotBoth : header.seqId ∈ deliverable channel.reliable header.seqId →
          ¬ (reliableOnData channel.reliable header.seqId).2.status = .outOfOrder := fun hd he =>
        hinv.delivered_gone hd ((hinv.held_iff _ _).mpr (Or.inl ⟨rfl, he⟩))
      simp only [hcached, hctx, hinv.held_iff]
      exact keeps_same_iff hnotBoth
    exact hboth.trans ⟨fun hwin => ⟨hwin, hroom⟩, fun hwin => hwin.1⟩

/-- Only the receive half counts. -/
theorem RxInv.of_rxHalf {channel channel' : ChannelState} (h : RxInv channel.reliable)
    (hhalf : channel'.rxHalf = channel.rxHalf) : RxInv channel'.reliable := by
  simp only [ChannelState.rxHalf, Prod.mk.injEq] at hhalf
  obtain ⟨⟨hopen, hexp, hbuffer⟩, -⟩ := hhalf
  have hkeys : reorderSeqs channel'.reliable = reorderSeqs channel.reliable := by
    unfold reorderSeqs
    rw [hbuffer]
  refine ⟨hkeys ▸ h.nodup, fun hw => ?_, fun hw q hq => ?_⟩
  · rw [hkeys]
    exact h.closed (hopen ▸ hw)
  · rw [hexp]
    exact h.ahead (hopen ▸ hw) q (hkeys ▸ hq)

/-- A call that is quiet on the receive side keeps everything. -/
theorem ReceiveInv.quiet {c : U8} {node node' : Node} (h : ReceiveInv c node)
    (hw : CachesWaiting c node) (hq : RxQuiet node node') (hsolo : Solo c node') :
    ReceiveInv c node' ∧ CachesWaiting c node' := by
  have hcache : arrivedSeqs node' = arrivedSeqs node := by
    unfold arrivedSeqs
    rw [hq.cache]
  refine ⟨⟨hsolo, fun channel' hch' => ?_, hcache ▸ h.nodup⟩, ⟨fun channel' hch' d => ?_, ?_⟩⟩
  · obtain ⟨channel, hch, hhalf⟩ := hq.channels.before hch'
    exact (h.window channel hch).of_rxHalf hhalf.symm
  · obtain ⟨channel, hch, hhalf⟩ := hq.channels.before hch'
    have hids := hw.ids channel hch d
    simp only [ChannelState.rxHalf, Prod.mk.injEq] at hhalf
    simp only [hq.cache, ← hhalf.1.2.2]
    exact hids
  · simp only [hq.cache]
    exact hw.free

/-- **One call of `relinow_on_receive`.** -/
theorem receive_waiting {c : U8} {w : NodeRun} (h : ReceiveInv c w.node)
    (hw : CachesWaiting c w.node) (r : Reception) :
    (CachesWaiting c (w.receive r).node ↔ Taken w.node r.call)
      ∧ (CachesWaiting c (w.receive r).node → ReceiveInv c (w.receive r).node) := by
  have hsolo : Solo c (w.receive r).node :=
    h.solo.step (onReceive_sameOpen r.radio w.node r.src r.data r.nowMs)
  unfold Taken
  cases harr : arrival w.node r.call with
  | none =>
      rcases onReceive_rx r.radio w.node r.src r.data r.nowMs with
        hq | ⟨header, channel, hacc, ht, _⟩
      · -- no DATA frame for the channel: cache and window stand
        obtain ⟨hkeep, hwait⟩ := h.quiet hw hq.node_quiet hsolo
        exact ⟨⟨fun _ => trivial, fun _ => hwait⟩, fun _ => hkeep⟩
      · have hsome := arrival_of_accepts hacc ht r.nowMs
        exact absurd (harr.symm.trans hsome) (by simp)
  | some x =>
      obtain ⟨header, payload, channel⟩ := x
      -- an arrival
      obtain ⟨src, now, hch, hrun⟩ := run_of_arrival r.radio harr
      have hnode : (w.receive r).node
          = (receiveData r.radio (Call.start w.node) src header payload now).2.node :=
        congrArg (fun k : EspErr × Call => k.2.node) hrun
      obtain ⟨channel', hat, hinv', hnodup, hiff⟩ := h.arrive hw hch (h.solo.reliable hch)
        r.radio src payload now
      rw [← hnode] at hat hnodup hiff
      have hkeep : ReceiveInv c (w.receive r).node := by
        refine ⟨hsolo, fun ch hch => ?_, hnodup⟩
        obtain rfl := Option.some.inj (hat.symm.trans hch)
        exact hinv'
      exact ⟨(hkeep.caches_iff hat).trans hiff, fun _ => hkeep⟩

/-! ## Whole runs -/

theorem init_waiting {node₀ node : Node} {cfg : Config} (h : init node₀ cfg = (.ok, node))
    (hmode : cfg.mode = modeReliable) :
    ReceiveInv cfg.channelId node ∧ CachesWaiting cfg.channelId node := by
  have hsolo := (sends_init h hmode).solo
  have hwindow : ∀ channel, node.reliableAt cfg.channelId = some channel →
      RxInv channel.reliable := by
    intro channel hch
    obtain ⟨-, hctx, -⟩ := init_reliableAt h hch
    rw [hctx]
    exact rxInv_init _
  have hempty : ∀ i : Fin rxCacheSize, node.rxCache[i].inUse = false := by
    obtain ⟨state, channel, rfl, _⟩ := init_ok h
    intro i
    simp
  refine ⟨⟨hsolo, hwindow, ?_⟩, ⟨fun channel hch d => ?_, ⟨0, hempty 0⟩⟩⟩
  · unfold arrivedSeqs
    rw [keys_of_none RxCache.seqId hempty]
    exact Multiset.nodup_zero
  · obtain ⟨-, hctx, -⟩ := init_reliableAt h hch
    rw [hctx]
    constructor
    · rintro ⟨i, hu, _⟩
      rw [hempty i] at hu
      exact absurd hu (by decide)
    · rintro ⟨i, hu, _⟩
      simp [reliableInit, ReliableCtx.zero, Reorder.zero] at hu

/-- **The cache holds what waits for a gap** after each call, in exactly the runs whose DATA frames
are all in the window and find room in the receive queue. -/
theorem rxCache_waiting {node₀ node : Node} {cfg : Config} (hinit : init node₀ cfg = (.ok, node))
    (hmode : cfg.mode = modeReliable) (rs : List Reception) :
    Along NodeRun.receive (fun w r => CachesWaiting cfg.channelId (w.receive r).node)
        ⟨node, []⟩ rs ↔
      Along NodeRun.receive (fun w r => Taken w.node r.call) ⟨node, []⟩ rs := by
  have hstart := init_waiting hinit hmode
  have hstep : ∀ (w : NodeRun) (r : Reception),
      ReceiveInv cfg.channelId w.node ∧ CachesWaiting cfg.channelId w.node →
      CachesWaiting cfg.channelId (w.receive r).node →
      ReceiveInv cfg.channelId (w.receive r).node
        ∧ CachesWaiting cfg.channelId (w.receive r).node :=
    fun w r hi hp => ⟨(receive_waiting hi.1 hi.2 r).2 hp, hp⟩
  constructor
  · exact along_of_invariant (I := fun w : NodeRun => ReceiveInv cfg.channelId w.node
      ∧ CachesWaiting cfg.channelId w.node) hstep
      (fun w r hi hp => (receive_waiting hi.1 hi.2 r).1.mp hp) hstart
  · exact along_of_invariant (I := fun w : NodeRun => ReceiveInv cfg.channelId w.node
      ∧ CachesWaiting cfg.channelId w.node)
      (fun w r hi hp => hstep w r hi ((receive_waiting hi.1 hi.2 r).1.mpr hp))
      (fun w r hi hp => (receive_waiting hi.1 hi.2 r).1.mpr hp) hstart

/-- A frame of one byte arrives. -/
def oneByteComes (q : U8) : Reception :=
  ⟨Radio.up, listenNode.peerMac, [0x11#8, 0x10#8, 0#8, q, 0#8, 0#8, 1#8, 0#8, 1#8, q], 0#32⟩

/-- The third frame overtakes the second. -/
theorem rxCache_waiting_gap :
    Along NodeRun.receive (fun w r => CachesWaiting 1#8 (w.receive r).node) ⟨listenNode, []⟩
      [oneByteComes 0#8, oneByteComes 2#8, oneByteComes 1#8] := by
  have hinit : init Node.zero listenConfig = (.ok, listenNode) := Prod.ext (by decide +kernel) rfl
  exact (rxCache_waiting hinit rfl [oneByteComes 0#8, oneByteComes 2#8, oneByteComes 1#8]).mpr
    (by decide +kernel)

/-- **A frame that comes twice stays in the cache.** -/
theorem rxCache_not_waiting :
    ¬ ∀ (node₀ node : Node) (cfg : Config), init node₀ cfg = (.ok, node) →
      cfg.mode = modeReliable → ∀ rs : List Reception,
        Along NodeRun.receive (fun w r => (r.call.run r.radio w.node).1 = .ok →
          CachesWaiting cfg.channelId (w.receive r).node) ⟨node, []⟩ rs := by
  intro h
  obtain ⟨-, htwice, -⟩ := h Node.zero listenNode listenConfig
    (Prod.ext (by decide +kernel) rfl) rfl [oneByteComes 0#8, oneByteComes 0#8]
  have hids := (htwice (by decide +kernel)).ids
    (((((⟨listenNode, []⟩ : NodeRun).receive (oneByteComes 0#8)).receive
      (oneByteComes 0#8)).node.reliableAt 1#8).getD ChannelState.zero) (by decide +kernel) 0#16
  obtain ⟨i, hu, -⟩ := hids.mp (by decide +kernel)
  revert hu i
  decide +kernel

end Relinow
