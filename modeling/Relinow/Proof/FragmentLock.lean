import Relinow.Proof.TransmitSide

/-!
# The fragment lock

While a fragmented message is being sent, `fragmented_tx_active` keeps every
reliable send of the node out. The list of tracked fragments is meant to shrink
as fragments leave the pending slots, and the lock to open with the last one.
ACKs do shrink it. Giving a fragment up does not: its slot is released, its
payload is dropped, and the list keeps its id for good.

So the lock is sound along every run in which no poll gives up a tracked
fragment, and that is all that is needed.
-/

namespace Relinow

open SlotTable Runs

/-- Every tracked fragment is in flight on the channel `c`. -/
def TrackedOn (node : Node) (c : U8) : Prop :=
  node.fragmentedTxSeq ≠ [] ∧ node.fragmentedTxSeq.Nodup
    ∧ ∃ channel, node.reliableAt c = some channel
      ∧ ∀ q ∈ node.fragmentedTxSeq, q ∈ pendingSeqs channel.reliable

/-- The invariant of the lock: while it is held, the fragments of the last fragmented message are
tracked and in flight. -/
def LockInv (w : NodeRun) : Prop :=
  w.node.fragmentedTxActive = true →
    ∃ c, fragmentChannel w.history = some c ∧ TrackedOn w.node c

/-- The poll gives up a tracked fragment: the packet the scheduler picks has no retry left, is on
the channel of the fragmented message, and is the only one there with its id. -/
def givesUpFragment (w : NodeRun) (now : U32) : Bool :=
  match nextExpired w.node now with
  | none => false
  | some (c, ctx, i) =>
      decide (ctx.cfg.maxRetries ≤ ctx.pending[i].retries) && w.node.fragmentedTxActive
        && w.node.fragmentedTxSeq.contains ctx.pending[i].seqId
        && fragmentChannel w.history == some c
        && (pendingSeqs ctx).count ctx.pending[i].seqId == 1

/-- A payload that is sent makes at most sixteen fragments. -/
def FewFragments (w : NodeRun) (a : ApiStep) : Prop :=
  match a.call with
  | .sendReliable _ payload _ => payload.length ≤ maxPending * w.node.maxPayload.toNat
  | _ => True

/-- The step is no poll that gives up a tracked fragment. -/
def KeepsFragments (w : NodeRun) (a : ApiStep) : Prop :=
  match a.call with
  | .poll now => givesUpFragment w now = false
  | _ => True

instance (w : NodeRun) (a : ApiStep) : Decidable (FewFragments w a) := by
  unfold FewFragments
  split <;> infer_instance

instance (w : NodeRun) (a : ApiStep) : Decidable (KeepsFragments w a) := by
  unfold KeepsFragments
  split <;> infer_instance

/-! ## Steps that do not send -/

theorem TrackedOn.quiet {node node' : Node} {c : U8} (h : TrackedOn node c)
    (hq : TxQuiet node node') : TrackedOn node' c := by
  obtain ⟨hne, hnd, channel, hch, hall⟩ := h
  obtain ⟨channel', hch', -, hks⟩ := hq.after hch
  refine ⟨by rw [hq.tracked]; exact hne, by rw [hq.tracked]; exact hnd, channel', hch', ?_⟩
  rw [hq.tracked, hks]
  exact hall

theorem LockInv.quiet {w : NodeRun} {node' : Node} {log : List Event} (h : LockInv w)
    (hq : TxQuiet w.node node') (hlog : ∀ e ∈ log, e.NoAssign) :
    LockInv ⟨node', w.history ++ log⟩ := by
  intro hact
  obtain ⟨c, hc, htr⟩ := h (hq.active.symm.trans hact)
  exact ⟨c, by rw [fragmentChannel_append hlog]; exact hc, htr.quiet hq⟩

theorem LockInv.openChannel {w : NodeRun} (h : LockInv w) (c mode priority : U8) :
    LockInv ⟨(Relinow.openChannel w.node c mode priority).2, w.history ++ []⟩ := by
  rcases openChannel_tx w.node c mode priority with hq | ⟨fresh, hno, _, hrel, _, hact, htr⟩
  · exact h.quiet hq (by simp)
  · intro hactive
    obtain ⟨c', hc', hne, hnd, channel, hch, hall⟩ := h (hact.symm.trans hactive)
    have hcc : c' ≠ c := by
      rintro rfl
      rw [hno] at hch
      exact absurd hch (by simp)
    refine ⟨c', by rw [List.append_nil]; exact hc', ?_, ?_, channel, ?_, ?_⟩ <;> dsimp only
    · rw [htr]; exact hne
    · rw [htr]; exact hnd
    · rw [hrel, Function.update_of_ne hcc]; exact hch
    · rw [htr]; exact hall

/-- Another channel's change leaves the tracked fragments in flight. -/
theorem TrackedOn.other {node node' : Node} {c c' : U8} {channel' : ChannelState}
    (h : TrackedOn node c) (hcc : c ≠ c')
    (hrel : node'.reliableAt = Function.update node.reliableAt c' (some channel'))
    (hne : node'.fragmentedTxSeq ≠ []) (hsub : node'.fragmentedTxSeq.Sublist node.fragmentedTxSeq) :
    TrackedOn node' c := by
  obtain ⟨_, hnd, channel, hch, hall⟩ := h
  exact ⟨hne, hnd.sublist hsub, channel, by rw [hrel, Function.update_of_ne hcc]; exact hch,
    fun q hq => hall q (hsub.subset hq)⟩

/-- **An ACK takes a fragment off the list when it takes it out of its slot.** -/
theorem LockInv.onReceive {w : NodeRun} (h : LockInv w) (radio : Radio) (src : Mac)
    (data : List U8) (now : U32) :
    LockInv ⟨(Relinow.onReceive radio w.node src data now).2.node,
      w.history ++ (Relinow.onReceive radio w.node src data now).2.log⟩ := by
  rcases onReceive_tx radio w.node src data now with ⟨hq, hlog⟩ |
    ⟨header, channel, channel', hacc, _, hctx, hrel, _, hact, htr, hlog⟩
  · exact h.quiet hq hlog
  · rw [hlog, List.append_nil]
    intro hactive
    dsimp only at hactive
    rw [hact] at hactive
    -- the lock was held before, and an ACK that opens it is not of interest
    unfold fragmentTxOnAck at hactive htr
    by_cases hold : w.node.fragmentedTxActive = true
    · obtain ⟨c, hc, htracked⟩ := h hold
      refine ⟨c, hc, ?_⟩
      by_cases hmem : w.node.fragmentedTxSeq.contains header.ackId = true
      · rw [if_pos (by rw [hold, hmem]; rfl)] at hactive htr
        dsimp only at hactive htr
        have hne : (Relinow.onReceive radio w.node src data now).2.node.fragmentedTxSeq ≠ [] := by
          rw [htr]
          intro hnil
          rw [hnil] at hactive
          exact absurd hactive (by simp)
        have hsub : (Relinow.onReceive radio w.node src data now).2.node.fragmentedTxSeq.Sublist
            w.node.fragmentedTxSeq := by
          rw [htr]
          exact List.erase_sublist
        by_cases hcc : c = header.channelId
        · obtain ⟨_, hnd, ch, hch, hall⟩ := htracked
          rw [hcc, hacc.at_channel] at hch
          obtain rfl := Option.some.inj hch
          refine ⟨hne, hnd.sublist hsub, channel', by rw [hrel, hcc, Function.update_self], ?_⟩
          intro q hq
          rw [htr, hnd.mem_erase_iff] at hq
          have hp := hall q hq.2
          rw [hctx]
          rcases reliableOnAck_cases channel.reliable header.ackId now with ⟨_, heq⟩ |
            ⟨ctx', heq, _, hks⟩ <;> rw [heq]
          · exact hp
          · rw [hks, Multiset.mem_cons] at hp
            exact hp.resolve_left hq.1
        · exact htracked.other hcc hrel hne hsub
      · rw [if_neg (by rw [hold]; simpa using hmem)] at htr
        by_cases hcc : c = header.channelId
        · obtain ⟨hne, hnd, ch, hch, hall⟩ := htracked
          rw [hcc, hacc.at_channel] at hch
          obtain rfl := Option.some.inj hch
          refine ⟨by rw [htr]; exact hne, by rw [htr]; exact hnd, channel',
            by rw [hrel, hcc, Function.update_self], ?_⟩
          intro q hq
          rw [htr] at hq
          have hp := hall q hq
          rw [hctx]
          rcases reliableOnAck_cases channel.reliable header.ackId now with ⟨_, heq⟩ |
            ⟨ctx', heq, _, hks⟩ <;> rw [heq]
          · exact hp
          · rw [hks, Multiset.mem_cons] at hp
            refine hp.resolve_left ?_
            rintro rfl
            exact hmem (List.contains_iff_mem.mpr hq)
        · exact htracked.other hcc hrel (by rw [htr]; exact htracked.1)
            (by rw [htr])
    · rw [if_neg (by simp [hold])] at hactive
      exact absurd hactive hold

/-- **A poll keeps the invariant unless it gives up a tracked fragment.** -/
theorem LockInv.poll {w : NodeRun} (h : LockInv w) (radio : Radio) (now : U32)
    (hguard : givesUpFragment w now = false) :
    LockInv ⟨(Relinow.poll radio w.node now).2.node,
      w.history ++ (Relinow.poll radio w.node now).2.log⟩ := by
  obtain ⟨hlog, hq | ⟨c, channel, channel', i, hnext, hch, hmax, hks, _, hrel, _, hact, htr⟩⟩ :=
    poll_tx radio w.node now
  · exact h.quiet hq hlog
  · intro hactive
    dsimp only at hactive
    rw [hact] at hactive
    obtain ⟨c', hc', htracked⟩ := h hactive
    refine ⟨c', by rw [fragmentChannel_append hlog]; exact hc', ?_⟩
    dsimp only
    -- only a packet given up on the channel of the message can leave `fragmentedTxSeq` behind
    by_cases hcc : c' = c
    · subst hcc
      obtain ⟨hne, hnd, ch, hch', hall⟩ := htracked
      rw [hch] at hch'
      obtain rfl := Option.some.inj hch'
      refine ⟨by rw [htr]; exact hne, by rw [htr]; exact hnd, channel',
        by rw [hrel, Function.update_self], ?_⟩
      intro q hq
      rw [htr] at hq
      have hp := hall q hq
      rw [hks, Multiset.mem_cons] at hp
      rcases hp with rfl | hp
      · -- another slot still holds the id
        by_contra hno
        have hone : (pendingSeqs channel.reliable).count channel.reliable.pending[i].seqId = 1 := by
          rw [hks, Multiset.count_cons_self, Multiset.count_eq_zero_of_notMem hno]
        unfold givesUpFragment at hguard
        rw [hnext] at hguard
        dsimp only at hguard
        rw [hactive, hc', hone, decide_eq_true hmax, List.contains_iff_mem.mpr hq] at hguard
        simp at hguard
      · exact hp
    · exact htracked.other hcc hrel (by rw [htr]; exact htracked.1) (by rw [htr])

/-! ## Sending -/

/-- The fragment loop after `j` rounds: the first `j` ids from `q` are tracked and in flight, and
there is room for the fragments that are left. -/
structure Fragmenting (history : List Event) (c : U8) (q : U16) (j : Nat) (k : Call)
    (remaining : List U8) (channel : ChannelState) : Prop where
  pos : 0 < k.node.maxPayload.toNat
  at_channel : k.node.reliableAt c = some channel
  next : channel.reliable.nextTxSeq = q + BitVec.ofNat 16 j
  tracked : k.node.fragmentedTxSeq = (List.range j).map fun n => q + BitVec.ofNat 16 n
  inFlight : ∀ x ∈ k.node.fragmentedTxSeq, x ∈ pendingSeqs channel.reliable
  ids : j + framesLeft remaining.length k.node.maxPayload.toNat ≤ maxPending
  slots : (pendingSeqs channel.reliable).card
    + framesLeft remaining.length k.node.maxPayload.toNat ≤ maxPending
  cache : framesLeft remaining.length k.node.maxPayload.toNat ≤ free TxCache.inUse k.node.txCache
  last : 0 < j → fragmentChannel (history ++ k.log) = some c
  started : 0 < j ∨ remaining ≠ []

/-- Fewer than `2 ^ 16` consecutive ids are distinct. -/
theorem consecutive_nodup (q : U16) {j : Nat} (hj : j ≤ 2 ^ 16) :
    ((List.range j).map fun n => q + BitVec.ofNat 16 n).Nodup := by
  refine List.Nodup.map_on ?_ List.nodup_range
  intro a ha b hb hab
  have hval := congrArg BitVec.toNat ((BitVec.add_right_inj q).mp hab)
  rw [List.mem_range] at ha hb
  rwa [BitVec.toNat_ofNat, BitVec.toNat_ofNat, Nat.mod_eq_of_lt (by omega),
    Nat.mod_eq_of_lt (by omega)] at hval

theorem Fragmenting.lockInv {history : List Event} {c : U8} {q : U16} {j : Nat} {k : Call}
    {remaining : List U8} {channel : ChannelState}
    (h : Fragmenting history c q j k remaining channel) (hj : 0 < j) :
    LockInv ⟨k.node, history ++ k.log⟩ := by
  have hids := h.ids
  have hmax : maxPending = 16 := rfl
  intro _
  refine ⟨c, h.last hj, ?_, ?_, channel, h.at_channel, h.inFlight⟩
  · show k.node.fragmentedTxSeq ≠ []
    rw [h.tracked, Ne, List.map_eq_nil_iff, List.range_eq_nil]
    omega
  · show k.node.fragmentedTxSeq.Nodup
    rw [h.tracked]
    exact consecutive_nodup q (by omega)

/-- **One more fragment is placed.** -/
theorem Fragmenting.round {history : List Event} {c flags : U8} {q : U16} {j : Nat} {k k' : Call}
    {remaining : List U8} {channel ch channel' : ChannelState}
    (h : Fragmenting history c q j k remaining channel) (hne : remaining ≠ [])
    (hflags : hasFlag flags flagFragment = true)
    (hp : Placed k k' c flags true
      (remaining.take (min k.node.maxPayload.toNat remaining.length)) ch channel') :
    Fragmenting history c q (j + 1) k'
      (remaining.drop (min k.node.maxPayload.toNat remaining.length)) channel' := by
  obtain rfl := Option.some.inj (h.at_channel.symm.trans hp.before)
  have hlen : 0 < remaining.length := List.length_pos_iff.mpr hne
  have hsub := framesLeft_sub h.pos hlen
  have hids := h.ids
  have hslots := h.slots
  have hcache := h.cache
  -- at most sixteen ids are tracked, so this one is not left out
  have htracked : k'.node.fragmentedTxSeq = k.node.fragmentedTxSeq ++ [q + BitVec.ofNat 16 j] := by
    have hfr := hp.fragments
    rw [if_pos ⟨rfl, by rw [h.tracked, List.length_map, List.length_range]; omega⟩, h.next] at hfr
    exact (Prod.ext_iff.mp hfr).1
  obtain ⟨i, hi, hset⟩ := hp.cache
  obtain ⟨rest, hlog, hrest⟩ := hp.log
  refine ⟨by rw [hp.maxPayload]; exact h.pos, by rw [hp.after, Function.update_self], ?_, ?_, ?_,
    ?_, ?_, ?_, ?_, Or.inl (Nat.succ_pos j)⟩
  · rw [hp.next, h.next]
    unfold seqNext
    rw [BitVec.add_assoc, ← BitVec.ofNat_add]
  · rw [htracked, h.tracked, List.range_succ, List.map_append]
    rfl
  · intro x hx
    rw [htracked] at hx
    rw [hp.pending, Multiset.mem_cons]
    rcases List.mem_append.mp hx with hx | hx
    · exact Or.inr (h.inFlight x hx)
    · rw [h.next]
      exact Or.inl (List.mem_singleton.mp hx)
  · rw [List.length_drop, hp.maxPayload]
    omega
  · rw [List.length_drop, hp.maxPayload, hp.pending, Multiset.card_cons]
    omega
  · rw [List.length_drop, hp.maxPayload, hset]
    have := free_fill TxCache.inUse hi
      (x := ⟨true, channel.reliable.nextTxSeq, flags,
        remaining.take (min k.node.maxPayload.toNat remaining.length)⟩) rfl
    omega
  · intro _
    rw [hlog, List.append_cons, ← List.append_assoc, ← List.append_assoc,
      fragmentChannel_append hrest, fragmentChannel_assign, if_pos hflags]

/-- The loop ends with the lock held over fragments in flight. -/
theorem Fragmenting.sendFragments {history : List Event} {c : U8} {q : U16} {k : Call}
    {remaining : List U8} {channel : ChannelState} (radio : Radio) (now : U32)
    (h : Fragmenting history c q 0 k remaining channel) :
    LockInv ⟨(sendFragments radio c now remaining.length k remaining).2.node,
      history ++ (sendFragments radio c now remaining.length k remaining).2.log⟩ := by
  refine sendFragments_rule
    (I := fun k remaining => ∃ j channel, Fragmenting history c q j k remaining channel)
    (Q := fun k => LockInv ⟨k.node, history ++ k.log⟩)
    (fun k remaining ⟨j, channel, h⟩ => h.pos) ?_ ?_ _ k remaining (Nat.le_refl _) ⟨0, channel, h⟩
  · rintro k ⟨j, channel, h⟩
    exact h.lockInv (h.started.resolve_right (fun hne => hne rfl))
  · rintro k remaining flags ⟨j, channel, h⟩ hne hflags
    have hlen : 0 < remaining.length := List.length_pos_iff.mpr hne
    have hsub := framesLeft_sub h.pos hlen
    have hslots := h.slots
    have hcache := h.cache
    have hlt : flags.toNat < 16 ∧ hasFlag flags flagFragment = true := by
      rcases hflags with rfl | rfl <;> decide
    rcases transmitNew_tx radio k c flags true
        (remaining.take (min k.node.maxPayload.toNat remaining.length)) now hlt.1 with
      ⟨_, hfull⟩ | ⟨_, hfull, _⟩ | ⟨hout, ch, channel', hp, -⟩
    · -- room for the frames left was checked before the first round
      have := hfull channel h.at_channel
      omega
    · omega
    · have hround := h.round hne hlt.2 hp
      revert hout hround
      generalize transmitNew radio k c flags true _ now = r
      obtain ⟨out, k'⟩ := r
      rintro (rfl | ⟨e, rfl, _⟩) hround
      · exact ⟨j + 1, channel', hround⟩
      · exact hround.lockInv (Nat.succ_pos j)

theorem LockInv.sendReliable {w : NodeRun} (h : LockInv w) (radio : Radio) (c : U8)
    (payload : List U8) (now : U32)
    (hguard : payload.length ≤ maxPending * w.node.maxPayload.toNat) :
    LockInv ⟨(Relinow.sendReliable radio w.node c payload now).2.node,
      w.history ++ (Relinow.sendReliable radio w.node c payload now).2.log⟩ := by
  rcases sendReliable_cases radio w.node c payload now with ⟨_, heq⟩ |
    ⟨channel, hch, hne, hact, ⟨_, heq⟩ | ⟨_, hpos, hcount, hslots, hcache, heq⟩⟩ <;> rw [heq]
  · exact h.quiet (TxQuiet.refl _) (by simp [Call.start])
  · -- a plain frame leaves the lock open
    intro hactive
    have hclosed : (transmitNew radio (Call.start w.node) c 0#8 false payload
        now).2.node.fragmentedTxActive = false := by
      rcases transmitNew_tx radio (Call.start w.node) c 0#8 false payload now (by decide) with
        ⟨heq, _⟩ | ⟨_, _, hkeep, _⟩ | ⟨_, ch, channel', hp, -⟩
      · rw [heq]
        exact hact
      · rw [hkeep]
        exact hact
      · have hfr := hp.fragments
        rw [if_neg (by simp)] at hfr
        exact (Prod.ext_iff.mp hfr).2.trans hact
    dsimp only at hactive
    rw [hclosed] at hactive
    exact absurd hactive (by simp)
  · -- up to sixteen frames the count of the code is the true one
    have hmax : maxPending = 16 := rfl
    have hframes : framesLeft payload.length w.node.maxPayload.toNat ≤ 16 := by
      unfold framesLeft
      rw [hmax] at hguard
      rw [Nat.div_le_iff_le_mul_add_pred hpos]
      omega
    have hframe : fragmentCount payload.length w.node.maxPayload.toNat
        = framesLeft payload.length w.node.maxPayload.toNat :=
      Nat.mod_eq_of_lt (Nat.lt_of_le_of_lt hframes (by decide))
    rw [hframe] at hcount hslots hcache
    refine Fragmenting.sendFragments radio now (q := channel.reliable.nextTxSeq)
      ⟨hpos, hch, ?_, rfl, ?_, ?_, ?_, hcache, ?_, Or.inr hne⟩
    · exact (BitVec.add_zero _).symm
    · exact fun x hx => absurd hx (by simp [Call.setNode])
    · rw [Nat.zero_add]
      exact hcount
    · have hfree := card_live_add_free Pending.inUse channel.reliable.pending
      rw [← card_pendingSeqs] at hfree
      have hle : framesLeft payload.length w.node.maxPayload.toNat
          ≤ free Pending.inUse channel.reliable.pending := hslots
      show (pendingSeqs channel.reliable).card
        + framesLeft payload.length w.node.maxPayload.toNat ≤ maxPending
      omega
    · exact fun h0 => absurd h0 (Nat.lt_irrefl 0)

/-- **One call keeps the invariant**, if it does not give up a tracked fragment. -/
theorem lockInv_step (w : NodeRun) (a : ApiStep) (h : LockInv w)
    (hguard : FewFragments w a ∧ KeepsFragments w a) : LockInv (w.step a) := by
  obtain ⟨radio, call⟩ := a
  unfold NodeRun.step
  cases call with
  | openChannel c mode priority => exact h.openChannel c mode priority
  | sendReliable c payload now => exact h.sendReliable radio c payload now hguard.1
  | sendUnreliable c payload =>
      have hq := sendUnreliable_quiet radio w.node c payload
      exact h.quiet hq.txQuiet hq.noAssign
  | sendPriority c payload =>
      have hq := sendPriority_quiet radio w.node c payload
      exact h.quiet hq.txQuiet hq.noAssign
  | onReceive src data now => exact h.onReceive radio src data now
  | poll now => exact h.poll radio now hguard.2

/-! ## Whole runs -/

/-- While the lock is held there are tracked fragments, and each is held by a pending slot of the
channel the fragmented message was sent on. -/
def LockedInFlight (w : NodeRun) : Prop :=
  w.node.fragmentedTxActive = true →
    w.node.fragmentedTxSeq ≠ [] ∧ ∃ c channel, fragmentChannel w.history = some c
      ∧ w.node.reliableAt c = some channel
      ∧ ∀ q ∈ w.node.fragmentedTxSeq, ∃ i : Fin maxPending,
          channel.reliable.pending[i].inUse = true ∧ channel.reliable.pending[i].seqId = q

/-- **The lock is held only over fragments in flight**, in every run that gives up no tracked
fragment. The radio may refuse any frame. -/
theorem fragmentLock_inFlight {node₀ node : Node} {cfg : Config}
    (hinit : init node₀ cfg = (.ok, node)) (as : List ApiStep)
    (hfew : Along NodeRun.step FewFragments ⟨node, []⟩ as)
    (hkeeps : Along NodeRun.step KeepsFragments ⟨node, []⟩ as) :
    LockedInFlight (run NodeRun.step ⟨node, []⟩ as) := by
  obtain ⟨state, channel, rfl, -⟩ := init_ok hinit
  have hinv := invariant lockInv_step (fun h => absurd h Bool.false_ne_true)
    (along_and.mpr ⟨hfew, hkeeps⟩)
  intro hactive
  obtain ⟨c, hc, hne, -, channel, hch, hall⟩ := hinv hactive
  exact ⟨hne, c, channel, hc, hch,
    fun q hq => mem_keys.mp (hall q hq)⟩

/-- Two bytes are sent as two fragments, and nothing ever comes back. -/
def silentConfig : Config :=
  { defaultConfig with maxPayload := 1#16, reliableCfg := ⟨1#8, 100#16, 32#8⟩ }

def silentNode : Node := (init Node.zero silentConfig).2

/-- Each fragment is sent again after a second; so far both are in flight. -/
def silentSteps : List ApiStep :=
  [⟨Radio.up, .sendReliable 1#8 [10#8, 20#8] 0#32⟩, ⟨Radio.up, .poll 1000#32⟩,
    ⟨Radio.up, .poll 1000#32⟩]

/-- After another second both are given up. -/
def silentEnd : List ApiStep := [⟨Radio.up, .poll 2000#32⟩, ⟨Radio.up, .poll 2000#32⟩]

theorem fragmentLock_silent :
    LockedInFlight (run NodeRun.step ⟨silentNode, []⟩ silentSteps)
      ∧ (run NodeRun.step ⟨silentNode, []⟩ silentSteps).node.fragmentedTxActive = true :=
  have hinit : init Node.zero silentConfig = (.ok, silentNode) :=
    Prod.ext (by decide +kernel) rfl
  ⟨fragmentLock_inFlight hinit silentSteps (by decide +kernel) (by decide +kernel),
    by decide +kernel⟩

/-- **Fragments that are given up keep the lock held**, with nothing in flight. -/
theorem fragmentLock_not_inFlight :
    ¬ ∀ (node₀ node : Node) (cfg : Config), init node₀ cfg = (.ok, node) →
      ∀ as : List ApiStep, (∀ a ∈ as, a.radio = Radio.up) →
        Along NodeRun.step FewFragments ⟨node, []⟩ as →
        LockedInFlight (run NodeRun.step ⟨node, []⟩ as) := by
  intro h
  obtain ⟨-, c, channel, hc, hch, hall⟩ := h Node.zero silentNode silentConfig
    (Prod.ext (by decide +kernel) rfl) (silentSteps ++ silentEnd)
    (fun a ha => by
      simp only [silentSteps, silentEnd, List.cons_append, List.nil_append, List.mem_cons,
        List.not_mem_nil, or_false] at ha
      rcases ha with rfl | rfl | rfl | rfl | rfl <;> rfl)
    (by decide +kernel) (by decide +kernel)
  have hone : fragmentChannel (run NodeRun.step ⟨silentNode, []⟩ (silentSteps ++ silentEnd)).history
      = some 1#8 := by decide +kernel
  obtain rfl := Option.some.inj (hone.symm.trans hc)
  obtain ⟨i, hi, -⟩ := hall 0#16 (by decide +kernel)
  have hidle : ((run NodeRun.step ⟨silentNode, []⟩ (silentSteps ++ silentEnd)).node.reliableAt
      1#8).map (fun ch => ch.reliable.pending.toList.any Pending.inUse) = some false := by
    decide +kernel
  rw [hch, Option.map_some, Option.some.injEq, List.any_eq_false] at hidle
  exact hidle channel.reliable.pending[i] (by simp) hi

end Relinow
