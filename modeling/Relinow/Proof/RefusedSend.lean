import Relinow.Proof.Fragments
import Relinow.Proof.FragmentLock
import Relinow.Proof.NodeState

/-!
# A send that returns an error

The application sends again what was not accepted, so a send that returns an
error should leave nothing behind. It leaves nothing behind where it is refused
before it takes its first id: by the checks at the top, or because the channel
has no slot for even one frame.

After that there is no way back. A missing cache entry, a radio that refuses the
frame, or a slot missing for a later fragment ends the send where it is, and each
id taken so far keeps its slot.
-/

namespace Relinow

open SlotTable Runs

/-- Nothing a send works on has changed: pending slots, queue, and counters of every channel, the
payload cache, and the tracked fragments. -/
structure Untouched (node node' : Node) : Prop where
  pending : ∀ r : ChannelRef, (node'.state.channel r).reliable.pending
    = (node.state.channel r).reliable.pending
  txQueue : ∀ r : ChannelRef, (node'.state.channel r).txQueue = (node.state.channel r).txQueue
  nextTxSeq : ∀ r : ChannelRef, (node'.state.channel r).nextTxSeq = (node.state.channel r).nextTxSeq
    ∧ (node'.state.channel r).reliable.nextTxSeq = (node.state.channel r).reliable.nextTxSeq
  txCache : node'.txCache = node.txCache
  fragments : node'.fragmentedTxActive = node.fragmentedTxActive
    ∧ node'.fragmentedTxSeq = node.fragmentedTxSeq

theorem Untouched.refl (node : Node) : Untouched node node :=
  ⟨fun _ => rfl, fun _ => rfl, fun _ => ⟨rfl, rfl⟩, rfl, rfl, rfl⟩

/-- If the send returns an error, it had no effect. -/
def RefusedClean (radio : Radio) (node : Node) (c : U8) (payload : List U8) (now : U32) : Prop :=
  (sendReliable radio node c payload now).1 ≠ .ok →
    Untouched node (sendReliable radio node c payload now).2.node

/-- A fragmented message is counted, in eight bits, and found too long or without room. -/
def CountRefused (node : Node) (channel : ChannelState) (payload : List U8) : Prop :=
  node.maxPayload.toNat < payload.length
    ∧ (maxPending < fragmentCount payload.length node.maxPayload.toNat
      ∨ countFreePending channel < fragmentCount payload.length node.maxPayload.toNat
      ∨ countFreeTxCache node < fragmentCount payload.length node.maxPayload.toNat)

/-- The checks at the top refuse the send, the channel has no free slot at all, or every frame of
the message has a slot, a cache entry and a radio that takes it. -/
def SendsCleanly (radio : Radio) (node : Node) (c : U8) (payload : List U8) : Prop :=
  payload = [] ∨ node.fragmentedTxActive = true ∨ node.reliableAt c = none
  ∨ ∃ channel, node.reliableAt c = some channel
    ∧ (CountRefused node channel payload ∨ countFreePending channel = 0
      ∨ Clears radio (Call.start node) channel
          (framesLeft payload.length node.maxPayload.toNat))

/-! ## While the lock is open nothing is tracked -/

/-- A node that is not sending a fragmented message tracks no fragment. -/
def Unlocked (node : Node) : Prop := node.fragmentedTxActive = false → node.fragmentedTxSeq = []

theorem Unlocked.of_eq {node node' : Node} (h : Unlocked node)
    (ha : node'.fragmentedTxActive = node.fragmentedTxActive)
    (hs : node'.fragmentedTxSeq = node.fragmentedTxSeq) : Unlocked node' := by
  intro hopen
  rw [hs]
  exact h (ha.symm.trans hopen)

theorem Unlocked.fragmentTxOnAck {node : Node} (h : Unlocked node) (a : U16) :
    Unlocked (fragmentTxOnAck node a) := by
  unfold Relinow.fragmentTxOnAck
  split
  · intro hopen
    rw [Bool.not_eq_false', List.isEmpty_iff] at hopen
    exact hopen
  · exact h

theorem Unlocked.transmitNew {k : Call} (h : Unlocked k.node) (radio : Radio) (c flags : U8)
    (payload : List U8) (now : U32) (hflags : flags.toNat < 16) :
    Unlocked (transmitNew radio k c flags false payload now).2.node := by
  rcases transmitNew_tx radio k c flags false payload now hflags with
    ⟨heq, _⟩ | ⟨_, _, ha, hs, _⟩ | ⟨_, ch, channel', hp, -⟩
  · rw [heq]
    exact h
  · exact h.of_eq ha hs
  · have hfr := hp.fragments
    rw [if_neg (by simp)] at hfr
    exact h.of_eq (Prod.ext_iff.mp hfr).2 (Prod.ext_iff.mp hfr).1

/-- The loop holds the lock until it ends, and opens it only over an empty list. -/
theorem sendFragments_unlocked (radio : Radio) (c : U8) (now : U32) {k : Call} (payload : List U8)
    (hact : k.node.fragmentedTxActive = true) (hpos : 0 < k.node.maxPayload.toNat) :
    Unlocked (sendFragments radio c now payload.length k payload).2.node := by
  have hlocked : ∀ {node : Node}, node.fragmentedTxActive = true → Unlocked node := by
    intro node ha hopen
    rw [ha] at hopen
    exact absurd hopen (by simp)
  refine sendFragments_rule
    (I := fun k _ => k.node.fragmentedTxActive = true ∧ 0 < k.node.maxPayload.toNat)
    (Q := fun k => Unlocked k.node) (fun k _ h => h.2) (fun k h => hlocked h.1) ?_ _ k payload
    (Nat.le_refl _) ⟨hact, hpos⟩
  rintro k remaining flags ⟨ha, hmp⟩ _ hflags
  have hlt : flags.toNat < 16 := by rcases hflags with rfl | rfl <;> decide
  rcases transmitNew_tx radio k c flags true
      (remaining.take (min k.node.maxPayload.toNat remaining.length)) now hlt with
    ⟨heq, _⟩ | ⟨hout, _, hkeep, _, _⟩ | ⟨hout, ch, channel', hp, -⟩
  · rw [heq]
    intro hopen
    show (unlockEmpty k.node).fragmentedTxSeq = []
    change (unlockEmpty k.node).fragmentedTxActive = false at hopen
    unfold unlockEmpty at hopen ⊢
    split
    · rename_i hnil
      exact List.isEmpty_iff.mp hnil
    · rename_i hnil
      rw [if_neg hnil, ha] at hopen
      exact absurd hopen (by simp)
  · have hlock := hlocked (hkeep.trans ha)
    revert hout hlock
    generalize transmitNew radio k c flags true _ now = r
    obtain ⟨out, k'⟩ := r
    rintro rfl hlock
    exact hlock
  · have hfr := hp.fragments
    have hmax := hp.maxPayload
    have hstill : (Relinow.transmitNew radio k c flags true
        (remaining.take (min k.node.maxPayload.toNat remaining.length))
        now).2.node.fragmentedTxActive = true := by
      split at hfr
      · exact (Prod.ext_iff.mp hfr).2
      · exact (Prod.ext_iff.mp hfr).2.trans ha
    revert hout hmax hstill
    generalize Relinow.transmitNew radio k c flags true _ now = r
    obtain ⟨out, k'⟩ := r
    rintro (rfl | ⟨e, rfl, _⟩) hmax hstill
    · refine ⟨hstill, ?_⟩
      dsimp only at hmax ⊢
      rw [hmax]
      exact hmp
    · exact hlocked hstill

theorem Unlocked.sendReliable {node : Node} (h : Unlocked node) (radio : Radio) (c : U8)
    (payload : List U8) (now : U32) :
    Unlocked (sendReliable radio node c payload now).2.node := by
  rcases sendReliable_cases radio node c payload now with ⟨_, heq⟩ |
    ⟨channel, _, _, _, ⟨_, heq⟩ | ⟨_, hpos, _, _, _, heq⟩⟩ <;> rw [heq]
  · exact h
  · exact Unlocked.transmitNew (k := Call.start node) h radio c 0#8 payload now (by decide)
  · exact sendFragments_unlocked radio c now payload rfl hpos

/-- **No call leaves a fragment tracked behind an open lock.** -/
theorem unlocked_step (w : NodeRun) (a : ApiStep) (h : Unlocked w.node) :
    Unlocked (w.step a).node := by
  rcases lock_step w a with ⟨c, payload, now, hcall⟩ | ⟨hact, hseq⟩ | ⟨ackId, hact, hseq⟩
  · obtain ⟨radio, call⟩ := a
    obtain rfl : call = .sendReliable c payload now := hcall
    exact h.sendReliable radio c payload now
  · exact h.of_eq hact hseq
  · -- an ACK opens the lock with the last id it takes out
    exact (h.fragmentTxOnAck ackId).of_eq hact hseq

theorem unlocked_run {node₀ node : Node} {cfg : Config} (hinit : init node₀ cfg = (.ok, node))
    (as : List ApiStep) : Unlocked (run NodeRun.step ⟨node, []⟩ as).node := by
  obtain ⟨_, _, rfl, -⟩ := init_ok hinit
  exact invariant (I := fun w : NodeRun => Unlocked w.node) (P := fun _ _ => True)
    (fun w a h _ => unlocked_step w a h) (fun _ => rfl) (Along.of_forall (fun _ _ => trivial) as _)

/-! ## Which sends are clean -/

/-- **A send that is refused before its first id leaves the node as it was**, and one with room
and a willing radio returns no error. -/
theorem refusedClean_of_cleanly {radio : Radio} {node : Node} {c : U8} {payload : List U8}
    (now : U32) (htables : TablesOk node.state) (hmp : 0 < node.maxPayload.toNat)
    (hunlocked : Unlocked node) (h : SendsCleanly radio node c payload) :
    RefusedClean radio node c payload now := by
  intro hrc
  rcases sendReliable_cases radio node c payload now with ⟨_, heq⟩ |
    ⟨channel, hch, hne, hact, hsend⟩
  · rw [heq]
    exact Untouched.refl node
  · have hnb := htables.notHeartbeat hch
    have hchecked := sendReliable_checked radio now hch hne hact hmp
    -- the cases of `SendsCleanly`, one by one
    rcases h with rfl | hlocked | hnone | ⟨channel', hch', hcount | hfull | hclear⟩
    · exact absurd rfl hne
    · rw [hact] at hlocked
      exact absurd hlocked (by simp)
    · rw [hnone] at hch
      exact absurd hch (by simp)
    · obtain rfl := Option.some.inj (hch.symm.trans hch')
      rw [hchecked, if_pos hcount.1, if_pos hcount.2]
      exact Untouched.refl node
    · obtain rfl := Option.some.inj (hch.symm.trans hch')
      rw [hchecked]
      split
      · rename_i hlen
        split
        · exact Untouched.refl node
        · -- the count is none in eight bits; the loop is refused its first id and opens the lock
          have hnil : payload ≠ [] := hne
          have hfuel : payload.length = payload.length - 1 + 1 := by
            have := List.length_pos_iff.mpr hne
            omega
          have hfits : Fits ((Call.start node).setNode
              { node with fragmentedTxActive := true, fragmentedTxSeq := [] }).node c
              (fragmentFlags (framesLeft payload.length node.maxPayload.toNat) 0)
              (payload.take node.maxPayload.toNat) := fits_piece hnb payload _
          rw [hfuel, sendFragments_succ radio c now _ _ hnil hmp]
          rcases transmitNew_fits radio ((Call.start node).setNode
              { node with fragmentedTxActive := true, fragmentedTxSeq := [] })
              true now hfits hch with
            ⟨heq, _⟩ | ⟨_, _, _, _, ha, _, _⟩ | ⟨_, _, _, _, hp, _, _, _⟩
          · dsimp only [Call.setNode, Call.start] at heq ⊢
            rw [heq]
            have htr := hunlocked hact
            exact ⟨fun _ => rfl, fun _ => rfl, fun _ => ⟨rfl, rfl⟩, rfl, hact.symm, htr.symm⟩
          · have := ha.countFreePending
            omega
          · have := hp.countFreePending
            omega
      · rename_i hlen
        rcases transmitNew_fits radio (Call.start node) false now
            (show Fits node c 0#8 payload from ⟨hnb, Or.inl rfl, by omega⟩) hch with
          ⟨heq, _⟩ | ⟨_, _, _, _, ha, _, _⟩ | ⟨_, _, _, _, hp, _, _, _⟩
        · rw [heq]
          exact Untouched.refl node
        · have := ha.countFreePending
          omega
        · have := hp.countFreePending
          omega
    · obtain rfl := Option.some.inj (hch.symm.trans hch')
      -- nothing in the way: the send is not refused
      obtain ⟨k, frames, hok, -⟩ := sendReliable_clear radio hnb now hch hne hact hmp hclear
      rw [hok] at hrc
      exact absurd rfl hrc

/-- **Any other send returns an error and keeps a slot.** -/
theorem not_refusedClean {radio : Radio} {node : Node} {c : U8} {payload : List U8}
    (now : U32) (htables : TablesOk node.state) (hmp : 0 < node.maxPayload.toNat)
    (h : ¬ SendsCleanly radio node c payload) : ¬ RefusedClean radio node c payload now := by
  unfold SendsCleanly at h
  rw [not_or, not_or, not_or, Bool.not_eq_true] at h
  obtain ⟨hne, hact, hsome, hrest⟩ := h
  obtain ⟨channel, hch⟩ := Option.ne_none_iff_exists'.mp hsome
  have hnot : ¬ CountRefused node channel payload ∧ ¬ countFreePending channel = 0
      ∧ ¬ Clears radio (Call.start node) channel
        (framesLeft payload.length node.maxPayload.toNat) :=
    ⟨fun h => hrest ⟨channel, hch, Or.inl h⟩, fun h => hrest ⟨channel, hch, Or.inr (Or.inl h)⟩,
      fun h => hrest ⟨channel, hch, Or.inr (Or.inr h)⟩⟩
  obtain ⟨hcount, hfree, hstuck⟩ := hnot
  have hadmitted : node.maxPayload.toNat < payload.length →
      fragmentCount payload.length node.maxPayload.toNat ≤ maxPending
      ∧ fragmentCount payload.length node.maxPayload.toNat ≤ countFreePending channel
      ∧ fragmentCount payload.length node.maxPayload.toNat ≤ countFreeTxCache node := by
    intro hlen
    have hno : ¬ _ := fun h => hcount ⟨hlen, h⟩
    omega
  obtain ⟨hrc, hleft⟩ := sendReliable_stuck radio (htables.notHeartbeat hch) now hch hne hact hmp
    hadmitted hstuck
  obtain ⟨channel', hat, hless⟩ := hleft (Nat.pos_of_ne_zero hfree)
  intro hclean
  have hsame := (hclean hrc).pending
  -- the channel is where it was, so its table would be what it was
  obtain ⟨r, hr, rfl⟩ := channelAt_eq_some.mp (Node.reliableAt_channelAt hch).1
  obtain ⟨r', hr', rfl⟩ := channelAt_eq_some.mp (Node.reliableAt_channelAt hat).1
  obtain ⟨htables', hgrows⟩ := htables.writes (sendReliable_writes radio node c payload now)
  rw [(sendReliable_sameConfig radio node c payload now).peerIndex,
    (hgrows.findChannel htables' hr).1] at hr'
  obtain rfl := Option.some.inj hr'
  unfold countFreePending at hless
  rw [hsame r] at hless
  exact absurd hless (Nat.lt_irrefl _)

/-! ## Every reachable state -/

/-- **A refused send has no effect** exactly when it is refused before its first id. The node is
in any state it can reach, and the radio answers as it likes. -/
theorem refusedSend_clean_iff {node₀ node : Node} {cfg : Config}
    (hinit : init node₀ cfg = (.ok, node)) (as : List ApiStep) (radio : Radio) (c : U8)
    (payload : List U8) (now : U32) :
    RefusedClean radio (run NodeRun.step ⟨node, []⟩ as).node c payload now ↔
      SendsCleanly radio (run NodeRun.step ⟨node, []⟩ as).node c payload := by
  have htables := tablesOk_run hinit as
  have hmp := (maxPayload_run hinit as).1
  constructor
  · intro hclean
    by_contra hnot
    exact not_refusedClean now htables hmp hnot hclean
  · exact refusedClean_of_cleanly now htables hmp (unlocked_run hinit as)

/-- A radio that refuses every frame. -/
def Radio.down : Radio := fun _ => some 1#32

theorem refusedSend_clean_iff_two :
    RefusedClean Radio.down (run NodeRun.step ⟨silentNode, []⟩ silentSteps).node 1#8
        [10#8, 20#8] 1000#32 ↔
      SendsCleanly Radio.down (run NodeRun.step ⟨silentNode, []⟩ silentSteps).node 1#8
        [10#8, 20#8] :=
  refusedSend_clean_iff (Prod.ext (by decide +kernel) rfl) silentSteps Radio.down 1#8
    [10#8, 20#8] 1000#32

/-- **A payload the radio refuses is kept**, and will be sent after all. -/
theorem refusedSend_not_clean :
    ¬ ∀ (node₀ node : Node) (cfg : Config), init node₀ cfg = (.ok, node) →
      ∀ (as : List ApiStep) (radio : Radio) (c : U8) (payload : List U8) (now : U32),
        RefusedClean radio (run NodeRun.step ⟨node, []⟩ as).node c payload now := by
  intro h
  have hinit : init Node.zero silentConfig = (.ok, silentNode) := Prod.ext (by decide +kernel) rfl
  have hclean := h Node.zero silentNode silentConfig hinit [] Radio.down 1#8 [10#8] 0#32
    (by decide +kernel)
  have hcache := hclean.txCache
  revert hcache
  decide +kernel

end Relinow
