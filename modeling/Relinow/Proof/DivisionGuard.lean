import Relinow.Proof.TransmitSide
import Relinow.Proof.NodeState

/-!
# The division by the largest payload

`relinow_send_reliable` divides by `max_payload` to count the fragments of a
message. Only `relinow_init` writes the field. It refuses a configuration that
has zero there, so a node that was initialised never divides by zero.

But the field is written last. Before it the node is cleared, gets its peer, and
opens its channel, and a mode or an id that does not open one ends the
initialisation there. The node has a peer then and no largest payload: channels
can be opened on it, and the first payload sent on a reliable one divides by
zero. The two other kinds of send compare the length first and cannot.
-/

namespace Relinow

open SlotTable Runs

/-- The call is not a reliable send that divides by zero. -/
def NoTrap (w : NodeRun) (a : ApiStep) : Prop :=
  match a.call with
  | .sendReliable c payload now => (sendReliable a.radio w.node c payload now).1 ≠ .trap
  | _ => True

/-- The call sends no payload on a channel that is open as reliable. -/
def NoReliableSend (w : NodeRun) (a : ApiStep) : Prop :=
  match a.call with
  | .sendReliable c payload _ => payload ≠ [] → w.node.reliableAt c = none
  | _ => True

/-! ## One send -/

theorem sendFrame_ne_trap (radio : Radio) (k : Call) (mode c type flags : U8) (q a : U16)
    (payload : List U8) : (sendFrame radio k mode c type flags q a payload).1 ≠ .trap := by
  unfold sendFrame
  split
  · simp
  · dsimp only
    split
    · simp
    · unfold espNowSend
      dsimp only
      split <;> simp

theorem transmitNew_ne_trap (radio : Radio) (k : Call) (c flags : U8) (track : Bool)
    (payload : List U8) (now : U32) :
    (transmitNew radio k c flags track payload now).1.rc ≠ .trap := by
  have hsent : ∀ (erc : EspErr × Call) (q : U16), erc.1 ≠ .trap →
      (if erc.1 ≠ .ok then (Transmit.radio erc.1, erc.2)
        else (.done, raiseTxEvent erc.2 .new q)).1.rc ≠ .trap := by
    intro erc q h
    split
    · exact h
    · simp [Transmit.rc]
  unfold transmitNew
  dsimp only
  split
  · simp [Transmit.rc]
  · split
    · simp [Transmit.rc]
    · exact hsent _ _ (sendFrame_ne_trap radio _ _ _ _ _ _ _ _)

/-- The loop does not divide. -/
theorem sendFragments_ne_trap (radio : Radio) (c : U8) (now : U32) (fuel : Nat) :
    ∀ (k : Call) (remaining : List U8), (sendFragments radio c now fuel k remaining).1 ≠ .trap := by
  induction fuel with
  | zero =>
      intro k remaining
      simp [sendFragments]
  | succ fuel ih =>
      intro k remaining
      rw [sendFragments]
      split
      · simp
      · dsimp only
        have hround := transmitNew_ne_trap radio k c
          (if remaining.length = min k.node.maxPayload.toNat remaining.length
            then flagFragment ||| flagLastFragment else flagFragment) true
          (remaining.take (min k.node.maxPayload.toNat remaining.length)) now
        revert hround
        generalize transmitNew radio k c _ true _ now = r
        obtain ⟨out, k'⟩ := r
        intro hround
        cases out with
        | done => exact ih k' _
        | refused => simp
        | noSlot => simp
        | radio e => exact hround

/-- **A send divides by zero** exactly when it passes the checks at the top on a node without a
largest payload. -/
theorem sendReliable_trap_iff (radio : Radio) (node : Node) (c : U8) (payload : List U8)
    (now : U32) :
    (sendReliable radio node c payload now).1 = .trap ↔
      node.maxPayload.toNat = 0 ∧ node.fragmentedTxActive = false ∧ payload ≠ []
        ∧ node.reliableAt c ≠ none := by
  rw [sendReliable_eq]
  by_cases hne : payload = []
  · simp [hne]
  · rw [if_neg hne]
    cases hch : node.reliableAt c with
    | none => simp
    | some channel =>
        dsimp only
        by_cases hact : node.fragmentedTxActive = true
        · rw [if_pos hact]
          simp [hact]
        · rw [if_neg hact]
          by_cases h0 : node.maxPayload.toNat = 0
          · have hlen := List.length_pos_iff.mpr hne
            rw [if_pos (by omega), if_pos h0]
            simp [h0, hne, hact]
          · refine iff_of_false ?_ (fun h => h0 h.1)
            rw [if_neg h0]
            split
            · split
              · simp
              · exact sendFragments_ne_trap radio c now _ _ _
            · exact transmitNew_ne_trap radio _ _ _ _ _ _

/-! ## A node whose initialisation failed -/

/-- A node that has no largest payload and is not sending fragments. -/
structure HalfBuilt (node : Node) : Prop where
  maxPayload : node.maxPayload = 0#16
  active : node.fragmentedTxActive = false

/-- A send on such a node changes nothing. -/
theorem HalfBuilt.send {node : Node} (h : HalfBuilt node) (radio : Radio) (c : U8)
    (payload : List U8) (now : U32) :
    (sendReliable radio node c payload now).2 = Call.start node := by
  have h0 : node.maxPayload.toNat = 0 := by rw [h.maxPayload]; rfl
  rcases sendReliable_cases radio node c payload now with ⟨_, heq⟩ |
    ⟨_, _, hne, _, ⟨hlen, _⟩ | ⟨_, hpos, _⟩⟩
  · exact heq
  · have := List.length_pos_iff.mpr hne
    omega
  · omega

/-- **No call completes what the initialisation left open.** -/
theorem halfBuilt_step (w : NodeRun) (a : ApiStep) (h : HalfBuilt w.node) :
    HalfBuilt (w.step a).node := by
  refine ⟨(sameConfig_step w a).maxPayload.trans h.maxPayload, ?_⟩
  rcases lock_step w a with ⟨c, payload, now, hcall⟩ | ⟨hact, _⟩ | ⟨ackId, hact, _⟩
  · obtain ⟨radio, call⟩ := a
    obtain rfl : call = .sendReliable c payload now := hcall
    show (sendReliable radio w.node c payload now).2.node.fragmentedTxActive = false
    rw [h.send]
    exact h.active
  · exact hact.trans h.active
  · -- an ACK looks for the fragment it is for only while some are tracked
    refine hact.trans ?_
    unfold fragmentTxOnAck
    rw [if_neg (by simp [h.active])]
    exact h.active

/-- On a node without a largest payload, the sends that do not divide are those that send
nothing. -/
theorem HalfBuilt.noTrap_iff {w : NodeRun} (h : HalfBuilt w.node) (a : ApiStep) :
    NoTrap w a ↔ NoReliableSend w a := by
  obtain ⟨radio, call⟩ := a
  cases call with
  | sendReliable c payload now =>
      have h0 : w.node.maxPayload.toNat = 0 := by rw [h.maxPayload]; rfl
      show ¬ (sendReliable radio w.node c payload now).1 = .trap
        ↔ (payload ≠ [] → w.node.reliableAt c = none)
      rw [sendReliable_trap_iff]
      simp [h0, h.active]
  | openChannel c mode priority => exact Iff.rfl
  | sendUnreliable c payload => exact Iff.rfl
  | sendPriority c payload => exact Iff.rfl
  | onReceive src data now => exact Iff.rfl
  | poll now => exact Iff.rfl

/-! ## Every run -/

/-- A node with a largest payload divides by it. -/
theorem noTrap_of_maxPayload {w : NodeRun} (h : 0 < w.node.maxPayload.toNat) (a : ApiStep) :
    NoTrap w a := by
  obtain ⟨radio, call⟩ := a
  cases call with
  | sendReliable c payload now =>
      intro htrap
      have h0 := ((sendReliable_trap_iff radio w.node c payload now).mp htrap).1
      omega
  | _ => trivial

/-- **No send divides by zero** exactly when the configured channel can be opened, or no payload is
sent on a channel that is open as reliable. The calls come in any order. -/
theorem divides_safely_iff {node₀ : Node} {cfg : Config} (hargs : (init node₀ cfg).1 ≠ .invalidArg)
    (as : List ApiStep) :
    Along NodeRun.step NoTrap ⟨(init node₀ cfg).2, []⟩ as ↔
      (cfg.Opens ∨ Along NodeRun.step NoReliableSend ⟨(init node₀ cfg).2, []⟩ as) := by
  rcases init_cases node₀ cfg with heq | ⟨hno, state, heq⟩ | ⟨hopens, _, _, _, _, heq, _⟩
  · rw [heq] at hargs
    exact absurd rfl hargs
  · -- the node stays half built, and each send on it is decided by itself
    have hhalf : HalfBuilt (init node₀ cfg).2 := by
      rw [heq]
      exact ⟨rfl, rfl⟩
    have hagree : Along NodeRun.step (fun w a => NoTrap w a ↔ NoReliableSend w a)
        ⟨(init node₀ cfg).2, []⟩ as :=
      along_of_invariant (I := fun w : NodeRun => HalfBuilt w.node) (P := fun _ _ => True)
        (fun w a h _ => halfBuilt_step w a h) (fun w a h _ => h.noTrap_iff a) hhalf
        (Along.of_forall (fun _ _ => trivial) as _)
    rw [hagree.congr]
    exact ⟨Or.inr, fun h => h.resolve_left hno⟩
  · refine iff_of_true ?_ (Or.inl hopens)
    rw [along_iff]
    intro i a _
    have hok : init node₀ cfg = (.ok, (init node₀ cfg).2) := by rw [heq]
    exact noTrap_of_maxPayload (maxPayload_run hok (as.take i)).1 a

/-- The configuration of a channel whose mode does not exist. -/
def modelessConfig : Config := { defaultConfig with mode := 9#8 }

/-- The application opens the channel itself, and sends on it. -/
def modelessSteps : List ApiStep :=
  [⟨Radio.up, .openChannel 1#8 modeReliable 0#8⟩, ⟨Radio.up, .sendReliable 1#8 [10#8] 0#32⟩]

theorem divides_safely_iff_modeless :
    Along NodeRun.step NoTrap ⟨(init Node.zero modelessConfig).2, []⟩ modelessSteps ↔
      (modelessConfig.Opens
        ∨ Along NodeRun.step NoReliableSend ⟨(init Node.zero modelessConfig).2, []⟩
          modelessSteps) :=
  divides_safely_iff (by decide +kernel) modelessSteps

/-- **A node whose initialisation failed divides by zero** at its first payload, also where the
other two kinds of send are never called. -/
theorem divides_by_zero :
    ¬ ∀ (node₀ : Node) (cfg : Config), (init node₀ cfg).1 ≠ .invalidArg → ∀ as : List ApiStep,
      (∀ a ∈ as, ∀ c payload, a.call ≠ .sendUnreliable c payload
        ∧ a.call ≠ .sendPriority c payload) →
      Along NodeRun.step NoTrap ⟨(init node₀ cfg).2, []⟩ as := by
  intro h
  have hrun := h Node.zero modelessConfig (by decide +kernel) modelessSteps
    (by simp [modelessSteps])
  have htrap : (sendReliable Radio.up
      (run NodeRun.step ⟨(init Node.zero modelessConfig).2, []⟩ (modelessSteps.take 1)).node
      1#8 [10#8] 0#32).1 = .trap := by
    decide +kernel
  exact along_iff.mp hrun 1 ⟨Radio.up, .sendReliable 1#8 [10#8] 0#32⟩ rfl htrap

end Relinow
