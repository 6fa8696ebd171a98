import Relinow.Proof.Link

/-!
# A gap that never closes

When the sender gives a packet up, nothing tells the receiver. It goes on
waiting for the missing id: the engine has no clock on the receive side and no
way to skip an id. Later packets are buffered until the reorder buffer is full,
then dropped, and none of them is delivered.
-/

namespace Relinow

open SlotTable Runs

/-- The receiver has delivered everything up to `s - 1`, at least one id, and the sender has
reported `s` as failed. -/
structure GivenUp (w : Link) (s : U16) : Prop where
  upTo : w.delivered.getLast? = some (s - 1#16)
  failed : s ∈ w.failed

theorem givenUp_iff {w : Link} {s : U16} :
    w.delivered.getLast? = some (s - 1#16) ∧ s ∈ w.failed ↔ GivenUp w s :=
  ⟨fun h => ⟨h.1, h.2⟩, fun h => ⟨h.1, h.2⟩⟩

instance (w : Link) (s : U16) : Decidable (GivenUp w s) := decidable_of_iff _ givenUp_iff

/-- The distinct ids later than `s`, at most 32767 ahead of it, that reach the receiver. -/
def laterArrivals (s : U16) (as : List LinkAction) : List U16 :=
  (as.filterMap fun a => match a with
    | .onData q => if isSeqNewer q s then some q else none
    | _ => none).dedup

/-- The receiver awaits `s`, with these ids delivered. -/
structure Awaits (s : U16) (ds : List U16) (w : Link) : Prop where
  opened : w.receiver.hasRxWindow = true
  expected : w.receiver.expectedRxSeq = s
  delivered : w.delivered = ds

/-- An arrival of another id delivers nothing and moves nothing. -/
theorem reliableOnData_other {ctx : ReliableCtx} {q : U16} (hw : ctx.hasRxWindow = true)
    (hq : q ≠ ctx.expectedRxSeq) :
    (reliableOnData ctx q).2.deliveredSeq = [] ∧ (reliableOnData ctx q).1.hasRxWindow = true
      ∧ (reliableOnData ctx q).1.expectedRxSeq = ctx.expectedRxSeq := by
  rcases reliableOnData_cases ctx q with ⟨hw', _⟩ | ⟨_, hq', _⟩ | ⟨_, _, _, heq⟩ |
    ⟨_, _, _, _, ctx', hfr, _, heq⟩ | ⟨_, _, _, _, heq⟩ | ⟨_, _, _, heq⟩
  · rw [hw] at hw'
    exact absurd hw' (by decide)
  · exact absurd hq' hq
  · rw [heq]; exact ⟨rfl, hw, rfl⟩
  · rw [heq]; exact ⟨rfl, by rw [hfr]; exact hw, by rw [hfr]⟩
  · rw [heq]; exact ⟨rfl, hw, rfl⟩
  · rw [heq]; exact ⟨rfl, hw, rfl⟩

/-- Waiting depends on two fields of the receiver. -/
theorem Awaits.congr {s : U16} {ds : List U16} {w : Link} {ctx : ReliableCtx} (h : Awaits s ds w)
    (hw : ctx.hasRxWindow = w.receiver.hasRxWindow)
    (he : ctx.expectedRxSeq = w.receiver.expectedRxSeq) :
    Awaits s ds { w with receiver := ctx } :=
  ⟨hw.trans h.opened, he.trans h.expected, h.delivered⟩

/-- **Without `s` itself, no step ends the wait for `s`.** -/
theorem Awaits.step {s : U16} {ds : List U16} {w : Link} {a : LinkAction} (h : Awaits s ds w)
    (ha : a ≠ .onData s) : Awaits s ds (w.step a) := by
  cases a with
  | send now =>
      show Awaits s ds (w.send now)
      unfold Link.send
      dsimp only
      split <;> exact ⟨h.opened, h.expected, h.delivered⟩
  | poll now =>
      show Awaits s ds (w.poll now)
      unfold Link.poll
      dsimp only
      split <;> exact ⟨h.opened, h.expected, h.delivered⟩
  | onData q =>
      -- only the id waited for moves the window
      have hq : q ≠ w.receiver.expectedRxSeq := by
        rw [h.expected]
        rintro rfl
        exact ha rfl
      obtain ⟨hd, hw, he⟩ := reliableOnData_other h.opened hq
      refine ⟨hw, he.trans h.expected, ?_⟩
      show w.delivered ++ (reliableOnData w.receiver q).2.deliveredSeq = ds
      rw [hd, List.append_nil, h.delivered]
  | onAck a now => exact ⟨h.opened, h.expected, h.delivered⟩
  | senderOnData q => exact ⟨h.opened, h.expected, h.delivered⟩
  -- the receiver may also send, poll and take ACKs: its receive half stays as it is
  | receiverSend now =>
      show Awaits s ds { w with receiver := (reliableSend w.receiver now).st }
      rcases reliableSend_cases w.receiver now with ⟨heq, _⟩ | ⟨ctx', heq, hfr, _⟩ <;> rw [heq]
      · exact h
      · exact h.congr (by rw [hfr]) (by rw [hfr])
  | receiverPoll now =>
      show Awaits s ds { w with receiver := (reliablePoll w.receiver now).1 }
      rcases reliablePoll_cases w.receiver now with ⟨heq, _⟩ |
        ⟨i, ctx', _, hfr, ⟨_, heq, _⟩ | ⟨_, heq, _, _⟩⟩ <;> rw [heq]
      · exact h
      · exact h.congr (by rw [hfr]) (by rw [hfr])
      · exact h.congr (by rw [hfr]) (by rw [hfr])
  | receiverOnAck a now =>
      show Awaits s ds { w with receiver := reliableOnAck w.receiver a now }
      rcases reliableOnAck_cases w.receiver a now with ⟨_, heq⟩ | ⟨ctx', heq, hfr, _⟩ <;> rw [heq]
      · exact h
      · exact h.congr (by rw [hfr]) (by rw [hfr])

theorem awaits_of_givenUp {cfgS cfgR : Option ReliableConfig} {as : List LinkAction} {s : U16}
    (h : GivenUp (linkAfter cfgS cfgR as) s) :
    Awaits s (linkAfter cfgS cfgR as).delivered (linkAfter cfgS cfgR as) := by
  have hrx := (linkAfter_inv cfgS cfgR as).rx
  refine ⟨hrx.opened.mpr fun hnil => ?_, ?_, rfl⟩
  · have := h.upTo
    rw [hnil] at this
    exact absurd this (by simp)
  · rw [hrx.last _ h.upTo]
    unfold seqNext
    bv_omega

/--
**A packet the sender has given up blocks the channel.** However the run goes on
after the report, and however many later ids reach the receiver, nothing more is
delivered as long as `s` does not reach it.
-/
theorem givenUp_blocks (cfgS cfgR : Option ReliableConfig) (pre post : List LinkAction) (s : U16)
    (hgap : GivenUp (linkAfter cfgS cfgR pre) s)
    (hnever : ∀ a ∈ pre ++ post, a ≠ .onData s) :
    (linkAfter cfgS cfgR (pre ++ post)).delivered = (linkAfter cfgS cfgR pre).delivered := by
  rw [linkAfter_append]
  have hall : ∀ (as : List LinkAction) (w : Link), (∀ a ∈ as, a ≠ .onData s) →
      Along Link.step (fun _ a => a ≠ .onData s) w as := by
    intro as
    induction as with
    | nil => exact fun _ _ => trivial
    | cons a as ih =>
        intro w h
        exact ⟨h a List.mem_cons_self, ih _ fun b hb => h b (List.mem_cons_of_mem _ hb)⟩
  exact (invariant (fun _ a h ha => h.step ha) (awaits_of_givenUp hgap)
    (hall post _ fun a ha => hnever a (List.mem_append_right _ ha))).delivered

/-- Ids 0 and 1 are sent, 0 arrives and is acknowledged, 1 is lost at each try and given up. -/
def gapRun : List LinkAction :=
  [.send 0#32, .send 0#32, .onData 0#16, .onAck 0#16 0#32, .poll 1000#32, .poll 2000#32,
    .poll 3000#32, .poll 4000#32]

/-- Nine later packets, sent and received. -/
def laterRun : List LinkAction :=
  List.replicate 9 (.send 4000#32)
    ++ (List.range 9).map fun k => .onData (BitVec.ofNat 16 (2 + k))

theorem gapRun_blocks :
    (linkAfter none none (gapRun ++ laterRun)).delivered = (linkAfter none none gapRun).delivered :=
  givenUp_blocks none none gapRun laterRun 1#16 (by decide +kernel) (by decide +kernel)

/-- Nine later ids have reached the receiver since the report, and none was delivered. -/
theorem givenUp_not_unblocked :
    ¬ ∀ (cfgS cfgR : Option ReliableConfig) (pre post : List LinkAction) (s : U16),
      LinkRun cfgS cfgR (pre ++ post) → GivenUp (linkAfter cfgS cfgR pre) s →
      (∀ a ∈ pre ++ post, a ≠ .onData s) → maxReorder < (laterArrivals s post).length →
      ∃ q ∈ laterArrivals s post, q ∈ (linkAfter cfgS cfgR (pre ++ post)).delivered := by
  intro h
  obtain ⟨q, hq, hd⟩ := h none none gapRun laterRun 1#16 (by decide +kernel) (by decide +kernel)
    (by decide +kernel) (by decide +kernel)
  have hdel : (linkAfter none none (gapRun ++ laterRun)).delivered = [0#16] := by decide +kernel
  rw [hdel, List.mem_singleton] at hd
  subst hd
  revert hq
  decide +kernel

end Relinow
