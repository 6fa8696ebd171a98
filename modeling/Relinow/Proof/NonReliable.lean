import Relinow.Proof.StateTables
import Relinow.Lib.RunningMax

/-!
# Receiving without retransmission

UNRELIABLE and PRIORITY channels keep one 16-bit register of what they have
heard: the newest id so far, compared with each arrival by serial arithmetic.
The sender counts without wrapping; its integers reach the channel as their
16-bit images.

While no arrival is half the id space away from the largest before it, the
register holds the image of the running maximum. On a PRIORITY channel that makes
the delivered commands the record highs of the stream. On an UNRELIABLE channel
it gives the loss counter: each gap is added with its end, so one frame too many
for every frame that arrives after another.
-/

namespace Relinow

open SlotTable Runs

/-- The register holds the image of the largest integer heard so far, if there is one. -/
structure HighestHeard (channel : ChannelState) (high : Option Int) : Prop where
  hasRxSeq : channel.hasRxSeq = high.isSome
  register : ∀ M, high = some M → channel.expectedRxSeq = BitVec.ofInt 16 M

theorem HighestHeard.nothing {channel : ChannelState} (h : channel.hasRxSeq = false) :
    HighestHeard channel none :=
  ⟨h, fun _ hM => absurd hM (by simp)⟩

/-- The arrivals of `a` and `b` are less than half the id space apart. -/
theorem isSeqNewer_ofInt {a b : Int} (h : |a - b| ≤ 32767) :
    isSeqNewer (BitVec.ofInt 16 a) (BitVec.ofInt 16 b) = true ↔ b < a :=
  SerialNumber.newer_ofInt (by omega)

/-! ## PRIORITY -/

/-- The stream `ms` reaches channel `c` of peer `p`: what each call returns, and whether it says
that the command is to be delivered. -/
def priorityAnswers (state : State) (p c : U8) (ms : List Int) : List (StateErr × Bool) :=
  outputs (fun state m => (statePriorityOnData state p c (BitVec.ofInt 16 m)).st)
    (fun state m =>
      ((statePriorityOnData state p c (BitVec.ofInt 16 m)).rc,
        (statePriorityOnData state p c (BitVec.ofInt 16 m)).out)) state ms

/-- **An arrival is delivered if it is a record**, and becomes the one to beat. -/
theorem priorityOnData_step {channel : ChannelState} (hmode : channel.mode = modePriority)
    {high : Option Int} (h : HighestHeard channel high) {m : Int}
    (hgap : ∀ M, high = some M → |m - M| ≤ 32767) :
    ∃ channel', (ChannelOp.priorityOnData (BitVec.ofInt 16 m)).act channel
        = ⟨.ok, channel', .deliver (RunningMax.isRecord high m)⟩
      ∧ channel'.mode = modePriority ∧ HighestHeard channel' (RunningMax.next high m) := by
  have hact : (ChannelOp.priorityOnData (BitVec.ofInt 16 m)).act channel =
      if !channel.hasRxSeq || isSeqNewer (BitVec.ofInt 16 m) channel.expectedRxSeq then
        ⟨.ok, { channel with hasRxSeq := true, expectedRxSeq := BitVec.ofInt 16 m },
          .deliver true⟩
      else ⟨.ok, channel, .deliver false⟩ := inMode_same hmode _ _
  rw [hact]
  cases high with
  | none =>
      rw [if_pos (by rw [h.hasRxSeq]; rfl)]
      exact ⟨_, rfl, hmode, rfl, fun M hM => by rw [← Option.some.inj hM]; rfl⟩
  | some M =>
      have hiff := isSeqNewer_ofInt (hgap M rfl)
      have hrec : RunningMax.isRecord (some M) m = decide (M < m) := rfl
      have hnext : RunningMax.next (some M) m = some (max M m) := rfl
      rw [hrec, hnext]
      by_cases hlt : M < m
      · rw [if_pos (by rw [h.hasRxSeq, h.register M rfl]; exact hiff.mpr hlt),
          decide_eq_true hlt, max_eq_right hlt.le]
        exact ⟨_, rfl, hmode, rfl, fun M' hM' => by rw [← Option.some.inj hM']⟩
      · -- stale or repeated: the register stays
        rw [if_neg (by rw [h.hasRxSeq, h.register M rfl]; exact fun hn => hlt (hiff.mp hn)),
          decide_eq_false hlt, max_eq_left (not_lt.mp hlt)]
        exact ⟨channel, rfl, hmode, h⟩

/--
**A PRIORITY channel delivers exactly the record highs.** The `i`-th arrival is
delivered if and only if its integer is larger than those of all arrivals before
it. So what is delivered is strictly newer each time.
-/
theorem priority_recordHighs {state : State} {p c : U8} {channel : ChannelState}
    (hch : channelAt state p c = some channel) (hmode : channel.mode = modePriority)
    (hnew : channel.hasRxSeq = false) {ms : List Int}
    (hgap : ∀ i m M, ms[i]? = some m → (ms.take i).max? = some M → |m - M| ≤ 32767) :
    (∀ i m, ms[i]? = some m → (priorityAnswers state p c ms)[i]?
        = some (StateErr.ok, decide (∀ m' ∈ ms.take i, m' < m)))
    ∧ ∀ (i j : Nat) (m m' : Int), i < j → ms[i]? = some m → ms[j]? = some m' →
        (priorityAnswers state p c ms)[j]? = some (StateErr.ok, true) → m < m' := by
  have hanswers : priorityAnswers state p c ms
      = outputs RunningMax.next (fun high m => (StateErr.ok, RunningMax.isRecord high m)) none
        ms := by
    -- the channel simulates the running maximum
    have hsim : ∀ (s : State) (high : Option Int) (m : Int),
        (∃ channel, channelAt s p c = some channel ∧ channel.mode = modePriority
          ∧ HighestHeard channel high) → (∀ M, high = some M → |m - M| ≤ 32767) →
        (∃ channel, channelAt (statePriorityOnData s p c (BitVec.ofInt 16 m)).st p c = some channel
          ∧ channel.mode = modePriority ∧ HighestHeard channel (RunningMax.next high m))
        ∧ ((statePriorityOnData s p c (BitVec.ofInt 16 m)).rc,
            (statePriorityOnData s p c (BitVec.ofInt 16 m)).out)
          = (StateErr.ok, RunningMax.isRecord high m) := by
      rintro s high m ⟨channel, hat, hm, hheard⟩ hg
      obtain ⟨channel', hact, hm', hheard'⟩ := priorityOnData_step hm hheard hg
      obtain ⟨hrc, hout, hst⟩ := (ChannelOp.priorityOnData (BitVec.ofInt 16 m)).run_channelAt s p c
      rw [hat, Option.elim_some, hact] at hrc hout
      rw [hat, Option.map_some, hact] at hst
      refine ⟨⟨channel', hst, hm', hheard'⟩, Prod.ext hrc ?_⟩
      exact Output.deliver.inj hout
    refine (outputs_simulated hsim ⟨channel, hch, hmode, HighestHeard.nothing hnew⟩ ?_).2
    refine along_iff.mpr fun i m hm M hM => ?_
    rw [RunningMax.run_next] at hM
    exact hgap i m M hm hM
  have hget : ∀ i m, ms[i]? = some m → (priorityAnswers state p c ms)[i]?
      = some (StateErr.ok, decide (∀ m' ∈ ms.take i, m' < m)) := by
    intro i m hm
    rw [hanswers, outputs_get, hm, Option.map_some, RunningMax.run_next, Option.some.injEq,
      Prod.mk.injEq, Bool.eq_iff_iff, RunningMax.isRecord_max, decide_eq_true_iff]
    exact ⟨rfl, Iff.rfl⟩
  refine ⟨hget, fun i j m m' hij hm hm' hans => ?_⟩
  rw [hget j m' hm', Option.some.injEq, Prod.mk.injEq, decide_eq_true_iff] at hans
  refine hans.2 m (List.mem_of_getElem? (i := i) ?_)
  rw [List.getElem?_take_of_lt hij, hm]

/-- A stale frame, and one beyond the wrap. -/
theorem priority_recordHighs_wrap :
    (priorityAnswers (stateAfter (oneChannel modePriority)) 0#8 1#8 [65535, 65534, 65537])[2]?
      = some (StateErr.ok, decide (∀ m' ∈ ([65535, 65534] : List Int), m' < 65537)) := by
  have hch : channelAt (stateAfter (oneChannel modePriority)) 0#8 1#8
      = some (openedChannel 1#8 modePriority 0#8) := by decide +kernel
  refine (priority_recordHighs hch rfl rfl fun i m M hm hM => ?_).1 2 65537 rfl
  match i, hm, hM with
  | 0, _, hM => simp at hM
  | 1, hm, hM => simp at hm hM; subst hm hM; decide
  | 2, hm, hM => simp at hm hM; subst hm hM; decide
  | i + 3, hm, _ => simp at hm

/-! ## UNRELIABLE -/

/-- What has heard nothing has counted nothing. -/
def Unheard (channel : ChannelState) : Prop :=
  channel.hasRxSeq = false → channel.stats = ⟨0#32, 0#32⟩

theorem Unheard.heard {channel : ChannelState} (h : channel.hasRxSeq = true) : Unheard channel :=
  fun hno => absurd (h.symm.trans hno) (by decide)

/-- **Only a first arrival starts the counters.** -/
theorem ChannelOp.act_unheard {channel : ChannelState} (h : Unheard channel) (op : ChannelOp) :
    Unheard (op.act channel).st := by
  have hsame : op.hears = false → Unheard (op.act channel).st := by
    intro hno hr
    obtain ⟨hrx, hstats⟩ := (op.act_leaves channel).heard hno
    rw [hstats]
    exact h (hrx.symm.trans hr)
  cases op with
  | unreliableOnData q =>
      show Unheard (channel.inMode _ _ _).st
      unfold ChannelState.inMode
      dsimp only
      split
      · exact h
      · split
        · exact Unheard.heard rfl
        · rename_i hr
          rw [Bool.not_eq_true', Bool.not_eq_false] at hr
          split
          · exact Unheard.heard hr
          · exact Unheard.heard hr
  | priorityOnData q =>
      show Unheard (channel.inMode _ _ _).st
      unfold ChannelState.inMode
      split
      · exact h
      · split
        · exact Unheard.heard rfl
        · exact h
  | _ => exact hsame rfl

theorem stateAfter_unheard (calls : List StateCall) (r : ChannelRef) :
    Unheard ((stateAfter calls).channel r) :=
  @stateAfter_channels (fun _ => True) Unheard (fun _ => trivial) (fun _ op _ h => op.act_unheard h)
    (fun _ _ h => h) (fun _ => rfl) (fun _ _ _ _ => rfl) calls (fun _ _ _ _ _ _ => trivial) r

/-- The state after the stream `ms` has reached channel `c` of peer `p`. -/
def unreliableStream (state : State) (p c : U8) (ms : List Int) : State :=
  run (fun state m => (stateUnreliableOnData state p c (BitVec.ofInt 16 m)).st) state ms

/-- A sender's integers: each larger than the one before, and less than half the id space ahead. -/
def Ascending (ms : List Int) : Prop := ms.IsChain fun a b => a < b ∧ b - a ≤ 32767

theorem ascending_last (ms : List Int) : ∀ {m : Int}, Ascending (m :: ms) →
    m ≤ (m :: ms).getLast (List.cons_ne_nil m ms) := by
  induction ms with
  | nil => exact fun _ => le_of_eq (by simp)
  | cons b ms ih =>
      intro m h
      obtain ⟨⟨hlt, _⟩, h'⟩ := List.isChain_cons_cons.mp h
      rw [List.getLast_cons_cons]
      exact hlt.le.trans (ih h')

/-- **A frame that follows `a` at `m` adds `m - a` to the loss**: the frames missing between
them, and itself. -/
theorem unreliableOnData_next {channel : ChannelState} (hmode : channel.mode = modeUnreliable)
    {a m : Int} (h : HighestHeard channel (some a)) (hlt : a < m) (hgap : m - a ≤ 32767) :
    (ChannelOp.unreliableOnData (BitVec.ofInt 16 m)).act channel
      = ⟨.ok,
          { channel with
            stats :=
              ⟨channel.stats.totalRx + 1#32, channel.stats.totalLost + BitVec.ofInt 32 (m - a)⟩
            expectedRxSeq := BitVec.ofInt 16 m }, .none⟩ := by
  have hnewer := (isSeqNewer_ofInt (a := m) (b := a) (by rw [abs_of_nonneg] <;> omega)).mpr hlt
  have hdiff : (BitVec.ofInt 16 m - BitVec.ofInt 16 a).setWidth 32 = BitVec.ofInt 32 (m - a) := by
    have hval := SerialNumber.toNat_ofInt_sub (w := 16) hlt.le (by omega)
    rw [← hval, BitVec.ofInt_natCast, BitVec.ofNat_toNat]
  refine (inMode_same hmode _ _).trans ?_
  dsimp only
  rw [if_neg (by rw [h.hasRxSeq]; simp), h.register a rfl, if_pos hnewer, hdiff]

/-- The first frame opens the register and is counted. -/
theorem unreliableOnData_first {channel : ChannelState} (hmode : channel.mode = modeUnreliable)
    (h : channel.hasRxSeq = false) (m : Int) :
    (ChannelOp.unreliableOnData (BitVec.ofInt 16 m)).act channel
      = ⟨.ok,
          { channel with
            stats := { channel.stats with totalRx := channel.stats.totalRx + 1#32 }
            hasRxSeq := true
            expectedRxSeq := BitVec.ofInt 16 m }, .none⟩ := by
  refine (inMode_same hmode _ _).trans ?_
  dsimp only
  rw [if_pos (by rw [h]; rfl)]

theorem unreliableOnData_at {state : State} {p c : U8} {channel channel' : ChannelState}
    (hch : channelAt state p c = some channel) {q : U16} {rc : StateErr} {out : Output}
    (hact : (ChannelOp.unreliableOnData q).act channel = ⟨rc, channel', out⟩) :
    channelAt (stateUnreliableOnData state p c q).st p c = some channel' := by
  obtain ⟨_, _, hst⟩ := (ChannelOp.unreliableOnData q).run_channelAt state p c
  rw [hch, Option.map_some, hact] at hst
  exact hst

/-- **What the counters have gained after a stream.** -/
theorem unreliableStream_stats (ms : List Int) :
    ∀ {state : State} {p c : U8} {channel : ChannelState} {a : Int},
      channelAt state p c = some channel → channel.mode = modeUnreliable →
      HighestHeard channel (some a) → Ascending (a :: ms) →
      ∃ channel', channelAt (unreliableStream state p c ms) p c = some channel'
        ∧ channel'.stats = ⟨channel.stats.totalRx + BitVec.ofNat 32 ms.length,
            channel.stats.totalLost
              + BitVec.ofInt 32 ((a :: ms).getLast (List.cons_ne_nil a ms) - a)⟩ := by
  induction ms with
  | nil =>
      intro state p c channel a hch _ _ _
      exact ⟨channel, hch, by simp⟩
  | cons m ms ih =>
      intro state p c channel a hch hmode h hasc
      obtain ⟨⟨hlt, hgap⟩, hasc'⟩ := List.isChain_cons_cons.mp hasc
      have hat := unreliableOnData_at hch (unreliableOnData_next hmode h hlt hgap)
      have hheard : HighestHeard { channel with
          stats := ⟨channel.stats.totalRx + 1#32, channel.stats.totalLost + BitVec.ofInt 32 (m - a)⟩
          expectedRxSeq := BitVec.ofInt 16 m } (some m) :=
        ⟨h.hasRxSeq, fun M hM => by rw [← Option.some.inj hM]⟩
      obtain ⟨channel', hend, hstats⟩ := ih hat hmode hheard hasc'
      refine ⟨channel', hend, ?_⟩
      have hsum : m - a + ((m :: ms).getLast (List.cons_ne_nil m ms) - m)
          = (a :: m :: ms).getLast (List.cons_ne_nil a (m :: ms)) - a := by
        rw [List.getLast_cons_cons]
        omega
      rw [hstats, Stats.mk.injEq, ← hsum, BitVec.ofInt_add, List.length_cons]
      constructor
      · bv_omega
      · rw [BitVec.add_assoc]

theorem stateGetStats_at {state : State} {p c : U8} {channel : ChannelState}
    (hch : channelAt state p c = some channel) : stateGetStats state p c = .ok channel.stats := by
  obtain ⟨r, hr, rfl⟩ := channelAt_eq_some.mp hch
  unfold stateGetStats
  rw [lookupChannel_found hr]

/--
**The loss counter counts the missing frames only of a single frame.** A channel
that has received nothing gets the stream `m :: ms`. The statistics then say how
many frames came and how many of the sender's numbers did not if and only if
there was one frame; after more, the loss is what the numbers span, frames that
arrived included.
-/
theorem unreliable_lossStats (calls : List StateCall) {p c : U8} {channel : ChannelState}
    (hch : channelAt (stateAfter calls) p c = some channel)
    (hmode : channel.mode = modeUnreliable) (hnew : channel.hasRxSeq = false) (m : Int)
    (ms : List Int) (hasc : Ascending (m :: ms))
    (hspan : (m :: ms).getLast (List.cons_ne_nil m ms) - m < 2 ^ 32) :
    (∃ stats,
      stateGetStats (unreliableStream (stateAfter calls) p c (m :: ms)) p c = .ok stats
      ∧ stats.totalRx.toNat = (m :: ms).length
      ∧ (stats.totalLost.toNat : Int)
          = ((m :: ms).getLast (List.cons_ne_nil m ms) - m + 1) - (m :: ms).length)
    ↔ (m :: ms).length = 1 := by
  obtain ⟨r, hr, hrch⟩ := channelAt_eq_some.mp hch
  have hzero : channel.stats = ⟨0#32, 0#32⟩ := hrch ▸ stateAfter_unheard calls r (hrch ▸ hnew)
  -- the first frame only opens the register
  have hat := unreliableOnData_at hch (unreliableOnData_first hmode hnew m)
  have hheard : HighestHeard { channel with
      stats := { channel.stats with totalRx := channel.stats.totalRx + 1#32 }
      hasRxSeq := true
      expectedRxSeq := BitVec.ofInt 16 m } (some m) :=
    ⟨rfl, fun M hM => by rw [← Option.some.inj hM]⟩
  obtain ⟨channel', hend, hstats⟩ := unreliableStream_stats ms hat hmode hheard hasc
  have hget : stateGetStats (unreliableStream (stateAfter calls) p c (m :: ms)) p c
      = .ok channel'.stats := stateGetStats_at hend
  have hle := ascending_last ms hasc
  -- the span fits in the counter
  have hlost :
      ((0#32 + BitVec.ofInt 32 ((m :: ms).getLast (List.cons_ne_nil m ms) - m)).toNat : Int)
      = (m :: ms).getLast (List.cons_ne_nil m ms) - m := by
    rw [BitVec.zero_add, BitVec.toNat_ofInt, Int.toNat_of_nonneg (Int.emod_nonneg _ (by decide))]
    exact Int.emod_eq_of_lt (by omega) hspan
  rw [hget, hstats, hzero]
  constructor
  · rintro ⟨stats, hs, _, hmissing⟩
    rw [← Except.ok.inj hs, hlost] at hmissing
    omega
  · intro hone
    obtain rfl : ms = [] := by
      rw [List.length_cons] at hone
      exact List.length_eq_zero_iff.mp (by omega)
    refine ⟨_, rfl, rfl, ?_⟩
    rw [hlost]
    simp

/-- One frame: nothing is missing. -/
theorem unreliable_lossStats_one :
    ∃ stats, stateGetStats (unreliableStream (stateAfter (oneChannel modeUnreliable)) 0#8 1#8 [10])
        0#8 1#8 = .ok stats
      ∧ stats.totalRx.toNat = 1 ∧ (stats.totalLost.toNat : Int) = 10 - 10 + 1 - 1 :=
  have hch : channelAt (stateAfter (oneChannel modeUnreliable)) 0#8 1#8
      = some (openedChannel 1#8 modeUnreliable 0#8) := by decide +kernel
  (unreliable_lossStats (oneChannel modeUnreliable) hch rfl rfl 10 [] (List.IsChain.singleton 10)
    (by decide)).mpr rfl

/-- Frames 10 and 11 arrive, none is missing, and one is counted as lost. -/
theorem lossStats_not_missing :
    ¬ ∀ (calls : List StateCall) (p c : U8) (channel : ChannelState) (m : Int) (ms : List Int),
      channelAt (stateAfter calls) p c = some channel → channel.mode = modeUnreliable →
      channel.hasRxSeq = false → Ascending (m :: ms) →
      (m :: ms).getLast (List.cons_ne_nil m ms) - m < 2 ^ 32 →
      ∃ stats, stateGetStats (unreliableStream (stateAfter calls) p c (m :: ms)) p c = .ok stats
        ∧ stats.totalRx.toNat = (m :: ms).length
        ∧ (stats.totalLost.toNat : Int)
            = ((m :: ms).getLast (List.cons_ne_nil m ms) - m + 1) - (m :: ms).length := by
  intro h
  obtain ⟨stats, hs, _, hlost⟩ := h (oneChannel modeUnreliable) 0#8 1#8
    (openedChannel 1#8 modeUnreliable 0#8) 10 [11] (by decide +kernel) rfl rfl
    (List.isChain_cons_cons.mpr ⟨by decide, List.IsChain.singleton 11⟩) (by decide)
  have hget : stateGetStats (unreliableStream (stateAfter (oneChannel modeUnreliable)) 0#8 1#8
      [10, 11]) 0#8 1#8 = .ok ⟨2#32, 1#32⟩ := by rfl
  rw [hget] at hs
  rw [← Except.ok.inj hs] at hlost
  exact absurd hlost (by decide)

end Relinow
