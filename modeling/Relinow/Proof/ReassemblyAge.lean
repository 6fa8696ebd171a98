import Relinow.Proof.EngineRun
import Relinow.Proof.ReceiveSide

/-!
# How old a partial message is

`relinow_on_receive` notes when it started a message in reassembly, and
`relinow_poll` discards the message when it is older than the fragment timeout.
Both are handed their time by the caller, and an application that reads the
clock for the two in different tasks may hand the poll an earlier time than the
frame had. The age is an unsigned difference: a millisecond before the start is
`2 ^ 32 - 1` milliseconds after it, which is older than any timeout.
-/

namespace Relinow

open SlotTable Runs

/-! ## Calls on a clock that does not wrap -/

/-- A call of the API and its time. -/
inductive TimedCall where
  | openChannel (channelId mode priority : U8)
  | sendReliable (channelId : U8) (payload : List U8) (now : Nat)
  | sendUnreliable (channelId : U8) (payload : List U8)
  | sendPriority (channelId : U8) (payload : List U8)
  | onReceive (src : Mac) (data : List U8) (now : Nat)
  | poll (now : Nat)
  deriving DecidableEq, Repr

/-- The call as it is made, with the low 32 bits of the time. -/
def TimedCall.api : TimedCall → ApiCall
  | .openChannel c mode priority => .openChannel c mode priority
  | .sendReliable c payload now => .sendReliable c payload (clock now)
  | .sendUnreliable c payload => .sendUnreliable c payload
  | .sendPriority c payload => .sendPriority c payload
  | .onReceive src data now => .onReceive src data (clock now)
  | .poll now => .poll (clock now)

structure TimedStep where
  radio : Radio
  call : TimedCall

/-- The node after the call. -/
def Node.after (node : Node) (a : TimedStep) : Node := (a.call.api.run a.radio node).2.node

/-- When the message in reassembly was started, if there is one. -/
def Node.startMs (node : Node) : Option U32 :=
  if node.reassemblyActive then some node.reassemblyStartMs else none

theorem startMs_congr {node node' : Node} (h : node'.assembling = node.assembling) :
    node'.startMs = node.startMs := by
  unfold Node.assembling at h
  obtain ⟨hactive, h⟩ := Prod.mk.inj h
  obtain ⟨_, h⟩ := Prod.mk.inj h
  unfold Node.startMs
  rw [hactive, (Prod.mk.inj h).2]

theorem startMs_eq_some {node : Node} {s : U32} :
    node.startMs = some s ↔ node.reassemblyActive = true ∧ node.reassemblyStartMs = s := by
  unfold Node.startMs
  split
  · rename_i h
    rw [Option.some.injEq]
    exact ⟨fun hs => ⟨h, hs⟩, fun hs => hs.2⟩
  · rename_i h
    exact ⟨fun hs => absurd hs (by simp), fun hs => absurd hs.1 h⟩

/-! ## Where a start comes from -/

/-- From `node` to `node'`, the message in reassembly ended, stayed, or was started at `now`. -/
def StartsAt (now : U32) (node node' : Node) : Prop :=
  node'.startMs = none ∨ node'.startMs = node.startMs ∨ node'.startMs = some now

section

variable {now : U32} {a b c : Node}

theorem StartsAt.trans (h : StartsAt now a b) (h' : StartsAt now b c) : StartsAt now a c := by
  rcases h' with h' | h' | h'
  · exact Or.inl h'
  · unfold StartsAt
    rw [h']
    exact h
  · exact Or.inr (Or.inr h')

theorem StartsAt.of_assembling (h : b.assembling = a.assembling) : StartsAt now a b :=
  Or.inr (Or.inl (startMs_congr h))

theorem startsAt_reset (node node' : Node) : StartsAt now node (reassemblyReset node') :=
  Or.inl rfl

theorem startsAt_start (node : Node) (q : U16) :
    StartsAt now node (reassemblyStart node q now) := by
  unfold reassemblyStart
  split
  · exact Or.inr (Or.inl rfl)
  · exact Or.inr (Or.inr rfl)

/-- Giving up a cache entry neither starts nor ends a message. -/
theorem StartsAt.release {k : Call} (h : StartsAt now a k.node) (i : Fin rxCacheSize) :
    StartsAt now a (k.release i).node :=
  h.trans (StartsAt.of_assembling rfl)

end

/-- One delivered frame. -/
theorem deliverOne_startsAt (src : Mac) (c : U8) (now : U32) (k : Call) (q : U16) :
    StartsAt now k.node (deliverOne src c now k q).node := by
  rcases deliverOne_cases src c now k q with ⟨_, heq⟩ | ⟨i, _, _, _, ⟨_, heq⟩ | ⟨_, heq⟩⟩ <;>
    rw [heq]
  · exact StartsAt.of_assembling rfl
  · -- a fragment starts a message if need be, and may then end it
    refine StartsAt.release ?_ i
    obtain ⟨node, buf, rfl, _, ⟨_, heq⟩ | ⟨_, _, rest, heq, _⟩ | ⟨_, _, heq⟩⟩ :=
      deliverFragment_cases k src c now k.node.rxCache[i] <;> rw [heq]
    · exact startsAt_reset _ _
    · exact startsAt_reset _ _
    · exact startsAt_start k.node _
  · refine StartsAt.release ?_ i
    unfold deliverPlain
    rw [raiseMessage_node]
    split
    · exact startsAt_reset _ _
    · exact StartsAt.of_assembling rfl

theorem deliverAll_startsAt (src : Mac) (c : U8) (now : U32) (ds : List U16) :
    ∀ k : Call, StartsAt now k.node (ds.foldl (deliverOne src c now) k).node := by
  induction ds with
  | nil => exact fun _ => StartsAt.of_assembling rfl
  | cons d ds ih => exact fun k => (deliverOne_startsAt src c now k d).trans (ih _)

/-- **A frame** starts a message at its own time or not at all. -/
theorem onReceive_startsAt (radio : Radio) (node : Node) (src : Mac) (data : List U8) (now : U32) :
    StartsAt now node (onReceive radio node src data now).2.node := by
  rcases onReceive_rx radio node src data now with hquiet | ⟨header, channel, _, _, heq⟩
  · exact StartsAt.of_assembling hquiet.node_quiet.assembling
  · have hstore : (rxCacheStore node header (framePayload data)).assembling = node.assembling := by
      rw [rxCacheStore_frame]
      rfl
    rw [heq]
    unfold receiveData
    dsimp only
    split
    · exact StartsAt.of_assembling hstore
    · refine StartsAt.trans ?_ (deliverAll_startsAt src header.channelId now _ _)
      rw [sendFrame_node]
      exact StartsAt.of_assembling hstore

/-- **Only an arrival starts a message.** -/
theorem after_startMs (node : Node) (a : TimedStep) :
    (node.after a).startMs = none ∨ (node.after a).startMs = node.startMs
      ∨ ∃ src data u, a.call = .onReceive src data u ∧ (node.after a).startMs = some (clock u) := by
  obtain ⟨radio, call⟩ := a
  cases call with
  | openChannel c mode priority =>
      refine Or.inr (Or.inl (startMs_congr ?_))
      rcases openChannel_rx node c mode priority with hq | ⟨_, _, _, _, _, hre⟩
      · exact hq.assembling
      · exact hre
  | sendReliable c payload now =>
      exact Or.inr (Or.inl (startMs_congr
        (sendReliable_rx radio node c payload (clock now)).node_quiet.assembling))
  | sendUnreliable c payload =>
      exact Or.inr (Or.inl (startMs_congr
        (sendUnreliable_quiet radio node c payload).rxQuiet.assembling))
  | sendPriority c payload =>
      exact Or.inr (Or.inl (startMs_congr
        (sendPriority_quiet radio node c payload).rxQuiet.assembling))
  | onReceive src data now =>
      rcases onReceive_startsAt radio node src data (clock now) with h | h | h
      · exact Or.inl h
      · exact Or.inr (Or.inl h)
      · exact Or.inr (Or.inr ⟨src, data, now, rfl, h⟩)
  | poll now =>
      have hpoll := startMs_congr (poll_rx radio node (clock now)).node_quiet.assembling
      rcases pollReassembly_cases node (clock now) with h | ⟨_, h⟩
      · rw [h] at hpoll
        exact Or.inr (Or.inl hpoll)
      · rw [h] at hpoll
        exact Or.inl hpoll

/-- The message in reassembly after the calls was started by an arrival at time `u`, and has been
in reassembly since. -/
def StartedAt (node : Node) (as : List TimedStep) (u : Nat) : Prop :=
  ∃ i a src data, as[i]? = some a ∧ a.call = .onReceive src data u
    ∧ ∀ j, i < j → j ≤ as.length →
      (run Node.after node (as.take j)).startMs = some (clock u)

/-- A message that stays in reassembly was started when it was. -/
theorem StartedAt.snoc {node : Node} {as : List TimedStep} {u : Nat} (h : StartedAt node as u)
    (a : TimedStep) (hstay : (run Node.after node (as ++ [a])).startMs = some (clock u)) :
    StartedAt node (as ++ [a]) u := by
  obtain ⟨i, a', src, data, hi, hcall, hall⟩ := h
  have hlt : i < as.length := (List.getElem?_eq_some_iff.mp hi).1
  refine ⟨i, a', src, data, by rwa [List.getElem?_append_left hlt], hcall, fun j hij hj => ?_⟩
  rw [List.length_append, List.length_singleton] at hj
  rcases Nat.lt_or_ge as.length j with hlast | hle
  · rw [List.take_of_length_le (by rw [List.length_append, List.length_singleton]; omega)]
    exact hstay
  · rw [List.take_append_of_le_length hle]
    exact hall j hij hle

/-- **Every message in reassembly was started by an arrival.** -/
theorem startedAt_of_active {node : Node} (hnone : node.reassemblyActive = false)
    (as : List TimedStep) {s : U32} :
    (run Node.after node as).startMs = some s → ∃ u, s = clock u ∧ StartedAt node as u := by
  induction as using List.reverseRecOn with
  | nil =>
      intro h
      rw [run_nil, startMs_eq_some, hnone] at h
      exact absurd h.1 Bool.false_ne_true
  | append_singleton as a ih =>
      intro h
      have hstep := h
      rw [run_append] at hstep
      rcases after_startMs (run Node.after node as) a with hend | hstay |
        ⟨src, data, u, hcall, hnew⟩
      · exact absurd (hend.symm.trans hstep) (by simp)
      · obtain ⟨u, rfl, hu⟩ := ih (hstay.symm.trans hstep)
        exact ⟨u, rfl, hu.snoc a h⟩
      · -- the last call started it
        obtain rfl : clock u = s := Option.some.inj (hnew.symm.trans hstep)
        refine ⟨u, rfl, as.length, a, src, data, by simp, hcall, fun j hij hj => ?_⟩
        rw [List.length_append, List.length_singleton] at hj
        rw [List.take_of_length_le (by rw [List.length_append, List.length_singleton]; omega)]
        exact h

/-! ## How a poll judges the age -/

/-- The age of what was started later than now is close to `2 ^ 32`. -/
theorem age_of_lt {t u : Nat} (h : t < u) (hclose : u ≤ t + 2 ^ 32) :
    (clock t - clock u).toNat = 2 ^ 32 - (u - t) := by
  unfold clock
  rw [BitVec.toNat_sub, BitVec.toNat_ofNat, BitVec.toNat_ofNat]
  omega

/-- The partial message is as it was. -/
structure KeepsPartial (node node' : Node) : Prop where
  active : node'.reassemblyActive = node.reassemblyActive
  firstSeq : node'.reassemblyFirstSeq = node.reassemblyFirstSeq
  len : node'.reassemblyBuf.length = node.reassemblyBuf.length
  buf : node'.reassemblyBuf = node.reassemblyBuf

theorem keepsPartial_of_assembling {node node' : Node} (h : node'.assembling = node.assembling) :
    KeepsPartial node node' := by
  unfold Node.assembling at h
  obtain ⟨hactive, h⟩ := Prod.mk.inj h
  obtain ⟨hseq, h⟩ := Prod.mk.inj h
  obtain ⟨hbuf, _⟩ := Prod.mk.inj h
  exact ⟨hactive, hseq, congrArg List.length hbuf, hbuf⟩

/-- **A poll keeps a partial message** exactly when its age does not exceed the timeout. -/
theorem poll_keepsPartial (radio : Radio) {node : Node} {s : U32} (hs : node.startMs = some s)
    (now : U32) :
    KeepsPartial node (poll radio node now).2.node ↔
      (now - s).toNat ≤ node.fragmentTimeoutMs.toNat := by
  obtain ⟨hactive, rfl⟩ := startMs_eq_some.mp hs
  have hpoll := (poll_rx radio node now).node_quiet.assembling
  by_cases hold : node.fragmentTimeoutMs.toNat < (now - node.reassemblyStartMs).toNat
  · have hreset : pollReassembly node now = reassemblyReset node := by
      unfold pollReassembly
      rw [if_pos (by rw [hactive, decide_eq_true hold]; rfl)]
    rw [hreset] at hpoll
    refine ⟨fun hkeep => ?_, fun hyoung => absurd hold (Nat.not_lt.mpr hyoung)⟩
    have hended : (poll radio node now).2.node.reassemblyActive = false :=
      (Prod.mk.inj hpoll).1
    rw [hkeep.active, hactive] at hended
    exact absurd hended (by decide)
  · have hsame : pollReassembly node now = node := by
      unfold pollReassembly
      rw [if_neg (by rw [Bool.and_eq_true, decide_eq_true_iff]; exact fun h => hold h.2)]
    rw [hsame] at hpoll
    exact ⟨fun _ => Nat.not_lt.mp hold, fun _ => keepsPartial_of_assembling hpoll⟩

/--
**When a partial message survives a poll.** Within a second before the time `u`
at which it was started and the fragment timeout after it, a poll leaves it alone
exactly when the poll's time is not before `u`.
-/
theorem partial_kept_iff {node : Node} {as : List TimedStep} {u t : Nat}
    (hstart : StartedAt node as u) (hlo : u ≤ t + 1000)
    (hhi : t ≤ u + (run Node.after node as).fragmentTimeoutMs.toNat) (radio : Radio) :
    KeepsPartial (run Node.after node as)
      (poll radio (run Node.after node as) (clock t)).2.node ↔ u ≤ t := by
  obtain ⟨i, a, src, data, hi, _, hall⟩ := hstart
  have hs := hall as.length (List.getElem?_eq_some_iff.mp hi).1 (Nat.le_refl _)
  rw [List.take_length] at hs
  have htimeout := (run Node.after node as).fragmentTimeoutMs.isLt
  rw [poll_keepsPartial radio hs]
  rcases Nat.lt_or_ge t u with hlt | hge
  · rw [age_of_lt hlt (by omega)]
    omega
  · rw [elapsed_eq hge (by omega)]
    omega

/-- A first fragment arrives at 1000 ms. -/
def halfMessage : List TimedStep :=
  [⟨Radio.up, .onReceive (Vector.replicate 6 0#8)
    [0x11#8, 0x11#8, 0#8, 0#8, 0#8, 0#8, 1#8, 0#8, 1#8, 10#8] 1000⟩]

theorem halfMessage_started : StartedAt listenNode halfMessage 1000 := by
  refine ⟨0, _, _, _, rfl, rfl, fun j hij hj => ?_⟩
  obtain rfl : j = 1 := Nat.le_antisymm hj hij
  decide +kernel

/-- At 1000 ms it is still there. -/
theorem partial_kept_iff_half :
    KeepsPartial (run Node.after listenNode halfMessage)
      (poll Radio.up (run Node.after listenNode halfMessage) (clock 1000)).2.node :=
  (partial_kept_iff halfMessage_started (by decide) (by decide +kernel) Radio.up).mpr
    (Nat.le_refl 1000)

/-- **A poll with the time of a millisecond before discards it.** -/
theorem partial_not_kept :
    ¬ ∀ (node₀ node : Node) (cfg : Config), init node₀ cfg = (.ok, node) →
      ∀ (as : List TimedStep) (u t : Nat), StartedAt node as u → u ≤ t + 1000 →
        t ≤ u + (run Node.after node as).fragmentTimeoutMs.toNat → ∀ radio : Radio,
        KeepsPartial (run Node.after node as)
          (poll radio (run Node.after node as) (clock t)).2.node := by
  intro h
  have hinit : init Node.zero listenConfig = (.ok, listenNode) :=
    Prod.ext (by decide +kernel) rfl
  have hkeep := h Node.zero listenNode listenConfig hinit halfMessage 1000 999 halfMessage_started
    (by decide) (by decide +kernel) Radio.up
  exact absurd hkeep.active (by decide +kernel)

end Relinow
