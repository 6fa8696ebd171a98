import Relinow.Proof.EngineRun
import Relinow.Proof.StateSpec
import Mathlib.Data.List.Chain
import Mathlib.Data.List.DropRight

/-!
# The heartbeat of a peer

A peer record keeps a counter of unanswered pings and the time of the last ping.
`relinow_state_poll_heartbeat` asks for a ping when the interval has passed and
the counter is below its limit, and reports a timeout when the interval has
passed and the counter is at it; `relinow_state_on_pong` clears the counter.

The heartbeat works on four fields of the record, and these four are all that the
results need of it. A record of the run says what was asked for and when, on a
clock that does not wrap, and the fields turn out to be functions of it.
-/

namespace Relinow

open SlotTable Runs

/-- The part of a peer record that heartbeats work on. -/
structure Heartbeat where
  intervalMs : U16
  missCountMax : U8
  lastPingSentMs : U32
  missedPongs : U8
  deriving DecidableEq, Repr

abbrev PeerState.heartbeat (peer : PeerState) : Heartbeat :=
  { intervalMs := peer.heartbeatIntervalMs
    missCountMax := peer.heartbeatMissCountMax
    lastPingSentMs := peer.lastPingSentMs
    missedPongs := peer.missedPongs }

/-- The heartbeat of peer `p`, if the peer is in use. -/
def heartbeatAt (state : State) (p : U8) : Option Heartbeat :=
  if h : p.toNat < maxPeers then
    let peer := state.peers[p.toNat]
    if peer.inUse then some peer.heartbeat else none
  else none

theorem heartbeatAt_eq_some {state : State} {p : U8} {b : Heartbeat} :
    heartbeatAt state p = some b ↔
      ∃ i : Fin maxPeers, i.val = p.toNat ∧ state.peers[i].inUse = true
        ∧ state.peers[i].heartbeat = b := by
  unfold heartbeatAt
  constructor
  · intro h
    split at h
    · rename_i hp
      dsimp only at h
      split at h
      · rename_i hu
        exact ⟨⟨p.toNat, hp⟩, rfl, hu, Option.some.inj h⟩
      · exact absurd h (by simp)
    · exact absurd h (by simp)
  · rintro ⟨⟨i, hi⟩, rfl, hu, rfl⟩
    rw [dif_pos hi]
    exact if_pos hu

/-- Heartbeats see four fields and whether the peer is in use. -/
theorem heartbeatAt_congr {state state' : State} {p : U8}
    (h : ∀ i : Fin maxPeers, state'.peers[i].inUse = state.peers[i].inUse
      ∧ state'.peers[i].heartbeat = state.peers[i].heartbeat) :
    heartbeatAt state' p = heartbeatAt state p := by
  apply Option.ext
  intro b
  rw [heartbeatAt_eq_some, heartbeatAt_eq_some]
  refine exists_congr fun i => ?_
  rw [(h i).1, (h i).2]

theorem heartbeatAt_setPeer {state : State} {p : U8} {i : Fin maxPeers} {peer : PeerState}
    (hi : i.val = p.toNat) (hu : peer.inUse = true) :
    heartbeatAt (state.setPeer i peer) p = some peer.heartbeat := by
  have hget : (state.setPeer i peer).peers[i] = peer := put_self _ _ _
  exact heartbeatAt_eq_some.mpr ⟨i, hi, by rw [hget, hu], by rw [hget]⟩

namespace Heartbeat

/-- The interval has passed since the last ping. -/
abbrev Due (b : Heartbeat) (now : U32) : Prop :=
  b.intervalMs.toNat ≤ (now - b.lastPingSentMs).toNat

/-- As many pings as allowed have gone unanswered. -/
abbrev Lost (b : Heartbeat) : Prop := b.missCountMax ≤ b.missedPongs

/-- `relinow_state_poll_heartbeat` on the four fields. -/
def poll (b : Heartbeat) (now : U32) : Heartbeat × HeartbeatPoll :=
  if b.intervalMs = 0#16 then (b, ⟨false, false⟩)
  else if b.Due now then
    if b.Lost then (b, ⟨false, true⟩)
    else ({ b with missedPongs := b.missedPongs + 1#8, lastPingSentMs := now }, ⟨true, false⟩)
  else (b, ⟨false, false⟩)

/-- **A timeout** is reported when the interval has passed and the limit is reached. -/
theorem poll_timeout (b : Heartbeat) (now : U32) :
    (b.poll now).2.peerTimeout = true ↔ b.intervalMs ≠ 0#16 ∧ b.Lost ∧ b.Due now := by
  unfold poll
  split
  · rename_i h0
    exact ⟨fun h => absurd h Bool.false_ne_true, fun h => absurd h0 h.1⟩
  · rename_i h0
    split
    · rename_i hdue
      split
      · rename_i hlost
        exact ⟨fun _ => ⟨h0, hlost, hdue⟩, fun _ => rfl⟩
      · rename_i hlost
        exact ⟨fun h => absurd h Bool.false_ne_true, fun h => absurd h.2.1 hlost⟩
    · rename_i hdue
      exact ⟨fun h => absurd h Bool.false_ne_true, fun h => absurd h.2.2 hdue⟩

/-- At the limit a poll leaves everything as it is. -/
theorem poll_lost {b : Heartbeat} (h : b.Lost) (now : U32) : (b.poll now).1 = b := by
  unfold poll
  rw [if_pos h]
  split
  · rfl
  · split <;> rfl

/-- `relinow_state_on_pong` on the four fields. -/
def onPong (b : Heartbeat) : Heartbeat := { b with missedPongs := 0#8 }

end Heartbeat

/-- **A poll reads and writes the four fields.** -/
theorem statePollHeartbeat_at {state : State} {p : U8} {b : Heartbeat}
    (h : heartbeatAt state p = some b) (now : U32) :
    heartbeatAt (statePollHeartbeat state p now).st p = some (b.poll now).1
      ∧ (statePollHeartbeat state p now).out = (b.poll now).2 := by
  have hsame := h
  obtain ⟨i, hi, hu, rfl⟩ := heartbeatAt_eq_some.mp h
  have hp : p.toNat < maxPeers := hi ▸ i.isLt
  obtain rfl : i = ⟨p.toNat, hp⟩ := Fin.ext hi
  unfold statePollHeartbeat
  rw [dif_pos hp]
  dsimp only
  generalize state.peers[(⟨p.toNat, hp⟩ : Fin maxPeers)] = peer at hu hsame ⊢
  unfold Heartbeat.poll Heartbeat.Due Heartbeat.Lost
  dsimp only [PeerState.heartbeat]
  by_cases h0 : peer.heartbeatIntervalMs = 0#16
  · rw [if_pos (by rw [h0]; simp), if_pos h0]
    exact ⟨hsame, rfl⟩
  · rw [if_neg (by rw [hu]; simpa using h0), if_neg h0]
    by_cases hdue : peer.heartbeatIntervalMs.toNat ≤ (now - peer.lastPingSentMs).toNat
    · rw [if_pos hdue, if_pos hdue]
      by_cases hlost : peer.heartbeatMissCountMax ≤ peer.missedPongs
      · rw [if_pos hlost, if_pos hlost]
        exact ⟨hsame, rfl⟩
      · rw [if_neg hlost, if_neg hlost]
        exact ⟨heartbeatAt_setPeer rfl hu, rfl⟩
    · rw [if_neg hdue, if_neg hdue]
      exact ⟨hsame, rfl⟩

theorem stateOnPong_at {state : State} {p : U8} {b : Heartbeat} (h : heartbeatAt state p = some b) :
    heartbeatAt (stateOnPong state p).st p = some b.onPong := by
  obtain ⟨i, hi, hu, rfl⟩ := heartbeatAt_eq_some.mp h
  have hp : p.toNat < maxPeers := hi ▸ i.isLt
  obtain rfl : i = ⟨p.toNat, hp⟩ := Fin.ext hi
  unfold stateOnPong
  rw [dif_pos hp]
  dsimp only
  rw [if_neg (by rw [hu]; decide)]
  exact heartbeatAt_setPeer rfl hu

/-- Configuring a peer starts its heartbeat over, from time 0. -/
theorem stateConfigureHeartbeat_at {state : State} {p : U8} {interval : U16} {miss : U8}
    (h : (stateConfigureHeartbeat state p interval miss).rc = .ok) :
    heartbeatAt (stateConfigureHeartbeat state p interval miss).st p
      = some ⟨interval, miss, 0#32, 0#8⟩ := by
  unfold stateConfigureHeartbeat at h ⊢
  split at h
  · rename_i hi
    dsimp only at h
    split at h
    · exact absurd h (by simp)
    · rename_i hu
      rw [dif_pos hi, if_neg hu]
      exact heartbeatAt_setPeer rfl (by simpa using hu)
  · exact absurd h (by simp)

/-! ## Runs -/

/-- A call on the heartbeat of a peer. -/
inductive HeartbeatCall where
  | poll (now : Nat)
  | onPong
  deriving DecidableEq, Repr

/-- A call that was made; of a poll also when, and what it asked for. -/
inductive HeartbeatNote where
  | polled (now : Nat) (out : HeartbeatPoll)
  | pong
  deriving DecidableEq, Repr

/-- A state, and the calls made on it. -/
structure HeartbeatRun where
  state : State
  log : List HeartbeatNote
  deriving DecidableEq, Repr

/-- The run after one more call for peer `p`. -/
def HeartbeatRun.step (p : U8) (w : HeartbeatRun) : HeartbeatCall → HeartbeatRun
  | .poll now =>
      let r := statePollHeartbeat w.state p (clock now)
      ⟨r.st, w.log ++ [.polled now r.out]⟩
  | .onPong => ⟨(stateOnPong w.state p).st, w.log ++ [.pong]⟩

/-- The time of a poll. -/
def HeartbeatNote.pollTime : HeartbeatNote → Option Nat
  | .polled now _ => some now
  | .pong => none

/-- The time of a poll that asked for a ping. -/
def HeartbeatNote.pingTime : HeartbeatNote → Option Nat
  | .polled now out => if out.shouldPing then some now else none
  | .pong => none

def HeartbeatNote.isPong : HeartbeatNote → Bool
  | .polled _ _ => false
  | .pong => true

/-- When pings were sent. -/
def pingTimes (log : List HeartbeatNote) : List Nat := log.filterMap HeartbeatNote.pingTime

/-- When the last ping was sent; 0 if none ever was. -/
def lastPing (log : List HeartbeatNote) : Nat := (pingTimes log).getLast?.getD 0

/-- How many pings were sent after the last pong. -/
def pingsSincePong (log : List HeartbeatNote) : Nat :=
  (pingTimes (log.rtakeWhile fun note => !note.isPong)).length

/-- Polls come in order of time, and less than `2 ^ 32` ms after the last ping. -/
def InTime (w : HeartbeatRun) : HeartbeatCall → Prop
  | .poll now => (∀ t ∈ w.log.filterMap HeartbeatNote.pollTime, t ≤ now)
      ∧ now - lastPing w.log < 2 ^ 32
  | .onPong => True

instance decidableInTime (w : HeartbeatRun) (call : HeartbeatCall) : Decidable (InTime w call) :=
  match call with
  | .poll now => inferInstanceAs (Decidable ((∀ t ∈ _, t ≤ now) ∧ _ < _))
  | .onPong => isTrue trivial

theorem pingTimes_snoc (log : List HeartbeatNote) (note : HeartbeatNote) :
    pingTimes (log ++ [note]) = pingTimes log ++ note.pingTime.toList := by
  unfold pingTimes
  rw [List.filterMap_append]
  cases h : note.pingTime <;> simp [h]

/-- Calls that send no ping leave the last one where it is. -/
theorem lastPing_snoc (log : List HeartbeatNote) (note : HeartbeatNote) :
    lastPing (log ++ [note]) = note.pingTime.getD (lastPing log) := by
  unfold lastPing
  rw [pingTimes_snoc]
  cases note.pingTime <;> simp

/-- A poll adds a ping to the count or leaves it; a pong starts it over. -/
theorem pingsSincePong_snoc (log : List HeartbeatNote) (note : HeartbeatNote) :
    pingsSincePong (log ++ [note])
      = if note.isPong then 0 else pingsSincePong log + note.pingTime.toList.length := by
  unfold pingsSincePong
  rw [List.rtakeWhile_concat]
  cases note with
  | pong => rfl
  | polled now out =>
      show (pingTimes (_ ++ [HeartbeatNote.polled now out])).length = _ + _
      rw [pingTimes_snoc, List.length_append]

/-- Pings are sent by polls. -/
theorem lastPing_le {log : List HeartbeatNote} {now : Nat}
    (h : ∀ t ∈ log.filterMap HeartbeatNote.pollTime, t ≤ now) : lastPing log ≤ now := by
  unfold lastPing
  cases hlast : (pingTimes log).getLast? with
  | none => exact Nat.zero_le now
  | some t =>
      obtain ⟨note, hnote, ht⟩ := List.mem_filterMap.mp (List.mem_of_getLast? hlast)
      refine h t (List.mem_filterMap.mpr ⟨note, hnote, ?_⟩)
      cases note with
      | pong => exact absurd ht (by simp [HeartbeatNote.pingTime])
      | polled t' out =>
          unfold HeartbeatNote.pingTime at ht
          dsimp only at ht
          split at ht
          · exact ht
          · exact absurd ht (by simp)

/-! ## The fields say what the record says -/

/-- The four fields, given what was done so far. -/
structure Counted (interval : U16) (miss : U8) (b : Heartbeat) (log : List HeartbeatNote) :
    Prop where
  interval : b.intervalMs = interval
  max : b.missCountMax = miss
  last : b.lastPingSentMs = clock (lastPing log)
  missed : b.missedPongs.toNat = pingsSincePong log
  bound : pingsSincePong log ≤ miss.toNat

/-- What a poll may say, given those before it. -/
def Honest (interval : U16) (miss : U8) (log : List HeartbeatNote) : HeartbeatNote → Prop
  | .polled now out =>
      (out.peerTimeout = true ↔
        pingsSincePong log = miss.toNat ∧ interval.toNat ≤ now - lastPing log)
      ∧ (out.shouldPing = true ↔
        pingsSincePong log < miss.toNat ∧ interval.toNat ≤ now - lastPing log)
  | .pong => True

/-- Pings keep their distance. -/
def Spaced (interval : U16) (log : List HeartbeatNote) : Prop :=
  (pingTimes log).IsChain fun s t => s + interval.toNat ≤ t

section

variable {interval : U16} {miss : U8} {b : Heartbeat} {log : List HeartbeatNote}

theorem counted_start (interval : U16) (miss : U8) :
    Counted interval miss ⟨interval, miss, 0#32, 0#8⟩ [] :=
  ⟨rfl, rfl, rfl, rfl, Nat.zero_le _⟩

/-- **A pong** clears the counter. -/
theorem Counted.pong (h : Counted interval miss b log) :
    Counted interval miss b.onPong (log ++ [.pong]) where
  interval := h.interval
  max := h.max
  last := by
    rw [lastPing_snoc]
    exact h.last
  missed := by
    rw [pingsSincePong_snoc]
    rfl
  bound := by
    rw [pingsSincePong_snoc]
    exact Nat.zero_le _

/-- A poll that sends no ping changes nothing. -/
theorem Counted.silent (h : Counted interval miss b log) (now : Nat) (timeout : Bool) :
    Counted interval miss b (log ++ [.polled now ⟨false, timeout⟩]) where
  interval := h.interval
  max := h.max
  last := by
    rw [lastPing_snoc]
    exact h.last
  missed := by
    rw [pingsSincePong_snoc]
    exact h.missed
  bound := by
    rw [pingsSincePong_snoc]
    exact h.bound

/-- **A ping** is counted and dated. Below the limit the counter does not wrap. -/
theorem Counted.ping (h : Counted interval miss b log) (hmiss : pingsSincePong log < miss.toNat)
    (now : Nat) :
    Counted interval miss
      { b with missedPongs := b.missedPongs + 1#8, lastPingSentMs := clock now }
      (log ++ [.polled now ⟨true, false⟩]) where
  interval := h.interval
  max := h.max
  last := by
    rw [lastPing_snoc]
    rfl
  missed := by
    rw [pingsSincePong_snoc]
    show (b.missedPongs + 1#8).toNat = pingsSincePong log + 1
    have hval := h.missed
    have hm := miss.isLt
    rw [BitVec.toNat_add, hval]
    exact Nat.mod_eq_of_lt (by simp; omega)
  bound := by
    rw [pingsSincePong_snoc]
    exact hmiss

/-- **What a poll says and leaves behind.** -/
theorem Counted.poll (h : Counted interval miss b log) (hpos : 0 < interval.toNat) {now : Nat}
    (horder : ∀ t ∈ log.filterMap HeartbeatNote.pollTime, t ≤ now)
    (hwrap : now - lastPing log < 2 ^ 32) :
    Honest interval miss log (.polled now (b.poll (clock now)).2)
      ∧ Counted interval miss (b.poll (clock now)).1
        (log ++ [.polled now (b.poll (clock now)).2]) := by
  have hdue : b.Due (clock now) ↔ interval.toNat ≤ now - lastPing log := by
    unfold Heartbeat.Due
    rw [h.interval, h.last, elapsed_eq (lastPing_le horder) hwrap]
  have hlost : b.Lost ↔ pingsSincePong log = miss.toNat := by
    unfold Heartbeat.Lost
    rw [h.max, BitVec.le_def, h.missed]
    have := h.bound
    omega
  have hon : b.intervalMs ≠ 0#16 := by
    rw [h.interval]
    rintro rfl
    exact absurd hpos (by decide)
  unfold Heartbeat.poll
  rw [if_neg hon]
  by_cases hd : b.Due (clock now)
  · rw [if_pos hd]
    have hpassed := hdue.mp hd
    by_cases hl : b.Lost
    · have hcount := hlost.mp hl
      rw [if_pos hl]
      refine ⟨⟨⟨fun _ => ⟨hcount, hpassed⟩, fun _ => rfl⟩, ?_⟩, h.silent now true⟩
      exact ⟨fun hf => absurd hf Bool.false_ne_true, fun hf => absurd hcount (Nat.ne_of_lt hf.1)⟩
    · have hcount : pingsSincePong log < miss.toNat :=
        Nat.lt_of_le_of_ne h.bound fun he => hl (hlost.mpr he)
      rw [if_neg hl]
      refine ⟨⟨?_, ⟨fun _ => ⟨hcount, hpassed⟩, fun _ => rfl⟩⟩, h.ping hcount now⟩
      exact ⟨fun hf => absurd hf Bool.false_ne_true, fun hf => absurd hf.1 (Nat.ne_of_lt hcount)⟩
  · rw [if_neg hd]
    have hearly : ¬ interval.toNat ≤ now - lastPing log := fun hp => hd (hdue.mpr hp)
    refine ⟨⟨?_, ?_⟩, h.silent now false⟩
    · exact ⟨fun hf => absurd hf Bool.false_ne_true, fun hf => absurd hf.2 hearly⟩
    · exact ⟨fun hf => absurd hf Bool.false_ne_true, fun hf => absurd hf.2 hearly⟩

/-- Pings that are sent when the interval has passed keep their distance. -/
theorem Spaced.snoc (h : Spaced interval log) (hpos : 0 < interval.toNat) {note : HeartbeatNote}
    (hnote : Honest interval miss log note) : Spaced interval (log ++ [note]) := by
  unfold Spaced
  rw [pingTimes_snoc]
  cases note with
  | pong =>
      show List.IsChain _ (pingTimes log ++ [])
      rw [List.append_nil]
      exact h
  | polled now out =>
      cases hping : out.shouldPing with
      | false =>
          have htime : (HeartbeatNote.polled now out).pingTime = none := by
            simp [HeartbeatNote.pingTime, hping]
          rw [htime, Option.toList_none, List.append_nil]
          exact h
      | true =>
          have hpassed := (hnote.2.mp hping).2
          have htime : (HeartbeatNote.polled now out).pingTime = some now := by
            simp [HeartbeatNote.pingTime, hping]
          rw [htime]
          refine List.isChain_append.mpr ⟨h, List.isChain_singleton now, ?_⟩
          intro s hs t ht
          obtain rfl : now = t := by simpa using ht
          have hlast : lastPing log = s := by
            unfold lastPing
            rw [hs]
            rfl
          omega

end

/-- The run so far: the fields follow the record, and everything in the record was called for. -/
structure HeartbeatInv (p : U8) (interval : U16) (miss : U8) (w : HeartbeatRun) : Prop where
  fields : ∃ b, heartbeatAt w.state p = some b ∧ Counted interval miss b w.log
  honest : ∀ k note, w.log[k]? = some note → Honest interval miss (w.log.take k) note
  spaced : Spaced interval w.log

theorem heartbeatInv_step {p : U8} {interval : U16} {miss : U8} (hpos : 0 < interval.toNat)
    (w : HeartbeatRun) (call : HeartbeatCall) (h : HeartbeatInv p interval miss w)
    (htime : InTime w call) : HeartbeatInv p interval miss (w.step p call) := by
  obtain ⟨b, hb, hcount⟩ := h.fields
  cases call with
  | onPong =>
      have hnote : Honest interval miss w.log .pong := trivial
      exact ⟨⟨b.onPong, stateOnPong_at hb, hcount.pong⟩, history_snoc h.honest hnote,
        h.spaced.snoc hpos hnote⟩
  | poll now =>
      obtain ⟨hst, hout⟩ := statePollHeartbeat_at hb (clock now)
      obtain ⟨hnote, hnext⟩ := hcount.poll hpos htime.1 htime.2
      unfold HeartbeatRun.step
      dsimp only
      rw [hout]
      exact ⟨⟨_, hst, hnext⟩, history_snoc h.honest hnote, h.spaced.snoc hpos hnote⟩

/--
**Heartbeat timeouts are sound and complete.** After a peer was configured with
an interval and a limit, every poll reports a timeout exactly when as many pings
as the limit allows were sent since the last pong, and asks for a ping exactly
when fewer were, in both cases if the interval has passed since the last ping.
Pings are at least an interval apart, and the counter stays within the limit.
-/
theorem heartbeat_sound_complete {state : State} {p : U8} {interval : U16} {miss : U8}
    (hpos : 0 < interval.toNat) (hcfg : (stateConfigureHeartbeat state p interval miss).rc = .ok)
    (calls : List HeartbeatCall)
    (htime : Along (HeartbeatRun.step p) InTime
      ⟨(stateConfigureHeartbeat state p interval miss).st, []⟩ calls) :
    let w := run (HeartbeatRun.step p)
      ⟨(stateConfigureHeartbeat state p interval miss).st, []⟩ calls
    (∀ k now out, w.log[k]? = some (.polled now out) →
      (out.peerTimeout = true ↔ pingsSincePong (w.log.take k) = miss.toNat
        ∧ interval.toNat ≤ now - lastPing (w.log.take k))
      ∧ (out.shouldPing = true ↔ pingsSincePong (w.log.take k) < miss.toNat
        ∧ interval.toNat ≤ now - lastPing (w.log.take k)))
    ∧ ((pingTimes w.log).IsChain fun s t => s + interval.toNat ≤ t)
    ∧ ∃ b, heartbeatAt w.state p = some b ∧ b.missedPongs.toNat = pingsSincePong w.log
      ∧ b.missedPongs.toNat ≤ miss.toNat := by
  have hstart : HeartbeatInv p interval miss
      ⟨(stateConfigureHeartbeat state p interval miss).st, []⟩ :=
    ⟨⟨_, stateConfigureHeartbeat_at hcfg, counted_start interval miss⟩,
      fun k note h => absurd h (by simp), List.isChain_nil⟩
  have hinv := invariant (heartbeatInv_step hpos) hstart htime
  obtain ⟨b, hb, hcount⟩ := hinv.fields
  refine ⟨fun k now out h => hinv.honest k _ h, hinv.spaced, b, hb, hcount.missed, ?_⟩
  rw [hcount.missed]
  exact hcount.bound

/-- The state with one peer, whose heartbeat is configured for 100 ms and two misses. -/
def beating : State :=
  (stateConfigureHeartbeat (stateAddPeer stateInit (Vector.replicate 6 1#8)).st 0#8 100#16 2#8).st

/-- Two pings go unanswered, the third poll reports a timeout, and a pong ends it. -/
theorem heartbeat_sound_complete_two :
    let w := run (HeartbeatRun.step 0#8) ⟨beating, []⟩
      [.poll 100, .poll 250, .poll 400, .onPong, .poll 500]
    pingTimes w.log = [100, 250, 500]
      ∧ (pingTimes w.log).IsChain fun s t => s + (100#16).toNat ≤ t := by
  have hpos : 0 < (100#16).toNat := by decide
  have hcfg : (stateConfigureHeartbeat (stateAddPeer stateInit (Vector.replicate 6 1#8)).st 0#8
      100#16 2#8).rc = .ok := by decide +kernel
  have hrun := heartbeat_sound_complete hpos hcfg
    [.poll 100, .poll 250, .poll 400, .onPong, .poll 500] (by decide +kernel)
  exact ⟨by decide +kernel, hrun.2.1⟩

end Relinow
