import Relinow.Proof.FragmentLock
import Relinow.Proof.Heartbeat
import Relinow.Proof.NodeState

/-!
# Reports of a lost peer

`relinow_poll` invokes `on_peer_timeout` when the heartbeat reports a timeout.
The report itself leaves no trace: neither the counter nor the time of the last
ping changes. So from the first report on, the four heartbeat fields stay as they
are until a PONG arrives, and every poll that finds the interval passed since
that last ping reports again.
-/

namespace Relinow

open SlotTable Runs

/-- The heartbeat of the node's peer. -/
def Node.heartbeat (node : Node) : Option Heartbeat := heartbeatAt node.state node.peerIndex

/-! ## What leaves heartbeats alone -/

/-- Operations on channels. -/
theorem heartbeatAt_op (op : ChannelOp) (state : State) (p c p' : U8) :
    heartbeatAt (op.run state p c).st p' = heartbeatAt state p' :=
  heartbeatAt_congr fun i => by
    rw [(op.run_onlyChannel state p c).fields i]
    exact ⟨rfl, rfl⟩

/-- The scheduler. -/
theorem heartbeatAt_schedulerNext (state : State) (p p' : U8) (now : U32) :
    heartbeatAt (stateSchedulerNext state p now).st p' = heartbeatAt state p' := by
  rcases stateSchedulerNext_serves state p now with ⟨hst, _, _⟩ | ⟨i, count, _, _, _, _, heq⟩
  · rw [hst]
  · rw [heq]
    unfold serve
    dsimp only
    have hpoll := heartbeatAt_op (.reliablePoll now) state p (scheduled state i count).channelId p'
    refine Eq.trans ?_ hpoll
    refine heartbeatAt_congr fun j => ?_
    by_cases hj : i = j
    · subst hj
      rw [setPeer_get, if_pos rfl]
      exact ⟨rfl, rfl⟩
    · rw [setPeer_get, if_neg hj]
      exact ⟨rfl, rfl⟩

/-! ## What is reported -/

/-- `on_peer_timeout` is invoked. -/
def ReportsTimeout (w : NodeRun) (a : ApiStep) : Prop :=
  ∃ mac, Event.peerTimeout mac ∈ (a.call.run a.radio w.node).2.log

/-- A PONG from the peer is received. -/
def HearsPong (w : NodeRun) (a : ApiStep) : Prop :=
  ∃ data now header, a.call = .onReceive w.node.peerMac data now
    ∧ decodeHeader data w.node.maxPayload = .ok header ∧ header.type = typePong

/-- A call of the main loop: `relinow_poll` or `relinow_on_receive`. -/
def ApiCall.inLoop : ApiCall → Bool
  | .poll _ | .onReceive _ _ _ => true
  | _ => false

/-- At a poll at `now`, the heartbeat `b` of the peer reports a timeout to the callback. -/
structure TimesOut (node : Node) (b : Heartbeat) (now : U32) : Prop where
  callback : node.onPeerTimeout = true
  beat : node.heartbeat = some b
  enabled : b.intervalMs ≠ 0#16
  lost : b.Lost
  due : b.Due now

/-- The log has no report of a timeout. -/
def Unreported (log : List Event) : Prop := ∀ mac, Event.peerTimeout mac ∉ log

theorem unreported_start (node : Node) : Unreported (Call.start node).log :=
  fun _ => List.not_mem_nil

theorem unreported_append {log rest : List Event} (h : Unreported log)
    (hrest : ∀ e ∈ rest, ∀ mac, e ≠ .peerTimeout mac) : Unreported (log ++ rest) := by
  intro mac hmem
  rcases List.mem_append.mp hmem with hmem | hmem
  · exact h mac hmem
  · exact hrest _ hmem mac rfl

theorem unreported_sendFrame {k : Call} (h : Unreported k.log) (radio : Radio)
    (mode c type flags : U8) (q a : U16) (payload : List U8) :
    Unreported (sendFrame radio k mode c type flags q a payload).2.log := by
  obtain ⟨sent, hlog, hsent⟩ := sendFrame_log radio k mode c type flags q a payload
  rw [hlog]
  refine unreported_append h fun e he mac heq => ?_
  obtain ⟨dst, frame, rfl⟩ := hsent e he
  exact absurd heq (by simp)

theorem unreported_raiseMessage {k : Call} (h : Unreported k.log) (site : Delivery) (src : Mac)
    (c : U8) (q : U16) (payload : List U8) :
    Unreported (raiseMessage k site src c q payload).log := by
  unfold raiseMessage
  split
  · refine unreported_append h fun e he mac heq => ?_
    rw [List.mem_singleton.mp he] at heq
    exact absurd heq (by simp)
  · exact h

/-- **Receiving reports no timeout.** -/
theorem onReceive_unreported (radio : Radio) (node : Node) (src : Mac) (data : List U8)
    (now : U32) : Unreported (onReceive radio node src data now).2.log := by
  have hstart := unreported_start
  rw [onReceive_judge]
  cases node.judge src data with
  | short => exact hstart node
  | ignored => exact hstart node
  | heartbeat header =>
      show Unreported (receiveHeartbeat radio (Call.start node) header).2.log
      unfold receiveHeartbeat
      split
      · exact unreported_sendFrame (hstart node) radio _ _ _ _ _ _ _
      · split <;> exact hstart node
  | unreliable header =>
      show Unreported (receiveUnreliable (Call.start node) src header _).2.log
      unfold receiveUnreliable
      split
      · exact unreported_raiseMessage (hstart _) _ _ _ _ _
      · exact hstart node
  | priority header =>
      show Unreported (receivePriority (Call.start node) src header _).2.log
      unfold receivePriority
      split
      · dsimp only
        split
        · exact hstart node
        · split
          · exact unreported_raiseMessage (hstart _) _ _ _ _ _
          · exact hstart node
      · exact hstart node
  | ack header =>
      show Unreported (receiveAck (Call.start node) header now).2.log
      unfold receiveAck
      dsimp only
      split <;> exact hstart node
  | data header =>
      show Unreported (receiveData radio (Call.start node) src header _ now).2.log
      unfold receiveData
      dsimp only
      split
      · exact hstart node
      · -- the ACK first, then the messages
        obtain ⟨messages, hlog, hmessages⟩ := (HandsOver.all src header.channelId now _ _).log
        rw [hlog]
        refine unreported_append ?_ fun e he mac heq => ?_
        · exact unreported_sendFrame (hstart _) radio _ _ _ _ _ _ _
        · obtain ⟨site, src', c, q, payload, rfl, _⟩ := hmessages e he
          exact absurd heq (by simp)

/-- **What a poll reports.** -/
theorem poll_reports (radio : Radio) (node : Node) (now : U32) :
    (∃ mac, Event.peerTimeout mac ∈ (poll radio node now).2.log) ↔
      node.onPeerTimeout = true
        ∧ (statePollHeartbeat node.state node.peerIndex now).out.peerTimeout = true := by
  have hre : (pollReassembly node now).state = node.state
      ∧ (pollReassembly node now).peerIndex = node.peerIndex
      ∧ (pollReassembly node now).onPeerTimeout = node.onPeerTimeout := by
    rcases pollReassembly_cases node now with h | ⟨_, h⟩ <;> rw [h] <;> exact ⟨rfl, rfl, rfl⟩
  obtain ⟨hst, hpi, hcb⟩ := hre
  -- the report is the heartbeat's; nothing after it logs another
  have hbeat : (∃ mac, Event.peerTimeout mac
        ∈ (pollHeartbeat radio (Call.start (pollReassembly node now)) now).log) ↔
      node.onPeerTimeout = true
        ∧ (statePollHeartbeat node.state node.peerIndex now).out.peerTimeout = true := by
    rw [← hst, ← hpi, ← hcb]
    generalize pollReassembly node now = node₁
    have hnone := unreported_start
    unfold pollHeartbeat
    dsimp only [Call.start, Call.setNode]
    by_cases hout : (statePollHeartbeat node₁.state node₁.peerIndex now).out.peerTimeout = true
    · by_cases hset : node₁.onPeerTimeout = true
      · rw [if_pos (by rw [hout, hset]; rfl)]
        exact ⟨fun _ => ⟨hset, hout⟩, fun _ => ⟨node₁.peerMac, List.mem_singleton.mpr rfl⟩⟩
      · rw [if_neg (by rw [hout, Bool.true_and]; exact hset)]
        refine ⟨fun ⟨mac, hmem⟩ => ?_, fun h => absurd h.1 hset⟩
        split at hmem
        · exact absurd hmem (unreported_sendFrame (hnone _) radio _ _ _ _ _ _ _ mac)
        · exact absurd hmem (hnone _ mac)
    · rw [if_neg (by rw [Bool.and_eq_true]; exact fun h => hout h.1)]
      refine ⟨fun ⟨mac, hmem⟩ => ?_, fun h => absurd h.2 hout⟩
      split at hmem
      · exact absurd hmem (unreported_sendFrame (hnone _) radio _ _ _ _ _ _ _ mac)
      · exact absurd hmem (hnone _ mac)
  rw [← hbeat]
  unfold poll
  dsimp only
  split
  · rfl
  · rename_i c tx _
    obtain ⟨rest, hlog, hout⟩ := pollEvent_log radio _ c tx
    rw [hlog]
    refine exists_congr fun mac => ?_
    rw [List.mem_append]
    refine ⟨fun h => h.resolve_right fun hmem => ?_, Or.inl⟩
    exact absurd (hout _ hmem) (by simp [Event.Outgoing])

theorem reportsTimeout_iff {w : NodeRun} {a : ApiStep} (hloop : a.call.inLoop = true) :
    ReportsTimeout w a ↔ ∃ now b, a.call = .poll now ∧ TimesOut w.node b now := by
  obtain ⟨radio, call⟩ := a
  cases call with
  | poll now =>
      refine (poll_reports radio w.node now).trans ⟨fun ⟨hcb, hout⟩ => ?_, ?_⟩
      · cases hb : w.node.heartbeat with
        | none =>
            -- without a peer in use the heartbeat is off
            refine absurd hout ?_
            unfold Node.heartbeat heartbeatAt at hb
            unfold statePollHeartbeat
            split at hb
            · rename_i hp
              dsimp only at hb
              split at hb
              · exact absurd hb (by simp)
              · rename_i hu
                rw [dif_pos hp]
                dsimp only
                rw [if_pos (by
                  rw [Bool.or_eq_true, Bool.not_eq_true', ← Bool.not_eq_true]
                  exact Or.inl hu)]
                exact Bool.false_ne_true
            · rename_i hp
              rw [dif_neg hp]
              exact Bool.false_ne_true
        | some b =>
            rw [(statePollHeartbeat_at hb now).2, Heartbeat.poll_timeout] at hout
            exact ⟨now, b, rfl, hcb, hb, hout.1, hout.2.1, hout.2.2⟩
      · rintro ⟨now', b, heq, h⟩
        obtain rfl : now = now' := by simpa using heq
        rw [(statePollHeartbeat_at h.beat now).2, Heartbeat.poll_timeout]
        exact ⟨h.callback, h.enabled, h.lost, h.due⟩
  | onReceive src data now =>
      refine ⟨fun ⟨mac, hmem⟩ => ?_, fun ⟨_, _, heq, _⟩ => absurd heq (by simp)⟩
      exact absurd hmem (onReceive_unreported radio w.node src data now mac)
  | openChannel _ _ _ => exact absurd hloop (by simp [ApiCall.inLoop])
  | sendReliable _ _ _ => exact absurd hloop (by simp [ApiCall.inLoop])
  | sendUnreliable _ _ => exact absurd hloop (by simp [ApiCall.inLoop])
  | sendPriority _ _ => exact absurd hloop (by simp [ApiCall.inLoop])

/-! ## Nothing happens until a PONG -/

/-- What the checks have found out about a frame on the heartbeat channel. -/
theorem judge_heartbeat {node : Node} {src : Mac} {data : List U8} {header : Header}
    (h : node.judge src data = .heartbeat header) :
    src = node.peerMac ∧ decodeHeader data node.maxPayload = .ok header := by
  unfold Node.judge at h
  split at h
  · exact absurd h (by simp)
  · split at h
    · exact absurd h (by simp)
    · rename_i hsrc
      refine ⟨not_not.mp hsrc, ?_⟩
      cases hdec : decodeHeader data node.maxPayload with
      | error e =>
          rw [hdec] at h
          exact absurd h (by simp)
      | ok header' =>
          rw [hdec] at h
          dsimp only at h
          split at h
          · rw [Received.heartbeat.inj h]
          · split at h
            · exact absurd h (by simp)
            · -- the branches of the modes lead elsewhere
              repeat' split at h
              all_goals exact absurd h (by simp)

/-- **At the limit, only a PONG changes the heartbeat.** -/
theorem heartbeat_stuck {w : NodeRun} {a : ApiStep} {b : Heartbeat}
    (hb : w.node.heartbeat = some b) (hlost : b.Lost) (hloop : a.call.inLoop = true)
    (hpong : ¬ HearsPong w a) : (w.step a).node.heartbeat = some b := by
  have hpi := (sameConfig_step w a).peerIndex
  unfold Node.heartbeat at hb ⊢
  rw [hpi]
  obtain ⟨radio, call⟩ := a
  cases call with
  | poll now =>
      show heartbeatAt (poll radio w.node now).2.node.state w.node.peerIndex = some b
      rw [poll_state, heartbeatAt_schedulerNext, (statePollHeartbeat_at hb now).1,
        Heartbeat.poll_lost hlost]
  | onReceive src data now =>
      show heartbeatAt (onReceive radio w.node src data now).2.node.state w.node.peerIndex = some b
      rcases onReceive_state radio w.node src data now with ⟨header, hj, ht, _⟩ | hst |
        ⟨op, c, _, hst⟩
      · obtain ⟨rfl, hdec⟩ := judge_heartbeat hj
        exact absurd ⟨data, now, header, rfl, hdec, ht⟩ hpong
      · rw [hst]
        exact hb
      · rw [hst, heartbeatAt_op]
        exact hb
  | openChannel _ _ _ => exact absurd hloop (by simp [ApiCall.inLoop])
  | sendReliable _ _ _ => exact absurd hloop (by simp [ApiCall.inLoop])
  | sendUnreliable _ _ => exact absurd hloop (by simp [ApiCall.inLoop])
  | sendPriority _ _ => exact absurd hloop (by simp [ApiCall.inLoop])

/-- Between two invocations of `on_peer_timeout` at least one PONG is received. -/
def OncePerOutage (node : Node) (as : List ApiStep) : Prop :=
  ∀ i j a a', i < j → as[i]? = some a → as[j]? = some a' →
    ReportsTimeout (run NodeRun.step ⟨node, []⟩ (as.take i)) a →
    ReportsTimeout (run NodeRun.step ⟨node, []⟩ (as.take j)) a' →
    ∃ k c, i < k ∧ k < j ∧ as[k]? = some c
      ∧ HearsPong (run NodeRun.step ⟨node, []⟩ (as.take k)) c

/-- After a poll at which the heartbeat `b` times out, polls without a PONG in between come before
the interval has passed since the last ping of `b`, as the 32-bit clock has it. -/
def NotDueAgain (node : Node) (as : List ApiStep) : Prop :=
  ∀ i j a a' now now' b, i < j → as[i]? = some a → as[j]? = some a' →
    a.call = .poll now → TimesOut (run NodeRun.step ⟨node, []⟩ (as.take i)).node b now →
    (∀ k c, i < k → k < j → as[k]? = some c →
      ¬ HearsPong (run NodeRun.step ⟨node, []⟩ (as.take k)) c) →
    a'.call = .poll now' →
    (run NodeRun.step ⟨node, []⟩ (as.take j)).node.onPeerTimeout = true → ¬ b.Due now'

/-- The heartbeat that timed out is there until a PONG comes. -/
theorem heartbeat_until {node : Node} {as : List ApiStep}
    (hloop : ∀ a ∈ as, a.call.inLoop = true) {i j : Nat} {a : ApiStep} {now : U32} {b : Heartbeat}
    (hij : i < j) (hi : as[i]? = some a) (hcall : a.call = .poll now)
    (hout : TimesOut (run NodeRun.step ⟨node, []⟩ (as.take i)).node b now)
    (hpong : ∀ k c, i < k → k < j → as[k]? = some c →
      ¬ HearsPong (run NodeRun.step ⟨node, []⟩ (as.take k)) c) :
    (run NodeRun.step ⟨node, []⟩ (as.take j)).node.heartbeat = some b := by
  have hstep : ∀ (w : NodeRun) (c : ApiStep), w.node.heartbeat = some b →
      ¬ (c.call.inLoop = false ∨ HearsPong w c) → (w.step c).node.heartbeat = some b :=
    fun w c hb hno => heartbeat_stuck hb hout.lost
      (Bool.not_eq_false _ ▸ fun h => hno (Or.inl h)) fun h => hno (Or.inr h)
  obtain ⟨d, rfl⟩ := Nat.exists_eq_add_of_le hij.le
  refine lasts (E := fun w c => c.call.inLoop = false ∨ HearsPong w c) hstep hout.beat d ?_
  intro k c hk hlt hc hor
  rcases hor with hout' | hhear
  · rw [hloop c (List.mem_of_getElem? hc)] at hout'
    exact absurd hout' (by decide)
  · rcases Nat.eq_or_lt_of_le hk with rfl | hk
    · -- the poll itself is not a PONG
      obtain rfl : a = c := Option.some.inj (hi.symm.trans hc)
      obtain ⟨_, _, _, hrecv, _⟩ := hhear
      rw [hcall] at hrecv
      exact absurd hrecv (by simp)
    · exact hpong k c hk hlt hc hhear

/--
**When a silent peer is reported once.** Along a run of polls and arrivals no
peer is reported twice without a PONG in between, exactly when no poll that
follows a report comes when the interval has passed since the last ping.
-/
theorem oncePerOutage_iff (node : Node) {as : List ApiStep}
    (hloop : ∀ a ∈ as, a.call.inLoop = true) : OncePerOutage node as ↔ NotDueAgain node as := by
  constructor
  · intro honce i j a a' now now' b hij hi hj hcall hout hpong hcall' hcb hdue
    have hb := heartbeat_until hloop hij hi hcall hout hpong
    have hfirst := (reportsTimeout_iff (hloop a (List.mem_of_getElem? hi))).mpr
      ⟨now, b, hcall, hout⟩
    have hagain := (reportsTimeout_iff (hloop a' (List.mem_of_getElem? hj))).mpr
      ⟨now', b, hcall', hcb, hb, hout.enabled, hout.lost, hdue⟩
    obtain ⟨k, c, hik, hkj, hc, hhear⟩ := honce i j a a' hij hi hj hfirst hagain
    exact hpong k c hik hkj hc hhear
  · intro hnot i j a a' hij hi hj hfirst hagain
    obtain ⟨now, b, hcall, hout⟩ :=
      (reportsTimeout_iff (hloop a (List.mem_of_getElem? hi))).mp hfirst
    obtain ⟨now', b', hcall', hout'⟩ :=
      (reportsTimeout_iff (hloop a' (List.mem_of_getElem? hj))).mp hagain
    by_contra hnone
    have hpong : ∀ k c, i < k → k < j → as[k]? = some c →
        ¬ HearsPong (run NodeRun.step ⟨node, []⟩ (as.take k)) c :=
      fun k c hik hkj hc hhear => hnone ⟨k, c, hik, hkj, hc, hhear⟩
    have hb := heartbeat_until hloop hij hi hcall hout hpong
    obtain rfl : b' = b := Option.some.inj (hout'.beat.symm.trans hb)
    exact hnot i j a a' now now' b' hij hi hj hcall hout hpong hcall' hout'.callback hout'.due

/-- The time of a poll. -/
def ApiCall.pollTime : ApiCall → Option U32
  | .poll now => some now
  | _ => none

/-- A ping every 100 ms, of which one may be missed. -/
def watchingConfig : Config :=
  { defaultConfig with
    heartbeatIntervalMs := 100#16, heartbeatMissCountMax := 1#8, onPeerTimeout := true }

def watchingNode : Node := (init Node.zero watchingConfig).2

/-- The peer never answers. -/
def unanswered : List ApiStep :=
  [⟨Radio.up, .poll 100#32⟩, ⟨Radio.up, .poll 200#32⟩, ⟨Radio.up, .poll 300#32⟩]

theorem oncePerOutage_iff_unanswered :
    OncePerOutage watchingNode unanswered ↔ NotDueAgain watchingNode unanswered :=
  oncePerOutage_iff watchingNode fun a ha => by
    simp only [unanswered, List.mem_cons, List.not_mem_nil, or_false] at ha
    rcases ha with rfl | rfl | rfl <;> rfl

/-- **A silent peer is reported at every poll** from the first report on. -/
theorem not_oncePerOutage :
    ¬ ∀ (node₀ node : Node) (cfg : Config), init node₀ cfg = (.ok, node) →
      cfg.heartbeatIntervalMs ≠ 0#16 → ∀ as : List ApiStep, (∀ a ∈ as, a.call.inLoop = true) →
        (as.filterMap fun a => a.call.pollTime).IsChain (· ≤ ·) → OncePerOutage node as := by
  intro h
  have hinit : init Node.zero watchingConfig = (.ok, watchingNode) :=
    Prod.ext (by decide +kernel) rfl
  have honce := h Node.zero watchingNode watchingConfig hinit (by decide) unanswered
    (fun a ha => by
      simp only [unanswered, List.mem_cons, List.not_mem_nil, or_false] at ha
      rcases ha with rfl | rfl | rfl <;> rfl)
    (by decide +kernel)
  have hreport : ∀ i a, unanswered[i]? = some a → 1 ≤ i →
      ReportsTimeout (run NodeRun.step ⟨watchingNode, []⟩ (unanswered.take i)) a := by
    intro i a ha hi
    have hlt : i < 3 := (List.getElem?_eq_some_iff.mp ha).1
    obtain rfl | rfl : i = 1 ∨ i = 2 := by omega
    · obtain rfl := Option.some.inj ha
      exact ⟨Vector.replicate 6 0#8, by decide +kernel⟩
    · obtain rfl := Option.some.inj ha
      exact ⟨Vector.replicate 6 0#8, by decide +kernel⟩
  obtain ⟨k, _, h1, h2, _⟩ := honce 1 2 _ _ (by decide) rfl rfl (hreport 1 _ rfl (by decide))
    (hreport 2 _ rfl (by decide))
  omega

end Relinow
