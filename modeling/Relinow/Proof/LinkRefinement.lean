import Relinow.Proof.EndMoves

/-!
# Two nodes make a link

The link of two engines is an abstraction: no frames, no caches, no other channels.
Two nodes with any number of channels implement it. Whatever their applications
call, and however the network loses, repeats and reorders frames, each RELIABLE
channel is, in each direction, a run of a link: every call on a node is a few moves
of one of its ends.

So what holds of every run of a link holds of every RELIABLE channel of two nodes.
-/

namespace Relinow

open SlotTable Runs

/-! ## The pair -/

/-- **Two nodes make a link** on the channel `c`, from `w` to `w'`. -/
structure Implements (c : U8) (w w' : NodeRun) (l : Link) : Prop where
  sender : w.node.engine c = l.sender
  receiver : w'.node.engine c = l.receiver
  assigned : assignedOn c w.history = idsBetween 0 l.sends
  data : ((sentOn modeReliable c w.history).map Prod.fst).Sublist l.data
  acks : (acksOn c w'.history).Sublist l.acks
  handed : ((deliveredOn .plain c w'.history).map Prod.fst).Sublist l.delivered
  failed : w.node.onTxEvent = true → l.failed.Sublist (failedSeqs w.history)

/-- What becomes of an id in the end. -/
inductive Outcome where
  | delivered
  | failed
  deriving DecidableEq, Repr

/-- The ids of a link with the outcome. -/
def Link.ids : Outcome → Link → List U16
  | .delivered, l => l.delivered
  | .failed, l => l.failed

/-- The ids of packets of `x` that have the outcome in a call: the engine of the peer delivers them,
or its own gives them up. -/
def Pair.decides (c : U8) (x : Side) (o : Outcome) (w : Pair) (a : PairStep) : List U16 :=
  match o with
  | .delivered => if a.side = x.other then (w.side a.side).node.delivers c a.act else []
  | .failed => if a.side = x then (w.side a.side).node.givesUp c a.act else []

/-- Those of a whole run, in order. -/
def Pair.decided (c : U8) (x : Side) (o : Outcome) (w : Pair) (as : List PairStep) : List U16 :=
  (outputs Pair.step (Pair.decides c x o) w as).flatten

/-- The two ends of the link that the nodes make, and what every node keeps anyway. -/
structure PairEnds (c : U8) (x : Side) (w : Pair) (s r : LinkEnd) : Prop where
  conforms : ∀ y, Conforms (w.side y)
  fits : ∀ y, (w.side y).node.maxPayload.toNat ≤ maxPayloadLimit
  sender : Shows c (w.side x).node (w.side x).history s
  receiver : Shows c (w.side x.other).node (w.side x.other).history r

theorem PairEnds.implements {c : U8} {x : Side} {w : Pair} {s r : LinkEnd}
    (h : PairEnds c x w s r) : Implements c (w.side x) (w.side x.other) (LinkEnd.join s r) where
  sender := h.sender.engine
  receiver := h.receiver.engine
  assigned := h.sender.shown.assigned
  data := h.sender.shown.data
  acks := h.receiver.shown.acks
  handed := h.receiver.shown.handed
  failed := h.sender.shown.failed

/-- What a node hears, its peer has shown. -/
theorem heardFrom {c : U8} {node : Node} {history : List Event} {e : LinkEnd}
    (h : Shows c node history e) {call : ApiCall}
    (hheard : ∀ src data now, call = .onReceive src data now → data ∈ sentFrames history)
    {m : EndMove} (hm : m.Of c call) : m.HeardFrom e := by
  cases m with
  | send now => trivial
  | poll now => trivial
  | onData q =>
      cases call with
      | onReceive src data now =>
          obtain ⟨p, hp, rfl⟩ := hm
          exact h.shown.data.subset (List.mem_map_of_mem
            (List.mem_filterMap.mpr ⟨data, hheard _ _ _ rfl, hp⟩))
      | _ => exact absurd hm id
  | onAck a now =>
      cases call with
      | onReceive src data now' =>
          exact h.shown.acks.subset (List.mem_filterMap.mpr ⟨data, hheard _ _ _ rfl, hm⟩)
      | _ => exact absurd hm id

/-- **One call on either node** is a few steps of the link, with the outcomes that the call has. -/
theorem pairEnds_step {c : U8} (hc : c ≠ heartbeatChannel) {x : Side} {w : Pair} {s r : LinkEnd}
    (h : PairEnds c x w s r) {a : PairStep} (ha : Heard w a.side a.act.call) :
    ∃ acts s' r', Along Link.step Link.Allowed (LinkEnd.join s r) acts
      ∧ run Link.step (LinkEnd.join s r) acts = LinkEnd.join s' r'
      ∧ PairEnds c x (w.step a) s' r'
      ∧ ∀ o, (LinkEnd.join s' r').ids o = (LinkEnd.join s r).ids o ++ w.decides c x o a := by
  have hconforms : ∀ y, Conforms ((w.step a).side y) := by
    intro y
    rcases Side.eq_or_other y a.side with rfl | rfl
    · rw [Pair.step_self]
      exact conforms_step _ _ (h.conforms _)
    · rw [Pair.step_other]
      exact h.conforms _
  have hfits : ∀ y, ((w.step a).side y).node.maxPayload.toNat ≤ maxPayloadLimit := by
    intro y
    rcases Side.eq_or_other y a.side with rfl | rfl
    · rw [Pair.step_self, (sameConfig_step _ _).maxPayload]
      exact h.fits _
    · rw [Pair.step_other]
      exact h.fits _
  have hself := Pair.step_self w a
  have hother := Pair.step_other w a
  have hheard : ∀ src data now, a.act.call = .onReceive src data now →
      data ∈ sentFrames (w.side a.side.other).history := by
    intro src data now hcall
    rw [hcall] at ha
    exact ha
  rcases Side.eq_or_other x a.side with rfl | rfl
  · obtain ⟨ms, hms⟩ := shows_step hc (h.conforms _).cached (h.fits _) h.sender a.act
    obtain ⟨halong, hrun⟩ := asSender_along r ms s
      fun m hm => heardFrom h.receiver hheard (hms.of m hm)
    refine ⟨_, _, _, halong, hrun, ⟨hconforms, hfits, ?_, ?_⟩, fun o => ?_⟩
    · rw [hself]
      exact hms.shows
    · rw [hother]
      exact h.receiver
    · unfold Pair.decides
      cases o with
      | delivered =>
          rw [if_neg (Side.ne_other _), List.append_nil]
          rfl
      | failed =>
          rw [if_pos rfl]
          exact hms.failed
  · have hrecv := h.receiver
    rw [Side.other_other] at hrecv
    obtain ⟨ms, hms⟩ := shows_step hc (h.conforms _).cached (h.fits _) hrecv a.act
    obtain ⟨halong, hrun⟩ := asReceiver_along s ms r
      fun m hm => heardFrom h.sender hheard (hms.of m hm)
    refine ⟨_, _, _, halong, hrun, ⟨hconforms, hfits, ?_, ?_⟩, fun o => ?_⟩
    · rw [hother]
      exact h.sender
    · rw [Side.other_other, hself]
      exact hms.shows
    · unfold Pair.decides
      cases o with
      | delivered =>
          rw [Side.other_other, if_pos rfl]
          exact hms.delivered
      | failed =>
          rw [if_neg (Side.ne_other _), List.append_nil]
          rfl

section Pairs

variable {node₀ node : Side → Node} {cfg : Side → Config} {as : List PairStep} {c : U8}

/-- **Every run of the pair is a run of the link**, with the same outcomes. -/
theorem pairEnds_run (hinit : ∀ y, init (node₀ y) (cfg y) = (.ok, node y))
    (hheard : Along Pair.step (fun w a => Heard w a.side a.act.call)
      (Pair.start (node .left) (node .right)) as)
    (hc : c ≠ heartbeatChannel) (x : Side) :
    ∃ acts, LinkRun ((cfg x).engineCfg c) ((cfg x.other).engineCfg c) acts
      ∧ ∃ s r, linkAfter ((cfg x).engineCfg c) ((cfg x.other).engineCfg c) acts = LinkEnd.join s r
        ∧ PairEnds c x (run Pair.step (Pair.start (node .left) (node .right)) as) s r
        ∧ ∀ o, (LinkEnd.join s r).ids o
          = Pair.decided c x o (Pair.start (node .left) (node .right)) as := by
  have hstart : ∀ y, (Pair.start (node .left) (node .right)).side y = ⟨node y, []⟩ := by
    intro y
    cases y <;> rfl
  have hends : PairEnds c x (Pair.start (node .left) (node .right))
      (LinkEnd.start ((cfg x).engineCfg c)) (LinkEnd.start ((cfg x.other).engineCfg c)) := by
    refine ⟨fun y => ?_, fun y => ?_, ?_, ?_⟩ <;> rw [hstart]
    · exact conforms_init (hinit y)
    · exact (maxPayload_run (hinit y) []).2
    · exact shows_init (hinit x) c
    · exact shows_init (hinit x.other) c
  have hstep : ∀ (w : Pair) (l : Link) (a : PairStep),
      (∃ s r, l = LinkEnd.join s r ∧ PairEnds c x w s r) → Heard w a.side a.act.call →
        ∃ acts, Along Link.step Link.Allowed l acts
          ∧ (∃ s r, run Link.step l acts = LinkEnd.join s r ∧ PairEnds c x (w.step a) s r)
          ∧ ∀ o, (run Link.step l acts).ids o = l.ids o ++ w.decides c x o a := by
    intro w l a hl ha
    obtain ⟨s, r, rfl, h⟩ := hl
    obtain ⟨acts, s', r', hacts, hrun, h', hids⟩ := pairEnds_step hc h ha
    refine ⟨acts, hacts, ⟨s', r', hrun, h'⟩, fun o => ?_⟩
    rw [hrun]
    exact hids o
  obtain ⟨acts, hacts, ⟨s, r, hlink, hpair⟩, hids⟩ :=
    refines (R := fun w l => ∃ s r, l = LinkEnd.join s r ∧ PairEnds c x w s r) hstep
      ⟨_, _, rfl, hends⟩ hheard
  refine ⟨acts, hacts, s, r, hlink, hpair, fun o => ?_⟩
  rw [← hlink, hids o]
  cases o <;> rfl

/--
**Two nodes make a link.** Two nodes call what they like, and the network brings each of
them only what the other has sent: any number of times, in any order, or never. Then
each RELIABLE channel, in each direction, is a run of a link. The engines are those of
the link; what is on the air is, in this order, among what is on its network; what the
application is handed, packet by packet, the link has delivered, in this order; and what
the link gives up is reported, in this order, when `on_tx_event` is set.
-/
theorem pair_refines_link (hinit : ∀ y, init (node₀ y) (cfg y) = (.ok, node y))
    (hheard : Along Pair.step (fun w a => Heard w a.side a.act.call)
      (Pair.start (node .left) (node .right)) as)
    (hc : c ≠ heartbeatChannel) (x : Side) :
    ∃ acts, LinkRun ((cfg x).engineCfg c) ((cfg x.other).engineCfg c) acts
      ∧ Implements c ((run Pair.step (Pair.start (node .left) (node .right)) as).side x)
        ((run Pair.step (Pair.start (node .left) (node .right)) as).side x.other)
        (linkAfter ((cfg x).engineCfg c) ((cfg x.other).engineCfg c) acts) := by
  obtain ⟨acts, hacts, s, r, hlink, hpair, -⟩ := pairEnds_run hinit hheard hc x
  refine ⟨acts, hacts, ?_⟩
  rw [hlink]
  exact hpair.implements

def busyConfig : Config := { listenConfig with maxPayload := 2#16, onTxEvent := true }

def busyNode : Node := (init Node.zero busyConfig).2

theorem busyNode_init : init Node.zero busyConfig = (.ok, busyNode) :=
  Prod.ext (by decide +kernel) rfl

/-- What one node sends: a packet on one channel, and two fragments on another. -/
def busySends : List ApiStep :=
  [⟨Radio.up, .openChannel 2#8 modeReliable 0#8⟩, ⟨Radio.up, .sendReliable 2#8 [9#8] 0#32⟩,
    ⟨Radio.up, .sendReliable 1#8 [1#8, 2#8, 3#8] 0#32⟩]

/-- The first fragment overtakes the packet, and comes twice. It is not acknowledged in time, so it
is sent again. -/
def busyRun : List PairStep :=
  let frames := sentFrames (run NodeRun.step ⟨busyNode, []⟩ busySends).history
  busySends.map (fun a => ⟨.left, a⟩)
    ++ [⟨.right, Radio.up, .openChannel 2#8 modeReliable 0#8⟩]
    ++ ([1, 0, 2, 1].map fun i =>
      ⟨.right, Radio.up, .onReceive listenConfig.peerMac (frames.getD i []) 0#32⟩)
    ++ [⟨.left, Radio.up, .poll 1000#32⟩]

theorem busyRun_refines :
    ∃ acts, LinkRun (busyConfig.engineCfg 1#8) (busyConfig.engineCfg 1#8) acts
      ∧ Implements 1#8 ((run Pair.step (Pair.start busyNode busyNode) busyRun).side .left)
        ((run Pair.step (Pair.start busyNode busyNode) busyRun).side .right)
        (linkAfter (busyConfig.engineCfg 1#8) (busyConfig.engineCfg 1#8) acts) := by
  have hheard : Along Pair.step (fun w a => Heard w a.side a.act.call)
      (Pair.start busyNode busyNode) busyRun := by decide +kernel
  exact pair_refines_link (fun _ => busyNode_init) hheard (by decide) .left

/-! ## Nothing is lost silently between nodes -/

/-- **The accounts of a channel** from `w` to `w'`, over the ids `0, 1, …` assigned. `delivered` are
the ids that the peer's engine has delivered and `failed` those that the node's own has given up. -/
structure Accounted (c : U8) (w w' : NodeRun) (delivered failed : List U16) (d e : Nat) : Prop where
  assigned : assignedOn c w.history = idsBetween 0 (assignedOn c w.history).length
  /-- The peer's engine has delivered one gapless run of them, and waits for the next. -/
  gapless : delivered = idsBetween d e
  le : d ≤ e
  bound : e ≤ (assignedOn c w.history).length
  opened : (w'.node.engine c).hasRxWindow = true →
    d < e ∧ (w'.node.engine c).expectedRxSeq = BitVec.ofNat 16 e
  closed : (w'.node.engine c).hasRxWindow = false → delivered = []
  handed : ((deliveredOn .plain c w'.history).map Prod.fst).Sublist delivered
  reported : w.node.onTxEvent = true → failed.Sublist (failedSeqs w.history)
  /-- What is not delivered is in flight or given up. -/
  placed : ∀ q ∈ assignedOn c w.history,
    q ∈ delivered ∨ q ∈ pendingSeqs (w.node.engine c) ∨ q ∈ failed
  /-- With nothing in flight and nothing given up, everything is delivered. -/
  settled : pendingSeqs (w.node.engine c) = 0 → failed = [] →
    delivered = assignedOn c w.history

/-- The accounts of the link are those of the nodes that make it. -/
theorem Implements.accounted {w w' : NodeRun} {l : Link} (h : Implements c w w' l) {d e : Nat}
    (hacc : Accounts l d e) (hn : l.sends < 2 ^ 16) :
    Accounted c w w' l.delivered l.failed d e := by
  have hlen : (assignedOn c w.history).length = l.sends := by
    rw [h.assigned, idsBetween_length, Nat.sub_zero]
  have hplaced : ∀ q ∈ assignedOn c w.history,
      q ∈ l.delivered ∨ q ∈ pendingSeqs (w.node.engine c) ∨ q ∈ l.failed := by
    intro q hq
    rw [h.assigned, mem_idsBetween] at hq
    obtain ⟨i, -, hi, rfl⟩ := hq
    rw [h.sender]
    refine hacc.placed _ ?_
    rw [BitVec.toNat_ofNat, Nat.mod_eq_of_lt (hi.trans hn)]
    exact hi
  have hle := hacc.rx.le
  have hbound := hacc.rx.bound
  refine ⟨by rw [hlen]; exact h.assigned, hacc.rx.delivered, hle, by rw [hlen]; exact hbound,
    fun hw => ?_, fun hw => ?_, h.handed, h.failed, hplaced, fun hp hf => ?_⟩
  · rw [h.receiver] at hw ⊢
    exact hacc.rx.opened hw
  · rw [h.receiver] at hw
    rw [hacc.rx.delivered, hacc.rx.closed hw]
    exact idsBetween_self e
  · -- the first id and the last are in the run that was delivered
    have hall : ∀ i < l.sends, d ≤ i ∧ i < e := by
      intro i hi
      have hid : BitVec.ofNat 16 i ∈ assignedOn c w.history := by
        rw [h.assigned, mem_idsBetween]
        exact ⟨i, Nat.zero_le i, hi, rfl⟩
      have hin := (hplaced _ hid).resolve_right fun hor => by
        rw [hp, hf] at hor
        exact hor.elim (Multiset.notMem_zero _) List.not_mem_nil
      rw [hacc.rx.delivered, mem_idsBetween] at hin
      obtain ⟨j, hdj, hje, hij⟩ := hin
      obtain rfl := SerialNumber.eq_of_ofNat_eq (by omega) (by omega) hij
      exact ⟨hdj, hje⟩
    rw [h.assigned, hacc.rx.delivered]
    rcases Nat.eq_zero_or_pos l.sends with hzero | hpos
    · rw [show d = 0 by omega, show e = l.sends by omega]
    · have hfirst := hall 0 hpos
      have hlast := hall (l.sends - 1) (by omega)
      rw [show d = 0 by omega, show e = l.sends by omega]

/--
**Nothing is lost silently between two nodes.** On every RELIABLE channel, in each
direction, in every run with fewer than 65536 packets on it: ids are assigned one after
the other; what the peer's engine has delivered in the run is one gapless run of them;
what its application is handed is, packet by packet, a subsequence of that, so nothing
twice and nothing out of order; and every id that was not delivered is in flight or was
given up by the engine that sent it, which is reported when `on_tx_event` is set.
-/
theorem pair_conserves (hinit : ∀ y, init (node₀ y) (cfg y) = (.ok, node y))
    (hheard : Along Pair.step (fun w a => Heard w a.side a.act.call)
      (Pair.start (node .left) (node .right)) as)
    (hc : c ≠ heartbeatChannel) (x : Side) {w : Pair}
    (hw : w = run Pair.step (Pair.start (node .left) (node .right)) as)
    (hn : (assignedOn c (w.side x).history).length < 2 ^ 16) :
    ∃ d e, Accounted c (w.side x) (w.side x.other)
      (Pair.decided c x .delivered (Pair.start (node .left) (node .right)) as)
      (Pair.decided c x .failed (Pair.start (node .left) (node .right)) as) d e := by
  obtain ⟨acts, hacts, s, r, hlink, hpair, hids⟩ := pairEnds_run hinit hheard hc x
  rw [← hw] at hpair
  have himpl := hpair.implements
  rw [← hlink] at himpl hids
  have hsends : (linkAfter ((cfg x).engineCfg c) ((cfg x.other).engineCfg c) acts).sends
      < 2 ^ 16 := by
    rwa [himpl.assigned, idsBetween_length, Nat.sub_zero] at hn
  obtain ⟨d, e, hacc⟩ := accounts_after hacts hsends
  rw [← hids .delivered, ← hids .failed]
  exact ⟨d, e, himpl.accounted hacc hsends⟩

theorem busyRun_conserves :
    ∃ d e, Accounted 1#8 ((run Pair.step (Pair.start busyNode busyNode) busyRun).side .left)
      ((run Pair.step (Pair.start busyNode busyNode) busyRun).side .right)
      [0#16, 1#16] [] d e := by
  have hheard : Along Pair.step (fun w a => Heard w a.side a.act.call)
      (Pair.start busyNode busyNode) busyRun := by decide +kernel
  have hdelivered : Pair.decided 1#8 .left .delivered (Pair.start busyNode busyNode) busyRun
      = [0#16, 1#16] := by decide +kernel
  have hfailed : Pair.decided 1#8 .left .failed (Pair.start busyNode busyNode) busyRun = [] := by
    decide +kernel
  rw [← hdelivered, ← hfailed]
  exact pair_conserves (fun _ => busyNode_init) hheard (by decide) .left rfl (by decide +kernel)

end Pairs

end Relinow
