import Relinow.Proof.Conservation
import Relinow.Proof.Streams

/-!
# The ends of a link

The link of two engines, taken apart: each end is one engine, with what it has sent
and what it has made of what arrived. A step of the link is a move of one of its
ends, and an end knows nothing of the other but what it hears.

A node shows one such end for each of its channels. Its engine is the node's, and
what the end has sent, delivered and given up can be read off the node's history.
-/

namespace Relinow

open SlotTable Runs

/-! ## One end of a link -/

/-- What one end of a link may do. -/
inductive EndMove where
  | send (nowMs : U32)
  | poll (nowMs : U32)
  | onData (seqId : U16)
  | onAck (ackId : U16) (nowMs : U32)
  deriving DecidableEq, Repr

/-- One end: its engine, what it has sent, and what it has made of what arrived. -/
structure LinkEnd where
  engine : ReliableCtx
  sends : Nat
  data : List U16
  acks : List U16
  delivered : List U16
  failed : List U16
  deriving DecidableEq, Repr

namespace LinkEnd

def start (cfg : Option ReliableConfig) : LinkEnd :=
  { engine := reliableInit cfg, sends := 0, data := [], acks := [], delivered := [], failed := [] }

def send (e : LinkEnd) (nowMs : U32) : LinkEnd :=
  let r := reliableSend e.engine nowMs
  if r.rc = .ok then
    { e with engine := r.st, sends := e.sends + 1, data := e.data ++ [r.out.seqId] }
  else { e with engine := r.st }

def poll (e : LinkEnd) (nowMs : U32) : LinkEnd :=
  let r := reliablePoll e.engine nowMs
  match r.2.event with
  | .retransmit => { e with engine := r.1, data := e.data ++ [r.2.seqId] }
  | .failed => { e with engine := r.1, failed := e.failed ++ [r.2.seqId] }
  | _ => { e with engine := r.1 }

def onData (e : LinkEnd) (seqId : U16) : LinkEnd :=
  let r := reliableOnData e.engine seqId
  { e with
    engine := r.1
    acks := e.acks ++ [r.2.ackId]
    delivered := e.delivered ++ r.2.deliveredSeq }

def onAck (e : LinkEnd) (ackId : U16) (nowMs : U32) : LinkEnd :=
  { e with engine := reliableOnAck e.engine ackId nowMs }

def step (e : LinkEnd) : EndMove → LinkEnd
  | .send nowMs => e.send nowMs
  | .poll nowMs => e.poll nowMs
  | .onData seqId => e.onData seqId
  | .onAck ackId nowMs => e.onAck ackId nowMs

/-- The link from one end to the other. -/
def join (s r : LinkEnd) : Link :=
  { sender := s.engine, receiver := r.engine, sends := s.sends, data := s.data, acks := r.acks
    delivered := r.delivered, failed := s.failed }

end LinkEnd

/-- A send takes the next id, or finds no room and changes nothing. -/
theorem LinkEnd.send_cases (e : LinkEnd) (now : U32) :
    ((reliableSend e.engine now).rc ≠ .ok ∧ e.send now = e)
    ∨ ∃ ctx', reliableSend e.engine now = ⟨.ok, ctx', ⟨.new, e.engine.nextTxSeq⟩⟩
      ∧ ctx' = { e.engine with
          pending := ctx'.pending, nextTxSeq := seqNext e.engine.nextTxSeq }
      ∧ e.send now = { e with
          engine := ctx', sends := e.sends + 1, data := e.data ++ [e.engine.nextTxSeq] } := by
  unfold LinkEnd.send
  rcases reliableSend_cases e.engine now with ⟨heq, _⟩ | ⟨ctx', heq, hfr, _⟩ <;> rw [heq]
  · exact Or.inl ⟨by simp, rfl⟩
  · exact Or.inr ⟨ctx', rfl, hfr, rfl⟩

/-- What a poll does to an end but for its engine and what it reports. -/
theorem LinkEnd.poll_engine (e : LinkEnd) (now : U32) :
    (e.poll now).engine = (reliablePoll e.engine now).1 ∧ (e.poll now).sends = e.sends
      ∧ (e.poll now).acks = e.acks := by
  unfold LinkEnd.poll
  dsimp only
  split <;> exact ⟨rfl, rfl, rfl⟩

/-- A poll delivers nothing, and gives up what the engine says has failed. -/
theorem LinkEnd.poll_outcome (e : LinkEnd) (now : U32) :
    (e.poll now).delivered = e.delivered
      ∧ (e.poll now).failed = e.failed ++ if (reliablePoll e.engine now).2.event = .failed then
          [(reliablePoll e.engine now).2.seqId]
        else [] := by
  unfold LinkEnd.poll
  generalize reliablePoll e.engine now = r
  obtain ⟨ctx, event, q⟩ := r
  cases event with
  | failed => exact ⟨rfl, rfl⟩
  | none | new | retransmit => exact ⟨rfl, (List.append_nil _).symm⟩

/-- **An end counts its packets**: the next id is what is left of their number. -/
theorem LinkEnd.next_step {e : LinkEnd} (h : e.engine.nextTxSeq = BitVec.ofNat 16 e.sends)
    (m : EndMove) : (e.step m).engine.nextTxSeq = BitVec.ofNat 16 (e.step m).sends := by
  cases m with
  | send now =>
      show (e.send now).engine.nextTxSeq = BitVec.ofNat 16 (e.send now).sends
      rcases e.send_cases now with ⟨_, heq⟩ | ⟨ctx', _, hfr, heq⟩ <;> rw [heq]
      · exact h
      · show ctx'.nextTxSeq = _
        rw [hfr, h]
        exact (BitVec.ofNat_add _ _).symm
  | poll now =>
      show (e.poll now).engine.nextTxSeq = BitVec.ofNat 16 (e.poll now).sends
      rw [(e.poll_engine now).1, (e.poll_engine now).2.1, reliablePoll_next]
      exact h
  | onData q =>
      show (reliableOnData e.engine q).1.nextTxSeq = _
      rw [reliableOnData_tx]
      exact h
  | onAck a now => exact (reliableOnAck_next e.engine a now).trans h

/-- The id that the next packet is given comes after those of the packets before it. -/
theorem idsBetween_sends {e : LinkEnd} (h : e.engine.nextTxSeq = BitVec.ofNat 16 e.sends) :
    idsBetween 0 (e.sends + 1) = idsBetween 0 e.sends ++ [e.engine.nextTxSeq] := by
  rw [← idsBetween_append (Nat.zero_le e.sends) (Nat.le_succ _),
    idsBetween_succ (Nat.lt_succ_self _), idsBetween_self, h]

/-- What an end does, as a step of the link it sends on. -/
def EndMove.asSender : EndMove → LinkAction
  | .send nowMs => .send nowMs
  | .poll nowMs => .poll nowMs
  | .onData seqId => .senderOnData seqId
  | .onAck ackId nowMs => .onAck ackId nowMs

/-- What an end does, as a step of the link it receives on. -/
def EndMove.asReceiver : EndMove → LinkAction
  | .send nowMs => .receiverSend nowMs
  | .poll nowMs => .receiverPoll nowMs
  | .onData seqId => .onData seqId
  | .onAck ackId nowMs => .receiverOnAck ackId nowMs

/-- What arrives was sent by the other end. -/
def EndMove.HeardFrom (e : LinkEnd) : EndMove → Prop
  | .onData seqId => seqId ∈ e.data
  | .onAck ackId _ => ackId ∈ e.acks
  | _ => True

theorem join_asSender (s r : LinkEnd) (m : EndMove) :
    (LinkEnd.join s r).step m.asSender = LinkEnd.join (s.step m) r := by
  cases m with
  | send now =>
      show (LinkEnd.join s r).send now = LinkEnd.join (s.send now) r
      unfold Link.send LinkEnd.send
      dsimp only [LinkEnd.join]
      split <;> rfl
  | poll now =>
      show (LinkEnd.join s r).poll now = LinkEnd.join (s.poll now) r
      unfold Link.poll LinkEnd.poll
      dsimp only [LinkEnd.join]
      obtain ⟨ctx, event, q⟩ := reliablePoll s.engine now
      cases event <;> rfl
  | onData q => rfl
  | onAck a now => rfl

theorem join_asReceiver (s r : LinkEnd) (m : EndMove) :
    (LinkEnd.join s r).step m.asReceiver = LinkEnd.join s (r.step m) := by
  cases m with
  | send now =>
      show LinkEnd.join s { r with engine := (reliableSend r.engine now).st }
        = LinkEnd.join s (r.send now)
      unfold LinkEnd.send
      dsimp only
      split <;> rfl
  | poll now =>
      show LinkEnd.join s { r with engine := (reliablePoll r.engine now).1 }
        = LinkEnd.join s (r.poll now)
      unfold LinkEnd.poll
      obtain ⟨ctx, event, q⟩ := reliablePoll r.engine now
      cases event <;> rfl
  | onData q => rfl
  | onAck a now => rfl

/-- **The moves of the sending end** are steps of the link. -/
theorem asSender_along (r : LinkEnd) (ms : List EndMove) :
    ∀ s : LinkEnd, (∀ m ∈ ms, m.HeardFrom r) →
      Along Link.step Link.Allowed (LinkEnd.join s r) (ms.map EndMove.asSender)
      ∧ run Link.step (LinkEnd.join s r) (ms.map EndMove.asSender)
        = LinkEnd.join (run LinkEnd.step s ms) r := by
  induction ms with
  | nil => exact fun s _ => ⟨trivial, rfl⟩
  | cons m ms ih =>
      intro s h
      obtain ⟨halong, hrun⟩ := ih (s.step m) fun m' hm' => h m' (List.mem_cons_of_mem _ hm')
      rw [List.map_cons, run_cons, join_asSender]
      refine ⟨.cons ?_ (by rw [join_asSender]; exact halong), hrun⟩
      have hheard := h m List.mem_cons_self
      cases m with
      | onAck a now => exact hheard
      | _ => trivial

/-- **The moves of the receiving end** are steps of the link, too. -/
theorem asReceiver_along (s : LinkEnd) (ms : List EndMove) :
    ∀ r : LinkEnd, (∀ m ∈ ms, m.HeardFrom s) →
      Along Link.step Link.Allowed (LinkEnd.join s r) (ms.map EndMove.asReceiver)
      ∧ run Link.step (LinkEnd.join s r) (ms.map EndMove.asReceiver)
        = LinkEnd.join s (run LinkEnd.step r ms) := by
  induction ms with
  | nil => exact fun r _ => ⟨trivial, rfl⟩
  | cons m ms ih =>
      intro r h
      obtain ⟨halong, hrun⟩ := ih (r.step m) fun m' hm' => h m' (List.mem_cons_of_mem _ hm')
      rw [List.map_cons, run_cons, join_asReceiver]
      refine ⟨.cons ?_ (by rw [join_asReceiver]; exact halong), hrun⟩
      have hheard := h m List.mem_cons_self
      cases m with
      | onData q => exact hheard
      | _ => trivial

/-! ## What a node shows of a channel -/

/-- The engine that serves a channel; a fresh one, until the channel is open. -/
def Node.engine (node : Node) (c : U8) : ReliableCtx :=
  (node.reliableAt c).elim (reliableInit none) ChannelState.reliable

theorem Node.engine_at {node : Node} {c : U8} {channel : ChannelState}
    (h : node.reliableAt c = some channel) : node.engine c = channel.reliable := by
  unfold Node.engine
  rw [h, Option.elim_some]

/-- The ids given to packets of one channel, in order. -/
def assignedOn (c : U8) (history : List Event) : List U16 :=
  history.filterMap fun e => match e with
    | .assigned c' q _ _ => if c' = c then some q else none
    | _ => none

/-- The id that a frame acknowledges, if it is an ACK of the channel. -/
def ackOn (c : U8) (frame : List U8) : Option U16 :=
  match decodeHeader frame (BitVec.ofNat 16 maxPayloadLimit) with
  | .error _ => none
  | .ok header =>
      if header.mode = modeReliable ∧ header.channelId = c ∧ header.type = typeAck then
        some header.ackId
      else none

/-- The ids acknowledged on the air. -/
def acksOn (c : U8) (history : List Event) : List U16 := (sentFrames history).filterMap (ackOn c)

/-- The ids reported as failed, of whichever channel: the report does not say. -/
def failedSeqs (history : List Event) : List U16 :=
  history.filterMap fun e => match e with
    | .txEvent .failed q => some q
    | _ => none

theorem ackOn_decoded {c : U8} {frame : List U8} {header : Header}
    (h : decodeHeader frame (BitVec.ofNat 16 maxPayloadLimit) = .ok header) :
    ackOn c frame
      = if header.mode = modeReliable ∧ header.channelId = c ∧ header.type = typeAck then
          some header.ackId
        else none := by
  unfold ackOn
  rw [h]

/-- **What a log shows of the channel `c`** is no more than this, and, of what failed, no less if
failures are reported. -/
structure LogShows (c : U8) (reports : Bool) (log : List Event)
    (assigned data acks handed failed : List U16) : Prop where
  assigned : assignedOn c log = assigned
  data : ((sentOn modeReliable c log).map Prod.fst).Sublist data
  acks : (acksOn c log).Sublist acks
  handed : ((deliveredOn .plain c log).map Prod.fst).Sublist handed
  failed : reports = true → failed.Sublist (failedSeqs log)

section LogShows

variable {c : U8} {reports : Bool} {log log' : List Event}
variable {as as' ds ds' ks ks' hs hs' fs fs' : List U16}

theorem LogShows.append (h : LogShows c reports log as ds ks hs fs)
    (h' : LogShows c reports log' as' ds' ks' hs' fs') :
    LogShows c reports (log ++ log') (as ++ as') (ds ++ ds') (ks ++ ks') (hs ++ hs')
      (fs ++ fs') where
  assigned := by
    unfold assignedOn
    rw [List.filterMap_append]
    exact congrArg₂ _ h.assigned h'.assigned
  data := by
    rw [sentOn_append, List.map_append]
    exact h.data.append h'.data
  acks := by
    unfold acksOn
    rw [sentFrames_append, List.filterMap_append]
    exact h.acks.append h'.acks
  handed := by
    rw [deliveredOn_append, List.map_append]
    exact h.handed.append h'.handed
  failed hr := by
    unfold failedSeqs
    rw [List.filterMap_append]
    exact (h.failed hr).append (h'.failed hr)

/-- The event shows nothing of the channel `c`. -/
def Event.SilentOn (c : U8) : Event → Prop
  | .sent _ frame => packetOn modeReliable c frame = none ∧ ackOn c frame = none
  | .message site _ c' _ _ => site = .plain → c' ≠ c
  | .assigned c' _ _ _ => c' ≠ c
  | _ => True

theorem LogShows.silent (h : ∀ e ∈ log, e.SilentOn c) : LogShows c reports log [] [] [] [] [] := by
  have hframe : ∀ frame ∈ sentFrames log,
      packetOn modeReliable c frame = none ∧ ackOn c frame = none := by
    intro frame hf
    obtain ⟨dst, hm⟩ := mem_sentFrames.mp hf
    exact h _ hm
  refine ⟨List.filterMap_eq_nil_iff.mpr fun e he => ?_, ?_, ?_, ?_, fun _ => List.nil_sublist _⟩
  · have := h e he
    cases e with
    | assigned c' q flags payload => exact if_neg this
    | _ => rfl
  · rw [show sentOn modeReliable c log = [] from
      List.filterMap_eq_nil_iff.mpr fun frame hf => (hframe frame hf).1]
    exact List.nil_sublist _
  · rw [show acksOn c log = [] from
      List.filterMap_eq_nil_iff.mpr fun frame hf => (hframe frame hf).2]
  · rw [show deliveredOn .plain c log = [] from List.filterMap_eq_nil_iff.mpr fun e he => ?_]
    · exact List.nil_sublist _
    · have := h e he
      cases e with
      | message site src c' q payload => exact if_neg fun hsc => this hsc.1 hsc.2
      | _ => rfl

/-- An event that shows nothing of the channel, at the end or between. -/
theorem LogShows.append_silent (h : LogShows c reports log as ds ks hs fs)
    (h' : ∀ e ∈ log', e.SilentOn c) : LogShows c reports (log ++ log') as ds ks hs fs := by
  have happ := h.append (LogShows.silent h')
  simpa only [List.append_nil] using happ

theorem LogShows.silent_append (h : ∀ e ∈ log, e.SilentOn c)
    (h' : LogShows c reports log' as ds ks hs fs) :
    LogShows c reports (log ++ log') as ds ks hs fs :=
  (LogShows.silent h).append h'

end LogShows

/-- **A node, seen as one end of the link on the channel `c`.** The engine is the same; what is on
the air and what was handed over is, in this order, among what the end has sent and delivered; and
what the end reports as failed has been reported. -/
structure Shows (c : U8) (node : Node) (history : List Event) (e : LinkEnd) : Prop where
  engine : node.engine c = e.engine
  next : e.engine.nextTxSeq = BitVec.ofNat 16 e.sends
  shown : LogShows c node.onTxEvent history (idsBetween 0 e.sends) e.data e.acks e.delivered
    e.failed

section Shows

variable {c : U8} {node node' : Node} {history log : List Event} {e : LinkEnd}

/-- A call that leaves the engine alone. -/
theorem Shows.silent (h : Shows c node history e) (hengine : node'.engine c = node.engine c)
    (htx : node'.onTxEvent = node.onTxEvent) (hlog : ∀ x ∈ log, x.SilentOn c) :
    Shows c node' (history ++ log) e := by
  refine ⟨hengine.trans h.engine, h.next, ?_⟩
  rw [htx]
  exact h.shown.append_silent hlog

/-- What is as the engine was before is no other end. -/
theorem Shows.congr (h : Shows c node history e) (hengine : node'.engine c = node.engine c)
    (htx : node'.onTxEvent = node.onTxEvent) : Shows c node' history e :=
  ⟨hengine.trans h.engine, h.next, by rw [htx]; exact h.shown⟩

/-- **A packet is given the next id**, and maybe sent. -/
theorem Shows.send (h : Shows c node history e) {now : U32}
    (hok : (reliableSend e.engine now).rc = .ok)
    (hengine : node'.engine c = (reliableSend e.engine now).st)
    (htx : node'.onTxEvent = node.onTxEvent)
    (hlog : LogShows c node.onTxEvent log [e.engine.nextTxSeq] [e.engine.nextTxSeq] [] [] []) :
    Shows c node' (history ++ log) (e.send now) := by
  have hnext := LinkEnd.next_step h.next (.send now)
  rcases e.send_cases now with ⟨hno, _⟩ | ⟨ctx', heq, _, hend⟩
  · exact absurd hok hno
  · refine ⟨?_, hnext, ?_⟩
    · rw [hengine, hend, heq]
    · have happ := h.shown.append hlog
      simp only [List.append_nil] at happ
      rw [htx, hend, idsBetween_sends h.next]
      exact happ

/-- **DATA arrives**, and what it releases is handed over, or lost for want of room. -/
theorem Shows.onData (h : Shows c node history e) (q : U16)
    (hengine : node'.engine c = (reliableOnData e.engine q).1)
    (htx : node'.onTxEvent = node.onTxEvent)
    (hlog : LogShows c node.onTxEvent log [] [] [(reliableOnData e.engine q).2.ackId]
      (reliableOnData e.engine q).2.deliveredSeq []) :
    Shows c node' (history ++ log) (e.onData q) := by
  refine ⟨hengine, LinkEnd.next_step h.next (.onData q), ?_⟩
  have happ := h.shown.append hlog
  simp only [List.append_nil] at happ
  rw [htx]
  exact happ

/-- **An ACK arrives.** -/
theorem Shows.onAck (h : Shows c node history e) (a : U16) (now : U32)
    (hengine : node'.engine c = reliableOnAck e.engine a now)
    (htx : node'.onTxEvent = node.onTxEvent) (hlog : ∀ x ∈ log, x.SilentOn c) :
    Shows c node' (history ++ log) (e.onAck a now) := by
  refine ⟨hengine, LinkEnd.next_step h.next (.onAck a now), ?_⟩
  rw [htx]
  exact h.shown.append_silent hlog

/-- What a poll of the engine shows: the id it sends again, or the id it gives up. -/
def Polled (c : U8) (reports : Bool) (log : List Event) (tx : TxResult) : Prop :=
  match tx.event with
  | .retransmit => LogShows c reports log [] [tx.seqId] [] [] []
  | .failed => LogShows c reports log [] [] [] [] [tx.seqId]
  | _ => LogShows c reports log [] [] [] [] []

/-- **The engine is polled.** -/
theorem Shows.poll (h : Shows c node history e) (now : U32)
    (hengine : node'.engine c = (reliablePoll e.engine now).1)
    (htx : node'.onTxEvent = node.onTxEvent)
    (hlog : Polled c node.onTxEvent log (reliablePoll e.engine now).2) :
    Shows c node' (history ++ log) (e.poll now) := by
  have hnext := (reliablePoll_next e.engine now).trans h.next
  unfold LinkEnd.poll
  unfold Polled at hlog
  generalize reliablePoll e.engine now = r at hengine hnext hlog ⊢
  obtain ⟨ctx, event, q⟩ := r
  cases event
  all_goals
    have happ := h.shown.append hlog
    simp only [List.append_nil] at happ
    exact ⟨hengine, hnext, by rw [htx]; exact happ⟩

end Shows

end Relinow
