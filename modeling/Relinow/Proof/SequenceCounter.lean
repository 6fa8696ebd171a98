import Relinow.Proof.StateTables
import Relinow.Proof.ReliableOps
import Relinow.Lib.Runs
import Mathlib.Data.List.Chain
import Mathlib.Data.List.ReduceOption

/-!
# Who hands out sequence ids

Four operations hand out ids of a channel. Three of them take the next one from
the channel's own counter and `relinow_state_reliable_send` takes it from the
counter of the channel's engine, which nothing keeps in step with the first. On a
RELIABLE channel both are in reach.

An id follows the one handed out before it if both came from one counter. If the
counter was changed in between, it does so exactly when the two counters agreed.
-/

namespace Relinow

open SlotTable Runs

/-- Where an id is taken from: the channel's own counter, or that of its engine. -/
inductive Counter where
  | channel
  | engine
  deriving DecidableEq, Repr

/-- The id a counter of the channel hands out next. -/
def ChannelState.next (channel : ChannelState) : Counter → U16
  | .channel => channel.nextTxSeq
  | .engine => channel.reliable.nextTxSeq

/-- The id a call hands out, if it succeeds. -/
def takenId {α : Type} (k : Counter) (seqId : α → U16) (r : Ret StateErr State α) :
    Option (Counter × U16) :=
  if r.rc = .ok then some (k, seqId r.out) else none

/-- The id a call hands out on channel `c` of peer `p`, and the counter it is taken from. -/
def issuedId (p c : U8) (state : State) (call : StateCall) : Option (Counter × U16) :=
  if call.nullArg then none
  else
    match call.op with
    | .nextSequence p' c' =>
        if p' = p ∧ c' = c then takenId .channel id (stateNextSequence state p' c') else none
    | .reliableSend p' c' nowMs =>
        if p' = p ∧ c' = c then takenId .engine TxResult.seqId (stateReliableSend state p' c' nowMs)
        else none
    | .unreliableSend p' c' =>
        if p' = p ∧ c' = c then takenId .channel id (stateUnreliableSend state p' c') else none
    | .prioritySend p' c' =>
        if p' = p ∧ c' = c then takenId .channel PrioritySent.seqId (statePrioritySend state p' c')
        else none
    | _ => none

/-- An id that was handed out, and whether the channel's two counters agreed before. -/
structure Issue where
  counter : Counter
  seqId : U16
  agreed : Bool
  deriving DecidableEq, Repr

def issued (p c : U8) (state : State) (call : StateCall) : Option Issue :=
  (issuedId p c state call).map fun x =>
    ⟨x.1, x.2, (channelAt state p c).any fun channel =>
      channel.next .channel == channel.next .engine⟩

/-- What is handed out on the channel in a run, in order. -/
def issues (p c : U8) (state : State) (calls : List StateCall) : List Issue :=
  (outputs (fun state call => (call.run state).2) (issued p c) state calls).reduceOption

/-! ## One call -/

/-- What a call does to a channel that is open. -/
structure Advances (channel channel' : ChannelState) (x : Option (Counter × U16)) : Prop where
  mode : channel'.mode = channel.mode
  /-- The counters stay if nothing is handed out. -/
  kept : x = none → ∀ k, channel'.next k = channel.next k
  taken : ∀ k q, x = some (k, q) → q = channel.next k ∧ channel'.next k = seqNext q
  engine : ∀ q, x = some (.engine, q) → channel.mode = modeReliable

theorem Advances.same {channel channel' : ChannelState} (hm : channel'.mode = channel.mode)
    (h : ∀ k, channel'.next k = channel.next k) : Advances channel channel' none :=
  ⟨hm, fun _ => h, fun _ _ h => by simp at h, fun _ h => by simp at h⟩

/-- An operation that advances neither counter. -/
theorem ChannelOp.act_same {op : ChannelOp} (h : op.advances = false)
    (h' : op.advancesEngine = false) (channel : ChannelState) :
    Advances channel (op.act channel).st none := by
  have hl := op.act_leaves channel
  refine Advances.same hl.name.mode fun k => ?_
  cases k with
  | channel => exact hl.counter h
  | engine => exact hl.engine h'

/-- A call that succeeds takes an id from counter `k`, and one that fails moves no counter. -/
theorem Advances.of_takenId {α : Type} {channel channel' : ChannelState} {k : Counter} {f : α → U16}
    {r : Ret StateErr State α} (hm : channel'.mode = channel.mode)
    (hok : r.rc = .ok → f r.out = channel.next k ∧ channel'.next k = seqNext (channel.next k)
      ∧ (k = .engine → channel.mode = modeReliable))
    (hno : r.rc ≠ .ok → channel' = channel) : Advances channel channel' (takenId k f r) := by
  unfold takenId
  split
  · rename_i hrc
    obtain ⟨hq, hnext, hmode⟩ := hok hrc
    rw [hq]
    refine ⟨hm, fun h => by simp at h, fun k' q h => ?_, fun q h => ?_⟩
    · obtain ⟨rfl, rfl⟩ := Prod.mk.inj (Option.some.inj h)
      exact ⟨rfl, hnext⟩
    · exact hmode (Prod.mk.inj (Option.some.inj h)).1
  · rename_i hrc
    rw [hno hrc]
    exact Advances.same rfl fun _ => rfl

/-- In a channel of another mode the call fails. -/
theorem Advances.inMode {α : Type} {channel : ChannelState} {mode : U8} {silent : Output}
    {act body : Ret StateErr ChannelState Output} {k : Counter} {f : α → U16}
    {r : Ret StateErr State α} (hact : act = channel.inMode mode silent body)
    (hrc : r.rc = act.rc)
    (hbody : channel.mode = mode → act = body → Advances channel body.st (takenId k f r)) :
    Advances channel act.st (takenId k f r) := by
  by_cases hm : channel.mode = mode
  · rw [inMode_same hm] at hact
    rw [hact]
    exact hbody hm hact
  · rw [inMode_other hm] at hact
    rw [hact] at hrc ⊢
    exact Advances.of_takenId rfl (fun hok => by rw [hok] at hrc; simp at hrc) fun _ => rfl

/-- An operation on the channel hands out the next id of a counter it advances, if any. -/
theorem ChannelOp.run_advances {state : State} {p c : U8} {channel : ChannelState}
    (hat : channelAt state p c = some channel) (op : ChannelOp)
    (hcfg : ∀ cfg, op ≠ .setReliableConfig cfg) :
    ∃ channel', channelAt (op.run state p c).st p c = some channel'
      ∧ Advances channel channel' (issuedId p c state ⟨op.at p c, false⟩) := by
  obtain ⟨hrc, hout, hst⟩ := op.run_channelAt state p c
  rw [hat, Option.elim_some] at hrc hout
  rw [hat, Option.map_some] at hst
  refine ⟨_, hst, ?_⟩
  cases op with
  | setReliableConfig cfg => exact absurd rfl (hcfg cfg)
  | nextSequence =>
      have hid : issuedId p c state ⟨.nextSequence p c, false⟩
          = takenId .channel id (stateNextSequence state p c) := by simp [issuedId]
      show Advances channel _ (issuedId p c state ⟨.nextSequence p c, false⟩)
      rw [hid]
      exact Advances.of_takenId rfl (fun _ => ⟨Output.seq.inj hout, rfl, nofun⟩)
        fun hno => absurd hrc hno
  | unreliableSend =>
      have hid : issuedId p c state ⟨.unreliableSend p c, false⟩
          = takenId .channel id (stateUnreliableSend state p c) := by simp [issuedId]
      show Advances channel _ (issuedId p c state ⟨.unreliableSend p c, false⟩)
      rw [hid]
      refine Advances.inMode rfl hrc fun _ hact => ?_
      rw [hact] at hrc hout
      exact Advances.of_takenId rfl (fun _ => ⟨Output.seq.inj hout, rfl, nofun⟩)
        fun hno => absurd hrc hno
  | prioritySend =>
      have hid : issuedId p c state ⟨.prioritySend p c, false⟩
          = takenId .channel PrioritySent.seqId (statePrioritySend state p c) := by simp [issuedId]
      show Advances channel _ (issuedId p c state ⟨.prioritySend p c, false⟩)
      rw [hid]
      refine Advances.inMode rfl hrc fun _ hact => ?_
      rw [hact] at hrc hout
      have hsent := congrArg PrioritySent.seqId (Output.sent.inj hout)
      exact Advances.of_takenId rfl (fun _ => ⟨hsent, rfl, nofun⟩) fun hno => absurd hrc hno
  | reliableSend now =>
      have hid : issuedId p c state ⟨.reliableSend p c now, false⟩
          = takenId .engine TxResult.seqId (stateReliableSend state p c now) := by simp [issuedId]
      show Advances channel _ (issuedId p c state ⟨.reliableSend p c now, false⟩)
      rw [hid]
      refine Advances.inMode rfl hrc fun hm hact => ?_
      rw [hact] at hrc hout
      rcases reliableSend_cases channel.reliable now with ⟨hs, _⟩ | ⟨ctx', hs, hfr, _⟩
      · -- the engine has no free slot
        rw [hs, if_pos (by simp)] at hrc ⊢
        have hno : (stateReliableSend state p c now).rc ≠ .ok :=
          fun hok => absurd (hok.symm.trans hrc) (by simp)
        exact Advances.of_takenId rfl (fun hok => absurd hok hno) fun _ => rfl
      · rw [hs, if_neg (by simp)] at hrc hout ⊢
        have hsent := congrArg TxResult.seqId (Output.tx.inj hout)
        obtain ⟨queue, hq⟩ := pushTx_eq
          ((channel.withEngine ctx').markInflight channel.reliable.nextTxSeq)
          channel.reliable.nextTxSeq
        dsimp only
        rw [hq]
        exact Advances.of_takenId rfl
          (fun _ => ⟨hsent, congrArg ReliableCtx.nextTxSeq hfr, fun _ => hm⟩)
          fun hno => absurd hrc hno
  | _ => exact ChannelOp.act_same rfl rfl channel

/-- **One call**, on this channel or on another. -/
theorem call_advances {state : State} (hok : TablesOk state) {p c : U8} {channel : ChannelState}
    (hat : channelAt state p c = some channel) {call : StateCall}
    (hcfg : ∀ cfg, call.op ≠ .setReliableConfig p c cfg) :
    TablesOk (call.run state).2 ∧ ∃ channel', channelAt (call.run state).2 p c = some channel'
      ∧ Advances channel channel' (issuedId p c state call) := by
  have hall : Writes (fun _ => True) state (call.run state).2 :=
    calls_writes (fun _ => trivial) [call] (fun _ _ _ _ _ _ => trivial) state
  refine ⟨(hok.writes hall).1, ?_⟩
  obtain ⟨op, null⟩ := call
  cases null with
  | true => exact ⟨channel, hat, Advances.same rfl fun _ => rfl⟩
  | false =>
      -- operations on peers write to a channel only to poll it
      have hwrites : ∀ {state' : State},
          Writes (fun op => ∃ now, op = ChannelOp.reliablePoll now) state state' →
          ∃ channel', channelAt state' p c = some channel' ∧ Advances channel channel' none := by
        intro state' hw
        obtain ⟨channel', hat', hm, hnext⟩ := @TablesOk.follow _
          (fun a b => b.mode = a.mode ∧ ∀ k, b.next k = a.next k) (fun _ => ⟨rfl, fun _ => rfl⟩)
          (fun a b d h h' => ⟨h'.1.trans h.1, fun k => (h'.2 k).trans (h.2 k)⟩)
          (fun a op hop => by
            obtain ⟨now, rfl⟩ := hop
            have hsame := (ChannelOp.reliablePoll now).act_same rfl rfl a
            exact ⟨hsame.mode, hsame.kept rfl⟩)
          (fun a _ => ⟨rfl, fun k => by cases k <;> rfl⟩) _ _ hok hw _ _ _ hat
        exact ⟨channel', hat', Advances.same hm hnext⟩
      have hpoll : ∀ now, ∃ now', ChannelOp.reliablePoll now = .reliablePoll now' :=
        fun now => ⟨now, rfl⟩
      cases op using StateOp.byChannel with
      | channel p' c' op =>
          have hst : (StateCall.run state ⟨op.at p' c', false⟩).2 = (op.run state p' c').st :=
            congrArg Prod.snd (op.at_run state p' c')
          rw [hst]
          by_cases hhere : p' = p ∧ c' = c
          · obtain ⟨rfl, rfl⟩ := hhere
            exact op.run_advances hat fun cfg hop => hcfg cfg (congrArg (ChannelOp.at p' c') hop)
          · have hid : issuedId p c state ⟨op.at p' c', false⟩ = none := by
              cases op <;> simp [issuedId, ChannelOp.at, hhere]
            rw [hid]
            exact ⟨channel, hok.elsewhere hhere op hat, Advances.same rfl fun _ => rfl⟩
      | findPeer mac => exact ⟨channel, hat, Advances.same rfl fun _ => rfl⟩
      | addPeer mac => exact hwrites (addPeer_writes mac)
      | openChannel p' c' mode priority => exact hwrites (openChannel_writes p' c' mode priority)
      | configureHeartbeat p' interval miss =>
          exact hwrites (configureHeartbeat_writes p' interval miss)
      | pollHeartbeat p' now => exact hwrites (pollHeartbeat_writes p' now)
      | onPong p' => exact hwrites (onPong_writes p')
      | schedulerNext p' now => exact hwrites (schedulerNext_writes hpoll p' now)

/-! ## A run -/

/-- Ids are consecutive as long as the counters agree when the one they are taken from changes. -/
def InStep (xs : List Issue) : Prop :=
  xs.IsChain fun a b => a.counter ≠ b.counter → b.agreed = true

theorem issues_cons (p c : U8) (state : State) (call : StateCall) (calls : List StateCall) :
    issues p c state (call :: calls)
      = (issued p c state call).toList ++ issues p c (call.run state).2 calls := by
  unfold issues
  rw [outputs]
  cases issued p c state call with
  | none => exact List.reduceOption_cons_of_none _
  | some x => exact List.reduceOption_cons_of_some _ _

/-- Counters that agree are as good as one. -/
theorem next_follows {channel : ChannelState} {a b : Counter} :
    channel.next b = channel.next a
      ↔ (a ≠ b → (channel.next .channel == channel.next .engine) = true) := by
  rw [beq_iff_eq]
  cases a <;> cases b
  · exact iff_of_true rfl fun h => absurd rfl h
  · exact ⟨fun h _ => h.symm, fun h => (h nofun).symm⟩
  · exact ⟨fun h _ => h, fun h => h nofun⟩
  · exact iff_of_true rfl fun h => absurd rfl h

/-- **A run that starts after `last` was handed out**: each id is the successor of the one before
exactly when the counters agree where they change. -/
theorem issues_chain {p c : U8} (calls : List StateCall)
    (hcfg : ∀ call ∈ calls, ∀ cfg, call.op ≠ .setReliableConfig p c cfg) :
    ∀ {state : State} {channel : ChannelState} (last : Option Issue), TablesOk state →
      channelAt state p c = some channel →
      (∀ x ∈ last, channel.next x.counter = seqNext x.seqId) →
      ((last.toList ++ issues p c state calls).IsChain (fun a b => b.seqId = seqNext a.seqId)
        ↔ InStep (last.toList ++ issues p c state calls)) := by
  induction calls with
  | nil =>
      intro state channel last _ _ _
      cases last with
      | none => exact iff_of_true List.IsChain.nil List.IsChain.nil
      | some x => exact iff_of_true (List.IsChain.singleton x) (List.IsChain.singleton x)
  | cons call calls ih =>
      intro state channel last hok hat hlast
      have ih' := @ih fun call' h => hcfg call' (List.mem_cons_of_mem _ h)
      obtain ⟨hok', channel', hat', hadv⟩ := call_advances hok hat (hcfg call List.mem_cons_self)
      rw [issues_cons]
      unfold issued
      rw [hat, Option.any_some]
      cases hid : issuedId p c state call with
      | none =>
          refine ih' last hok' hat' fun x hx => ?_
          rw [hadv.kept hid]
          exact hlast x hx
      | some x =>
          obtain ⟨k, q⟩ := x
          obtain ⟨hq, hnext⟩ := hadv.taken k q hid
          have hrest := ih' (some ⟨k, q, channel.next .channel == channel.next .engine⟩) hok' hat'
            fun x hx => Option.some.inj hx ▸ hnext
          cases last with
          | none => exact hrest
          | some a =>
              -- the new id against the last one, and the rest of the run
              have ha := hlast a rfl
              refine List.isChain_cons_cons.trans
                (Iff.trans (and_congr ?_ hrest) List.isChain_cons_cons.symm)
              dsimp only
              rw [hq, ← ha]
              exact next_follows

/-- Each id is the successor of the one before, so that no two of 65536 in a row coincide. -/
def OneCounter (ids : List U16) : Prop :=
  SerialNumber.Consecutive ids ∧ ∀ i, ((ids.drop i).take 65536).Nodup

theorem oneCounter_iff {ids : List U16} : OneCounter ids ↔ SerialNumber.Consecutive ids := by
  refine ⟨And.left, fun h => ⟨h, fun i => ?_⟩⟩
  have hpart : SerialNumber.Consecutive ((ids.drop i).take 65536) := (h.drop i).take 65536
  exact hpart.nodup (List.length_take_le _ _)

/-- On a channel of another mode the engine hands out nothing. -/
theorem issues_channel {p c : U8} (calls : List StateCall)
    (hcfg : ∀ call ∈ calls, ∀ cfg, call.op ≠ .setReliableConfig p c cfg) :
    ∀ {state : State} {channel : ChannelState}, TablesOk state →
      channelAt state p c = some channel → channel.mode ≠ modeReliable →
      ∀ x ∈ issues p c state calls, x.counter = .channel := by
  induction calls with
  | nil => exact fun _ _ _ x hx => absurd hx List.not_mem_nil
  | cons call calls ih =>
      intro state channel hok hat hm x hx
      obtain ⟨hok', channel', hat', hadv⟩ := call_advances hok hat (hcfg call List.mem_cons_self)
      rw [issues_cons, List.mem_append] at hx
      rcases hx with hx | hx
      · unfold issued at hx
        rw [Option.mem_toList, Option.map_eq_some_iff] at hx
        obtain ⟨⟨k, q⟩, hid, rfl⟩ := hx
        cases k with
        | channel => rfl
        | engine => exact absurd (hadv.engine q hid) hm
      · exact ih (fun call' h => hcfg call' (List.mem_cons_of_mem _ h)) hok' hat'
          (hadv.mode.symm ▸ hm) x hx

/--
**When a channel has one sequence counter.** In any run of operations on a
reachable state, without a new configuration for the channel, its ids are handed
out in a row if and only if the channel is not RELIABLE or, whenever
`relinow_state_next_sequence` follows `relinow_state_reliable_send` or the other way
round, the counters of the channel and of its engine agree before the call.
-/
theorem channel_oneCounter (pre calls : List StateCall) {p c : U8} {channel : ChannelState}
    (hch : channelAt (stateAfter pre) p c = some channel)
    (hcfg : ∀ call ∈ calls, ∀ cfg, call.op ≠ .setReliableConfig p c cfg) :
    OneCounter ((issues p c (stateAfter pre) calls).map Issue.seqId)
      ↔ (channel.mode = modeReliable → InStep (issues p c (stateAfter pre) calls)) := by
  have hok := (stateAfter_tables pre).1
  have hchain := issues_chain calls hcfg none hok hch nofun
  rw [oneCounter_iff]
  unfold SerialNumber.Consecutive
  rw [List.isChain_map]
  refine Iff.trans hchain ⟨fun h _ => h, fun h => ?_⟩
  by_cases hm : channel.mode = modeReliable
  · exact h hm
  · have hone := issues_channel calls hcfg hok hch hm
    exact List.Pairwise.isChain (List.pairwise_of_forall_mem_list fun a ha b hb hne =>
      absurd ((hone a ha).trans (hone b hb).symm) hne)

/-- Two sends on a RELIABLE channel. -/
theorem channel_oneCounter_sends :
    OneCounter ((issues 0#8 1#8 (stateAfter (oneChannel modeReliable))
      [⟨.reliableSend 0#8 1#8 0#32, false⟩, ⟨.reliableSend 0#8 1#8 5#32, false⟩]).map
        Issue.seqId) := by
  have hch : channelAt (stateAfter (oneChannel modeReliable)) 0#8 1#8
      = some (openedChannel 1#8 modeReliable 0#8) := by decide +kernel
  have hids : issues 0#8 1#8 (stateAfter (oneChannel modeReliable))
      [⟨.reliableSend 0#8 1#8 0#32, false⟩, ⟨.reliableSend 0#8 1#8 5#32, false⟩]
      = [⟨.engine, 0#16, true⟩, ⟨.engine, 1#16, false⟩] := by decide +kernel
  refine (channel_oneCounter (oneChannel modeReliable) _ hch (by simp)).mpr fun _ => ?_
  rw [hids]
  exact List.isChain_cons_cons.mpr ⟨fun hne => absurd rfl hne, List.IsChain.singleton _⟩

/-- The two counters of a new RELIABLE channel hand out id 0 each. -/
theorem channel_not_oneCounter :
    ¬ ∀ (pre calls : List StateCall) (p c : U8) (channel : ChannelState),
      channelAt (stateAfter pre) p c = some channel →
      (∀ call ∈ calls, ∀ p' c' cfg, call.op ≠ .setReliableConfig p' c' cfg) →
      OneCounter ((issues p c (stateAfter pre) calls).map Issue.seqId) := by
  intro h
  have hone := h (oneChannel modeReliable)
    [⟨.nextSequence 0#8 1#8, false⟩, ⟨.reliableSend 0#8 1#8 0#32, false⟩] 0#8 1#8
    (openedChannel 1#8 modeReliable 0#8) (by decide +kernel) (by simp)
  have hids : (issues 0#8 1#8 (stateAfter (oneChannel modeReliable))
      [⟨.nextSequence 0#8 1#8, false⟩, ⟨.reliableSend 0#8 1#8 0#32, false⟩]).map Issue.seqId
      = [0#16, 0#16] := by decide +kernel
  rw [hids] at hone
  exact absurd (List.isChain_cons_cons.mp hone.1).1 (by decide)

end Relinow
