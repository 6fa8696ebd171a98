import Relinow.Proof.ChannelObject
import Mathlib.Logic.Relation

/-!
# The tables over a whole run

Whatever the operation, what it writes to the tables is one of five things:
`Write`. A channel is operated on, or given another priority; fields of a peer
that no lookup reads change; a peer is added; a channel is opened. So an
invariant of the state layer takes five short arguments, one for each.

The tables are arrays scanned for the first match, and everything relies on the
match being the only one. `TablesOk` says that it is, and `Grows` that no entry
is ever moved, renamed or given up.
-/

namespace Relinow

open SlotTable

/-- A peer slot as `relinow_state_add_peer` fills it. -/
def addedPeer (mac : Mac) : PeerState := { PeerState.zero with inUse := true, mac := mac }

/-- One write to the tables, by an operation on a channel that is among `ops` or by one of the
operations on peers. -/
inductive Write (ops : ChannelOp → Prop) (state : State) : State → Prop where
  | channel (p c : U8) (r : ChannelRef) (op : ChannelOp) (hop : ops op)
      (hr : findChannelMut state p c = some r) :
      Write ops state (state.setChannel r (op.act (state.channel r)).st)
  | priority (r : ChannelRef) (priority : U8) :
      Write ops state (state.setChannel r { state.channel r with priority := priority })
  | fields (i : Fin maxPeers) (peer : PeerState) (hu : peer.inUse = state.peers[i].inUse)
      (hm : peer.mac = state.peers[i].mac) (hc : peer.channels = state.peers[i].channels)
      (hl : peer.lastPolledChannelIdx = state.peers[i].lastPolledChannelIdx
        ∨ peer.lastPolledChannelIdx.toNat < maxChannelsPerPeer) :
      Write ops state (state.setPeer i peer)
  | peer (i : Fin maxPeers) (mac : Mac) (hfree : state.peers[i].inUse = false)
      (hnew : ∀ j : Fin maxPeers, state.peers[j].inUse = true → state.peers[j].mac ≠ mac) :
      Write ops state (state.setPeer i (addedPeer mac))
  | opened (r : ChannelRef) (c mode priority : U8) (hp : state.peers[r.1].inUse = true)
      (hnew : findChannelIdx state.peers[r.1] c = none)
      (hfree : (state.channel r).inUse = false) (hm : modeSupported mode = true)
      (hc : c ≠ heartbeatChannel) :
      Write ops state (state.setChannel r (openedChannel c mode priority))

/-- Any number of writes. -/
abbrev Writes (ops : ChannelOp → Prop) : State → State → Prop :=
  Relation.ReflTransGen (Write ops)

section Operations

variable {ops : ChannelOp → Prop} {state : State}

theorem ChannelOp.run_writes {op : ChannelOp} (hop : ops op) (p c : U8) :
    Writes ops state (op.run state p c).st := by
  cases h : findChannelMut state p c with
  | none => rw [op.run_absent h]
  | some r =>
      rw [op.run_eq h]
      exact Relation.ReflTransGen.single (Write.channel p c r op hop h)

theorem addPeer_writes (mac : Mac) : Writes ops state (stateAddPeer state mac).st := by
  unfold stateAddPeer stateFindPeer
  cases hf : firstIdx (fun peer => peer.inUse && peer.mac == mac) state.peers with
  | some i => exact Relation.ReflTransGen.refl
  | none =>
      dsimp only
      cases hi : firstIdx (fun peer => !peer.inUse) state.peers with
      | none => exact Relation.ReflTransGen.refl
      | some i =>
          refine Relation.ReflTransGen.single
            (Write.peer i mac (freeIdx_some PeerState.inUse hi) fun j hj hm => ?_)
          have hmem := (keyIdx_none PeerState.inUse PeerState.mac).mp hf
          exact hmem (mem_keys.mpr ⟨j, hj, hm⟩)

theorem openChannel_writes (p c mode priority : U8) :
    Writes ops state (stateOpenChannel state p c mode priority).st := by
  rcases stateOpenChannel_places state p c mode priority with ⟨_, hst⟩ | ⟨r, _, _, heq⟩ |
    ⟨r, _, hu, hnew, hfree, hmode, hhb, heq⟩
  · rw [hst]
  · rw [heq]
    exact Relation.ReflTransGen.single (Write.priority r priority)
  · rw [heq]
    exact Relation.ReflTransGen.single (Write.opened r c mode priority hu hnew hfree hmode hhb)

theorem configureHeartbeat_writes (p : U8) (interval : U16) (miss : U8) :
    Writes ops state (stateConfigureHeartbeat state p interval miss).st := by
  unfold stateConfigureHeartbeat
  split
  · dsimp only
    split
    · exact Relation.ReflTransGen.refl
    · exact Relation.ReflTransGen.single (Write.fields _ _ rfl rfl rfl (Or.inl rfl))
  · exact Relation.ReflTransGen.refl

theorem pollHeartbeat_writes (p : U8) (now : U32) :
    Writes ops state (statePollHeartbeat state p now).st := by
  unfold statePollHeartbeat
  split
  · dsimp only
    split
    · exact Relation.ReflTransGen.refl
    · split
      · split
        · exact Relation.ReflTransGen.refl
        · exact Relation.ReflTransGen.single (Write.fields _ _ rfl rfl rfl (Or.inl rfl))
      · exact Relation.ReflTransGen.refl
  · exact Relation.ReflTransGen.refl

theorem onPong_writes (p : U8) : Writes ops state (stateOnPong state p).st := by
  unfold stateOnPong
  split
  · dsimp only
    split
    · exact Relation.ReflTransGen.refl
    · exact Relation.ReflTransGen.single (Write.fields _ _ rfl rfl rfl (Or.inl rfl))
  · exact Relation.ReflTransGen.refl

/-- A poll of the scheduler is the channel operation, also when it reports nothing. -/
theorem schedulerScan_writes (hpoll : ∀ now, ops (.reliablePoll now)) (p : Fin maxPeers)
    (peerIndex : U8) (now : U32) (n : Nat) :
    ∀ state : State, Writes ops state (schedulerScan p peerIndex now n state).1 := by
  induction n with
  | zero => exact fun _ => Relation.ReflTransGen.refl
  | succ n ih =>
      intro state
      unfold schedulerScan
      dsimp only
      split
      · have hw : ∀ c, Writes ops state (stateReliablePoll state peerIndex c now).st := fun c =>
          (ChannelOp.reliablePoll now).run_writes (hpoll now) peerIndex c
        split
        · refine (hw _).tail (Write.fields p _ rfl rfl rfl (Or.inr ?_))
          -- the index is one of the table's, so eight bits hold it
          exact lt_of_le_of_lt (Nat.mod_le _ _) (Fin.isLt _)
        · exact (hw _).trans (ih _)
      · exact ih state

theorem schedulerNext_writes (hpoll : ∀ now, ops (.reliablePoll now)) (p : U8) (now : U32) :
    Writes ops state (stateSchedulerNext state p now).st := by
  unfold stateSchedulerNext
  split
  · dsimp only
    split
    · exact Relation.ReflTransGen.refl
    · exact schedulerScan_writes hpoll _ p now maxChannelsPerPeer state
  · exact Relation.ReflTransGen.refl

/-- **Every operation is a number of writes.** -/
theorem StateOp.run_writes (op : StateOp) (hop : ∀ p c o, op = ChannelOp.at p c o → ops o)
    (hpoll : ∀ now, ops (.reliablePoll now)) : Writes ops state (op.run state).2 := by
  cases op using StateOp.byChannel with
  | channel p c o =>
      rw [ChannelOp.at_run]
      exact o.run_writes (hop p c o rfl) p c
  | findPeer mac => exact Relation.ReflTransGen.refl
  | addPeer mac => exact addPeer_writes mac
  | openChannel p c mode priority => exact openChannel_writes p c mode priority
  | configureHeartbeat p interval miss => exact configureHeartbeat_writes p interval miss
  | pollHeartbeat p now => exact pollHeartbeat_writes p now
  | onPong p => exact onPong_writes p
  | schedulerNext p now => exact schedulerNext_writes hpoll p now

end Operations

/-- The state after more calls, from any state. -/
theorem calls_writes {ops : ChannelOp → Prop} (hpoll : ∀ now, ops (.reliablePoll now))
    (calls : List StateCall)
    (hops : ∀ call ∈ calls, ∀ p c o, call.op = ChannelOp.at p c o → ops o) :
    ∀ state : State,
      Writes ops state (calls.foldl (fun state call => (call.run state).2) state) := by
  induction calls with
  | nil => exact fun _ => Relation.ReflTransGen.refl
  | cons call calls ih =>
      intro state
      have hstep : Writes ops state (call.run state).2 := by
        unfold StateCall.run
        split
        · exact Relation.ReflTransGen.refl
        · exact call.op.run_writes (hops call List.mem_cons_self) hpoll
      exact hstep.trans (ih (fun a ha => hops a (List.mem_cons_of_mem _ ha)) _)

/-- **The rule for the state layer**: what every write keeps holds after every sequence of
calls. -/
theorem stateAfter_induction {ops : ChannelOp → Prop} {I : State → Prop}
    (hpoll : ∀ now, ops (.reliablePoll now)) (hinit : I stateInit)
    (hwrite : ∀ s s', I s → Write ops s s' → I s') (calls : List StateCall)
    (hops : ∀ call ∈ calls, ∀ p c o, call.op = ChannelOp.at p c o → ops o) :
    I (stateAfter calls) := by
  have hall : ∀ s', Writes ops stateInit s' → I s' := by
    intro s' h
    induction h with
    | refl => exact hinit
    | tail _ hw ih => exact hwrite _ _ ih hw
  exact hall _ (calls_writes hpoll calls hops stateInit)

/-! ## One channel at a time -/

theorem setPeer_get (state : State) (i j : Fin maxPeers) (peer : PeerState) :
    (state.setPeer i peer).peers[j] = if i = j then peer else state.peers[j] :=
  get_put state.peers i j peer

theorem setPeer_channel (state : State) (i : Fin maxPeers) (peer : PeerState) (r : ChannelRef) :
    (state.setPeer i peer).channel r = if i = r.1 then peer.channels[r.2] else state.channel r := by
  unfold State.channel
  rw [setPeer_get]
  split <;> rfl

theorem setChannel_get (state : State) (r r' : ChannelRef) (channel : ChannelState) :
    (state.setChannel r channel).channel r' = if r = r' then channel else state.channel r' := by
  by_cases h : r = r'
  · subst h
    rw [if_pos rfl, channel_setChannel]
  · rw [if_neg h, channel_setChannel_ne h]

/-- What every operation keeps of the channel it acts on, and an empty or newly opened channel
has, every write keeps of all channels. -/
theorem write_channels {ops : ChannelOp → Prop} {I : ChannelState → Prop}
    (hact : ∀ channel op, ops op → I channel → I (ChannelOp.act channel op).st)
    (hprio : ∀ (channel : ChannelState) priority, I channel →
      I { channel with priority := priority })
    (hzero : I ChannelState.zero) (hopen : ∀ c mode priority, I (openedChannel c mode priority))
    {state state' : State} (h : ∀ r, I (state.channel r)) (hw : Write ops state state') :
    ∀ r, I (state'.channel r) := by
  intro r'
  cases hw with
  | channel p c r op hop _ =>
      rw [setChannel_get]
      split
      · exact hact _ op hop (h r)
      · exact h r'
  | priority r priority =>
      rw [setChannel_get]
      split
      · exact hprio _ priority (h r)
      · exact h r'
  | fields i peer _ _ hc _ =>
      rw [setPeer_channel]
      split
      · rename_i hi
        rw [hc, hi]
        exact h r'
      · exact h r'
  | peer i mac _ _ =>
      rw [setPeer_channel]
      split
      · -- the channels of a new peer are empty
        unfold addedPeer PeerState.zero
        dsimp only
        rw [get_replicate]
        exact hzero
      · exact h r'
  | opened r c mode priority _ _ _ _ _ =>
      rw [setChannel_get]
      split
      · exact hopen c mode priority
      · exact h r'

/-- **The rule for channels**: what holds of an empty and of a newly opened channel and is kept by
every operation holds of every channel after every sequence of calls. -/
theorem stateAfter_channels {ops : ChannelOp → Prop} {I : ChannelState → Prop}
    (hpoll : ∀ now, ops (.reliablePoll now))
    (hact : ∀ channel op, ops op → I channel → I (ChannelOp.act channel op).st)
    (hprio : ∀ (channel : ChannelState) priority, I channel →
      I { channel with priority := priority })
    (hzero : I ChannelState.zero) (hopen : ∀ c mode priority, I (openedChannel c mode priority))
    (calls : List StateCall)
    (hops : ∀ call ∈ calls, ∀ p c o, call.op = ChannelOp.at p c o → ops o) :
    ∀ r, I ((stateAfter calls).channel r) := by
  refine stateAfter_induction hpoll ?_
    (fun _ _ h hw => write_channels hact hprio hzero hopen h hw) calls hops
  intro r
  unfold State.channel stateInit PeerState.zero
  dsimp only
  rw [get_replicate, get_replicate]
  exact hzero

/-! ## Every match is the only one -/

/-- The tables of peers and channels are in order. -/
structure TablesOk (state : State) : Prop where
  /-- No two peers have one address. -/
  macs : ∀ i j : Fin maxPeers, state.peers[i].inUse = true → state.peers[j].inUse = true →
    state.peers[i].mac = state.peers[j].mac → i = j
  /-- No two channels of a peer have one id. -/
  ids : ∀ (i : Fin maxPeers) (j k : Fin maxChannelsPerPeer), state.peers[i].inUse = true →
    (state.channel (i, j)).inUse = true → (state.channel (i, k)).inUse = true →
    (state.channel (i, j)).channelId = (state.channel (i, k)).channelId → j = k
  /-- No channel has the heartbeats' id. -/
  named : ∀ r : ChannelRef, state.peers[r.1].inUse = true → (state.channel r).inUse = true →
    (state.channel r).channelId ≠ heartbeatChannel
  modes : ∀ r : ChannelRef, state.peers[r.1].inUse = true → (state.channel r).inUse = true →
    (state.channel r).mode = modeReliable ∨ (state.channel r).mode = modeUnreliable
      ∨ (state.channel r).mode = modePriority

/-- What is in use in `state` is in use in `state'`, in the same place, under the same name. -/
structure Grows (state state' : State) : Prop where
  peers : ∀ i : Fin maxPeers, state.peers[i].inUse = true →
    state'.peers[i].inUse = true ∧ state'.peers[i].mac = state.peers[i].mac
  channels : ∀ r : ChannelRef, state.peers[r.1].inUse = true → (state.channel r).inUse = true →
    SameName (state.channel r) (state'.channel r)

theorem Grows.refl (state : State) : Grows state state :=
  ⟨fun _ h => ⟨h, rfl⟩, fun _ _ _ => SameName.refl _⟩

theorem Grows.trans {s s' s'' : State} (h : Grows s s') (h' : Grows s' s'') : Grows s s'' where
  peers i hi := by
    obtain ⟨hu, hm⟩ := h.peers i hi
    obtain ⟨hu', hm'⟩ := h'.peers i hu
    exact ⟨hu', hm'.trans hm⟩
  channels r hp hr := by
    have h1 := h.channels r hp hr
    exact h1.trans (h'.channels r (h.peers r.1 hp).1 (h1.inUse.trans hr))

theorem tablesOk_init : TablesOk stateInit := by
  have hno : ∀ i : Fin maxPeers, stateInit.peers[i].inUse = false := by decide
  refine ⟨fun i _ hi => ?_, fun i _ _ hi => ?_, fun r hr => ?_, fun r hr => ?_⟩
  · rw [hno] at hi; exact absurd hi (by decide)
  · rw [hno] at hi; exact absurd hi (by decide)
  · rw [hno] at hr; exact absurd hr (by decide)
  · rw [hno] at hr; exact absurd hr (by decide)

theorem setChannel_peerName (state : State) (r : ChannelRef) (channel : ChannelState)
    (i : Fin maxPeers) : (state.setChannel r channel).peers[i].inUse = state.peers[i].inUse
      ∧ (state.setChannel r channel).peers[i].mac = state.peers[i].mac := by
  rw [setChannel_peer]
  exact ⟨rfl, rfl⟩

/-- Tables whose entries are in use alike and called alike are in order alike. -/
theorem tablesOk_same {state state' : State} (h : TablesOk state)
    (hp : ∀ i : Fin maxPeers, state'.peers[i].inUse = state.peers[i].inUse
      ∧ state'.peers[i].mac = state.peers[i].mac)
    (hc : ∀ r, SameName (state.channel r) (state'.channel r)) :
    TablesOk state' ∧ Grows state state' := by
  refine ⟨⟨?_, ?_, ?_, ?_⟩, ⟨fun i hi => ⟨(hp i).1.trans hi, (hp i).2⟩, fun r _ _ => hc r⟩⟩
  · intro i j hi hj hm
    rw [(hp i).1] at hi
    rw [(hp j).1] at hj
    rw [(hp i).2, (hp j).2] at hm
    exact h.macs i j hi hj hm
  · intro i j k hi hj hk hid
    rw [(hp i).1] at hi
    rw [(hc (i, j)).inUse] at hj
    rw [(hc (i, k)).inUse] at hk
    rw [(hc (i, j)).channelId, (hc (i, k)).channelId] at hid
    exact h.ids i j k hi hj hk hid
  · intro r hr hu
    rw [(hp r.1).1] at hr
    rw [(hc r).inUse] at hu
    rw [(hc r).channelId]
    exact h.named r hr hu
  · intro r hr hu
    rw [(hp r.1).1] at hr
    rw [(hc r).inUse] at hu
    rw [(hc r).mode]
    exact h.modes r hr hu

theorem modeSupported_cases {mode : U8} (h : modeSupported mode = true) :
    mode = modeReliable ∨ mode = modeUnreliable ∨ mode = modePriority := by
  unfold modeSupported at h
  rw [Bool.or_eq_true, Bool.or_eq_true, beq_iff_eq, beq_iff_eq, beq_iff_eq, or_assoc] at h
  exact h

/-- A new peer has an address of its own and no channels. -/
theorem tablesOk_peer {state : State} {i : Fin maxPeers} {mac : Mac} (h : TablesOk state)
    (hfree : state.peers[i].inUse = false)
    (hnew : ∀ j : Fin maxPeers, state.peers[j].inUse = true → state.peers[j].mac ≠ mac) :
    TablesOk (state.setPeer i (addedPeer mac)) ∧ Grows state (state.setPeer i (addedPeer mac)) := by
  have hzero : ∀ j : Fin maxChannelsPerPeer, (addedPeer mac).channels[j].inUse = false := by
    intro j
    unfold addedPeer PeerState.zero
    dsimp only
    rw [get_replicate]
    rfl
  -- a channel in use is one of a peer that was there before
  have hold : ∀ r : ChannelRef, ((state.setPeer i (addedPeer mac)).channel r).inUse = true →
      i ≠ r.1 := by
    rintro r hu rfl
    rw [setPeer_channel, if_pos rfl, hzero] at hu
    exact absurd hu (by decide)
  have hnot : ∀ j : Fin maxPeers, state.peers[j].inUse = true → i ≠ j := by
    rintro j hj rfl
    exact absurd (hj.symm.trans hfree) (by decide)
  refine ⟨⟨fun a b ha hb hmac => ?_, fun a j k ha hj hk hid => ?_, fun r hr hu => ?_,
    fun r hr hu => ?_⟩, fun j hj => ?_, fun r hr _ => ?_⟩
  · refine unique_fill (i := i) (x := addedPeer mac)
      (f := fun j => state.peers[j]) (g := fun j => (state.setPeer i (addedPeer mac)).peers[j])
      ?_ (fun j hj => ?_) h.macs hnew ha hb hmac
    · rw [setPeer_get, if_pos rfl]
    · rw [setPeer_get, if_neg (Ne.symm hj)]
  · have hia := hold (a, j) hj
    rw [setPeer_get, if_neg hia] at ha
    rw [setPeer_channel, if_neg hia] at hj hk
    rw [setPeer_channel, setPeer_channel, if_neg hia, if_neg hia] at hid
    exact h.ids a j k ha hj hk hid
  · have hir := hold r hu
    rw [setPeer_get, if_neg hir] at hr
    rw [setPeer_channel, if_neg hir] at hu ⊢
    exact h.named r hr hu
  · have hir := hold r hu
    rw [setPeer_get, if_neg hir] at hr
    rw [setPeer_channel, if_neg hir] at hu ⊢
    exact h.modes r hr hu
  · rw [setPeer_get, if_neg (hnot j hj)]
    exact ⟨hj, rfl⟩
  · rw [setPeer_channel, if_neg (hnot r.1 hr)]
    exact SameName.refl _

/-- A new channel has an id of its own, which is not the heartbeats', and a supported mode. -/
theorem tablesOk_opened {state : State} {r : ChannelRef} {c mode priority : U8} (h : TablesOk state)
    (hnew : findChannelIdx state.peers[r.1] c = none) (hfree : (state.channel r).inUse = false)
    (hm : modeSupported mode = true) (hc : c ≠ heartbeatChannel) :
    TablesOk (state.setChannel r (openedChannel c mode priority))
      ∧ Grows state (state.setChannel r (openedChannel c mode priority)) := by
  have hpeer := setChannel_peerName state r (openedChannel c mode priority)
  have hother : ∀ j : Fin maxChannelsPerPeer, (state.channel (r.1, j)).inUse = true →
      (state.channel (r.1, j)).channelId ≠ c := by
    intro j hj hid
    exact (keyIdx_none ChannelState.inUse ChannelState.channelId).mp hnew
      (mem_keys.mpr ⟨j, hj, hid⟩)
  -- what holds of the new channel and of the old ones holds of all
  have hall : ∀ P : ChannelState → Prop, P (openedChannel c mode priority) →
      (∀ r', state.peers[r'.1].inUse = true → (state.channel r').inUse = true →
        P (state.channel r')) →
      ∀ r' : ChannelRef,
        (state.setChannel r (openedChannel c mode priority)).peers[r'.1].inUse = true →
        ((state.setChannel r (openedChannel c mode priority)).channel r').inUse = true →
        P ((state.setChannel r (openedChannel c mode priority)).channel r') := by
    intro P hopened hP r' hr hu
    rw [(hpeer r'.1).1] at hr
    rw [setChannel_get] at hu ⊢
    by_cases hrr : r = r'
    · rw [if_pos hrr]
      exact hopened
    · rw [if_neg hrr] at hu ⊢
      exact hP r' hr hu
  refine ⟨⟨fun i j hi hj hmac => ?_, fun i j k hi hj hk hid => ?_,
    hall (fun channel => channel.channelId ≠ heartbeatChannel) hc h.named,
    hall (fun channel => channel.mode = modeReliable ∨ channel.mode = modeUnreliable
      ∨ channel.mode = modePriority) (modeSupported_cases hm) h.modes⟩,
    fun i hi => ⟨(hpeer i).1.trans hi, (hpeer i).2⟩,
    fun r' _ hu => ?_⟩
  · rw [(hpeer i).1] at hi
    rw [(hpeer j).1] at hj
    rw [(hpeer i).2, (hpeer j).2] at hmac
    exact h.macs i j hi hj hmac
  · rw [(hpeer i).1] at hi
    by_cases hir : i = r.1
    · -- the peer with the new channel
      subst hir
      refine unique_fill (i := r.2) (x := openedChannel c mode priority)
        (f := fun j => state.channel (r.1, j))
        (g := fun j => (state.setChannel r (openedChannel c mode priority)).channel (r.1, j))
        ?_ (fun j hj => ?_) (fun j k => h.ids r.1 j k hi) hother hj hk hid
      · rw [setChannel_get, if_pos rfl]
      · rw [setChannel_get, if_neg fun hrj => hj (congrArg Prod.snd hrj).symm]
    · have hne : ∀ j : Fin maxChannelsPerPeer, r ≠ (i, j) :=
        fun j hrj => hir (congrArg Prod.fst hrj).symm
      rw [setChannel_get, if_neg (hne j)] at hj
      rw [setChannel_get, if_neg (hne k)] at hk
      rw [setChannel_get, setChannel_get, if_neg (hne j), if_neg (hne k)] at hid
      exact h.ids i j k hi hj hk hid
  · have hrr : r ≠ r' := by
      rintro rfl
      exact absurd (hu.symm.trans hfree) (by decide)
    rw [setChannel_get, if_neg hrr]
    exact SameName.refl _

/-- **A write keeps the tables in order and only adds to them.** -/
theorem TablesOk.write {ops : ChannelOp → Prop} {state state' : State} (h : TablesOk state)
    (hw : Write ops state state') : TablesOk state' ∧ Grows state state' := by
  have hsame : ∀ (r : ChannelRef) (channel : ChannelState), SameName (state.channel r) channel →
      TablesOk (state.setChannel r channel) ∧ Grows state (state.setChannel r channel) := by
    intro r channel hn
    refine tablesOk_same h (setChannel_peerName state r channel) fun r' => ?_
    rw [setChannel_get]
    split
    · rename_i hrr
      rwa [← hrr]
    · exact SameName.refl _
  cases hw with
  | channel p c r op _ _ => exact hsame r _ (op.act_name _)
  | priority r priority => exact hsame r _ ⟨rfl, rfl, rfl⟩
  | fields i peer hu hm hc _ =>
      -- no lookup reads the fields that change
      refine tablesOk_same h (fun j => ?_) (fun r => ?_)
      · rw [setPeer_get]
        split
        · rename_i hij
          subst hij
          exact ⟨hu, hm⟩
        · exact ⟨rfl, rfl⟩
      · rw [setPeer_channel]
        split
        · rename_i hir
          rw [hc, hir]
          exact SameName.refl _
        · exact SameName.refl _
  | peer i mac hfree hnew => exact tablesOk_peer h hfree hnew
  | opened r c mode priority _ hnew hfree hm hc => exact tablesOk_opened h hnew hfree hm hc

theorem TablesOk.writes {ops : ChannelOp → Prop} {state state' : State} (h : TablesOk state)
    (hw : Writes ops state state') : TablesOk state' ∧ Grows state state' := by
  induction hw with
  | refl => exact ⟨h, Grows.refl state⟩
  | tail _ hw ih =>
      obtain ⟨hok, hgrows⟩ := ih.1.write hw
      exact ⟨hok, ih.2.trans hgrows⟩

/-! ## What is found once is found ever after -/

/-- A peer in use is found by its address. -/
theorem findPeer_of_inUse {state : State} (h : TablesOk state) {i : Fin maxPeers}
    (hi : state.peers[i].inUse = true) :
    stateFindPeer state state.peers[i].mac = .ok (BitVec.ofNat 8 i.val) := by
  have hf : firstIdx (fun peer => peer.inUse && peer.mac == state.peers[i].mac) state.peers
      = some i := by
    refine firstIdx_of_unique (by rw [hi, beq_self_eq_true]; rfl) fun j hj => ?_
    rw [Bool.and_eq_true, beq_iff_eq] at hj
    exact h.macs j i hj.1 hi hj.2
  unfold stateFindPeer
  rw [hf]

theorem findPeer_inUse {state : State} {mac : Mac} {x : U8} (h : stateFindPeer state mac = .ok x) :
    ∃ i : Fin maxPeers, x = BitVec.ofNat 8 i.val ∧ state.peers[i].inUse = true
      ∧ state.peers[i].mac = mac := by
  unfold stateFindPeer at h
  cases hf : firstIdx (fun peer => peer.inUse && peer.mac == mac) state.peers with
  | none =>
      rw [hf] at h
      exact absurd h (by simp)
  | some i =>
      rw [hf] at h
      obtain ⟨hu, hm⟩ := keyIdx_some PeerState.inUse PeerState.mac hf
      exact ⟨i, (Except.ok.inj h).symm, hu, hm⟩

theorem Grows.findPeer {state state' : State} (hg : Grows state state') (h : TablesOk state')
    {mac : Mac} {x : U8} (hx : stateFindPeer state mac = .ok x) :
    stateFindPeer state' mac = .ok x := by
  obtain ⟨i, rfl, hu, rfl⟩ := findPeer_inUse hx
  obtain ⟨hu', hm'⟩ := hg.peers i hu
  rw [← hm']
  exact findPeer_of_inUse h hu'

/-- A channel in use is found under its id. -/
theorem findChannelMut_of_inUse {state : State} (h : TablesOk state) {p : U8} {r : ChannelRef}
    (hi : r.1.val = p.toNat) (hp : state.peers[r.1].inUse = true)
    (hr : (state.channel r).inUse = true) :
    findChannelMut state p (state.channel r).channelId = some r := by
  refine findChannelMut_eq_some.mpr ⟨hi, hp, firstIdx_of_unique ?_ fun j hj => ?_⟩
  · rw [Bool.and_eq_true, beq_iff_eq]
    exact ⟨hr, rfl⟩
  · rw [Bool.and_eq_true, beq_iff_eq] at hj
    exact h.ids r.1 j r.2 hp hj.1 hr hj.2

/-- The channel found under an id is found there again. -/
theorem Grows.findChannel {state state' : State} (hg : Grows state state') (h : TablesOk state')
    {p c : U8} {r : ChannelRef} (hr : findChannelMut state p c = some r) :
    findChannelMut state' p c = some r ∧ SameName (state.channel r) (state'.channel r) := by
  obtain ⟨hi, hu, _⟩ := findChannelMut_eq_some.mp hr
  obtain ⟨hin, hid⟩ := findChannelMut_found hr
  have hn := hg.channels r hu hin
  have hfind := findChannelMut_of_inUse h hi (hg.peers r.1 hu).1 (hn.inUse.trans hin)
  rw [hn.channelId, hid] at hfind
  exact ⟨hfind, hn⟩

/-- What is kept of an open channel by the operations and by a new priority, is kept of it by any
writes. -/
theorem TablesOk.follow {ops : ChannelOp → Prop} {R : ChannelState → ChannelState → Prop}
    (hrefl : ∀ channel, R channel channel) (htrans : ∀ a b d, R a b → R b d → R a d)
    (hact : ∀ channel op, ops op → R channel (ChannelOp.act channel op).st)
    (hprio : ∀ (channel : ChannelState) priority, R channel { channel with priority := priority })
    {state state' : State} (h : TablesOk state) (hw : Writes ops state state') {p c : U8}
    {channel : ChannelState} (hat : channelAt state p c = some channel) :
    ∃ channel', channelAt state' p c = some channel' ∧ R channel channel' := by
  obtain ⟨r, hr, rfl⟩ := channelAt_eq_some.mp hat
  obtain ⟨hok', hgrows⟩ := h.writes hw
  refine ⟨state'.channel r, channelAt_eq_some.mpr ⟨r, (hgrows.findChannel hok' hr).1, rfl⟩, ?_⟩
  obtain ⟨_, hpeer, _⟩ := findChannelMut_eq_some.mp hr
  obtain ⟨hin, _⟩ := findChannelMut_found hr
  clear hat hok' hgrows hr
  induction hw with
  | refl => exact hrefl _
  | @tail b d hbs hw ih =>
      refine htrans _ _ _ ih ?_
      obtain ⟨hokb, hgb⟩ := h.writes hbs
      have hpeer' := (hgb.peers r.1 hpeer).1
      have hin' := (hgb.channels r hpeer hin).inUse.trans hin
      cases hw with
      | channel p c r' op hop _ =>
          rw [setChannel_get]
          split
          · rename_i hrr
            exact hrr ▸ hact _ op hop
          · exact hrefl _
      | priority r' priority =>
          rw [setChannel_get]
          split
          · rename_i hrr
            exact hrr ▸ hprio _ priority
          · exact hrefl _
      | fields i peer _ _ hc _ =>
          rw [setPeer_channel]
          split
          · rename_i hir
            rw [hc, hir]
            exact hrefl _
          · exact hrefl _
      | peer i mac hfree _ =>
          rw [setPeer_channel, if_neg]
          · exact hrefl _
          · rintro rfl
            exact absurd (hpeer'.symm.trans hfree) (by decide)
      | opened r' c mode priority _ _ hfree _ _ =>
          rw [setChannel_get, if_neg]
          · exact hrefl _
          · rintro rfl
            exact absurd (hin'.symm.trans hfree) (by decide)

/-- An operation on one channel leaves every other as it is. -/
theorem TablesOk.elsewhere {state : State} (h : TablesOk state) {p c p' c' : U8}
    (hne : ¬ (p' = p ∧ c' = c)) (op : ChannelOp) {channel : ChannelState}
    (hat : channelAt state p c = some channel) :
    channelAt (op.run state p' c').st p c = some channel := by
  obtain ⟨r, hr, rfl⟩ := channelAt_eq_some.mp hat
  have hw : Writes (fun _ => True) state (op.run state p' c').st := op.run_writes trivial p' c'
  obtain ⟨hok', hgrows⟩ := h.writes hw
  refine channelAt_eq_some.mpr ⟨r, (hgrows.findChannel hok' hr).1, ?_⟩
  refine (op.run_onlyChannel state p' c').slots r fun hr' => hne ⟨?_, ?_⟩
  · have hp := (findChannelMut_eq_some.mp hr).1
    have hp' := (findChannelMut_eq_some.mp hr').1
    exact BitVec.eq_of_toNat_eq (hp'.symm.trans hp)
  · exact (findChannelMut_found hr').2.symm.trans (findChannelMut_found hr).2

theorem getChannelMode_found {state : State} {p c : U8} {r : ChannelRef}
    (h : findChannelMut state p c = some r) :
    stateGetChannelMode state p c = .ok (state.channel r).mode := by
  unfold stateGetChannelMode
  rw [lookupChannel_found h]

theorem Grows.getChannelMode {state state' : State} (hg : Grows state state') (h : TablesOk state')
    {p c mode : U8} (hm : stateGetChannelMode state p c = .ok mode) :
    stateGetChannelMode state' p c = .ok mode := by
  cases hr : findChannelMut state p c with
  | none =>
      unfold stateGetChannelMode at hm
      rw [lookupChannel_absent hr] at hm
      exact absurd hm (by simp)
  | some r =>
      obtain ⟨hr', hn⟩ := hg.findChannel h hr
      rw [getChannelMode_found hr] at hm
      rw [getChannelMode_found hr', hn.mode]
      exact hm

/-- A peer that was added is found where it was added. -/
theorem findPeer_added {state : State} (h : TablesOk state) {mac : Mac}
    (hrc : (stateAddPeer state mac).rc = .ok) :
    stateFindPeer (stateAddPeer state mac).st mac = .ok (stateAddPeer state mac).out := by
  have hw : Writes (fun _ => True) state (stateAddPeer state mac).st := addPeer_writes mac
  have hok := (h.writes hw).1
  unfold stateAddPeer at hrc hok ⊢
  cases hf : stateFindPeer state mac with
  | ok x => exact hf
  | error e =>
      rw [hf] at hrc hok
      dsimp only at hrc hok ⊢
      cases hi : firstIdx (fun peer => !peer.inUse) state.peers with
      | none =>
          rw [hi] at hrc
          exact absurd hrc (by simp)
      | some i =>
          rw [hi] at hok
          dsimp only at hok ⊢
          have hget := setPeer_get state i i { PeerState.zero with inUse := true, mac := mac }
          rw [if_pos rfl] at hget
          have hfind := findPeer_of_inUse hok (i := i) (by rw [hget])
          rwa [hget] at hfind

/-- A channel that was opened is found under its id with its mode. -/
theorem getChannelMode_opened {state : State} (h : TablesOk state) {p c mode priority : U8}
    (hrc : (stateOpenChannel state p c mode priority).rc = .ok) :
    stateGetChannelMode (stateOpenChannel state p c mode priority).st p c = .ok mode := by
  rcases stateOpenChannel_places state p c mode priority with ⟨hne, _⟩ | ⟨r, hr, hm, heq⟩ |
    ⟨r, hi, hu, hnew, hfree, hmode, hhb, heq⟩
  · exact absurd hrc hne
  · have hn : SameName (state.channel r) { state.channel r with priority := priority } :=
      ⟨rfl, rfl, rfl⟩
    rw [heq]
    dsimp only
    rw [getChannelMode_found (found_setChannel hr hn), channel_setChannel]
    exact congrArg Except.ok hm
  · -- the new channel is the only one under its id
    have hok : TablesOk (state.setChannel r (openedChannel c mode priority)) :=
      (tablesOk_opened h hnew hfree hmode hhb).1
    have hget := channel_setChannel state r (openedChannel c mode priority)
    have hfind := findChannelMut_of_inUse hok hi ((setChannel_peerName _ _ _ _).1.trans hu)
      (congrArg ChannelState.inUse hget)
    rw [hget] at hfind
    change findChannelMut _ p c = some r at hfind
    rw [heq]
    dsimp only
    rw [getChannelMode_found hfind, hget]
    rfl

theorem stateAfter_append (calls more : List StateCall) :
    stateAfter (calls ++ more) =
      more.foldl (fun state call => (call.run state).2) (stateAfter calls) :=
  List.foldl_append

/-- **The tables of peers and channels**, after any calls of the state layer. Each match of a
lookup is the only one; and whatever calls follow, a peer that was added keeps its index, and a
channel that was opened is found under its id with the mode it was opened with. -/
theorem stateAfter_tables (calls : List StateCall) :
    TablesOk (stateAfter calls)
    ∧ (∀ (mac : Mac) (more : List StateCall), (stateAddPeer (stateAfter calls) mac).rc = .ok →
        stateFindPeer (stateAfter (calls ++ ⟨.addPeer mac, false⟩ :: more)) mac
          = .ok (stateAddPeer (stateAfter calls) mac).out)
    ∧ (∀ (p c mode priority : U8) (more : List StateCall),
        (stateOpenChannel (stateAfter calls) p c mode priority).rc = .ok →
        stateGetChannelMode
            (stateAfter (calls ++ ⟨.openChannel p c mode priority, false⟩ :: more)) p c
          = .ok mode) := by
  have hall : ∀ (calls : List StateCall) (state : State),
      Writes (fun _ => True) state (calls.foldl (fun state call => (call.run state).2) state) :=
    fun calls => calls_writes (fun _ => trivial) calls fun _ _ _ _ _ _ => trivial
  have hok : TablesOk (stateAfter calls) := (tablesOk_init.writes (hall calls _)).1
  refine ⟨hok, fun mac more hrc => ?_, fun p c mode priority more hrc => ?_⟩
  · rw [stateAfter_append, List.foldl_cons]
    show stateFindPeer (more.foldl _ (stateAddPeer (stateAfter calls) mac).st) mac = _
    have hw : Writes (fun _ => True) (stateAfter calls) (stateAddPeer (stateAfter calls) mac).st :=
      addPeer_writes mac
    obtain ⟨h2, hg⟩ := (hok.writes hw).1.writes (hall more _)
    exact hg.findPeer h2 (findPeer_added hok hrc)
  · rw [stateAfter_append, List.foldl_cons]
    show stateGetChannelMode
      (more.foldl _ (stateOpenChannel (stateAfter calls) p c mode priority).st) p c = _
    have hw : Writes (fun _ => True) (stateAfter calls)
        (stateOpenChannel (stateAfter calls) p c mode priority).st :=
      openChannel_writes p c mode priority
    obtain ⟨h2, hg⟩ := (hok.writes hw).1.writes (hall more _)
    exact hg.getChannelMode h2 (getChannelMode_opened hok hrc)

/-- A peer and a channel. -/
def oneChannel (mode : U8) : List StateCall :=
  [⟨.addPeer (Vector.replicate 6 0#8), false⟩, ⟨.openChannel 0#8 1#8 mode 0#8, false⟩]

end Relinow
