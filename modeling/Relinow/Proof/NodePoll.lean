import Relinow.Proof.NodeFrames

/-!
# What polling can do

A poll is quiet, but for the packet that the scheduler picks: the first that is
expired on the channel whose turn it is.
-/

namespace Relinow

open SlotTable

/-! ## Timeouts and heartbeats -/

theorem pollReassembly_cases (node : Node) (now : U32) :
    pollReassembly node now = node
      ∨ (node.reassemblyActive = true ∧ pollReassembly node now = reassemblyReset node) := by
  unfold pollReassembly
  split
  · rename_i h
    rw [Bool.and_eq_true] at h
    exact Or.inr ⟨h.1, rfl⟩
  · exact Or.inl rfl

theorem pollHeartbeat_quiet (radio : Radio) (node : Node) (now : U32) :
    QuietCall node (pollHeartbeat radio (Call.start node) now) := by
  have h := (QuietCall.start node).setState
    (statePollHeartbeat_quiet node.state node.peerIndex now)
  unfold pollHeartbeat
  dsimp only
  split
  · exact h.push trivial
  · split
    · exact h.sendFrame radio typePing 0#16 0#16 [] (Or.inr rfl)
    · exact h

/-! ## The packet the scheduler picks -/

/-- What the scheduler hands to the poll: a channel, and what its engine reports. -/
def pollReport (radio : Radio) (node : Node) (now : U32) : Option (U8 × TxResult) :=
  let k := pollHeartbeat radio (Call.start (pollReassembly node now)) now
  (stateSchedulerNext k.node.state k.node.peerIndex now).out

/-- What the scheduler finds at the channel slot `ch`: the first packet in flight on the channel
with its id whose timeout has run out. -/
def Node.expiredAt (node : Node) (now : U32) (ch : ChannelState) :
    Option (U8 × ReliableCtx × Fin maxPending) :=
  if ch.inUse && ch.mode == modeReliable then
    match node.reliableAt ch.channelId with
    | none => none
    | some channel =>
        (firstIdx (Pending.expired now) channel.reliable.pending).map fun i =>
          (ch.channelId, channel.reliable, i)
  else none

/-- The packet the scheduler picks: its channel, the engine, and its slot there. -/
def nextExpired (node : Node) (now : U32) : Option (U8 × ReliableCtx × Fin maxPending) :=
  if h : node.peerIndex.toNat < maxPeers then
    (List.range maxChannelsPerPeer).findSome? fun count =>
      node.expiredAt now (scheduled node.state ⟨node.peerIndex.toNat, h⟩ count)
  else none

/-- A channel that is not due has no expired packet. -/
theorem expiredAt_eq_none {node : Node} {p : Fin maxPeers} {now : U32} {count : Nat}
    (h : ¬ Due node.state p node.peerIndex now count) :
    node.expiredAt now (scheduled node.state p count) = none := by
  unfold Node.expiredAt
  split
  · rename_i hch
    rw [Bool.and_eq_true, beq_iff_eq] at hch
    cases hat : node.reliableAt (scheduled node.state p count).channelId with
    | none => rfl
    | some channel =>
        dsimp only
        rw [Option.map_eq_none_iff]
        obtain ⟨hchan, hm⟩ := Node.reliableAt_channelAt hat
        -- a slot that had expired would have made the poll report it
        rcases stateReliablePoll_cases node.state node.peerIndex
          (scheduled node.state p count).channelId now with
          ⟨_, _, hnone⟩ | ⟨_, _, _, _, _, hev, _, heq⟩
        · rcases reliablePoll_cases channel.reliable now with ⟨_, hall⟩ |
            ⟨i, ctx', _, _, ⟨_, heq, _⟩ | ⟨_, heq, _, _⟩⟩
          · exact firstIdx_eq_none.mpr hall
          · have := hnone channel hchan hm
            rw [heq] at this
            exact absurd this (by simp)
          · have := hnone channel hchan hm
            rw [heq] at this
            exact absurd this (by simp)
        · exact absurd ⟨hch.1, hch.2, by rw [heq]; exact hev⟩ h
  · rfl

/-- The first channel that is due holds the packet the scheduler picks. -/
theorem nextExpired_eq {node : Node} {p : Fin maxPeers} {now : U32} {count : Nat}
    {channel : ChannelState} {i : Fin maxPending} (hp : p.val = node.peerIndex.toNat)
    (hlt : count < maxChannelsPerPeer) (hdue : Due node.state p node.peerIndex now count)
    (hfirst : ∀ j, j < count → ¬ Due node.state p node.peerIndex now j)
    (hch : node.reliableAt (scheduled node.state p count).channelId = some channel)
    (hi : firstIdx (Pending.expired now) channel.reliable.pending = some i) :
    nextExpired node now
      = some ((scheduled node.state p count).channelId, channel.reliable, i) := by
  unfold nextExpired
  rw [dif_pos (hp ▸ p.isLt)]
  rw [show (⟨node.peerIndex.toNat, hp ▸ p.isLt⟩ : Fin maxPeers) = p from Fin.ext hp.symm,
    List.findSome?_eq_some_iff]
  refine ⟨List.range count, count,
    (List.range (maxChannelsPerPeer - (count + 1))).map (count + 1 + ·), ?_, ?_, ?_⟩
  · rw [← List.singleton_append, ← List.append_assoc, ← List.range_succ, ← List.range_add]
    congr 1
    omega
  · unfold Node.expiredAt
    rw [if_pos (by rw [hdue.1, hdue.2.1]; rfl), hch]
    dsimp only
    rw [hi]
    rfl
  · intro j hj
    exact expiredAt_eq_none (hfirst j (List.mem_range.mp hj))

theorem scheduled_setPeer {state : State} {p i : Fin maxPeers} {peer : PeerState} {count : Nat}
    (hc : peer.channels = state.peers[p].channels)
    (hl : peer.lastPolledChannelIdx = state.peers[p].lastPolledChannelIdx) :
    scheduled (state.setPeer p peer) i count = scheduled state i count := by
  have hpeer : (state.setPeer p peer).peers[i] = if p = i then peer else state.peers[i] :=
    get_put _ _ _ _
  unfold scheduled
  by_cases hi : p = i
  · subst hi
    rw [if_pos rfl] at hpeer
    simp only [hpeer, hc, hl]
  · rw [if_neg hi] at hpeer
    simp only [hpeer]

/-- The heartbeat part of a poll leaves the scheduler's view of the channels alone. -/
theorem statePollHeartbeat_scheduled (state : State) (p : U8) (now : U32) (i : Fin maxPeers)
    (count : Nat) :
    scheduled (statePollHeartbeat state p now).st i count = scheduled state i count := by
  unfold statePollHeartbeat
  split
  · dsimp only
    split
    · rfl
    · split
      · split
        · rfl
        · exact scheduled_setPeer rfl rfl
      · rfl
  · rfl

theorem pollHeartbeat_state (radio : Radio) (node : Node) (now : U32) :
    (pollHeartbeat radio (Call.start node) now).node.state
      = (statePollHeartbeat node.state node.peerIndex now).st := by
  unfold pollHeartbeat
  dsimp only
  split
  · rfl
  · split
    · rw [sendFrame_node]
      rfl
    · rfl

/-- **A poll is quiet, or reports what became of the packet the scheduler picked.** `node₁` is
the node after the reassembly timeout. -/
theorem poll_cases (radio : Radio) (node : Node) (now : U32) :
    ∃ node₁, node₁ = pollReassembly node now
      ∧ ((pollReport radio node now = none ∧ QuietCall node₁ (poll radio node now).2)
        ∨ ∃ (k : Call) (c : U8) (channel channel' : ChannelState) (i : Fin maxPending)
            (state' : State),
          QuietCall node₁ k
          ∧ nextExpired node₁ now = some (c, channel.reliable, i)
          ∧ node₁.reliableAt c = some channel
          ∧ firstIdx (Pending.expired now) channel.reliable.pending = some i
          ∧ channel' = { channel with
              reliable := (reliablePoll channel.reliable now).1
              hasInflight := channel'.hasInflight
              inflightSeq := channel'.inflightSeq
              txQueue := channel'.txQueue }
          ∧ Relinow.reliableAt state' node₁.peerIndex
              = Function.update node₁.reliableAt c (some channel')
          ∧ (∀ c, channelAt state' node₁.peerIndex c = none
              ↔ channelAt node₁.state node₁.peerIndex c = none)
          ∧ pollReport radio node now = some (c, (reliablePoll channel.reliable now).2)
          ∧ poll radio node now = pollEvent radio (k.setNode { k.node with state := state' }) c
              (reliablePoll channel.reliable now).2) := by
  refine ⟨_, rfl, ?_⟩
  have hbeat := pollHeartbeat_quiet radio (pollReassembly node now) now
  have hstate := pollHeartbeat_state radio (pollReassembly node now) now
  unfold poll pollReport
  dsimp only
  generalize pollHeartbeat radio (Call.start (pollReassembly node now)) now = k at hbeat hstate ⊢
  rcases stateSchedulerNext_cases k.node.state k.node.peerIndex now with
    ⟨hst, hout⟩ |
    ⟨p, count, hp, hlt, hdue, hfirst, channel, channel', hch, hev, hfr, hrel, hop, hout⟩
  · rw [hout, hst]
    exact Or.inl ⟨rfl, hbeat⟩
  · right
    rw [hout]
    have hpi : k.node.peerIndex = (pollReassembly node now).peerIndex := by rw [hbeat.node_eq]
    have hsame : Relinow.reliableAt k.node.state k.node.peerIndex
        = (pollReassembly node now).reliableAt := hbeat.reliableAt
    obtain ⟨i, hi⟩ : ∃ i, firstIdx (Pending.expired now) channel.reliable.pending = some i := by
      rcases reliablePoll_cases channel.reliable now with ⟨heq, _⟩ | ⟨i, _, hi, _⟩
      · rw [heq] at hev
        exact absurd rfl hev
      · exact ⟨i, hi⟩
    -- the scheduler's view is that of the node before the heartbeat
    have hsched : ∀ j,
        scheduled k.node.state p j = scheduled (pollReassembly node now).state p j := by
      intro j
      rw [hstate]
      exact statePollHeartbeat_scheduled _ _ _ _ _
    have hnext : nextExpired k.node now = nextExpired (pollReassembly node now) now := by
      have hq : p.val = (pollReassembly node now).peerIndex.toNat := by rw [← hpi]; exact hp
      unfold nextExpired
      rw [dif_pos (hp ▸ p.isLt), dif_pos (hq ▸ p.isLt)]
      congr 1
      funext j
      have h1 : (⟨k.node.peerIndex.toNat, hp ▸ p.isLt⟩ : Fin maxPeers) = p := Fin.ext hp.symm
      have h2 : (⟨(pollReassembly node now).peerIndex.toNat, hq ▸ p.isLt⟩ : Fin maxPeers) = p :=
        Fin.ext hq.symm
      rw [h1, h2, hsched j]
      unfold Node.expiredAt
      rw [hbeat.reliableAt]
    have hpick := nextExpired_eq hp hlt hdue hfirst hch hi
    rw [hnext] at hpick
    rw [hsame] at hch hrel
    rw [hpi] at hrel hop
    refine ⟨_, _, channel, channel', i, _, hbeat, hpick, hch, hi, hfr, ?_, ?_, rfl, rfl⟩
    · rw [hpi]
      exact hrel
    · intro c
      rw [hpi]
      exact (hop c).trans (hbeat.state.opened c)

end Relinow
