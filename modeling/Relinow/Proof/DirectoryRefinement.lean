import Relinow.Proof.Directory

/-!
# The state layer is a directory

Every operation on the tables is the operation on the directory they are the slots
of: it returns the same code, writes the same out-parameters and leaves the slots
of what the directory becomes. So do sequences of calls, from the empty tables.
-/

namespace Relinow

open SlotTable Runs

/-! ## The operations, with their out-parameters -/

def PeerOp.run (state : State) (p : U8) : PeerOp → Ret StateErr State Reply
  | .channel c op => (op.run state p c).mapOut .channel
  | .openChannel c mode priority =>
      (stateOpenChannel state p c mode priority).mapOut fun _ => .nothing
  | .configureHeartbeat intervalMs missCountMax =>
      (stateConfigureHeartbeat state p intervalMs missCountMax).mapOut fun _ => .nothing
  | .pollHeartbeat nowMs => (statePollHeartbeat state p nowMs).mapOut .heartbeat
  | .onPong => (stateOnPong state p).mapOut fun _ => .nothing
  | .schedulerNext nowMs => (stateSchedulerNext state p nowMs).mapOut .scheduled

def DirectoryOp.run (state : State) : DirectoryOp → Ret StateErr State Reply
  | .findPeer mac =>
      match stateFindPeer state mac with
      | .ok i => ⟨.ok, state, .peer i⟩
      | .error e => ⟨e, state, .nothing⟩
  | .addPeer mac => (stateAddPeer state mac).mapOut .peer
  | .peer p op => op.run state p

/-- A call on the tables answers as the directory does, and leaves its tables. -/
def Refines (directory : Directory) (op : DirectoryOp) : Prop :=
  op.run directory.toState
    = ⟨(op.act directory).rc, Directory.toState (op.act directory).st, (op.act directory).out⟩

section Operations

variable {directory : Directory} {peer : PeerEntry} {p : U8}

theorem act_absent (h : directory.get? p.toNat = none) (op : PeerOp) :
    (DirectoryOp.peer p op).act directory = ⟨(op.absent p).1, directory, (op.absent p).2⟩ := by
  simp only [DirectoryOp.act, h]

theorem act_found (h : directory.get? p.toNat = some peer) (op : PeerOp) :
    (DirectoryOp.peer p op).act directory
      = ⟨(op.act peer).rc, directory.step p op, (op.act peer).out⟩ := by
  simp only [DirectoryOp.act, h]

/-- It is enough to write back what became of the peer. -/
theorem refines_found {i : Fin maxPeers} (hi : i.val = p.toNat)
    (h : directory.get? p.toNat = some peer) {op : PeerOp}
    (hrun : (DirectoryOp.peer p op).run directory.toState
      = ⟨(op.act peer).rc, directory.toState.setPeer i (op.act peer).st.toState,
          (op.act peer).out⟩) :
    Refines directory (.peer p op) := by
  unfold Refines
  rw [hrun, act_found h, toState_setPeer (hi ▸ h) (fun e => (op.act e).st) fun e => op.act_mac e]
  unfold Directory.step
  rw [hi]

/-- Nothing is written when nothing became of the peer. -/
theorem toState_setPeer_self {i : Fin maxPeers} (h : directory.get? i.val = some peer) :
    directory.toState.setPeer i peer.toState = directory.toState := by
  rw [← toState_peer_some h]
  exact congrArg State.mk (put_get _ i)

theorem ChannelOp.absent_out (p : U8) (op : ChannelOp) : (op.absent p).2 = op.silent := by
  cases op <;> rfl

theorem ChannelOp.absent_rc (hp : p.toNat < maxPeers) (op : ChannelOp) :
    (op.absent p).1 = .notFound := by
  cases op <;> first | rfl | exact if_pos hp

theorem channel_refines (directory : Directory) (p c : U8) (op : ChannelOp) :
    Refines directory (.peer p (.channel c op)) := by
  cases h : directory.get? p.toNat with
  | none =>
      unfold Refines
      rw [act_absent h]
      show (op.run directory.toState p c).mapOut Reply.channel = _
      rw [ChannelOp.run_absent (findChannelMut_absent h)]
      unfold Ret.mapOut PeerOp.absent
      dsimp only
      rw [op.absent_out]
  | some peer =>
      have hp := Registry.lt_of_get? h
      rcases findChannelMut_toState (c := c) h with ⟨hr, hfind⟩ |
        ⟨i, j, channel, hi, hr, hfind, hget⟩
      · refine refines_found (i := ⟨p.toNat, hp⟩) rfl h ?_
        show (op.run directory.toState p c).mapOut Reply.channel = _
        rw [ChannelOp.run_absent hr, op.absent_out, op.absent_rc hp]
        simp only [PeerOp.act, hfind]
        rw [toState_setPeer_self h]
        rfl
      · refine refines_found hi h ?_
        show (op.run directory.toState p c).mapOut Reply.channel = _
        rw [← hi] at h
        rw [ChannelOp.run_eq hr, toState_channel h, hget, Option.getD_some]
        simp only [PeerOp.act, hfind, hget, Ret.writeBack, Ret.mapOut]
        rw [toState_setChannel h hget (fun ch => (op.act ch).st)]
        rfl

theorem findPeerIdx_toState (directory : Directory) (mac : Mac) :
    (firstIdx (fun peer => peer.inUse && peer.mac == mac) directory.toState.peers).map Fin.val
      = directory.find? mac := by
  have hzero : PeerState.zero.inUse = false := rfl
  have hused : ∀ peer : PeerEntry, True → peer.toState.inUse = true := fun _ _ => rfl
  have hmac : ∀ peer : PeerEntry, peer.toState.mac = peer.mac := fun _ => rfl
  exact Registry.keyIdx_table hzero hused hmac directory mac

theorem freePeerIdx_toState (directory : Directory) :
    (firstIdx (fun peer => !peer.inUse) directory.toState.peers).map Fin.val
      = if directory.entries.length < maxPeers then some directory.entries.length else none := by
  have hzero : PeerState.zero.inUse = false := rfl
  have hused : ∀ peer : PeerEntry, True → peer.toState.inUse = true := fun _ _ => rfl
  exact Registry.freeIdx_table hzero hused directory

theorem stateFindPeer_toState (directory : Directory) (mac : Mac) :
    stateFindPeer directory.toState mac
      = (directory.find? mac).elim (.error .notFound) fun i => .ok (BitVec.ofNat 8 i) := by
  rw [← findPeerIdx_toState]
  unfold stateFindPeer
  cases firstIdx (fun peer => peer.inUse && peer.mac == mac) directory.toState.peers <;> rfl

theorem findPeer_refines (directory : Directory) (mac : Mac) :
    Refines directory (.findPeer mac) := by
  unfold Refines DirectoryOp.run DirectoryOp.act
  dsimp only
  rw [stateFindPeer_toState]
  cases directory.find? mac <;> rfl

theorem added_toState (mac : Mac) : (PeerEntry.added mac).toState = addedPeer mac := by
  unfold PeerEntry.toState PeerEntry.added addedPeer
  dsimp only
  rw [Registry.table_empty]
  rfl

theorem addPeer_refines (directory : Directory) (mac : Mac) :
    Refines directory (.addPeer mac) := by
  have hfree := freePeerIdx_toState directory
  unfold Refines DirectoryOp.run DirectoryOp.act stateAddPeer
  dsimp only
  rw [stateFindPeer_toState]
  cases hfind : directory.find? mac with
  | some i => rfl
  | none =>
      simp only [Option.elim_none]
      cases hidx : firstIdx (fun peer => !peer.inUse) directory.toState.peers with
      | none =>
          rw [hidx] at hfree
          have hfull : ¬ directory.entries.length < maxPeers := by
            intro hlt
            rw [if_pos hlt] at hfree
            exact absurd hfree (by simp)
          rw [if_neg hfull]
          rfl
      | some i =>
          rw [hidx] at hfree
          have hroom : directory.entries.length < maxPeers := by
            by_contra hge
            rw [if_neg hge] at hfree
            exact absurd hfree (by simp)
          rw [if_pos hroom, Option.map_some, Option.some.injEq] at hfree
          have hadd : directory.toState.setPeer i (addedPeer mac)
              = Directory.toState (directory.add (PeerEntry.added mac) trivial) := by
            rw [← added_toState]
            exact congrArg State.mk (Registry.table_add trivial hfind hfree)
          rw [if_pos hroom, ← hfree]
          show Ret.mk StateErr.ok (directory.toState.setPeer i (addedPeer mac)) _ = _
          rw [hadd]

/-! ## Operations on a peer -/

theorem toState_absent (hp : p.toNat < maxPeers) (h : directory.get? p.toNat = none) :
    directory.toState.peers[(⟨p.toNat, hp⟩ : Fin maxPeers)].inUse = false := by
  rw [toState_peer_none h]
  rfl

theorem configureHeartbeat_refines (directory : Directory) (p : U8) (interval : U16) (miss : U8) :
    Refines directory (.peer p (.configureHeartbeat interval miss)) := by
  cases h : directory.get? p.toNat with
  | none =>
      unfold Refines
      rw [act_absent h]
      show (stateConfigureHeartbeat directory.toState p interval miss).mapOut
        (fun _ => Reply.nothing) = _
      unfold stateConfigureHeartbeat PeerOp.absent noPeer
      by_cases hp : p.toNat < maxPeers
      · rw [dif_pos hp, if_pos hp]
        dsimp only
        rw [toState_absent hp h]
        rfl
      · rw [dif_neg hp, if_neg hp]
        rfl
  | some peer =>
      have hp := Registry.lt_of_get? h
      refine refines_found (i := ⟨p.toNat, hp⟩) rfl h ?_
      show (stateConfigureHeartbeat directory.toState p interval miss).mapOut
        (fun _ => Reply.nothing) = _
      unfold stateConfigureHeartbeat
      rw [dif_pos hp]
      dsimp only
      rw [toState_peer_some h]
      rfl

theorem onPong_refines (directory : Directory) (p : U8) :
    Refines directory (.peer p .onPong) := by
  cases h : directory.get? p.toNat with
  | none =>
      unfold Refines
      rw [act_absent h]
      show (stateOnPong directory.toState p).mapOut (fun _ => Reply.nothing) = _
      unfold stateOnPong PeerOp.absent noPeer
      by_cases hp : p.toNat < maxPeers
      · rw [dif_pos hp, if_pos hp]
        dsimp only
        rw [toState_absent hp h]
        rfl
      · rw [dif_neg hp, if_neg hp]
        rfl
  | some peer =>
      have hp := Registry.lt_of_get? h
      refine refines_found (i := ⟨p.toNat, hp⟩) rfl h ?_
      show (stateOnPong directory.toState p).mapOut (fun _ => Reply.nothing) = _
      unfold stateOnPong
      rw [dif_pos hp]
      dsimp only
      rw [toState_peer_some h]
      rfl

theorem pollHeartbeat_refines (directory : Directory) (p : U8) (now : U32) :
    Refines directory (.peer p (.pollHeartbeat now)) := by
  cases h : directory.get? p.toNat with
  | none =>
      unfold Refines
      rw [act_absent h]
      show (statePollHeartbeat directory.toState p now).mapOut Reply.heartbeat = _
      unfold statePollHeartbeat PeerOp.absent
      by_cases hp : p.toNat < maxPeers
      · rw [dif_pos hp, if_pos hp]
        dsimp only
        rw [toState_absent hp h]
        rfl
      · rw [dif_neg hp, if_neg hp]
        rfl
  | some peer =>
      have hp := Registry.lt_of_get? h
      refine refines_found (i := ⟨p.toNat, hp⟩) rfl h ?_
      show (statePollHeartbeat directory.toState p now).mapOut Reply.heartbeat = _
      unfold statePollHeartbeat PeerOp.act
      rw [dif_pos hp]
      dsimp only
      rw [toState_peer_some h]
      have hsame := toState_setPeer_self (i := ⟨p.toNat, hp⟩) h
      have hinterval : peer.toState.heartbeatIntervalMs = peer.heartbeatIntervalMs := rfl
      have hsent : peer.toState.lastPingSentMs = peer.lastPingSentMs := rfl
      have hused : peer.toState.inUse = true := rfl
      rw [hinterval, hsent, hused, Bool.not_true, Bool.false_or]
      by_cases hoff : peer.heartbeatIntervalMs = 0#16
      · rw [if_pos (beq_iff_eq.mpr hoff), if_pos (Or.inl hoff)]
        dsimp only
        rw [hsame]
        rfl
      · rw [if_neg (by rwa [beq_iff_eq])]
        by_cases hwait : (now - peer.lastPingSentMs).toNat < peer.heartbeatIntervalMs.toNat
        · rw [if_neg (Nat.not_le.mpr hwait), if_pos (Or.inr hwait)]
          dsimp only
          rw [hsame]
          rfl
        · rw [if_pos (Nat.not_lt.mp hwait), if_neg (not_or.mpr ⟨hoff, hwait⟩)]
          by_cases hmiss : peer.heartbeatMissCountMax ≤ peer.missedPongs
          · have hmiss' : peer.toState.heartbeatMissCountMax ≤ peer.toState.missedPongs := hmiss
            rw [if_pos hmiss', if_pos hmiss]
            dsimp only
            rw [hsame]
            rfl
          · have hmiss' : ¬ peer.toState.heartbeatMissCountMax ≤ peer.toState.missedPongs := hmiss
            rw [if_neg hmiss', if_neg hmiss]
            rfl

/-! ## Opening a channel -/

theorem openChannel_absent (h : directory.get? p.toNat = none) (c mode priority : U8) :
    stateOpenChannel directory.toState p c mode priority
      = ⟨((PeerOp.openChannel c mode priority).absent p).1, directory.toState, ()⟩ := by
  unfold stateOpenChannel PeerOp.absent noPeer
  by_cases hp : p.toNat < maxPeers
  · rw [dif_pos hp, if_pos hp]
    dsimp only
    rw [toState_absent hp h]
    by_cases hm : modeSupported mode = true
    · by_cases hc : c = heartbeatChannel
      · rw [if_neg (by simp [hm]), if_pos (beq_iff_eq.mpr hc), if_neg fun hok => hok.2 hc]
      · rw [if_neg (by simp [hm]), if_neg (by rwa [beq_iff_eq]), if_pos (by simp),
          if_pos ⟨hm, hc⟩]
    · rw [if_pos (by simpa using hm), if_neg fun hok => hm hok.1]
  · rw [dif_neg hp, if_neg hp]
    simp only [ite_self]

theorem freeChannelIdx_toState (peer : PeerEntry) :
    (firstIdx (fun ch => !ch.inUse) peer.toState.channels).map Fin.val
      = if peer.channels.entries.length < maxChannelsPerPeer then
          some peer.channels.entries.length else none := by
  have hzero : ChannelState.zero.inUse = false := rfl
  have hused : ∀ channel : ChannelState, OpenChannel channel → (id channel).inUse = true :=
    fun _ hopen => hopen.inUse
  exact Registry.freeIdx_table hzero hused peer.channels

/-- The slot of a channel, written as a peer. -/
theorem setChannel_toState {i : Fin maxPeers} (h : directory.get? i.val = some peer)
    (j : Fin maxChannelsPerPeer) (channel : ChannelState) :
    directory.toState.setChannel (i, j) channel
      = directory.toState.setPeer i
        { peer.toState with channels := peer.toState.channels.put j channel } := by
  unfold State.setChannel
  dsimp only
  rw [toState_peer_some h]

theorem openChannel_found {i : Fin maxPeers} (hi : i.val = p.toNat)
    (h : directory.get? i.val = some peer) (c mode priority : U8) :
    stateOpenChannel directory.toState p c mode priority
      = ⟨(peer.channels.openChannel c mode priority).1,
          directory.toState.setPeer i
            (PeerEntry.toState
              { peer with channels := (peer.channels.openChannel c mode priority).2 }), ()⟩ := by
  have hp : p.toNat < maxPeers := hi ▸ i.isLt
  obtain rfl : i = ⟨p.toNat, hp⟩ := Fin.ext hi
  have hsame := toState_setPeer_self h
  have hused : peer.toState.inUse = true := rfl
  unfold stateOpenChannel Channels.openChannel
  rw [dif_pos hp]
  dsimp only
  rw [toState_peer_some h, hused]
  by_cases hm : modeSupported mode = true
  · by_cases hc : c = heartbeatChannel
    · rw [if_neg (by simp [hm]), if_pos (beq_iff_eq.mpr hc), dif_neg fun hok => hok.2 hc]
      dsimp only
      rw [hsame]
    · rw [dif_pos ⟨hm, hc⟩, if_neg (by simp [hm]), if_neg (by rwa [beq_iff_eq]), if_neg (by simp)]
      have hfind := findChannelIdx_toState peer c
      cases hidx : findChannelIdx peer.toState c with
      | some j =>
          rw [hidx] at hfind
          obtain ⟨channel, hget, -⟩ := Registry.find?_get? hfind.symm
          have hslot : peer.toState.channels[j] = channel := by
            show (peer.channels.table ChannelState.zero id)[j] = _
            rw [Registry.get_table, hget]
            rfl
          rw [← hfind]
          simp only [Option.map_some]
          rw [hslot, hget, Option.all_some]
          by_cases hmode : channel.mode = mode
          · rw [if_neg (by simp [hmode]), if_pos (beq_iff_eq.mpr hmode)]
            dsimp only
            rw [setChannel_toState h, toState_putChannel hget
              (fun ch => { ch with priority := priority }) (fun _ => rfl)
              (fun _ hopen => hopen.congr ⟨rfl, rfl, rfl⟩)]
            rfl
          · rw [if_pos (by simpa using hmode), if_neg (by rwa [beq_iff_eq])]
            dsimp only
            rw [hsame]
      | none =>
          rw [hidx] at hfind
          have hfree := freeChannelIdx_toState peer
          rw [← hfind]
          simp only [Option.map_none]
          cases hslot : firstIdx (fun ch => !ch.inUse) peer.toState.channels with
          | none =>
              rw [hslot] at hfree
              have hfull : ¬ peer.channels.entries.length < maxChannelsPerPeer := by
                intro hlt
                rw [if_pos hlt] at hfree
                exact absurd hfree (by simp)
              rw [if_neg hfull]
              dsimp only
              rw [hsame]
          | some j =>
              rw [hslot] at hfree
              have hroom : peer.channels.entries.length < maxChannelsPerPeer := by
                by_contra hge
                rw [if_neg hge] at hfree
                exact absurd hfree (by simp)
              rw [if_pos hroom, Option.map_some, Option.some.injEq] at hfree
              have hput : peer.toState.channels.put j (openedChannel c mode priority)
                  = Registry.table ChannelState.zero id
                    (peer.channels.add (openedChannel c mode priority)
                      (openedChannel_open hc hm)) :=
                @Registry.table_add _ _ _ _ _ _ ChannelState.zero id _ _ _ _
                  (openedChannel_open hc hm) hfind.symm _ hfree
              rw [if_pos hroom]
              dsimp only
              rw [setChannel_toState h]
              show Ret.mk StateErr.ok (directory.toState.setPeer _
                { peer.toState with
                  channels := peer.toState.channels.put j (openedChannel c mode priority) }) () = _
              rw [hput]
              rfl
  · rw [if_pos (by simpa using hm), dif_neg fun hok => hm hok.1]
    dsimp only
    rw [hsame]

theorem openChannel_refines (directory : Directory) (p c mode priority : U8) :
    Refines directory (.peer p (.openChannel c mode priority)) := by
  cases h : directory.get? p.toNat with
  | none =>
      unfold Refines
      rw [act_absent h]
      show (stateOpenChannel directory.toState p c mode priority).mapOut (fun _ => Reply.nothing)
        = _
      rw [openChannel_absent h]
      rfl
  | some peer =>
      have hp := Registry.lt_of_get? h
      refine refines_found (i := ⟨p.toNat, hp⟩) rfl h ?_
      show (stateOpenChannel directory.toState p c mode priority).mapOut (fun _ => Reply.nothing)
        = _
      rw [openChannel_found (i := ⟨p.toNat, hp⟩) rfl h]
      rfl

/-! ## The scheduler -/

theorem pollIdx_toState {i : Fin maxPeers} (h : directory.get? i.val = some peer) (k : Nat) :
    pollIdx directory.toState.peers[i].lastPolledChannelIdx k = peer.behindCursor k := by
  rw [toState_peer_some h]
  show Fin.ofNat _ ((BitVec.ofNat 8 peer.cursor.val).toNat + 1 + k) = _
  rw [BitVec.toNat_ofNat, Nat.mod_eq_of_lt (peer.cursor.isLt.trans (by decide))]
  rfl

theorem scheduled_toState {i : Fin maxPeers} (h : directory.get? i.val = some peer) (k : Nat) :
    scheduled directory.toState i k
      = (peer.channels.get? (peer.behindCursor k).val).getD ChannelState.zero := by
  show directory.toState.channel (i, pollIdx _ k) = _
  rw [pollIdx_toState h, toState_channel h]

/-- An open channel is found under its id. -/
theorem channelAt_toState {i : Fin maxPeers} (hi : i.val = p.toNat)
    (h : directory.get? i.val = some peer) {j : Fin maxChannelsPerPeer} {channel : ChannelState}
    (hget : peer.channels.get? j.val = some channel) :
    findChannelMut directory.toState p channel.channelId = some (i, j)
      ∧ channelAt directory.toState p channel.channelId = some channel := by
  have hfind := Registry.find?_of_get? hget
  have hr : findChannelMut directory.toState p channel.channelId = some (i, j) := by
    rcases findChannelMut_toState (c := channel.channelId) (hi ▸ h) with ⟨-, hnone⟩ |
      ⟨i', j', _, hi', hr, hfind', -⟩
    · exact absurd (hfind.symm.trans hnone) (by simp)
    · obtain rfl : i' = i := Fin.ext (hi'.trans hi.symm)
      obtain rfl : j' = j := Fin.ext (Option.some.inj (hfind'.symm.trans hfind))
      exact hr
  refine ⟨hr, channelAt_eq_some.mpr ⟨_, hr, ?_⟩⟩
  rw [toState_channel h, hget, Option.getD_some]

theorem due_toState {i : Fin maxPeers} (hi : i.val = p.toNat)
    (h : directory.get? i.val = some peer) (now : U32) (k : Nat) :
    Due directory.toState i p now k ↔
      (peer.channels.get? (peer.behindCursor k).val).any (ChannelState.overdue now) = true := by
  unfold Due
  rw [scheduled_toState h]
  cases hget : peer.channels.get? (peer.behindCursor k).val with
  | none =>
      rw [Option.getD_none, Option.any_none]
      exact ⟨fun hdue => absurd hdue.1 (by decide), fun hno => absurd hno (by decide)⟩
  | some channel =>
      have hopen := Registry.ok_of_get? hget
      have hat := (channelAt_toState hi h hget).2
      rw [Option.getD_some, Option.any_some, stateReliablePoll_reports]
      unfold ChannelState.overdue Overdue
      rw [Bool.and_eq_true, beq_iff_eq, decide_eq_true_iff]
      constructor
      · rintro ⟨-, hm, channel', hrel, hexp⟩
        obtain ⟨hat', -⟩ := reliableAt_eq_some.mp hrel
        obtain rfl := Option.some.inj (hat.symm.trans hat')
        exact ⟨hm, hexp⟩
      · rintro ⟨hm, hexp⟩
        exact ⟨hopen.inUse, hm, channel, reliableAt_eq_some.mpr ⟨hat, hm⟩, hexp⟩

theorem nextDue_none (now : U32)
    (hno : ∀ k < maxChannelsPerPeer,
      ¬ (peer.channels.get? (peer.behindCursor k).val).any (ChannelState.overdue now) = true) :
    peer.nextDue now = none := by
  unfold PeerEntry.nextDue
  rw [Option.map_eq_none_iff, List.find?_eq_none]
  exact fun k hk => hno k (List.mem_range.mp hk)

theorem nextDue_some (now : U32) {k : Nat} (hk : k < maxChannelsPerPeer)
    (hdue : (peer.channels.get? (peer.behindCursor k).val).any (ChannelState.overdue now) = true)
    (hfirst : ∀ l < k,
      ¬ (peer.channels.get? (peer.behindCursor l).val).any (ChannelState.overdue now) = true) :
    peer.nextDue now = some (peer.behindCursor k) := by
  unfold PeerEntry.nextDue
  rw [Option.map_eq_some_iff]
  refine ⟨k, List.find?_range_eq_some.mpr ⟨hdue, List.mem_range.mpr hk, fun l hl => ?_⟩, rfl⟩
  simpa using hfirst l hl

/-- A poll that reports something reports it from the engine. -/
theorem reliablePoll_act {channel : ChannelState} (hm : channel.mode = modeReliable) (now : U32) :
    ((ChannelOp.reliablePoll now).act channel).out = .tx (reliablePoll channel.reliable now).2 := by
  unfold ChannelOp.act
  dsimp only
  rw [inMode_same hm]
  cases (reliablePoll channel.reliable now).2.event <;> rfl

theorem stateReliablePoll_toState {i : Fin maxPeers} (hi : i.val = p.toNat)
    (h : directory.get? i.val = some peer) {j : Fin maxChannelsPerPeer} {channel : ChannelState}
    (hget : peer.channels.get? j.val = some channel) (hm : channel.mode = modeReliable)
    (now : U32) :
    (stateReliablePoll directory.toState p channel.channelId now).st
        = directory.toState.setPeer i
          (PeerEntry.toState { peer with channels := peer.channels.act j.val (.reliablePoll now) })
      ∧ (stateReliablePoll directory.toState p channel.channelId now).out
        = (reliablePoll channel.reliable now).2 := by
  obtain ⟨hr, -⟩ := channelAt_toState hi h hget
  have hrun := ChannelOp.run_eq hr (.reliablePoll now)
  rw [toState_channel h, hget, Option.getD_some] at hrun
  constructor
  · have hst := congrArg Ret.st hrun
    unfold Ret.writeBack at hst
    dsimp only at hst
    rw [toState_setChannel h hget (fun ch => ((ChannelOp.reliablePoll now).act ch).st)] at hst
    exact hst
  · have hout := congrArg Ret.out hrun
    exact Output.tx.inj (hout.trans (reliablePoll_act hm now))

theorem setPeer_setPeer (state : State) (i : Fin maxPeers) (a b : PeerState) :
    (state.setPeer i a).setPeer i b = state.setPeer i b :=
  congrArg State.mk (put_put state.peers i a b)

theorem serve_toState {i : Fin maxPeers} (hi : i.val = p.toNat)
    (h : directory.get? i.val = some peer) {k : Nat} {channel : ChannelState}
    (hget : peer.channels.get? (peer.behindCursor k).val = some channel)
    (hm : channel.mode = modeReliable) (now : U32) :
    serve directory.toState i p now k
      = directory.toState.setPeer i
        (PeerEntry.toState
          { peer with
            channels := peer.channels.act (peer.behindCursor k).val (.reliablePoll now)
            cursor := peer.behindCursor k }) := by
  unfold serve
  rw [scheduled_toState h, hget, Option.getD_some, pollIdx_toState h]
  dsimp only
  rw [(stateReliablePoll_toState hi h hget hm now).1, setPeer_get, if_pos rfl, setPeer_setPeer]
  rfl

theorem schedulerNext_refines (directory : Directory) (p : U8) (now : U32) :
    Refines directory (.peer p (.schedulerNext now)) := by
  cases h : directory.get? p.toNat with
  | none =>
      unfold Refines
      rw [act_absent h]
      show (stateSchedulerNext directory.toState p now).mapOut Reply.scheduled = _
      unfold stateSchedulerNext PeerOp.absent noPeer
      by_cases hp : p.toNat < maxPeers
      · rw [dif_pos hp, if_pos hp]
        dsimp only
        rw [toState_absent hp h]
        rfl
      · rw [dif_neg hp, if_neg hp]
        rfl
  | some peer =>
      have hp := Registry.lt_of_get? h
      have hused : directory.toState.peers[(⟨p.toNat, hp⟩ : Fin maxPeers)].inUse = true := by
        rw [toState_peer_some h]
        rfl
      refine refines_found (i := ⟨p.toNat, hp⟩) rfl h ?_
      show (stateSchedulerNext directory.toState p now).mapOut Reply.scheduled = _
      rcases stateSchedulerNext_serves directory.toState p now with ⟨hst, hout, hno⟩ |
        ⟨i, k, hi, hk, hdue, hfirst, heq⟩
      · have hrc := stateSchedulerNext_rc (p := ⟨p.toNat, hp⟩) rfl hused now
        have hnone : peer.nextDue now = none :=
          nextDue_none now fun k hk hdue =>
            hno ⟨p.toNat, hp⟩ rfl hused k hk ((due_toState rfl h now k).mpr hdue)
        simp only [PeerOp.act, hnone, Ret.mapOut, hst, hout, hrc]
        rw [toState_setPeer_self h]
      · obtain rfl : i = ⟨p.toNat, hp⟩ := Fin.ext hi
        have hdue' := (due_toState rfl h now k).mp hdue
        have hsome : peer.nextDue now = some (peer.behindCursor k) :=
          nextDue_some now hk hdue' fun l hl hd =>
            hfirst l hl ((due_toState rfl h now l).mpr hd)
        obtain ⟨channel, hget, hover⟩ := (Option.any_eq_true _ _).mp hdue'
        have hm : channel.mode = modeReliable := by
          unfold ChannelState.overdue at hover
          rw [Bool.and_eq_true, beq_iff_eq] at hover
          exact hover.1
        have hslot := scheduled_toState (i := ⟨p.toNat, hp⟩) h k
        rw [hget, Option.getD_some] at hslot
        rw [heq, hslot, (stateReliablePoll_toState (i := ⟨p.toNat, hp⟩) rfl h hget hm now).2,
          serve_toState (i := ⟨p.toNat, hp⟩) rfl h hget hm now]
        simp only [PeerOp.act, hsome, hget, Option.map_some, Ret.mapOut]

end Operations

/-! ## Runs -/

/-- The operations of the state layer, as operations on the directory. -/
def StateOp.view : StateOp → DirectoryOp
  | .findPeer mac => .findPeer mac
  | .addPeer mac => .addPeer mac
  | .openChannel p c mode priority => .peer p (.openChannel c mode priority)
  | .nextSequence p c => .peer p (.channel c .nextSequence)
  | .getChannelMode p c => .peer p (.channel c .getChannelMode)
  | .markInflight p c q => .peer p (.channel c (.markInflight q))
  | .clearInflight p c q => .peer p (.channel c (.clearInflight q))
  | .enqueueTx p c q => .peer p (.channel c (.enqueueTx q))
  | .enqueueRx p c q => .peer p (.channel c (.enqueueRx q))
  | .setReliableConfig p c cfg => .peer p (.channel c (.setReliableConfig cfg))
  | .reliableSend p c now => .peer p (.channel c (.reliableSend now))
  | .reliableOnAck p c a now => .peer p (.channel c (.reliableOnAck a now))
  | .reliablePoll p c now => .peer p (.channel c (.reliablePoll now))
  | .reliableOnData p c q => .peer p (.channel c (.reliableOnData q))
  | .reliableGetRttMs p c => .peer p (.channel c .reliableGetRttMs)
  | .unreliableSend p c => .peer p (.channel c .unreliableSend)
  | .unreliableOnData p c q => .peer p (.channel c (.unreliableOnData q))
  | .prioritySend p c => .peer p (.channel c .prioritySend)
  | .priorityOnData p c q => .peer p (.channel c (.priorityOnData q))
  | .clearInflightAny p c => .peer p (.channel c .clearInflightAny)
  | .configureHeartbeat p interval miss => .peer p (.configureHeartbeat interval miss)
  | .pollHeartbeat p now => .peer p (.pollHeartbeat now)
  | .onPong p => .peer p .onPong
  | .getStats p c => .peer p (.channel c .getStats)
  | .schedulerNext p now => .peer p (.schedulerNext now)

theorem view_at (p c : U8) (op : ChannelOp) : (op.at p c).view = .peer p (.channel c op) := by
  cases op <;> rfl

theorem effect_mapOut {ε σ α β : Type} (r : Ret ε σ α) (f : α → β) :
    r.effect = (r.mapOut f).effect := rfl

theorem findPeer_effect (state : State) (mac : Mac) :
    (StateOp.findPeer mac).run state = ((DirectoryOp.findPeer mac).run state).effect := by
  unfold StateOp.run DirectoryOp.run
  dsimp only
  cases stateFindPeer state mac <;> rfl

/-- The view drops nothing: with the out-parameters left out it is the operation. -/
theorem view_run (state : State) (op : StateOp) : op.run state = (op.view.run state).effect := by
  induction op using StateOp.byChannel with
  | channel p c op =>
      rw [view_at, ChannelOp.at_run]
      exact effect_mapOut (op.run state p c) _
  | findPeer mac => exact findPeer_effect state mac
  | addPeer mac => exact effect_mapOut (stateAddPeer state mac) _
  | openChannel p c mode priority =>
      exact effect_mapOut (stateOpenChannel state p c mode priority) _
  | configureHeartbeat p interval miss =>
      exact effect_mapOut (stateConfigureHeartbeat state p interval miss) _
  | pollHeartbeat p now => exact effect_mapOut (statePollHeartbeat state p now) _
  | onPong p => exact effect_mapOut (stateOnPong state p) _
  | schedulerNext p now => exact effect_mapOut (stateSchedulerNext state p now) _

theorem DirectoryOp.refines (directory : Directory) (op : DirectoryOp) : Refines directory op := by
  cases op with
  | findPeer mac => exact findPeer_refines directory mac
  | addPeer mac => exact addPeer_refines directory mac
  | peer p op =>
      cases op with
      | channel c op => exact channel_refines directory p c op
      | openChannel c mode priority => exact openChannel_refines directory p c mode priority
      | configureHeartbeat interval miss =>
          exact configureHeartbeat_refines directory p interval miss
      | pollHeartbeat now => exact pollHeartbeat_refines directory p now
      | onPong => exact onPong_refines directory p
      | schedulerNext now => exact schedulerNext_refines directory p now

/-- What a call returns and writes out. -/
def StateCall.answer (state : State) (call : StateCall) : StateErr × Reply :=
  if call.nullArg then (.invalidArg, .nothing)
  else ((call.op.view.run state).rc, (call.op.view.run state).out)

namespace Directory

def call (directory : Directory) (call : StateCall) : Directory :=
  if call.nullArg then directory else (call.op.view.act directory).st

def answer (directory : Directory) (call : StateCall) : StateErr × Reply :=
  if call.nullArg then (.invalidArg, .nothing)
  else ((call.op.view.act directory).rc, (call.op.view.act directory).out)

end Directory

/-- The directory after a sequence of calls. -/
def directoryAfter (calls : List StateCall) : Directory := run Directory.call Registry.empty calls

theorem call_toState (directory : Directory) (call : StateCall) :
    (call.run directory.toState).2 = (directory.call call).toState
      ∧ call.answer directory.toState = directory.answer call := by
  unfold StateCall.run Directory.call StateCall.answer Directory.answer
  by_cases hnull : call.nullArg = true
  · rw [if_pos hnull, if_pos hnull, if_pos hnull, if_pos hnull]
    exact ⟨rfl, rfl⟩
  · have href := call.op.view.refines directory
    unfold Refines at href
    rw [if_neg hnull, if_neg hnull, if_neg hnull, if_neg hnull, view_run, href]
    exact ⟨rfl, rfl⟩

theorem call_simulated (state : State) (directory : Directory) (call : StateCall)
    (h : state = directory.toState) (_ : True) :
    (call.run state).2 = (directory.call call).toState
      ∧ call.answer state = directory.answer call := by
  rw [h]
  exact call_toState directory call

theorem stateAfter_toState (calls : List StateCall) :
    stateAfter calls = (directoryAfter calls).toState :=
  (outputs_simulated (R := fun state directory => state = Directory.toState directory)
    (P := fun _ _ => True) call_simulated toState_empty.symm
    (Along.of_forall (fun _ _ => trivial) calls _)).1

/--
**The state layer is a directory of channel objects.** After any calls, with any
arguments, its tables are the directory's entries in the order they came, laid out
in slots; and every call on the way returned the code, and wrote out the values,
that the directory answers.
-/
theorem state_refines_directory (calls : List StateCall) :
    stateAfter calls = (directoryAfter calls).toState
    ∧ outputs (fun state call => (call.run state).2) StateCall.answer stateInit calls
      = outputs Directory.call Directory.answer Registry.empty calls := by
  refine ⟨stateAfter_toState calls, ?_⟩
  exact (outputs_simulated (R := fun state directory => state = Directory.toState directory)
    (P := fun _ _ => True) call_simulated toState_empty.symm
    (Along.of_forall (fun _ _ => trivial) calls _)).2

/-! ## Which peers there are -/

/-- The address a call asks to add. -/
def StateCall.addedMac (call : StateCall) : Option Mac :=
  if call.nullArg then none
  else
    match call.op with
    | .addPeer mac => some mac
    | _ => none

def Directory.macs (directory : Directory) : List Mac := directory.entries.map PeerEntry.mac

theorem macs_step (directory : Directory) (p : U8) (op : PeerOp) :
    (directory.step p op).macs = directory.macs :=
  Registry.keys_modify (fun peer => op.act_mac peer) directory.entries p.toNat

theorem mem_macs {directory : Directory} {mac : Mac} :
    mac ∈ directory.macs ↔ directory.find? mac ≠ none := by
  unfold Directory.macs
  rw [ne_eq, Registry.find?_eq_none, List.mem_map]
  push Not
  exact Iff.rfl

theorem macs_peer (directory : Directory) (p : U8) (op : PeerOp) :
    Directory.macs ((DirectoryOp.peer p op).act directory).st = directory.macs := by
  cases h : directory.get? p.toNat with
  | none => rw [act_absent h]
  | some peer =>
      rw [act_found h]
      exact macs_step directory p op

theorem macs_addPeer (directory : Directory) (mac : Mac) :
    Directory.macs ((DirectoryOp.addPeer mac).act directory).st
      = if mac ∈ directory.macs ∨ maxPeers ≤ directory.macs.length then directory.macs
        else directory.macs ++ [mac] := by
  have hlen : directory.macs.length = directory.entries.length := List.length_map _
  unfold DirectoryOp.act
  dsimp only
  cases hfind : directory.find? mac with
  | some i =>
      rw [if_pos (Or.inl (mem_macs.mpr (by rw [hfind]; simp)))]
  | none =>
      have hnew : mac ∉ directory.macs := fun hm => mem_macs.mp hm hfind
      dsimp only
      by_cases hroom : directory.entries.length < maxPeers
      · rw [if_pos hroom, if_neg (not_or.mpr ⟨hnew, by omega⟩)]
        show (directory.add (PeerEntry.added mac) trivial).entries.map PeerEntry.mac = _
        rw [Registry.add_entries trivial hfind hroom, List.map_append]
        rfl
      · rw [if_neg hroom, if_pos (Or.inr (by omega))]

theorem macs_call (directory : Directory) (call : StateCall) :
    (directory.call call).macs
      = call.addedMac.elim directory.macs fun mac =>
        if mac ∈ directory.macs ∨ maxPeers ≤ directory.macs.length then directory.macs
        else directory.macs ++ [mac] := by
  unfold Directory.call StateCall.addedMac
  by_cases hnull : call.nullArg = true
  · rw [if_pos hnull, if_pos hnull]
    rfl
  · rw [if_neg hnull, if_neg hnull]
    cases call.op with
    | addPeer mac => exact macs_addPeer directory mac
    | findPeer mac =>
        show Directory.macs ((DirectoryOp.findPeer mac).act directory).st = _
        unfold DirectoryOp.act
        dsimp only
        cases directory.find? mac <;> rfl
    | _ => exact macs_peer directory _ _

theorem directoryAfter_macs (calls : List StateCall) :
    (directoryAfter calls).macs
      = Registry.firstCome maxPeers (calls.filterMap StateCall.addedMac) := by
  induction calls using List.reverseRecOn with
  | nil => exact (Registry.firstCome_nil maxPeers).symm
  | append_singleton calls call ih =>
      unfold directoryAfter at ih ⊢
      rw [run_append, List.filterMap_append]
      show (Directory.call (run Directory.call Registry.empty calls) call).macs = _
      rw [macs_call, ih]
      cases hmac : call.addedMac with
      | none =>
          rw [List.filterMap_cons_none hmac, List.filterMap_nil, List.append_nil]
          rfl
      | some mac =>
          rw [List.filterMap_cons_some hmac, List.filterMap_nil, Registry.firstCome_snoc]
          rfl

/--
**First come, first served.** After any calls, the peers are the first twenty
different addresses that were to be added, numbered in the order they came. An
address is found exactly if it is among them, at its number; and one that is not is
taken only while there are fewer than twenty.
-/
theorem peers_firstCome (calls : List StateCall) (mac : Mac) :
    stateFindPeer (stateAfter calls) mac
      = ((Registry.firstCome maxPeers (calls.filterMap StateCall.addedMac)).findIdx?
          (· == mac)).elim (.error .notFound) (fun i => .ok (BitVec.ofNat 8 i))
    ∧ ((stateAddPeer (stateAfter calls) mac).rc = .ok ↔
        mac ∈ Registry.firstCome maxPeers (calls.filterMap StateCall.addedMac)
        ∨ (Registry.firstCome maxPeers (calls.filterMap StateCall.addedMac)).length
          < maxPeers) := by
  have hmacs := directoryAfter_macs calls
  have hadd := addPeer_refines (directoryAfter calls) mac
  unfold Refines at hadd
  rw [stateAfter_toState calls, ← hmacs]
  generalize directoryAfter calls = directory at hadd ⊢
  refine ⟨?_, ?_⟩
  · rw [stateFindPeer_toState]
    unfold Directory.macs Registry.find?
    rw [List.findIdx?_map]
    rfl
  · have hrc : (stateAddPeer directory.toState mac).rc
        = ((DirectoryOp.addPeer mac).act directory).rc := by
      have hrun : (stateAddPeer directory.toState mac).mapOut Reply.peer = _ := hadd
      generalize stateAddPeer directory.toState mac = r at hrun ⊢
      exact congrArg Ret.rc hrun
    have hlen : directory.macs.length = directory.entries.length := List.length_map _
    rw [hrc, mem_macs, hlen]
    unfold DirectoryOp.act
    dsimp only
    cases hfind : directory.find? mac with
    | some i => simp
    | none =>
        dsimp only
        by_cases hroom : directory.entries.length < maxPeers
        · rw [if_pos hroom]
          exact ⟨fun _ => Or.inr hroom, fun _ => rfl⟩
        · rw [if_neg hroom]
          refine ⟨fun h => absurd h StateErr.noConfusion, ?_⟩
          rintro (h | h)
          · exact absurd rfl h
          · exact absurd h hroom

end Relinow
