import Relinow.Lib.Registry
import Relinow.Proof.Scheduler

/-!
# What the state layer is

A directory of peers, each with a directory of channels: registries that give out
positions in the order entries come and keep them. A channel is an object of its
own, with the operations of `ChannelOp`; a peer adds the heartbeat and the
scheduler; and the directory adds the addresses. Nothing here scans a table, tests
a flag or looks a channel up again.

The state layer refines it: its tables are the directory laid out in slots, and
every call answers the same, with the same out-parameters.
-/

namespace Relinow

open SlotTable

/-- A channel that is open. -/
structure OpenChannel (channel : ChannelState) : Prop where
  inUse : channel.inUse = true
  named : channel.channelId ≠ heartbeatChannel
  supported : modeSupported channel.mode = true

abbrev Channels : Type :=
  Registry ChannelState U8 ChannelState.channelId OpenChannel maxChannelsPerPeer

/-- A peer. `cursor` is the position of the channel the scheduler served last. -/
structure PeerEntry where
  mac : Mac
  heartbeatIntervalMs : U16
  heartbeatMissCountMax : U8
  lastPingSentMs : U32
  missedPongs : U8
  cursor : Fin maxChannelsPerPeer
  channels : Channels

abbrev Directory : Type := Registry PeerEntry Mac PeerEntry.mac (fun _ => True) maxPeers

/-- What a call writes to its out-parameters. -/
inductive Reply where
  | nothing
  | peer (index : U8)
  | channel (out : Output)
  | heartbeat (poll : HeartbeatPoll)
  | scheduled (event : Option (U8 × TxResult))
  deriving DecidableEq, Repr

/-- The operations on a peer. -/
inductive PeerOp where
  | channel (channelId : U8) (op : ChannelOp)
  | openChannel (channelId mode priority : U8)
  | configureHeartbeat (intervalMs : U16) (missCountMax : U8)
  | pollHeartbeat (nowMs : U32)
  | onPong
  | schedulerNext (nowMs : U32)
  deriving DecidableEq, Repr

/-- The operations on the directory. -/
inductive DirectoryOp where
  | findPeer (mac : Mac)
  | addPeer (mac : Mac)
  | peer (peerIndex : U8) (op : PeerOp)
  deriving DecidableEq, Repr

/-! ## Peers -/

theorem OpenChannel.congr {channel channel' : ChannelState} (h : OpenChannel channel)
    (hn : SameName channel channel') : OpenChannel channel' where
  inUse := hn.inUse.trans h.inUse
  named := hn.channelId.symm ▸ h.named
  supported := hn.mode.symm ▸ h.supported

/-- A channel operation leaves a channel open under its name. -/
def Channels.act (channels : Channels) (j : Nat) (op : ChannelOp) : Channels :=
  channels.modify j (fun channel => (op.act channel).st)
    (fun channel => (ChannelOp.act_name channel op).channelId)
    (fun channel h => h.congr (ChannelOp.act_name channel op))

/-- The only thing to change about an open channel from outside. -/
def Channels.setPriority (channels : Channels) (j : Nat) (priority : U8) : Channels :=
  channels.modify j (fun channel => { channel with priority := priority }) (fun _ => rfl)
    (fun _ h => h.congr ⟨rfl, rfl, rfl⟩)

theorem openedChannel_open {channelId mode priority : U8} (hc : channelId ≠ heartbeatChannel)
    (hm : modeSupported mode = true) : OpenChannel (openedChannel channelId mode priority) :=
  ⟨rfl, hc, hm⟩

/-- A channel is opened behind the others, or found open already in the same mode. -/
def Channels.openChannel (channels : Channels) (channelId mode priority : U8) :
    StateErr × Channels :=
  if h : modeSupported mode = true ∧ channelId ≠ heartbeatChannel then
    match channels.find? channelId with
    | some j =>
        if (channels.get? j).all (·.mode == mode) then (.ok, channels.setPriority j priority)
        else (.conflict, channels)
    | none =>
        if channels.entries.length < maxChannelsPerPeer then
          (.ok, channels.add (openedChannel channelId mode priority) (openedChannel_open h.2 h.1))
        else (.noSpace, channels)
  else (.invalidArg, channels)

/-- A reliable channel with a packet whose timeout has run out. -/
def ChannelState.overdue (nowMs : U32) (channel : ChannelState) : Bool :=
  channel.mode == modeReliable
    && decide (∃ i : Fin maxPending, channel.reliable.pending[i].expired nowMs = true)

/-- The positions in the order the scheduler takes them: behind the one it served last first. -/
def PeerEntry.behindCursor (peer : PeerEntry) (count : Nat) : Fin maxChannelsPerPeer :=
  RoundRobin.look maxChannelsPerPeer peer.cursor.val count

/-- The first overdue channel. -/
def PeerEntry.nextDue (peer : PeerEntry) (nowMs : U32) : Option (Fin maxChannelsPerPeer) :=
  ((List.range maxChannelsPerPeer).find? fun count =>
    (peer.channels.get? (peer.behindCursor count).val).any (ChannelState.overdue nowMs)).map
      peer.behindCursor

/-- What an operation on a channel returns when there is no such channel. -/
def ChannelOp.silent (op : ChannelOp) : Output := (op.absent 0#8).2

def PeerOp.act (peer : PeerEntry) : PeerOp → Ret StateErr PeerEntry Reply
  | .channel c op =>
      match peer.channels.find? c with
      | none => ⟨.notFound, peer, .channel op.silent⟩
      | some j =>
          match peer.channels.get? j with
          | none => ⟨.notFound, peer, .channel op.silent⟩
          | some ch =>
              ⟨(op.act ch).rc, { peer with channels := peer.channels.act j op },
                .channel (op.act ch).out⟩
  | .openChannel c mode priority =>
      ⟨(peer.channels.openChannel c mode priority).1,
        { peer with channels := (peer.channels.openChannel c mode priority).2 }, .nothing⟩
  | .configureHeartbeat intervalMs missCountMax =>
      ⟨.ok,
        { peer with
          heartbeatIntervalMs := intervalMs
          heartbeatMissCountMax := missCountMax
          missedPongs := 0#8
          lastPingSentMs := 0#32 }, .nothing⟩
  | .pollHeartbeat nowMs =>
      if peer.heartbeatIntervalMs = 0#16
          ∨ (nowMs - peer.lastPingSentMs).toNat < peer.heartbeatIntervalMs.toNat then
        ⟨.ok, peer, .heartbeat ⟨false, false⟩⟩
      else if peer.heartbeatMissCountMax ≤ peer.missedPongs then
        ⟨.ok, peer, .heartbeat ⟨false, true⟩⟩
      else
        ⟨.ok, { peer with missedPongs := peer.missedPongs + 1#8, lastPingSentMs := nowMs },
          .heartbeat ⟨true, false⟩⟩
  | .onPong => ⟨.ok, { peer with missedPongs := 0#8 }, .nothing⟩
  | .schedulerNext nowMs =>
      match peer.nextDue nowMs with
      | none => ⟨.ok, peer, .scheduled none⟩
      | some j =>
          ⟨.ok,
            { peer with
              channels := peer.channels.act j.val (.reliablePoll nowMs)
              cursor := j },
            .scheduled ((peer.channels.get? j.val).map fun channel =>
              (channel.channelId, (Relinow.reliablePoll channel.reliable nowMs).2))⟩

/-- The return code when there is no such peer. -/
def noPeer (peerIndex : U8) : StateErr :=
  if peerIndex.toNat < maxPeers then .notFound else .invalidArg

/-- What an operation returns when there is no such peer. -/
def PeerOp.absent (peerIndex : U8) : PeerOp → StateErr × Reply
  | .channel _ op => ((op.absent peerIndex).1, .channel op.silent)
  | .openChannel c mode _ =>
      (if modeSupported mode = true ∧ c ≠ heartbeatChannel then noPeer peerIndex else .invalidArg,
        .nothing)
  | .pollHeartbeat _ =>
      (if peerIndex.toNat < maxPeers then .ok else .invalidArg, .heartbeat ⟨false, false⟩)
  | .schedulerNext _ => (noPeer peerIndex, .scheduled none)
  | _ => (noPeer peerIndex, .nothing)

theorem PeerOp.act_mac (peer : PeerEntry) (op : PeerOp) : (op.act peer).st.mac = peer.mac := by
  cases op <;> unfold PeerOp.act <;> dsimp only
  case channel => split <;> [rfl; (split <;> rfl)]
  case pollHeartbeat => split <;> [rfl; (split <;> rfl)]
  case schedulerNext => split <;> rfl

/-! ## The directory -/

def PeerEntry.added (mac : Mac) : PeerEntry :=
  { mac := mac, heartbeatIntervalMs := 0#16, heartbeatMissCountMax := 0#8
    lastPingSentMs := 0#32, missedPongs := 0#8, cursor := 0, channels := Registry.empty }

def Directory.step (directory : Directory) (peerIndex : U8) (op : PeerOp) : Directory :=
  directory.modify peerIndex.toNat (fun peer => (op.act peer).st) (fun peer => op.act_mac peer)
    (fun _ _ => trivial)

def DirectoryOp.act (directory : Directory) : DirectoryOp → Ret StateErr Directory Reply
  | .findPeer mac =>
      match directory.find? mac with
      | some i => ⟨.ok, directory, .peer (BitVec.ofNat 8 i)⟩
      | none => ⟨.notFound, directory, .nothing⟩
  | .addPeer mac =>
      match directory.find? mac with
      | some i => ⟨.ok, directory, .peer (BitVec.ofNat 8 i)⟩
      | none =>
          if directory.entries.length < maxPeers then
            ⟨.ok, directory.add (PeerEntry.added mac) trivial,
              .peer (BitVec.ofNat 8 directory.entries.length)⟩
          else ⟨.noSpace, directory, .peer 0#8⟩
  | .peer p op =>
      match directory.get? p.toNat with
      | none => ⟨(op.absent p).1, directory, (op.absent p).2⟩
      | some entry => ⟨(op.act entry).rc, directory.step p op, (op.act entry).out⟩

/-! ## The tables are the directory in slots -/

def PeerEntry.toState (peer : PeerEntry) : PeerState :=
  { inUse := true
    mac := peer.mac
    heartbeatIntervalMs := peer.heartbeatIntervalMs
    heartbeatMissCountMax := peer.heartbeatMissCountMax
    lastPingSentMs := peer.lastPingSentMs
    missedPongs := peer.missedPongs
    lastPolledChannelIdx := BitVec.ofNat 8 peer.cursor.val
    channels := peer.channels.table ChannelState.zero id }

def Directory.toState (directory : Directory) : State :=
  ⟨directory.table PeerState.zero PeerEntry.toState⟩

theorem toState_empty : Directory.toState Registry.empty = stateInit := by
  unfold Directory.toState stateInit
  rw [Registry.table_empty]

section ToState

variable {directory : Directory} {peer : PeerEntry} {p c : U8}

theorem toState_peer (directory : Directory) (i : Fin maxPeers) :
    directory.toState.peers[i]
      = ((directory.get? i.val).map PeerEntry.toState).getD PeerState.zero :=
  Registry.get_table _ _ _ _

theorem toState_peer_some {i : Fin maxPeers} (h : directory.get? i.val = some peer) :
    directory.toState.peers[i] = peer.toState := by
  rw [toState_peer, h]
  rfl

theorem toState_peer_none {i : Fin maxPeers} (h : directory.get? i.val = none) :
    directory.toState.peers[i] = PeerState.zero := by
  rw [toState_peer, h]
  rfl

theorem findChannelIdx_toState (peer : PeerEntry) (c : U8) :
    (findChannelIdx peer.toState c).map Fin.val = peer.channels.find? c :=
  Registry.keyIdx_table rfl (fun _ h => h.inUse) (fun _ => rfl) peer.channels c

/-- Writing back what became of a peer. -/
theorem toState_setPeer {i : Fin maxPeers} (h : directory.get? i.val = some peer)
    (f : PeerEntry → PeerEntry) (hmac : ∀ x, (f x).mac = x.mac) :
    directory.toState.setPeer i (f peer).toState
      = Directory.toState (directory.modify i.val f hmac fun _ _ => trivial) := by
  unfold State.setPeer Directory.toState
  exact congrArg State.mk (Registry.table_modify _ _ h f hmac _)

theorem toState_putChannel {j : Fin maxChannelsPerPeer} {channel : ChannelState}
    (hj : peer.channels.get? j.val = some channel) (f : ChannelState → ChannelState)
    (hid : ∀ x, (f x).channelId = x.channelId) (hok : ∀ x, OpenChannel x → OpenChannel (f x)) :
    { peer.toState with channels := peer.toState.channels.put j (f channel) }
      = PeerEntry.toState { peer with channels := peer.channels.modify j.val f hid hok } := by
  have hput := Registry.table_modify ChannelState.zero id hj f hid hok
  unfold PeerEntry.toState
  dsimp only
  rw [← hput]
  rfl

/-- Writing back what became of a channel. -/
theorem toState_setChannel {i : Fin maxPeers} {j : Fin maxChannelsPerPeer} {channel : ChannelState}
    (h : directory.get? i.val = some peer) (hj : peer.channels.get? j.val = some channel)
    (f : ChannelState → ChannelState) (hid : ∀ x, (f x).channelId = x.channelId)
    (hok : ∀ x, OpenChannel x → OpenChannel (f x)) :
    directory.toState.setChannel (i, j) (f channel)
      = directory.toState.setPeer i
        (PeerEntry.toState { peer with channels := peer.channels.modify j.val f hid hok }) := by
  unfold State.setChannel
  dsimp only
  rw [toState_peer_some h, toState_putChannel hj]

theorem toState_channel {i : Fin maxPeers} {j : Fin maxChannelsPerPeer}
    (h : directory.get? i.val = some peer) :
    directory.toState.channel (i, j) = (peer.channels.get? j.val).getD ChannelState.zero := by
  unfold State.channel
  rw [toState_peer_some h]
  show (peer.channels.table ChannelState.zero id)[j] = _
  rw [Registry.get_table, Option.map_id, id]

theorem findChannelMut_absent (h : directory.get? p.toNat = none) :
    findChannelMut directory.toState p c = none := by
  cases hr : findChannelMut directory.toState p c with
  | none => rfl
  | some r =>
      obtain ⟨hp, hu, -⟩ := findChannelMut_eq_some.mp hr
      rw [toState_peer_none (hp ▸ h)] at hu
      exact absurd hu (by decide)

theorem findChannelMut_toState (h : directory.get? p.toNat = some peer) :
    findChannelMut directory.toState p c = none ∧ peer.channels.find? c = none
    ∨ ∃ (i : Fin maxPeers) (j : Fin maxChannelsPerPeer) (channel : ChannelState),
        i.val = p.toNat ∧ findChannelMut directory.toState p c = some (i, j)
        ∧ peer.channels.find? c = some j.val ∧ peer.channels.get? j.val = some channel := by
  have hfind := findChannelIdx_toState peer c
  let i : Fin maxPeers := ⟨p.toNat, Registry.lt_of_get? h⟩
  have hi : directory.get? i.val = some peer := h
  cases hj : findChannelIdx peer.toState c with
  | none =>
      rw [hj] at hfind
      refine Or.inl ⟨?_, hfind.symm⟩
      cases hr : findChannelMut directory.toState p c with
      | none => rfl
      | some r =>
          obtain ⟨hp, -, hidx⟩ := findChannelMut_eq_some.mp hr
          rw [toState_peer_some (hp ▸ h), hj] at hidx
          exact absurd hidx (by simp)
  | some j =>
      rw [hj] at hfind
      obtain ⟨channel, hget, -⟩ := Registry.find?_get? hfind.symm
      refine Or.inr ⟨i, j, channel, rfl, findChannelMut_eq_some.mpr ⟨rfl, ?_, ?_⟩, hfind.symm, hget⟩
      · rw [toState_peer_some hi]
        rfl
      · rw [toState_peer_some hi]
        exact hj

end ToState

end Relinow
