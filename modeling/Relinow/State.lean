import Relinow.Reliable

/-!
# The state layer

`relinow_state.h` and `relinow_state.c`: a table of peers, a table of channels
in each, and in each channel the counters and queues of its mode. Every
operation names a channel by peer index and channel id, and finds it by a scan.

An operation is a function from the state to its return code, the new state and
its out-parameters. The state it leaves behind when it fails is part of the
result, so that what an error changes is there to be read off. Reading
operations, which change nothing, return `Except`.

A pointer the source obtains once and keeps is the index it points to
(`ChannelRef`); helpers that look the channel up again do so in the state as it
is by then.
-/

namespace Relinow

open SlotTable (firstIdx)

/-- `RELINOW_MAX_PEERS`. -/
abbrev maxPeers : Nat := 20

/-- `RELINOW_MAX_CHANNELS_PER_PEER`. -/
abbrev maxChannelsPerPeer : Nat := 16

instance neZeroChannels : NeZero maxChannelsPerPeer := ⟨by decide⟩

/-- `RELINOW_TX_QUEUE_SIZE`. -/
abbrev txQueueSize : Nat := 16

/-- `RELINOW_RX_QUEUE_SIZE`. -/
abbrev rxQueueSize : Nat := 8

/-- `relinow_state_err_t`. -/
inductive StateErr where
  | ok
  | invalidArg
  | notFound
  | noSpace
  | conflict
  | queueFull
  | wrongMode
  deriving DecidableEq, Repr

/-- A MAC address. -/
abbrev Mac := Vector U8 6

/-- `relinow_tx_slot_t`. -/
structure TxSlot where
  used : Bool
  seqId : U16
  deriving DecidableEq, Repr

/-- `relinow_rx_slot_t`. -/
structure RxSlot where
  used : Bool
  seqId : U16
  deriving DecidableEq, Repr

/-- `relinow_stats_t`. -/
structure Stats where
  totalRx : U32
  totalLost : U32
  deriving DecidableEq, Repr

/-- `relinow_channel_state_t`. -/
structure ChannelState where
  inUse : Bool
  channelId : U8
  mode : U8
  priority : U8
  nextTxSeq : U16
  expectedRxSeq : U16
  hasRxSeq : Bool
  hasInflight : Bool
  inflightSeq : U16
  stats : Stats
  reliable : ReliableCtx
  txQueue : Vector TxSlot txQueueSize
  rxQueue : Vector RxSlot rxQueueSize
  deriving DecidableEq, Repr

/-- `relinow_peer_state_t`. -/
structure PeerState where
  inUse : Bool
  mac : Mac
  heartbeatIntervalMs : U16
  heartbeatMissCountMax : U8
  lastPingSentMs : U32
  missedPongs : U8
  lastPolledChannelIdx : U8
  channels : Vector ChannelState maxChannelsPerPeer
  deriving DecidableEq, Repr

/-- `relinow_state_t`. -/
structure State where
  peers : Vector PeerState maxPeers
  deriving DecidableEq, Repr

def ChannelState.zero : ChannelState :=
  { inUse := false, channelId := 0#8, mode := 0#8, priority := 0#8
    nextTxSeq := 0#16, expectedRxSeq := 0#16, hasRxSeq := false
    hasInflight := false, inflightSeq := 0#16
    stats := ⟨0#32, 0#32⟩
    reliable := ReliableCtx.zero
    txQueue := Vector.replicate txQueueSize ⟨false, 0#16⟩
    rxQueue := Vector.replicate rxQueueSize ⟨false, 0#16⟩ }

def PeerState.zero : PeerState :=
  { inUse := false, mac := Vector.replicate 6 0#8
    heartbeatIntervalMs := 0#16, heartbeatMissCountMax := 0#8
    lastPingSentMs := 0#32, missedPongs := 0#8, lastPolledChannelIdx := 0#8
    channels := Vector.replicate maxChannelsPerPeer ChannelState.zero }

/-- Where a channel lives: its peer's index and its own. -/
abbrev ChannelRef := Fin maxPeers × Fin maxChannelsPerPeer

def State.setPeer (state : State) (i : Fin maxPeers) (peer : PeerState) : State :=
  { state with peers := state.peers.put i peer }

/-- `*channel`. -/
def State.channel (state : State) (r : ChannelRef) : ChannelState :=
  state.peers[r.1].channels[r.2]

/-- Assignment through `channel`. -/
def State.setChannel (state : State) (r : ChannelRef) (channel : ChannelState) : State :=
  let peer := state.peers[r.1]
  state.setPeer r.1 { peer with channels := peer.channels.put r.2 channel }

def modeSupported (mode : U8) : Bool :=
  mode == modeReliable || mode == modeUnreliable || mode == modePriority

/-- `relinow_tx_remove_seq`: clears the first queue slot with this id. -/
def txRemoveSeq (channel : ChannelState) (seqId : U16) : ChannelState :=
  match firstIdx (fun s => s.used && s.seqId == seqId) channel.txQueue with
  | none => channel
  | some i =>
      { channel with txQueue := channel.txQueue.put i { channel.txQueue[i] with used := false } }

/-- The first channel of a peer that is in use under this id. -/
def findChannelIdx (peer : PeerState) (channelId : U8) : Option (Fin maxChannelsPerPeer) :=
  firstIdx (fun ch => ch.inUse && ch.channelId == channelId) peer.channels

/-- `relinow_find_channel_mut`. -/
def findChannelMut (state : State) (peerIndex channelId : U8) : Option ChannelRef :=
  if h : peerIndex.toNat < maxPeers then
    let peer := state.peers[peerIndex.toNat]
    if peer.inUse then
      match findChannelIdx peer channelId with
      | none => none
      | some i => some (⟨peerIndex.toNat, h⟩, i)
    else none
  else none

/-- `relinow_state_init`. -/
def stateInit : State := { peers := Vector.replicate maxPeers PeerState.zero }

/-- `relinow_state_find_peer`. -/
def stateFindPeer (state : State) (mac : Mac) : Except StateErr U8 :=
  match firstIdx (fun peer => peer.inUse && peer.mac == mac) state.peers with
  | some i => .ok (BitVec.ofNat 8 i.val)
  | none => .error .notFound

/-- `relinow_state_add_peer`. -/
def stateAddPeer (state : State) (mac : Mac) : Ret StateErr State U8 :=
  match stateFindPeer state mac with
  | .ok existing => ⟨.ok, state, existing⟩
  | .error _ =>
      match firstIdx (fun peer => !peer.inUse) state.peers with
      | some i =>
          ⟨.ok, state.setPeer i { PeerState.zero with inUse := true, mac := mac },
            BitVec.ofNat 8 i.val⟩
      | none => ⟨.noSpace, state, 0#8⟩

/-- `relinow_state_open_channel`. An open channel keeps its mode; only its priority may change. -/
def stateOpenChannel (state : State) (peerIndex channelId mode priority : U8) :
    Ret StateErr State Unit :=
  if h : peerIndex.toNat < maxPeers then
    if !modeSupported mode then ⟨.invalidArg, state, ()⟩
    else if channelId == heartbeatChannel then ⟨.invalidArg, state, ()⟩
    else
      let p : Fin maxPeers := ⟨peerIndex.toNat, h⟩
      let peer := state.peers[p]
      if !peer.inUse then ⟨.notFound, state, ()⟩
      else
        match findChannelIdx peer channelId with
        | some i =>
            let channel := peer.channels[i]
            if channel.mode != mode then ⟨.conflict, state, ()⟩
            else ⟨.ok, state.setChannel (p, i) { channel with priority := priority }, ()⟩
        | none =>
            match firstIdx (fun ch => !ch.inUse) peer.channels with
            | some i =>
                let channel : ChannelState :=
                  { ChannelState.zero with
                    inUse := true, channelId := channelId, mode := mode, priority := priority
                    reliable :=
                      if mode == modeReliable then reliableInit none else ReliableCtx.zero }
                ⟨.ok, state.setChannel (p, i) channel, ()⟩
            | none => ⟨.noSpace, state, ()⟩
  else ⟨.invalidArg, state, ()⟩

/-- `relinow_state_next_sequence`. -/
def stateNextSequence (state : State) (peerIndex channelId : U8) : Ret StateErr State U16 :=
  match findChannelMut state peerIndex channelId with
  | none => ⟨.notFound, state, 0#16⟩
  | some r =>
      let channel := state.channel r
      ⟨.ok, state.setChannel r { channel with nextTxSeq := seqNext channel.nextTxSeq },
        channel.nextTxSeq⟩

/-- The read-only scan that the getters repeat: the peer index is checked first. -/
def lookupChannel (state : State) (peerIndex channelId : U8) : Except StateErr ChannelState :=
  if h : peerIndex.toNat < maxPeers then
    let peer := state.peers[peerIndex.toNat]
    if !peer.inUse then .error .notFound
    else
      match findChannelIdx peer channelId with
      | some i => .ok peer.channels[i]
      | none => .error .notFound
  else .error .invalidArg

/-- `relinow_state_get_channel_mode`. -/
def stateGetChannelMode (state : State) (peerIndex channelId : U8) : Except StateErr U8 :=
  match lookupChannel state peerIndex channelId with
  | .ok channel => .ok channel.mode
  | .error e => .error e

/-- `relinow_state_mark_inflight`. -/
def stateMarkInflight (state : State) (peerIndex channelId : U8) (seqId : U16) :
    Ret StateErr State Unit :=
  match findChannelMut state peerIndex channelId with
  | none => ⟨.notFound, state, ()⟩
  | some r =>
      let channel := state.channel r
      if channel.mode == modePriority && channel.hasInflight then
        ⟨.ok, state.setChannel r { channel with inflightSeq := seqId }, ()⟩
      else
        ⟨.ok, state.setChannel r { channel with hasInflight := true, inflightSeq := seqId }, ()⟩

/-- `relinow_state_clear_inflight`. -/
def stateClearInflight (state : State) (peerIndex channelId : U8) (seqId : U16) :
    Ret StateErr State Unit :=
  match findChannelMut state peerIndex channelId with
  | none => ⟨.notFound, state, ()⟩
  | some r =>
      let channel := state.channel r
      if channel.hasInflight && channel.inflightSeq == seqId then
        ⟨.ok, state.setChannel r { channel with hasInflight := false }, ()⟩
      else ⟨.ok, state, ()⟩

/-- `relinow_state_enqueue_tx`. -/
def stateEnqueueTx (state : State) (peerIndex channelId : U8) (seqId : U16) :
    Ret StateErr State Unit :=
  match findChannelMut state peerIndex channelId with
  | none => ⟨.notFound, state, ()⟩
  | some r =>
      let channel := state.channel r
      match firstIdx (fun s => !s.used) channel.txQueue with
      | some i =>
          ⟨.ok, state.setChannel r { channel with txQueue := channel.txQueue.put i ⟨true, seqId⟩ },
            ()⟩
      | none => ⟨.queueFull, state, ()⟩

/-- `relinow_state_enqueue_rx`. -/
def stateEnqueueRx (state : State) (peerIndex channelId : U8) (seqId : U16) :
    Ret StateErr State Unit :=
  match findChannelMut state peerIndex channelId with
  | none => ⟨.notFound, state, ()⟩
  | some r =>
      let channel := state.channel r
      match firstIdx (fun s => !s.used) channel.rxQueue with
      | some i =>
          ⟨.ok, state.setChannel r { channel with rxQueue := channel.rxQueue.put i ⟨true, seqId⟩ },
            ()⟩
      | none => ⟨.queueFull, state, ()⟩

/-- `relinow_state_set_reliable_config`: the context starts over, and both queues are emptied. -/
def stateSetReliableConfig (state : State) (peerIndex channelId : U8) (cfg : ReliableConfig) :
    Ret StateErr State Unit :=
  match findChannelMut state peerIndex channelId with
  | none => ⟨.notFound, state, ()⟩
  | some r =>
      let channel := state.channel r
      if channel.mode != modeReliable then ⟨.wrongMode, state, ()⟩
      else
        ⟨.ok, state.setChannel r
          { channel with
            reliable := reliableInit (some cfg)
            hasInflight := false
            txQueue := Vector.replicate txQueueSize ⟨false, 0#16⟩
            rxQueue := Vector.replicate rxQueueSize ⟨false, 0#16⟩ }, ()⟩

/-- `relinow_state_reliable_send`. The results of marking and queueing are ignored. -/
def stateReliableSend (state : State) (peerIndex channelId : U8) (nowMs : U32) :
    Ret StateErr State TxResult :=
  match findChannelMut state peerIndex channelId with
  | none => ⟨.notFound, state, ⟨.none, 0#16⟩⟩
  | some r =>
      let channel := state.channel r
      if channel.mode != modeReliable then ⟨.wrongMode, state, ⟨.none, 0#16⟩⟩
      else
        let sent := reliableSend channel.reliable nowMs
        if sent.rc != .ok then ⟨.queueFull, state, ⟨.none, 0#16⟩⟩
        else
          let state := state.setChannel r { channel with reliable := sent.st }
          if sent.out.event == .new then
            let state := (stateMarkInflight state peerIndex channelId sent.out.seqId).st
            let state := (stateEnqueueTx state peerIndex channelId sent.out.seqId).st
            ⟨.ok, state, sent.out⟩
          else ⟨.ok, state, sent.out⟩

/-- `relinow_state_reliable_on_ack`. -/
def stateReliableOnAck (state : State) (peerIndex channelId : U8) (ackId : U16) (nowMs : U32) :
    Ret StateErr State Unit :=
  match findChannelMut state peerIndex channelId with
  | none => ⟨.notFound, state, ()⟩
  | some r =>
      let channel := state.channel r
      if channel.mode != modeReliable then ⟨.wrongMode, state, ()⟩
      else
        let state := state.setChannel r
          { channel with reliable := reliableOnAck channel.reliable ackId nowMs }
        let state := (stateClearInflight state peerIndex channelId ackId).st
        ⟨.ok, state.setChannel r (txRemoveSeq (state.channel r) ackId), ()⟩

/-- `relinow_state_reliable_poll`. -/
def stateReliablePoll (state : State) (peerIndex channelId : U8) (nowMs : U32) :
    Ret StateErr State TxResult :=
  match findChannelMut state peerIndex channelId with
  | none => ⟨.notFound, state, ⟨.none, 0#16⟩⟩
  | some r =>
      let channel := state.channel r
      if channel.mode != modeReliable then ⟨.wrongMode, state, ⟨.none, 0#16⟩⟩
      else
        let polled := reliablePoll channel.reliable nowMs
        let state := state.setChannel r { channel with reliable := polled.1 }
        match polled.2.event with
        | .retransmit =>
            ⟨.ok, (stateMarkInflight state peerIndex channelId polled.2.seqId).st, polled.2⟩
        | .failed =>
            let state := (stateClearInflight state peerIndex channelId polled.2.seqId).st
            ⟨.ok, state.setChannel r (txRemoveSeq (state.channel r) polled.2.seqId), polled.2⟩
        | _ => ⟨.ok, state, polled.2⟩

/-- The queueing loop of `relinow_state_reliable_on_data`; the first failure ends it. -/
def enqueueDelivered (peerIndex channelId : U8) : List U16 → State → Ret StateErr State Unit
  | [], state => ⟨.ok, state, ()⟩
  | d :: ds, state =>
      let queued := stateEnqueueRx state peerIndex channelId d
      if queued.rc != .ok then queued
      else enqueueDelivered peerIndex channelId ds queued.st

/-- `relinow_state_reliable_on_data`. The engine's result is written out, and its context
stays advanced, also when queueing fails afterwards. -/
def stateReliableOnData (state : State) (peerIndex channelId : U8) (seqId : U16) :
    Ret StateErr State RxResult :=
  match findChannelMut state peerIndex channelId with
  | none => ⟨.notFound, state, ⟨.delivered, [], 0#16⟩⟩
  | some r =>
      let channel := state.channel r
      if channel.mode != modeReliable then ⟨.wrongMode, state, ⟨.delivered, [], 0#16⟩⟩
      else
        let got := reliableOnData channel.reliable seqId
        let state := state.setChannel r { channel with reliable := got.1 }
        let queued := enqueueDelivered peerIndex channelId got.2.deliveredSeq state
        if queued.rc != .ok then ⟨queued.rc, queued.st, got.2⟩
        else
          let channel := queued.st.channel r
          ⟨.ok, queued.st.setChannel r
            { channel with expectedRxSeq := channel.reliable.expectedRxSeq }, got.2⟩

/-- `relinow_state_reliable_get_rtt_ms`. -/
def stateReliableGetRttMs (state : State) (peerIndex channelId : U8) : Except StateErr U16 :=
  match lookupChannel state peerIndex channelId with
  | .ok channel =>
      if channel.mode != modeReliable then .error .wrongMode
      else .ok (reliableCurrentRttMs channel.reliable)
  | .error e => .error e

/-- `relinow_state_unreliable_send`. -/
def stateUnreliableSend (state : State) (peerIndex channelId : U8) : Ret StateErr State U16 :=
  match findChannelMut state peerIndex channelId with
  | none => ⟨.notFound, state, 0#16⟩
  | some r =>
      let channel := state.channel r
      if channel.mode != modeUnreliable then ⟨.wrongMode, state, 0#16⟩
      else
        ⟨.ok, state.setChannel r { channel with nextTxSeq := seqNext channel.nextTxSeq },
          channel.nextTxSeq⟩

/-- The out-parameters of `relinow_state_priority_send`. -/
structure PrioritySent where
  seqId : U16
  replaced : Bool
  replacedSeqId : U16
  deriving DecidableEq, Repr

/-- `relinow_state_priority_send`. -/
def statePrioritySend (state : State) (peerIndex channelId : U8) :
    Ret StateErr State PrioritySent :=
  match findChannelMut state peerIndex channelId with
  | none => ⟨.notFound, state, ⟨0#16, false, 0#16⟩⟩
  | some r =>
      let channel := state.channel r
      if channel.mode != modePriority then ⟨.wrongMode, state, ⟨0#16, false, 0#16⟩⟩
      else
        ⟨.ok, state.setChannel r
          { channel with
            nextTxSeq := seqNext channel.nextTxSeq
            hasInflight := true
            inflightSeq := channel.nextTxSeq },
          { seqId := channel.nextTxSeq
            replaced := channel.hasInflight
            replacedSeqId := if channel.hasInflight then channel.inflightSeq else 0#16 }⟩

/-- `relinow_state_priority_on_data`; the out-parameter is `should_deliver`. -/
def statePriorityOnData (state : State) (peerIndex channelId : U8) (seqId : U16) :
    Ret StateErr State Bool :=
  match findChannelMut state peerIndex channelId with
  | none => ⟨.notFound, state, false⟩
  | some r =>
      let channel := state.channel r
      if channel.mode != modePriority then ⟨.wrongMode, state, false⟩
      else if !channel.hasRxSeq || isSeqNewer seqId channel.expectedRxSeq then
        ⟨.ok, state.setChannel r { channel with hasRxSeq := true, expectedRxSeq := seqId }, true⟩
      else ⟨.ok, state, false⟩

/-- `relinow_state_clear_inflight_any`. -/
def stateClearInflightAny (state : State) (peerIndex channelId : U8) : Ret StateErr State Unit :=
  match findChannelMut state peerIndex channelId with
  | none => ⟨.notFound, state, ()⟩
  | some r => ⟨.ok, state.setChannel r { state.channel r with hasInflight := false }, ()⟩

/-- `relinow_state_configure_heartbeat`. -/
def stateConfigureHeartbeat (state : State) (peerIndex : U8) (intervalMs : U16)
    (missCountMax : U8) : Ret StateErr State Unit :=
  if h : peerIndex.toNat < maxPeers then
    let p : Fin maxPeers := ⟨peerIndex.toNat, h⟩
    let peer := state.peers[p]
    if !peer.inUse then ⟨.notFound, state, ()⟩
    else
      ⟨.ok, state.setPeer p
        { peer with
          heartbeatIntervalMs := intervalMs
          heartbeatMissCountMax := missCountMax
          missedPongs := 0#8
          lastPingSentMs := 0#32 }, ()⟩
  else ⟨.invalidArg, state, ()⟩

/-- The out-parameters of `relinow_state_poll_heartbeat`. -/
structure HeartbeatPoll where
  shouldPing : Bool
  peerTimeout : Bool
  deriving DecidableEq, Repr

/-- `relinow_state_poll_heartbeat`. -/
def statePollHeartbeat (state : State) (peerIndex : U8) (nowMs : U32) :
    Ret StateErr State HeartbeatPoll :=
  if h : peerIndex.toNat < maxPeers then
    let p : Fin maxPeers := ⟨peerIndex.toNat, h⟩
    let peer := state.peers[p]
    if !peer.inUse || peer.heartbeatIntervalMs == 0#16 then ⟨.ok, state, ⟨false, false⟩⟩
    else if peer.heartbeatIntervalMs.toNat ≤ (nowMs - peer.lastPingSentMs).toNat then
      if peer.heartbeatMissCountMax ≤ peer.missedPongs then ⟨.ok, state, ⟨false, true⟩⟩
      else
        ⟨.ok, state.setPeer p
          { peer with missedPongs := peer.missedPongs + 1#8, lastPingSentMs := nowMs },
          ⟨true, false⟩⟩
    else ⟨.ok, state, ⟨false, false⟩⟩
  else ⟨.invalidArg, state, ⟨false, false⟩⟩

/-- `relinow_state_on_pong`. -/
def stateOnPong (state : State) (peerIndex : U8) : Ret StateErr State Unit :=
  if h : peerIndex.toNat < maxPeers then
    let p : Fin maxPeers := ⟨peerIndex.toNat, h⟩
    let peer := state.peers[p]
    if !peer.inUse then ⟨.notFound, state, ()⟩
    else ⟨.ok, state.setPeer p { peer with missedPongs := 0#8 }, ()⟩
  else ⟨.invalidArg, state, ()⟩

/-- `relinow_state_unreliable_on_data`. -/
def stateUnreliableOnData (state : State) (peerIndex channelId : U8) (seqId : U16) :
    Ret StateErr State Unit :=
  match findChannelMut state peerIndex channelId with
  | none => ⟨.notFound, state, ()⟩
  | some r =>
      let channel := state.channel r
      if channel.mode != modeUnreliable then ⟨.wrongMode, state, ()⟩
      else
        let stats := { channel.stats with totalRx := channel.stats.totalRx + 1#32 }
        if !channel.hasRxSeq then
          ⟨.ok, state.setChannel r
            { channel with stats := stats, hasRxSeq := true, expectedRxSeq := seqId }, ()⟩
        else if isSeqNewer seqId channel.expectedRxSeq then
          let diff := seqId - channel.expectedRxSeq
          ⟨.ok, state.setChannel r
            { channel with
              stats := { stats with totalLost := stats.totalLost + diff.setWidth 32 }
              expectedRxSeq := seqId }, ()⟩
        else ⟨.ok, state.setChannel r { channel with stats := stats }, ()⟩

/-- `relinow_state_get_stats`. -/
def stateGetStats (state : State) (peerIndex channelId : U8) : Except StateErr Stats :=
  match lookupChannel state peerIndex channelId with
  | .ok channel => .ok channel.stats
  | .error e => .error e

/-- The loop of `relinow_state_scheduler_next`, with `n` of its sixteen rounds to go. The result
is the event and the id of the channel it is for, or `none` when no round found one. -/
def schedulerScan (p : Fin maxPeers) (peerIndex : U8) (nowMs : U32) :
    Nat → State → State × Option (U8 × TxResult)
  | 0, state => (state, none)
  | n + 1, state =>
      let peer := state.peers[p]
      let count := maxChannelsPerPeer - (n + 1)
      let idx : Fin maxChannelsPerPeer :=
        Fin.ofNat maxChannelsPerPeer (peer.lastPolledChannelIdx.toNat + 1 + count)
      if peer.channels[idx].inUse && peer.channels[idx].mode == modeReliable then
        let channelId := peer.channels[idx].channelId
        let polled := stateReliablePoll state peerIndex channelId nowMs
        if polled.out.event != .none then
          let peer := polled.st.peers[p]
          (polled.st.setPeer p { peer with lastPolledChannelIdx := BitVec.ofNat 8 idx.val },
            some (channelId, polled.out))
        else schedulerScan p peerIndex nowMs n polled.st
      else schedulerScan p peerIndex nowMs n state

/-- `relinow_state_scheduler_next`. -/
def stateSchedulerNext (state : State) (peerIndex : U8) (nowMs : U32) :
    Ret StateErr State (Option (U8 × TxResult)) :=
  if h : peerIndex.toNat < maxPeers then
    let p : Fin maxPeers := ⟨peerIndex.toNat, h⟩
    if !state.peers[p].inUse then ⟨.notFound, state, none⟩
    else
      let r := schedulerScan p peerIndex nowMs maxChannelsPerPeer state
      ⟨.ok, r.1, r.2⟩
  else ⟨.invalidArg, state, none⟩

/-! ## The operations, as one alphabet -/

/-- The operations of the state layer with their arguments. -/
inductive StateOp where
  | findPeer (mac : Mac)
  | addPeer (mac : Mac)
  | openChannel (peerIndex channelId mode priority : U8)
  | nextSequence (peerIndex channelId : U8)
  | getChannelMode (peerIndex channelId : U8)
  | markInflight (peerIndex channelId : U8) (seqId : U16)
  | clearInflight (peerIndex channelId : U8) (seqId : U16)
  | enqueueTx (peerIndex channelId : U8) (seqId : U16)
  | enqueueRx (peerIndex channelId : U8) (seqId : U16)
  | setReliableConfig (peerIndex channelId : U8) (cfg : ReliableConfig)
  | reliableSend (peerIndex channelId : U8) (nowMs : U32)
  | reliableOnAck (peerIndex channelId : U8) (ackId : U16) (nowMs : U32)
  | reliablePoll (peerIndex channelId : U8) (nowMs : U32)
  | reliableOnData (peerIndex channelId : U8) (seqId : U16)
  | reliableGetRttMs (peerIndex channelId : U8)
  | unreliableSend (peerIndex channelId : U8)
  | unreliableOnData (peerIndex channelId : U8) (seqId : U16)
  | prioritySend (peerIndex channelId : U8)
  | priorityOnData (peerIndex channelId : U8) (seqId : U16)
  | clearInflightAny (peerIndex channelId : U8)
  | configureHeartbeat (peerIndex : U8) (intervalMs : U16) (missCountMax : U8)
  | pollHeartbeat (peerIndex : U8) (nowMs : U32)
  | onPong (peerIndex : U8)
  | getStats (peerIndex channelId : U8)
  | schedulerNext (peerIndex : U8) (nowMs : U32)
  deriving DecidableEq, Repr

/-- The return code and the new state, without the out-parameters. -/
def Ret.effect {ε σ α : Type} (r : Ret ε σ α) : ε × σ := (r.rc, r.st)

/-- The return code of an operation that only reads. -/
def readRc {α : Type} (r : Except StateErr α) : StateErr :=
  match r with
  | .ok _ => .ok
  | .error e => e

/-- What an operation returns and leaves behind. -/
def StateOp.run (state : State) : StateOp → StateErr × State
  | .findPeer mac => (readRc (stateFindPeer state mac), state)
  | .addPeer mac => (stateAddPeer state mac).effect
  | .openChannel p c mode priority => (stateOpenChannel state p c mode priority).effect
  | .nextSequence p c => (stateNextSequence state p c).effect
  | .getChannelMode p c => (readRc (stateGetChannelMode state p c), state)
  | .markInflight p c seqId => (stateMarkInflight state p c seqId).effect
  | .clearInflight p c seqId => (stateClearInflight state p c seqId).effect
  | .enqueueTx p c seqId => (stateEnqueueTx state p c seqId).effect
  | .enqueueRx p c seqId => (stateEnqueueRx state p c seqId).effect
  | .setReliableConfig p c cfg => (stateSetReliableConfig state p c cfg).effect
  | .reliableSend p c nowMs => (stateReliableSend state p c nowMs).effect
  | .reliableOnAck p c ackId nowMs => (stateReliableOnAck state p c ackId nowMs).effect
  | .reliablePoll p c nowMs => (stateReliablePoll state p c nowMs).effect
  | .reliableOnData p c seqId => (stateReliableOnData state p c seqId).effect
  | .reliableGetRttMs p c => (readRc (stateReliableGetRttMs state p c), state)
  | .unreliableSend p c => (stateUnreliableSend state p c).effect
  | .unreliableOnData p c seqId => (stateUnreliableOnData state p c seqId).effect
  | .prioritySend p c => (statePrioritySend state p c).effect
  | .priorityOnData p c seqId => (statePriorityOnData state p c seqId).effect
  | .clearInflightAny p c => (stateClearInflightAny state p c).effect
  | .configureHeartbeat p intervalMs miss =>
      (stateConfigureHeartbeat state p intervalMs miss).effect
  | .pollHeartbeat p nowMs => (statePollHeartbeat state p nowMs).effect
  | .onPong p => (stateOnPong state p).effect
  | .getStats p c => (readRc (stateGetStats state p c), state)
  | .schedulerNext p nowMs => (stateSchedulerNext state p nowMs).effect

/-- One call: an operation, and whether some pointer it was handed is `NULL`. Every operation
makes its `NULL` checks before anything else. -/
structure StateCall where
  op : StateOp
  nullArg : Bool
  deriving DecidableEq, Repr

def StateCall.run (state : State) (call : StateCall) : StateErr × State :=
  if call.nullArg then (.invalidArg, state) else call.op.run state

/-- The state after a sequence of calls, from `relinow_state_init`. -/
def stateAfter (calls : List StateCall) : State :=
  calls.foldl (fun state call => (call.run state).2) stateInit

end Relinow
