import Relinow.State

/-!
# The node

`relinow_espnow.h` and `relinow_espnow.c`: one peer, the state layer under it,
the payload caches, fragmentation and reassembly, and the callbacks.

A call of the API starts from a node and a radio, and what it does to the world
outside goes into a log: the frames `esp_now_send` accepted, and the callbacks
it made. `esp_now_send` is not part of the repository; the radio says what it
returns at each attempt of the call.

A byte array with a length next to it is the list of its valid bytes: a payload
cache entry's `payload[0..payload_len)`, the reassembly buffer's first
`reassembly_len` bytes. The list of tracked fragments is
`fragmented_tx_seq[0..fragmented_tx_count)`.
-/

namespace Relinow

open SlotTable (firstIdx)

/-- `esp_err_t`, as far as it is used here. `espNow` is an error code of `esp_now_send`; `trap` is
what a division by zero ends in. -/
inductive EspErr where
  | ok
  | fail
  | invalidArg
  | invalidState
  | noMem
  | espNow (code : U32)
  | trap
  deriving DecidableEq, Repr

/-- `RELINOW_MAX_PAYLOAD`. -/
def maxPayloadLimit : Nat := 241

/-- `RELINOW_MAX_REASSEMBLY`. -/
def maxReassembly : Nat := maxPayloadLimit * maxPending

/-- `1 + RELINOW_RELIABLE_MAX_REORDER`. -/
abbrev rxCacheSize : Nat := 1 + maxReorder

/-- `relinow_config_t`; a callback is here only as set or not set. -/
structure Config where
  peerMac : Mac
  channelId : U8
  mode : U8
  maxPayload : U16
  fragmentTimeoutMs : U16
  heartbeatIntervalMs : U16
  heartbeatMissCountMax : U8
  reliableCfg : ReliableConfig
  onMessage : Bool
  onTxEvent : Bool
  onPeerTimeout : Bool
  deriving DecidableEq, Repr

/-- `relinow_tx_cache_t`. -/
structure TxCache where
  inUse : Bool
  seqId : U16
  flags : U8
  payload : List U8
  deriving DecidableEq, Repr

/-- `relinow_rx_cache_t`. -/
structure RxCache where
  inUse : Bool
  seqId : U16
  flags : U8
  payload : List U8
  deriving DecidableEq, Repr

/-- `relinow_node_t`. -/
structure Node where
  state : State
  peerIndex : U8
  peerMac : Mac
  channelId : U8
  maxPayload : U16
  fragmentTimeoutMs : U16
  onMessage : Bool
  onTxEvent : Bool
  onPeerTimeout : Bool
  fragmentedTxActive : Bool
  fragmentedTxSeq : List U16
  reassemblyActive : Bool
  reassemblyFirstSeq : U16
  reassemblyBuf : List U8
  reassemblyStartMs : U32
  txCache : Vector TxCache maxPending
  rxCache : Vector RxCache rxCacheSize
  deriving DecidableEq, Repr

def Node.zero : Node :=
  { state := stateInit, peerIndex := 0#8, peerMac := Vector.replicate 6 0#8, channelId := 0#8
    maxPayload := 0#16, fragmentTimeoutMs := 0#16
    onMessage := false, onTxEvent := false, onPeerTimeout := false
    fragmentedTxActive := false, fragmentedTxSeq := []
    reassemblyActive := false, reassemblyFirstSeq := 0#16, reassemblyBuf := []
    reassemblyStartMs := 0#32
    txCache := Vector.replicate maxPending ⟨false, 0#16, 0#8, []⟩
    rxCache := Vector.replicate rxCacheSize ⟨false, 0#16, 0#8, []⟩ }

/-- Which of the four call sites of `on_message` a message came through. -/
inductive Delivery where
  | unreliable
  | priority
  | plain
  | reassembled
  deriving DecidableEq, Repr

/-- What a call does to the world outside. `assigned` is not visible there: it records that a
sequence id was given to a payload, whatever became of the frame. -/
inductive Event where
  | sent (dst : Mac) (frame : List U8)
  | message (site : Delivery) (src : Mac) (channelId : U8) (seqId : U16) (payload : List U8)
  | txEvent (event : TxEvent) (seqId : U16)
  | peerTimeout (mac : Mac)
  | assigned (channelId : U8) (seqId : U16) (flags : U8) (payload : List U8)
  deriving DecidableEq, Repr

/-- What `esp_now_send` answers at the first, second, ... attempt of one API call: `none` for
`ESP_OK`, or an error code. -/
abbrev Radio := Nat → Option U32

/-- A radio that takes every frame. -/
def Radio.up : Radio := fun _ => none

/-- An API call in progress: the node so far, the attempts made at the radio, and the log. -/
structure Call where
  node : Node
  attempts : Nat
  log : List Event
  deriving DecidableEq, Repr

def Call.start (node : Node) : Call := ⟨node, 0, []⟩

def Call.push (k : Call) (e : Event) : Call := { k with log := k.log ++ [e] }

def Call.setNode (k : Call) (node : Node) : Call := { k with node := node }

/-! ## Caches -/

def txCacheFind (node : Node) (seqId : U16) : Option (Fin maxPending) :=
  firstIdx (fun s => s.inUse && s.seqId == seqId) node.txCache

def txCacheAlloc (node : Node) : Option (Fin maxPending) :=
  firstIdx (fun s => !s.inUse) node.txCache

def txCacheRemove (node : Node) (seqId : U16) : Node :=
  match txCacheFind node seqId with
  | none => node
  | some i => { node with txCache := node.txCache.put i { node.txCache[i] with inUse := false } }

def rxCacheFind (node : Node) (seqId : U16) : Option (Fin rxCacheSize) :=
  firstIdx (fun s => s.inUse && s.seqId == seqId) node.rxCache

def rxCacheAlloc (node : Node) : Option (Fin rxCacheSize) :=
  firstIdx (fun s => !s.inUse) node.rxCache

def rxCacheRemove (node : Node) (seqId : U16) : Node :=
  match rxCacheFind node seqId with
  | none => node
  | some i => { node with rxCache := node.rxCache.put i { node.rxCache[i] with inUse := false } }

/-- `relinow_find_channel_state`. -/
def findChannelState (node : Node) (channelId : U8) : Option ChannelState :=
  match findChannelMut node.state node.peerIndex channelId with
  | none => none
  | some r => some (node.state.channel r)

def countFreePending (channel : ChannelState) : Nat :=
  channel.reliable.pending.toList.countP (fun s => !s.inUse)

def countFreeTxCache (node : Node) : Nat := node.txCache.toList.countP (fun s => !s.inUse)

/-! ## Fragment tracking and reassembly -/

def fragmentTxTrack (node : Node) (seqId : U16) : Node :=
  if node.fragmentedTxSeq.length < maxPending then
    { node with
      fragmentedTxSeq := node.fragmentedTxSeq ++ [seqId]
      fragmentedTxActive := true }
  else node

/-- `relinow_fragment_tx_on_ack`: drops the first entry with this id and closes the gap. -/
def fragmentTxOnAck (node : Node) (ackId : U16) : Node :=
  if node.fragmentedTxActive && node.fragmentedTxSeq.contains ackId then
    let rest := node.fragmentedTxSeq.erase ackId
    { node with
      fragmentedTxSeq := rest
      fragmentedTxActive := !rest.isEmpty }
  else node

def reassemblyReset (node : Node) : Node :=
  { node with
    reassemblyActive := false
    reassemblyFirstSeq := 0#16
    reassemblyBuf := []
    reassemblyStartMs := 0#32 }

/-! ## Sending -/

/-- `esp_now_send` to `dst`: logged when it returns `ESP_OK`. -/
def espNowSend (radio : Radio) (k : Call) (dst : Mac) (frame : List U8) : EspErr × Call :=
  let answer := radio k.attempts
  let k := { k with attempts := k.attempts + 1 }
  match answer with
  | none => (.ok, k.push (.sent dst frame))
  | some code => (.espNow code, k)

/-- `relinow_send_frame`. -/
def sendFrame (radio : Radio) (k : Call) (mode channelId type flags : U8) (seqId ackId : U16)
    (payload : List U8) : EspErr × Call :=
  if k.node.maxPayload.toNat < payload.length then (.invalidArg, k)
  else
    let header : Header :=
      { version := protocolVersion, mode := mode, type := type, flags := flags
        seqId := seqId, ackId := ackId, channelId := channelId
        payloadLen := BitVec.ofNat 16 payload.length }
    match encodeHeader header k.node.maxPayload with
    | .error _ => (.invalidArg, k)
    | .ok bytes => espNowSend radio k k.node.peerMac (bytes ++ payload)

/-- `relinow_default_config`. -/
def defaultConfig : Config :=
  { peerMac := Vector.replicate 6 0#8
    channelId := 1#8
    mode := modeReliable
    maxPayload := BitVec.ofNat 16 maxPayloadLimit
    fragmentTimeoutMs := 5000#16
    heartbeatIntervalMs := 0#16
    heartbeatMissCountMax := 3#8
    reliableCfg := reliableDefaultConfig
    onMessage := false, onTxEvent := false, onPeerTimeout := false }

/-- `relinow_init`. The node is cleared before the first step that can fail after the argument
check, and its own fields are filled in only when all have succeeded. -/
def init (node : Node) (cfg : Config) : EspErr × Node :=
  if cfg.maxPayload == 0#16 || decide (maxPayloadLimit < cfg.maxPayload.toNat) then
    (.invalidArg, node)
  else
    let added := stateAddPeer stateInit cfg.peerMac
    let node := { Node.zero with state := added.st, peerIndex := added.out }
    if added.rc != .ok then (.fail, node)
    else
      let opened := stateOpenChannel node.state node.peerIndex cfg.channelId cfg.mode 0#8
      let node := { node with state := opened.st }
      if opened.rc != .ok then (.fail, node)
      else
        let configured :=
          if cfg.mode == modeReliable then
            stateSetReliableConfig node.state node.peerIndex cfg.channelId cfg.reliableCfg
          else ⟨.ok, node.state, ()⟩
        let node := { node with state := configured.st }
        if configured.rc != .ok then (.fail, node)
        else
          let heartbeat := stateConfigureHeartbeat node.state node.peerIndex
            cfg.heartbeatIntervalMs cfg.heartbeatMissCountMax
          let node := { node with state := heartbeat.st }
          if heartbeat.rc != .ok then (.fail, node)
          else
            (.ok,
              { node with
                peerMac := cfg.peerMac
                channelId := cfg.channelId
                maxPayload := cfg.maxPayload
                fragmentTimeoutMs := cfg.fragmentTimeoutMs
                onMessage := cfg.onMessage
                onTxEvent := cfg.onTxEvent
                onPeerTimeout := cfg.onPeerTimeout })

/-- `relinow_open_channel`. -/
def openChannel (node : Node) (channelId mode priority : U8) : EspErr × Node :=
  let opened := stateOpenChannel node.state node.peerIndex channelId mode priority
  (if opened.rc != .ok then .fail else .ok, { node with state := opened.st })

/-- How the common part of the two branches of `relinow_send_reliable` ends. -/
inductive Transmit where
  | refused
  | noSlot
  | radio (rc : EspErr)
  | done
  deriving DecidableEq, Repr

/-- `on_tx_event`, if it is set. -/
def raiseTxEvent (k : Call) (event : TxEvent) (seqId : U16) : Call :=
  if k.node.onTxEvent then k.push (.txEvent event seqId) else k

/--
What `relinow_send_reliable` does for one frame, plain or fragment: take a
sequence id, keep the payload in a cache entry, track the id if it is a
fragment's, send, and report the id as new.
-/
def transmitNew (radio : Radio) (k : Call) (channelId flags : U8) (track : Bool)
    (payload : List U8) (nowMs : U32) : Transmit × Call :=
  let sent := stateReliableSend k.node.state k.node.peerIndex channelId nowMs
  let k := k.setNode { k.node with state := sent.st }
  if sent.rc != .ok || sent.out.event != .new then (.refused, k)
  else
    let seqId := sent.out.seqId
    let k := k.push (.assigned channelId seqId flags payload)
    match txCacheAlloc k.node with
    | none => (.noSlot, k)
    | some i =>
        let slot : TxCache := ⟨true, seqId, flags, payload⟩
        let k := k.setNode { k.node with txCache := k.node.txCache.put i slot }
        let k := if track then k.setNode (fragmentTxTrack k.node seqId) else k
        let erc := sendFrame radio k modeReliable channelId typeData flags seqId 0#16 payload
        if erc.1 ≠ .ok then (.radio erc.1, erc.2)
        else (.done, raiseTxEvent erc.2 .new seqId)

/-- The fragment loop of `relinow_send_reliable`. Each round takes at least one byte, so the
payload's length bounds the rounds. -/
def sendFragments (radio : Radio) (channelId : U8) (nowMs : U32) :
    Nat → Call → List U8 → EspErr × Call
  | 0, k, _ => (.ok, k)
  | fuel + 1, k, remaining =>
      if remaining.isEmpty then (.ok, k)
      else
        let fragLen := min k.node.maxPayload.toNat remaining.length
        let flags :=
          if remaining.length = fragLen then flagFragment ||| flagLastFragment else flagFragment
        let r := transmitNew radio k channelId flags true (remaining.take fragLen) nowMs
        match r.1 with
        | .done => sendFragments radio channelId nowMs fuel r.2 (remaining.drop fragLen)
        | .refused =>
            let node := r.2.node
            (.fail, r.2.setNode
              (if node.fragmentedTxSeq.isEmpty then { node with fragmentedTxActive := false }
               else node))
        | .noSlot => (.noMem, r.2)
        | .radio e => (e, r.2)

/-- `fragment_count`, narrowed to eight bits as in the source. -/
def fragmentCount (payloadLen maxPayload : Nat) : Nat :=
  (payloadLen + maxPayload - 1) / maxPayload % 2 ^ 8

/-- `relinow_send_reliable`. -/
def sendReliable (radio : Radio) (node : Node) (channelId : U8) (payload : List U8)
    (nowMs : U32) : EspErr × Call :=
  let k := Call.start node
  if payload.isEmpty then (.invalidArg, k)
  else
    match stateGetChannelMode node.state node.peerIndex channelId with
    | .error _ => (.invalidState, k)
    | .ok mode =>
        if mode != modeReliable then (.invalidState, k)
        else
          match findChannelState node channelId with
          | none => (.invalidState, k)
          | some channel =>
              if node.fragmentedTxActive then (.invalidState, k)
              else if node.maxPayload.toNat < payload.length then
                if node.maxPayload.toNat = 0 then (.trap, k)
                else
                  let count := fragmentCount payload.length node.maxPayload.toNat
                  if maxPending < count then (.noMem, k)
                  else if countFreePending channel < count || countFreeTxCache node < count then
                    (.noMem, k)
                  else
                    sendFragments radio channelId nowMs payload.length
                      (k.setNode { node with fragmentedTxActive := true, fragmentedTxSeq := [] })
                      payload
              else
                let r := transmitNew radio k channelId 0#8 false payload nowMs
                match r.1 with
                | .done => (.ok, r.2)
                | .refused => (.fail, r.2)
                | .noSlot => (.noMem, r.2)
                | .radio e => (e, r.2)

/-- `relinow_send_unreliable`. -/
def sendUnreliable (radio : Radio) (node : Node) (channelId : U8) (payload : List U8) :
    EspErr × Call :=
  let k := Call.start node
  if payload.isEmpty || decide (node.maxPayload.toNat < payload.length) then (.invalidArg, k)
  else
    match stateGetChannelMode node.state node.peerIndex channelId with
    | .error _ => (.invalidState, k)
    | .ok mode =>
        if mode != modeUnreliable then (.invalidState, k)
        else
          let sent := stateUnreliableSend node.state node.peerIndex channelId
          let k := k.setNode { node with state := sent.st }
          if sent.rc != .ok then (.fail, k)
          else sendFrame radio k modeUnreliable channelId typeData 0#8 sent.out 0#16 payload

/-- `relinow_send_priority`. -/
def sendPriority (radio : Radio) (node : Node) (channelId : U8) (payload : List U8) :
    EspErr × Call :=
  let k := Call.start node
  if payload.isEmpty || decide (node.maxPayload.toNat < payload.length) then (.invalidArg, k)
  else
    match stateGetChannelMode node.state node.peerIndex channelId with
    | .error _ => (.invalidState, k)
    | .ok mode =>
        if mode != modePriority then (.invalidState, k)
        else
          let sent := statePrioritySend node.state node.peerIndex channelId
          let k := k.setNode { node with state := sent.st }
          if sent.rc != .ok then (.fail, k)
          else sendFrame radio k modePriority channelId typeData 0#8 sent.out.seqId 0#16 payload

/-! ## Receiving -/

/-- `on_message`, if it is set. -/
def raiseMessage (k : Call) (site : Delivery) (src : Mac) (channelId : U8) (seqId : U16)
    (payload : List U8) : Call :=
  if k.node.onMessage then k.push (.message site src channelId seqId payload) else k

/-- A fragment starts a message unless one is in reassembly. -/
def reassemblyStart (node : Node) (firstSeq : U16) (nowMs : U32) : Node :=
  if node.reassemblyActive then node
  else
    { node with
      reassemblyActive := true
      reassemblyFirstSeq := firstSeq
      reassemblyBuf := []
      reassemblyStartMs := nowMs }

/-- A delivered frame with the FRAGMENT flag: appended to the message in reassembly, which it
starts if none is active and completes if it carries LAST_FRAGMENT. -/
def deliverFragment (k : Call) (src : Mac) (channelId : U8) (nowMs : U32) (frag : RxCache) :
    Call :=
  let node := reassemblyStart k.node frag.seqId nowMs
  if maxReassembly < node.reassemblyBuf.length + frag.payload.length then
    k.setNode (reassemblyReset node)
  else
    let node := { node with reassemblyBuf := node.reassemblyBuf ++ frag.payload }
    if hasFlag frag.flags flagLastFragment then
      let k := raiseMessage (k.setNode node) .reassembled src channelId node.reassemblyFirstSeq
        node.reassemblyBuf
      k.setNode (reassemblyReset k.node)
    else k.setNode node

/-- A delivered frame without the FRAGMENT flag: a message of its own. -/
def deliverPlain (k : Call) (src : Mac) (channelId : U8) (frame : RxCache) : Call :=
  let k := if k.node.reassemblyActive then k.setNode (reassemblyReset k.node) else k
  raiseMessage k .plain src channelId frame.seqId frame.payload

/-- One round of the delivery loop of `relinow_on_receive`; an id without a cache entry is
passed over. -/
def deliverOne (src : Mac) (channelId : U8) (nowMs : U32) (k : Call) (seqId : U16) : Call :=
  match rxCacheFind k.node seqId with
  | none => k
  | some i =>
      let delivered := k.node.rxCache[i]
      let k :=
        if hasFlag delivered.flags flagFragment then
          deliverFragment k src channelId nowMs delivered
        else deliverPlain k src channelId delivered
      k.setNode (rxCacheRemove k.node delivered.seqId)

/-- The payload goes into the cache unless its id is there already or every entry is taken. -/
def rxCacheStore (node : Node) (header : Header) (payload : List U8) : Node :=
  match rxCacheFind node header.seqId with
  | some _ => node
  | none =>
      match rxCacheAlloc node with
      | none => node
      | some i =>
          { node with rxCache := node.rxCache.put i ⟨true, header.seqId, header.flags, payload⟩ }

/-- The DATA branch of `relinow_on_receive` on a reliable channel. -/
def receiveData (radio : Radio) (k : Call) (src : Mac) (header : Header) (payload : List U8)
    (nowMs : U32) : EspErr × Call :=
  let k := k.setNode (rxCacheStore k.node header payload)
  let rx := stateReliableOnData k.node.state k.node.peerIndex header.channelId header.seqId
  let k := k.setNode { k.node with state := rx.st }
  if rx.rc != .ok then (.fail, k)
  else
    let k := (sendFrame radio k modeReliable header.channelId typeAck 0#8 0#16 rx.out.ackId []).2
    (.ok, rx.out.deliveredSeq.foldl (deliverOne src header.channelId nowMs) k)

/-- The ACK branch of `relinow_on_receive` on a reliable channel. -/
def receiveAck (k : Call) (header : Header) (nowMs : U32) : EspErr × Call :=
  let acked := stateReliableOnAck k.node.state k.node.peerIndex header.channelId header.ackId nowMs
  let k := k.setNode { k.node with state := acked.st }
  if acked.rc = .ok then
    (.ok, k.setNode (fragmentTxOnAck (txCacheRemove k.node header.ackId) header.ackId))
  else (.ok, k)

/-- The branch of `relinow_on_receive` for the heartbeat channel. -/
def receiveHeartbeat (radio : Radio) (k : Call) (header : Header) : EspErr × Call :=
  if header.type == typePing then
    (.ok,
      (sendFrame radio k header.mode heartbeatChannel typePong 0#8 0#16 header.seqId []).2)
  else if header.type == typePong then
    (.ok, k.setNode { k.node with state := (stateOnPong k.node.state k.node.peerIndex).st })
  else (.ok, k)

/-- The branch of `relinow_on_receive` for unreliable channels. -/
def receiveUnreliable (k : Call) (src : Mac) (header : Header) (payload : List U8) :
    EspErr × Call :=
  if header.type == typeData then
    let counted := stateUnreliableOnData k.node.state k.node.peerIndex header.channelId header.seqId
    let k := k.setNode { k.node with state := counted.st }
    (.ok, raiseMessage k .unreliable src header.channelId header.seqId payload)
  else (.ok, k)

/-- The branch of `relinow_on_receive` for priority channels. -/
def receivePriority (k : Call) (src : Mac) (header : Header) (payload : List U8) :
    EspErr × Call :=
  if header.type == typeData then
    let judged := statePriorityOnData k.node.state k.node.peerIndex header.channelId header.seqId
    let k := k.setNode { k.node with state := judged.st }
    if judged.rc != .ok then (.fail, k)
    else if judged.out then
      (.ok, raiseMessage k .priority src header.channelId header.seqId payload)
    else (.ok, k)
  else (.ok, k)

/-- `relinow_on_receive`. -/
def onReceive (radio : Radio) (node : Node) (src : Mac) (data : List U8) (nowMs : U32) :
    EspErr × Call :=
  let k := Call.start node
  if data.length < headerSize then (.invalidArg, k)
  else if src ≠ node.peerMac then (.ok, k)
  else
    match decodeHeader data node.maxPayload with
    | .error _ => (.ok, k)
    | .ok header =>
        if header.channelId == heartbeatChannel then receiveHeartbeat radio k header
        else
          match stateGetChannelMode node.state node.peerIndex header.channelId with
          | .error _ => (.ok, k)
          | .ok mode =>
              if mode != header.mode then (.ok, k)
              else if header.mode == modeUnreliable then
                receiveUnreliable k src header (framePayload data)
              else if header.mode == modePriority then
                receivePriority k src header (framePayload data)
              else if header.mode != modeReliable then (.ok, k)
              else if header.type == typeAck then receiveAck k header nowMs
              else if header.type == typeData then
                receiveData radio k src header (framePayload data) nowMs
              else (.ok, k)

/-! ## Polling -/

/-- The reassembly timeout at the top of `relinow_poll`. -/
def pollReassembly (node : Node) (nowMs : U32) : Node :=
  if node.reassemblyActive
      && decide (node.fragmentTimeoutMs.toNat < (nowMs - node.reassemblyStartMs).toNat) then
    reassemblyReset node
  else node

/-- The heartbeat part of `relinow_poll`. -/
def pollHeartbeat (radio : Radio) (k : Call) (nowMs : U32) : Call :=
  let beat := statePollHeartbeat k.node.state k.node.peerIndex nowMs
  let k := k.setNode { k.node with state := beat.st }
  if beat.out.peerTimeout && k.node.onPeerTimeout then k.push (.peerTimeout k.node.peerMac)
  else if beat.out.shouldPing then
    (sendFrame radio k modeUnreliable heartbeatChannel typePing 0#8 0#16 0#16 []).2
  else k

/-- What `relinow_poll` does with the scheduler's event. -/
def pollEvent (radio : Radio) (k : Call) (channelId : U8) (tx : TxResult) : EspErr × Call :=
  match tx.event with
  | .retransmit =>
      match txCacheFind k.node tx.seqId with
      | none => (.ok, raiseTxEvent k tx.event tx.seqId)
      | some i =>
          let slot := k.node.txCache[i]
          let erc := sendFrame radio k modeReliable channelId typeData slot.flags slot.seqId 0#16
            slot.payload
          if erc.1 ≠ .ok then erc else (.ok, raiseTxEvent erc.2 tx.event tx.seqId)
  | .failed =>
      (.ok, raiseTxEvent (k.setNode (txCacheRemove k.node tx.seqId)) tx.event tx.seqId)
  | _ => (.ok, raiseTxEvent k tx.event tx.seqId)

/-- `relinow_poll`. -/
def poll (radio : Radio) (node : Node) (nowMs : U32) : EspErr × Call :=
  let k := Call.start (pollReassembly node nowMs)
  let k := pollHeartbeat radio k nowMs
  let next := stateSchedulerNext k.node.state k.node.peerIndex nowMs
  let k := k.setNode { k.node with state := next.st }
  match next.out with
  | none => (.ok, k)
  | some (channelId, tx) => pollEvent radio k channelId tx

/-! ## The API, as one alphabet -/

/-- A call of the API on an initialised node. -/
inductive ApiCall where
  | openChannel (channelId mode priority : U8)
  | sendReliable (channelId : U8) (payload : List U8) (nowMs : U32)
  | sendUnreliable (channelId : U8) (payload : List U8)
  | sendPriority (channelId : U8) (payload : List U8)
  | onReceive (src : Mac) (data : List U8) (nowMs : U32)
  | poll (nowMs : U32)
  deriving DecidableEq, Repr

/-- The return code, the node afterwards, and what the call did outside. -/
def ApiCall.run (radio : Radio) (node : Node) : ApiCall → EspErr × Call
  | .openChannel channelId mode priority =>
      let r := Relinow.openChannel node channelId mode priority
      (r.1, Call.start r.2)
  | .sendReliable channelId payload nowMs =>
      Relinow.sendReliable radio node channelId payload nowMs
  | .sendUnreliable channelId payload => Relinow.sendUnreliable radio node channelId payload
  | .sendPriority channelId payload => Relinow.sendPriority radio node channelId payload
  | .onReceive src data nowMs => Relinow.onReceive radio node src data nowMs
  | .poll nowMs => Relinow.poll radio node nowMs

end Relinow
