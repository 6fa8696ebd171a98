import Relinow.Proof.NodeFrames

/-!
# How a node starts

What opening a channel does to the reliable channels, and what a node is once it is
initialised: one peer, one channel of it, and the values of the configuration.
-/

namespace Relinow

open SlotTable

/-- **Opening a channel** leaves the reliable channels alone, changes a priority, or adds a fresh
channel. -/
theorem openChannel_cases (node : Node) (c mode priority : U8) :
    ∃ state', (openChannel node c mode priority).2 = { node with state := state' }
      ∧ (Relinow.reliableAt state' node.peerIndex = node.reliableAt
        ∨ (∃ channel, node.reliableAt c = some channel
          ∧ Relinow.reliableAt state' node.peerIndex
            = Function.update node.reliableAt c (some { channel with priority := priority }))
        ∨ ∃ channel, node.reliableAt c = none ∧ IsFresh channel
          ∧ Relinow.reliableAt state' node.peerIndex
            = Function.update node.reliableAt c (some channel)) := by
  unfold openChannel
  dsimp only
  rcases stateOpenChannel_cases node.state node.peerIndex c mode priority with
    ⟨_, hst⟩ | ⟨a, state', hrw, heq⟩ | ⟨a, state', hhb, hno, hmode, hfresh, hat, heq⟩
  · rw [hst]
    exact ⟨node.state, rfl, Or.inl rfl⟩
  · rw [heq]
    refine ⟨state', rfl, ?_⟩
    -- an open channel only changes its priority
    by_cases hm : a.mode = modeReliable
    · obtain ⟨h1, h2⟩ := hrw.reliable hm hm
      exact Or.inr (Or.inl ⟨a, h1, h2⟩)
    · exact Or.inl (hrw.unreliable hm hm)
  · rw [heq]
    refine ⟨state', rfl, ?_⟩
    -- a channel is new under its id
    have hnone : node.reliableAt c = none := by
      show (channelAt node.state node.peerIndex c).filter _ = none
      rw [hno]
      rfl
    have hother : ∀ c', c' ≠ c →
        Relinow.reliableAt state' node.peerIndex c' = node.reliableAt c' := by
      intro c' hc'
      exact reliableAt_of_channelAt (by rw [hat, Function.update_of_ne hc'])
    by_cases hm : mode = modeReliable
    · refine Or.inr (Or.inr ⟨a, hnone, hfresh hm, ?_⟩)
      funext c'
      by_cases hc' : c' = c
      · subst hc'
        rw [Function.update_self]
        exact reliableAt_eq_some.mpr ⟨by rw [hat, Function.update_self], hmode.trans hm⟩
      · rw [Function.update_of_ne hc', hother c' hc']
    · -- a channel of another mode is not among the reliable ones
      left
      funext c'
      by_cases hc' : c' = c
      · subst hc'
        rw [hnone, Option.eq_none_iff_forall_ne_some]
        intro x hx
        obtain ⟨hx, hxm⟩ := reliableAt_eq_some.mp hx
        rw [hat, Function.update_self] at hx
        obtain rfl := Option.some.inj hx
        exact hm (hmode.symm.trans hxm)
      · exact hother c' hc'

/-! ## Initialising -/

theorem stateAddPeer_init (mac : Mac) :
    stateAddPeer stateInit mac
      = ⟨.ok, stateInit.setPeer 0 { PeerState.zero with inUse := true, mac := mac }, 0#8⟩ := by
  have hget : ∀ i : Fin maxPeers, stateInit.peers[i] = PeerState.zero := by
    intro i
    unfold stateInit
    rw [get_replicate]
  have hfind : stateFindPeer stateInit mac = .error .notFound := by
    unfold stateFindPeer
    rw [firstIdx_eq_none.mpr fun i => by rw [hget]; rfl]
  have hfree : firstIdx (fun peer => !peer.inUse) stateInit.peers = some 0 :=
    firstIdx_eq_some.mpr ⟨by rw [hget]; rfl, fun j hj => absurd hj (Fin.not_lt_zero j)⟩
  unfold stateAddPeer
  rw [hfind]
  dsimp only
  rw [hfree]
  rfl

/-- A peer just added has no channel. -/
theorem channelAt_addPeer (mac : Mac) (c : U8) :
    channelAt (stateInit.setPeer 0 { PeerState.zero with inUse := true, mac := mac }) 0#8 c
      = none := by
  rw [channelAt_eq_none, Option.eq_none_iff_forall_ne_some]
  intro r hr
  obtain ⟨i, j⟩ := r
  have hin := (findChannelMut_found hr).1
  obtain ⟨hi, _, _⟩ := findChannelMut_eq_some.mp hr
  obtain rfl : i = 0 := Fin.ext hi
  unfold State.channel State.setPeer at hin
  dsimp only at hin
  rw [put_self] at hin
  unfold PeerState.zero at hin
  dsimp only at hin
  rw [get_replicate] at hin
  exact absurd hin (by decide)

theorem stateSetReliableConfig_spec {state : State} {p c : U8} {channel : ChannelState}
    (h : channelAt state p c = some channel) (hm : channel.mode = modeReliable)
    (cfg : ReliableConfig) :
    ∃ channel' state', Rewrites state p c channel channel' state' ∧ channel'.mode = modeReliable
      ∧ channel'.reliable = reliableInit (some cfg)
      ∧ channel'.rxQueue = Vector.replicate rxQueueSize ⟨false, 0#16⟩
      ∧ stateSetReliableConfig state p c cfg = ⟨.ok, state', ()⟩ := by
  obtain ⟨r, hr, rfl⟩ := channelAt_eq_some.mp h
  unfold stateSetReliableConfig
  rw [hr]
  dsimp only
  rw [if_neg (by simp [hm])]
  exact ⟨{ state.channel r with
      reliable := reliableInit (some cfg)
      hasInflight := false
      txQueue := Vector.replicate txQueueSize ⟨false, 0#16⟩
      rxQueue := Vector.replicate rxQueueSize ⟨false, 0#16⟩ },
    _, ⟨r, hr, rfl, rfl, rfl, rfl⟩, hm, rfl, rfl, rfl⟩

theorem stateConfigureHeartbeat_channelAt (state : State) (p : U8) (interval : U16) (miss : U8) :
    channelAt (stateConfigureHeartbeat state p interval miss).st = channelAt state := by
  unfold stateConfigureHeartbeat
  split
  · dsimp only
    split
    · rfl
    · exact channelAt_setPeer rfl rfl
  · rfl

/-- The configuration names a channel that can be opened. -/
def Config.Opens (cfg : Config) : Prop :=
  modeSupported cfg.mode = true ∧ cfg.channelId ≠ heartbeatChannel

instance (cfg : Config) : Decidable cfg.Opens :=
  inferInstanceAs (Decidable (modeSupported cfg.mode = true ∧ cfg.channelId ≠ heartbeatChannel))

theorem stateOpenChannel_supported {state : State} {p c mode priority : U8}
    (h : (stateOpenChannel state p c mode priority).rc = .ok) :
    modeSupported mode = true ∧ c ≠ heartbeatChannel := by
  unfold stateOpenChannel at h
  split at h
  · split at h
    · exact absurd h (by simp)
    · rename_i hmode
      split at h
      · exact absurd h (by simp)
      · rename_i hhb
        exact ⟨by simpa using hmode, by simpa using hhb⟩
  · exact absurd h (by simp)

/-- A peer just added has room for its first channel. -/
theorem stateOpenChannel_first (mac : Mac) {c mode : U8} (hmode : modeSupported mode = true)
    (hhb : c ≠ heartbeatChannel) :
    (stateOpenChannel (stateInit.setPeer 0 { PeerState.zero with inUse := true, mac := mac }) 0#8
      c mode 0#8).rc = .ok := by
  have hpeer : (stateInit.setPeer 0 { PeerState.zero with inUse := true, mac := mac }).peers[
      (⟨(0#8 : U8).toNat, by decide⟩ : Fin maxPeers)]
      = { PeerState.zero with inUse := true, mac := mac } := put_self stateInit.peers 0 _
  have hzero : ∀ i : Fin maxChannelsPerPeer, PeerState.zero.channels[i] = ChannelState.zero := by
    intro i
    unfold PeerState.zero
    rw [get_replicate]
  have hfind : findChannelIdx { PeerState.zero with inUse := true, mac := mac } c = none :=
    firstIdx_eq_none.mpr fun i => by rw [hzero]; rfl
  have hfree : firstIdx (fun ch => !ch.inUse) PeerState.zero.channels = some 0 :=
    firstIdx_eq_some.mpr ⟨by rw [hzero]; rfl, fun j hj => absurd hj (Fin.not_lt_zero j)⟩
  unfold stateOpenChannel
  rw [dif_pos (by decide), if_neg (by simp [hmode]), if_neg (by simpa using hhb)]
  dsimp only
  rw [hpeer, if_neg (by simp), hfind]
  dsimp only
  rw [hfree]

/-- An open channel is on a peer in use, whose heartbeat can be set. -/
theorem stateConfigureHeartbeat_ok {state : State} {p c : U8} {channel : ChannelState}
    (h : channelAt state p c = some channel) (interval : U16) (miss : U8) :
    (stateConfigureHeartbeat state p interval miss).rc = .ok := by
  obtain ⟨⟨i, j⟩, hr, -⟩ := channelAt_eq_some.mp h
  obtain ⟨hi, hu, -⟩ := findChannelMut_eq_some.mp hr
  dsimp only at hi hu
  have hp : p.toNat < maxPeers := hi ▸ i.isLt
  obtain rfl : i = ⟨p.toNat, hp⟩ := Fin.ext hi
  unfold stateConfigureHeartbeat
  rw [dif_pos hp]
  dsimp only
  rw [if_neg (by rw [hu]; simp)]

/-- The node a successful initialisation leaves, over the state tables it has built. -/
def Node.configured (cfg : Config) (state : State) : Node :=
  { Node.zero with
    state := state
    peerIndex := 0#8
    peerMac := cfg.peerMac
    channelId := cfg.channelId
    maxPayload := cfg.maxPayload
    fragmentTimeoutMs := cfg.fragmentTimeoutMs
    onMessage := cfg.onMessage
    onTxEvent := cfg.onTxEvent
    onPeerTimeout := cfg.onPeerTimeout }

@[simp] theorem configured_txCache (cfg : Config) (state : State) (i : Fin maxPending) :
    (Node.configured cfg state).txCache[i] = ⟨false, 0#16, 0#8, []⟩ := by
  simp [Node.configured, Node.zero]

@[simp] theorem configured_rxCache (cfg : Config) (state : State) (i : Fin rxCacheSize) :
    (Node.configured cfg state).rxCache[i] = ⟨false, 0#16, 0#8, []⟩ := by
  simp [Node.configured, Node.zero]

/-- **How an initialisation ends.** The argument check leaves the node alone. A channel that cannot
be opened leaves it cleared, with its peer; any other leads to the end. -/
theorem init_cases (node : Node) (cfg : Config) :
    init node cfg = (.invalidArg, node)
    ∨ (¬ cfg.Opens ∧ ∃ state, init node cfg = (.fail, { Node.zero with state := state }))
    ∨ (cfg.Opens ∧ 0 < cfg.maxPayload.toNat ∧ cfg.maxPayload.toNat ≤ maxPayloadLimit
      ∧ ∃ state channel, init node cfg = (.ok, Node.configured cfg state)
        ∧ channel.mode = cfg.mode
        ∧ (cfg.mode = modeReliable → channel.reliable = reliableInit (some cfg.reliableCfg)
            ∧ channel.rxQueue = Vector.replicate rxQueueSize ⟨false, 0#16⟩)
        ∧ channelAt state 0#8
            = Function.update (fun _ => none) cfg.channelId (some channel)) := by
  unfold init
  split
  · exact Or.inl rfl
  · rename_i hpay
    rw [Bool.or_eq_true, decide_eq_true_iff, not_or, Nat.not_lt, beq_iff_eq] at hpay
    have hpos : 0 < cfg.maxPayload.toNat := by
      rcases Nat.eq_zero_or_pos cfg.maxPayload.toNat with h0 | h0
      · exact absurd (BitVec.eq_of_toNat_eq h0) hpay.1
      · exact h0
    rw [stateAddPeer_init]
    dsimp only
    rw [if_neg (by simp)]
    have hempty := channelAt_addPeer cfg.peerMac
    right
    rcases stateOpenChannel_cases
      (stateInit.setPeer 0 { PeerState.zero with inUse := true, mac := cfg.peerMac }) 0#8
      cfg.channelId cfg.mode 0#8 with
      ⟨hrc, _⟩ | ⟨a, s, hrw, _⟩ | ⟨a, s, _, _, hmode, hfresh, hat, heq⟩
    · rw [if_pos (by simpa using hrc)]
      exact Or.inl ⟨fun h => hrc (stateOpenChannel_first cfg.peerMac h.1 h.2), _, rfl⟩
    · have := hrw.before
      rw [hempty] at this
      exact absurd this (by simp)
    · have hopens : cfg.Opens := stateOpenChannel_supported (by rw [heq])
      rw [heq, if_neg (by simp)]
      have hopen : channelAt s 0#8 = Function.update (fun _ => none) cfg.channelId (some a) := by
        rw [hat, show channelAt _ 0#8 = fun _ => none from funext hempty]
      -- the channel as the configuration step leaves it
      obtain ⟨b, s', hb, hbr, hs', hcfg⟩ : ∃ b s', b.mode = cfg.mode
          ∧ (cfg.mode = modeReliable → b.reliable = reliableInit (some cfg.reliableCfg)
            ∧ b.rxQueue = Vector.replicate rxQueueSize ⟨false, 0#16⟩)
          ∧ channelAt s' 0#8 = Function.update (fun _ => none) cfg.channelId (some b)
          ∧ (if cfg.mode == modeReliable then
              stateSetReliableConfig s 0#8 cfg.channelId cfg.reliableCfg else ⟨.ok, s, ()⟩)
            = ⟨.ok, s', ()⟩ := by
        by_cases hm : cfg.mode = modeReliable
        · obtain ⟨b, s', hrw, hbm, hbr, hbq, hset⟩ := stateSetReliableConfig_spec
            (by rw [hopen, Function.update_self]) (hmode.trans hm) cfg.reliableCfg
          refine ⟨b, s', hbm.trans hm.symm, fun _ => ⟨hbr, hbq⟩, ?_, ?_⟩
          · rw [hrw.after, hopen, Function.update_idem]
          · rw [if_pos (by simp [hm])]
            exact hset
        · exact ⟨a, s, hmode, fun h => absurd h hm, hopen, if_neg (by simpa using hm)⟩
      dsimp only
      rw [hcfg]
      dsimp only
      have hbeat : (stateConfigureHeartbeat s' 0#8 cfg.heartbeatIntervalMs
          cfg.heartbeatMissCountMax).rc = .ok :=
        stateConfigureHeartbeat_ok (show channelAt s' 0#8 cfg.channelId = some b by
          rw [hs', Function.update_self]) _ _
      rw [if_neg (by simp), if_neg (by simp [hbeat])]
      refine Or.inr ⟨hopens, hpos, hpay.2, _, b, rfl, hb, hbr, ?_⟩
      rw [stateConfigureHeartbeat_channelAt, hs']

/-- **A node that was initialised successfully** has one channel, and nothing else going on. -/
theorem init_ok {node node' : Node} {cfg : Config} (h : init node cfg = (.ok, node')) :
    ∃ state channel, node' = Node.configured cfg state
      ∧ 0 < cfg.maxPayload.toNat ∧ cfg.maxPayload.toNat ≤ maxPayloadLimit
      ∧ cfg.channelId ≠ heartbeatChannel
      ∧ channel.mode = cfg.mode
      ∧ (cfg.mode = modeReliable → channel.reliable = reliableInit (some cfg.reliableCfg)
          ∧ channel.rxQueue = Vector.replicate rxQueueSize ⟨false, 0#16⟩)
      ∧ channelAt state 0#8
          = Function.update (fun _ => none) cfg.channelId (some channel) := by
  rcases init_cases node cfg with heq | ⟨_, _, heq⟩ |
    ⟨hopens, hpos, hmax, state, channel, heq, hrest⟩
  · rw [heq] at h
    exact absurd (Prod.ext_iff.mp h).1 (by simp)
  · rw [heq] at h
    exact absurd (Prod.ext_iff.mp h).1 (by simp)
  · rw [heq] at h
    exact ⟨state, channel, (Prod.ext_iff.mp h).2.symm, hpos, hmax, hopens.2, hrest⟩

/-- A reliable channel of a node just initialised is the configured one, and is idle. -/
theorem init_reliableAt {node node' : Node} {cfg : Config} (h : init node cfg = (.ok, node'))
    {c : U8} {channel : ChannelState} (hc : node'.reliableAt c = some channel) :
    c = cfg.channelId ∧ channel.reliable = reliableInit (some cfg.reliableCfg)
      ∧ channel.rxQueue = Vector.replicate rxQueueSize ⟨false, 0#16⟩ := by
  obtain ⟨state, ch, rfl, _, _, _, hmode, hctx, hopen⟩ := init_ok h
  obtain ⟨hat, hm⟩ := Node.reliableAt_channelAt hc
  change channelAt state 0#8 c = some channel at hat
  rw [hopen] at hat
  by_cases hcc : c = cfg.channelId
  · rw [hcc, Function.update_self] at hat
    obtain rfl := Option.some.inj hat
    exact ⟨hcc, hctx (hmode.symm.trans hm)⟩
  · rw [Function.update_of_ne hcc] at hat
    exact absurd hat (by simp)

end Relinow
