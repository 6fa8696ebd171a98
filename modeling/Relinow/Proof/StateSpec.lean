import Relinow.State
import Relinow.Proof.Engine

/-!
# The state layer as a map from channel ids to channels

Seen from above, a peer is a partial map from channel ids to channels:
`channelAt`. Every operation finds one channel by its id and replaces it, so on
the map it is an update at one point: `Rewrites`.

Lookups after an update find the same place, because no update changes whether a
channel is in use or what it is called.
-/

namespace Relinow

open SlotTable

/-! ## Places -/

theorem channel_setChannel (state : State) (r : ChannelRef) (channel : ChannelState) :
    (state.setChannel r channel).channel r = channel := by
  unfold State.setChannel State.setPeer State.channel
  dsimp only
  rw [put_self, put_self]

theorem channel_setChannel_ne {state : State} {r r' : ChannelRef} {channel : ChannelState}
    (h : r ≠ r') : (state.setChannel r channel).channel r' = state.channel r' := by
  obtain ⟨i, j⟩ := r
  obtain ⟨i', j'⟩ := r'
  unfold State.setChannel State.setPeer State.channel
  dsimp only
  rw [get_put]
  by_cases hp : i = i'
  · subst hp
    rw [if_pos rfl]
    dsimp only
    rw [put_ne (fun hc => h (Prod.ext rfl hc))]
  · rw [if_neg hp]

theorem setChannel_setChannel (state : State) (r : ChannelRef) (a b : ChannelState) :
    (state.setChannel r a).setChannel r b = state.setChannel r b := by
  unfold State.setChannel State.setPeer
  dsimp only
  rw [put_self, put_put]
  dsimp only
  rw [put_put]

theorem setChannel_channel (state : State) (r : ChannelRef) :
    state.setChannel r (state.channel r) = state := by
  unfold State.setChannel State.setPeer State.channel
  dsimp only
  rw [put_get, put_get]

/-- The peer of a written channel, but for its channels. -/
theorem setChannel_peer (state : State) (r : ChannelRef) (channel : ChannelState)
    (p : Fin maxPeers) :
    (state.setChannel r channel).peers[p] =
      { state.peers[p] with channels := (state.setChannel r channel).peers[p].channels } := by
  obtain ⟨i, j⟩ := r
  unfold State.setChannel State.setPeer
  dsimp only
  rw [get_put]
  by_cases hp : i = p
  · subst hp
    rw [if_pos rfl]
  · rw [if_neg hp]

/-! ## Lookups -/

theorem findChannelMut_eq_some {state : State} {p c : U8} {r : ChannelRef} :
    findChannelMut state p c = some r ↔
      r.1.val = p.toNat ∧ state.peers[r.1].inUse = true
        ∧ findChannelIdx state.peers[r.1] c = some r.2 := by
  obtain ⟨i, j⟩ := r
  unfold findChannelMut
  by_cases hp : p.toNat < maxPeers
  · rw [dif_pos hp, show i.val = p.toNat ↔ i = ⟨p.toNat, hp⟩ by rw [Fin.ext_iff]]
    dsimp only
    by_cases hu : state.peers[p.toNat].inUse = true
    · rw [if_pos hu]
      cases hf : findChannelIdx state.peers[p.toNat] c with
      | none =>
          refine ⟨fun h => absurd h (by simp), ?_⟩
          rintro ⟨rfl, _, hi⟩
          exact absurd (hf.symm.trans hi) (by simp)
      | some k =>
          rw [Option.some.injEq, Prod.mk.injEq]
          constructor
          · rintro ⟨rfl, rfl⟩
            exact ⟨rfl, hu, hf⟩
          · rintro ⟨rfl, _, hi⟩
            exact ⟨rfl, Option.some.inj (hf.symm.trans hi)⟩
    · rw [if_neg hu]
      refine ⟨fun h => absurd h (by simp), ?_⟩
      rintro ⟨rfl, hi, _⟩
      exact absurd hi hu
  · rw [dif_neg hp]
    refine ⟨fun h => absurd h (by simp), ?_⟩
    rintro ⟨hr, _⟩
    have := i.isLt
    omega

/-- What a lookup finds is in use, under the id it was looked up by. -/
theorem findChannelMut_found {state : State} {p c : U8} {r : ChannelRef}
    (h : findChannelMut state p c = some r) :
    (state.channel r).inUse = true ∧ (state.channel r).channelId = c := by
  obtain ⟨_, _, hi⟩ := findChannelMut_eq_some.mp h
  exact keyIdx_some ChannelState.inUse ChannelState.channelId hi

/-- Two peers whose channels are called alike, and are in use alike, are scanned alike. -/
theorem findChannelMut_congr {state state' : State} {p c : U8}
    (hu : ∀ i : Fin maxPeers, state'.peers[i].inUse = state.peers[i].inUse)
    (hn : ∀ r : ChannelRef, (state'.channel r).inUse = (state.channel r).inUse
      ∧ (state'.channel r).channelId = (state.channel r).channelId) :
    findChannelMut state' p c = findChannelMut state p c := by
  apply Option.ext
  intro r
  rw [findChannelMut_eq_some, findChannelMut_eq_some, hu r.1]
  have hscan : findChannelIdx state'.peers[r.1] c = findChannelIdx state.peers[r.1] c := by
    unfold findChannelIdx
    refine firstIdx_congr fun i => ?_
    obtain ⟨h1, h2⟩ := hn (r.1, i)
    unfold State.channel at h1 h2
    rw [h1, h2]
  rw [hscan]

/-- An update that keeps a channel's name and use does not move any channel. -/
theorem findChannelMut_setChannel {state : State} {r : ChannelRef} {channel : ChannelState}
    (hu : channel.inUse = (state.channel r).inUse)
    (hc : channel.channelId = (state.channel r).channelId) (p c : U8) :
    findChannelMut (state.setChannel r channel) p c = findChannelMut state p c := by
  refine findChannelMut_congr (fun i => ?_) (fun r' => ?_)
  · rw [setChannel_peer]
  · by_cases hr : r = r'
    · subst hr
      rw [channel_setChannel]
      exact ⟨hu, hc⟩
    · rw [channel_setChannel_ne hr]
      exact ⟨rfl, rfl⟩

/-! ## The map -/

/-- The channel of peer `p` that is open under the id `c`. -/
def channelAt (state : State) (p c : U8) : Option ChannelState :=
  (findChannelMut state p c).map state.channel

theorem channelAt_eq_some {state : State} {p c : U8} {channel : ChannelState} :
    channelAt state p c = some channel ↔
      ∃ r, findChannelMut state p c = some r ∧ state.channel r = channel := by
  unfold channelAt
  rw [Option.map_eq_some_iff]

theorem channelAt_eq_none {state : State} {p c : U8} :
    channelAt state p c = none ↔ findChannelMut state p c = none := by
  unfold channelAt
  rw [Option.map_eq_none_iff]

/-- Nothing is open under an id when the scan of the peer finds nothing. -/
theorem channelAt_none_scan {state : State} {p c : U8} {i : Fin maxPeers} (hi : i.val = p.toNat)
    (hu : state.peers[i].inUse = true) :
    channelAt state p c = none ↔ findChannelIdx state.peers[i] c = none := by
  rw [channelAt_eq_none, Option.eq_none_iff_forall_ne_some, Option.eq_none_iff_forall_ne_some]
  constructor
  · intro h k hk
    exact h (i, k) (findChannelMut_eq_some.mpr ⟨hi, hu, hk⟩)
  · rintro h ⟨i', k⟩ hr
    obtain ⟨hi', _, hk⟩ := findChannelMut_eq_some.mp hr
    obtain rfl : i' = i := Fin.ext (hi'.trans hi.symm)
    exact h k hk

/-- **Writing a channel in place updates the map at its id.** -/
theorem channelAt_setChannel {state : State} {p c : U8} {r : ChannelRef} {channel : ChannelState}
    (h : findChannelMut state p c = some r)
    (hu : channel.inUse = (state.channel r).inUse)
    (hc : channel.channelId = (state.channel r).channelId) :
    channelAt (state.setChannel r channel) p
      = Function.update (channelAt state p) c (some channel) := by
  funext c'
  unfold channelAt
  rw [findChannelMut_setChannel hu hc]
  by_cases hcc : c' = c
  · subst hcc
    rw [Function.update_self, h, Option.map_some, channel_setChannel]
  · rw [Function.update_of_ne hcc]
    cases h' : findChannelMut state p c' with
    | none => rfl
    | some r' =>
        rw [Option.map_some, Option.map_some, channel_setChannel_ne]
        rintro rfl
        exact hcc ((findChannelMut_found h').2.symm.trans (findChannelMut_found h).2)

/-- The map does not see what a peer keeps beside its channels. -/
theorem channelAt_setPeer {state : State} {i : Fin maxPeers} {peer : PeerState}
    (hu : peer.inUse = state.peers[i].inUse) (hc : peer.channels = state.peers[i].channels) :
    channelAt (state.setPeer i peer) = channelAt state := by
  have hch : (state.setPeer i peer).channel = state.channel := by
    funext r
    obtain ⟨j, k⟩ := r
    unfold State.channel State.setPeer
    dsimp only
    rw [get_put]
    by_cases hj : i = j
    · subst hj
      rw [if_pos rfl, hc]
    · rw [if_neg hj]
  funext p c
  unfold channelAt
  rw [hch, @findChannelMut_congr state _ p c]
  · intro j
    unfold State.setPeer
    dsimp only
    rw [get_put]
    by_cases hj : i = j
    · subst hj
      rw [if_pos rfl, hu]
    · rw [if_neg hj]
  · intro r
    rw [hch]
    exact ⟨rfl, rfl⟩

theorem stateGetChannelMode_ok {state : State} {p c mode : U8}
    (h : stateGetChannelMode state p c = .ok mode) :
    ∃ channel, channelAt state p c = some channel ∧ channel.mode = mode := by
  unfold stateGetChannelMode lookupChannel at h
  by_cases hp : p.toNat < maxPeers
  · rw [dif_pos hp] at h
    dsimp only at h
    by_cases hu : state.peers[p.toNat].inUse = true
    · rw [if_neg (by simpa using hu)] at h
      cases hf : findChannelIdx state.peers[p.toNat] c with
      | none =>
          rw [hf] at h
          exact absurd h (by simp)
      | some j =>
          rw [hf] at h
          exact ⟨_, channelAt_eq_some.mpr
            ⟨(⟨p.toNat, hp⟩, j), findChannelMut_eq_some.mpr ⟨rfl, hu, hf⟩, rfl⟩, Except.ok.inj h⟩
    · rw [if_pos (by simpa using hu)] at h
      exact absurd h (by simp)
  · rw [dif_neg hp] at h
    exact absurd h (by simp)

theorem stateGetChannelMode_channelAt {state : State} {p c : U8} {channel : ChannelState}
    (h : channelAt state p c = some channel) :
    stateGetChannelMode state p c = .ok channel.mode := by
  obtain ⟨⟨i, j⟩, hr, rfl⟩ := channelAt_eq_some.mp h
  obtain ⟨hi, hu, hf⟩ := findChannelMut_eq_some.mp hr
  dsimp only at hi hu hf
  have hp : p.toNat < maxPeers := hi ▸ i.isLt
  obtain rfl : i = ⟨p.toNat, hp⟩ := Fin.ext hi
  unfold stateGetChannelMode lookupChannel
  rw [dif_pos hp]
  dsimp only
  have hu' : state.peers[p.toNat].inUse = true := hu
  have hf' : findChannelIdx state.peers[p.toNat] c = some j := hf
  rw [if_neg (by rw [hu']; decide), hf']
  rfl

/-! ## Rewriting one channel -/

/-- `state'` is `state` with the channel open under `c` rewritten in place. -/
def Rewrites (state : State) (p c : U8) (channel channel' : ChannelState) (state' : State) :
    Prop :=
  ∃ r, findChannelMut state p c = some r ∧ state.channel r = channel
    ∧ channel'.inUse = channel.inUse ∧ channel'.channelId = channel.channelId
    ∧ state' = state.setChannel r channel'

theorem Rewrites.before {state state' : State} {p c : U8} {a b : ChannelState}
    (h : Rewrites state p c a b state') : channelAt state p c = some a := by
  obtain ⟨r, hr, ha, _⟩ := h
  exact channelAt_eq_some.mpr ⟨r, hr, ha⟩

theorem Rewrites.after {state state' : State} {p c : U8} {a b : ChannelState}
    (h : Rewrites state p c a b state') :
    channelAt state' p = Function.update (channelAt state p) c (some b) := by
  obtain ⟨r, hr, rfl, hu, hc, rfl⟩ := h
  exact channelAt_setChannel hr hu hc

/-! ## Opening a channel -/

/-- A channel slot as `relinow_state_open_channel` fills it. -/
def openedChannel (channelId mode priority : U8) : ChannelState :=
  { ChannelState.zero with
    inUse := true, channelId := channelId, mode := mode, priority := priority
    reliable := if mode == modeReliable then reliableInit none else ReliableCtx.zero }

/-- **Opening a channel**, slot by slot: it is refused, or changes the priority of the channel
that is found under the id, or fills a free slot. -/
theorem stateOpenChannel_places (state : State) (p c mode priority : U8) :
    ((stateOpenChannel state p c mode priority).rc ≠ .ok
        ∧ (stateOpenChannel state p c mode priority).st = state)
    ∨ (∃ r, findChannelMut state p c = some r ∧ (state.channel r).mode = mode
        ∧ stateOpenChannel state p c mode priority =
            ⟨.ok, state.setChannel r { state.channel r with priority := priority }, ()⟩)
    ∨ ∃ r : ChannelRef, r.1.val = p.toNat ∧ state.peers[r.1].inUse = true
        ∧ findChannelIdx state.peers[r.1] c = none ∧ (state.channel r).inUse = false
        ∧ modeSupported mode = true ∧ c ≠ heartbeatChannel
        ∧ stateOpenChannel state p c mode priority =
            ⟨.ok, state.setChannel r (openedChannel c mode priority), ()⟩ := by
  unfold stateOpenChannel
  by_cases hp : p.toNat < maxPeers
  · rw [dif_pos hp]
    split
    · exact Or.inl ⟨by simp, rfl⟩
    · rename_i hmode
      rw [Bool.not_eq_true', Bool.not_eq_false] at hmode
      split
      · exact Or.inl ⟨by simp, rfl⟩
      · rename_i hhb
        rw [beq_iff_eq] at hhb
        dsimp only
        split
        · exact Or.inl ⟨by simp, rfl⟩
        · rename_i hu
          rw [Bool.not_eq_true', Bool.not_eq_false] at hu
          -- an id that is taken keeps its channel, if the modes agree
          cases hf : findChannelIdx state.peers[p.toNat] c with
          | some j =>
              have hr : findChannelMut state p c = some (⟨p.toNat, hp⟩, j) :=
                findChannelMut_eq_some.mpr ⟨rfl, hu, hf⟩
              dsimp only
              split
              · exact Or.inl ⟨by simp, rfl⟩
              · rename_i hm
                rw [Bool.not_eq_true, bne_eq_false_iff_eq] at hm
                exact Or.inr (Or.inl ⟨_, hr, hm, rfl⟩)
          | none =>
              dsimp only
              cases hfree : firstIdx (fun ch => !ch.inUse) state.peers[p.toNat].channels with
              | none => exact Or.inl ⟨by simp, rfl⟩
              | some j =>
                  exact Or.inr (Or.inr ⟨(⟨p.toNat, hp⟩, j), rfl, hu, hf,
                    freeIdx_some ChannelState.inUse hfree, hmode, hhb, rfl⟩)
  · rw [dif_neg hp]
    exact Or.inl ⟨by simp, rfl⟩

/-! ## Room for what was delivered -/

/-- How many ids the receive queue of a channel can still take. -/
def rxRoom (channel : ChannelState) : Nat := free RxSlot.used channel.rxQueue

/-- The receive queue can take everything an arrival of `q` will deliver. -/
def HasRoom (channel : ChannelState) (q : U16) : Prop :=
  (deliverable channel.reliable q).length ≤ rxRoom channel

instance (channel : ChannelState) (q : U16) : Decidable (HasRoom channel q) :=
  inferInstanceAs (Decidable (_ ≤ _))

end Relinow
