import Relinow.Proof.Fragments
import Relinow.Proof.FragmentLock

/-!
# Sixteen fragments

A message may have as many fragments as there are pending slots. The count is
taken in wide arithmetic and then kept in eight bits, so the check sees it modulo
256: a message of 256 fragments counts as none, passes, and is cut off after the
sixteenth, which is on the air by then.

So the limit holds for the messages whose count is above sixteen also when it is
taken modulo 256, and only for those.
-/

namespace Relinow

open SlotTable Pieces

/-- The node has nothing of any reliable message left to send or to be acknowledged. -/
structure Idle (node : Node) (c : U8) (channel : ChannelState) : Prop where
  at_channel : node.reliableAt c = some channel
  notHeartbeat : c ≠ heartbeatChannel
  maxPayload : 0 < node.maxPayload.toNat
  pending : ∀ i : Fin maxPending, channel.reliable.pending[i].inUse = false
  cache : ∀ i : Fin maxPending, node.txCache[i].inUse = false
  active : node.fragmentedTxActive = false
  tracked : node.fragmentedTxSeq = []

/-- What sending a payload with the radio up should come to: a message of more than sixteen
fragments is refused as it stands, and any other is sent whole. -/
def SendsOrRefuses (node : Node) (c : U8) (q : U16) (payload : List U8) (now : U32) : Prop :=
  (maxPending < framesLeft payload.length node.maxPayload.toNat →
    sendReliable Radio.up node c payload now = (.noMem, Call.start node))
  ∧ (framesLeft payload.length node.maxPayload.toNat ≤ maxPending →
    ∃ k frames, sendReliable Radio.up node c payload now = (.ok, k) ∧ sentFrames k.log = frames
      ∧ frames.length = framesLeft payload.length node.maxPayload.toNat
      ∧ MessageFrames node c q payload frames)

section Idle

variable {node : Node} {c : U8} {channel : ChannelState} {payload : List U8}

theorem Idle.slots (h : Idle node c channel) : countFreePending channel = maxPending :=
  free_of_none Pending.inUse h.pending

theorem Idle.entries (h : Idle node c channel) : countFreeTxCache node = maxPending :=
  free_of_none TxCache.inUse h.cache

/-- **Up to sixteen fragments an idle node sends.** -/
theorem Idle.sends (h : Idle node c channel) (hne : payload ≠ []) (now : U32)
    (hfew : framesLeft payload.length node.maxPayload.toNat ≤ maxPending) :
    SendsOrRefuses node c channel.reliable.nextTxSeq payload now := by
  refine ⟨fun hmany => absurd hmany (Nat.not_lt.mpr hfew), fun _ => ?_⟩
  have hclear : Clears Radio.up (Call.start node) channel
      (framesLeft payload.length node.maxPayload.toNat) :=
    ⟨hfew.trans h.slots.ge, hfew.trans h.entries.ge, fun _ _ => rfl⟩
  obtain ⟨k, frames, hsend, hsent, hcount, hfr, -⟩ := sendReliable_clear Radio.up h.notHeartbeat now
    h.at_channel hne h.active h.maxPayload hclear
  exact ⟨k, frames, hsend, hsent, hcount, hfr⟩

/-- A message of more than sixteen fragments does not fit in a frame. -/
theorem long_of_many (hne : payload ≠ []) (hmp : 0 < node.maxPayload.toNat)
    (hmany : maxPending < framesLeft payload.length node.maxPayload.toNat) :
    node.maxPayload.toNat < payload.length := by
  have hone := framesLeft_eq_one hmp (List.length_pos_iff.mpr hne)
  have hmax : maxPending = 16 := rfl
  omega

/-- **A count that is above sixteen in eight bits is refused.** -/
theorem Idle.refuses (h : Idle node c channel) (hne : payload ≠ []) (now : U32)
    (hmany : maxPending < framesLeft payload.length node.maxPayload.toNat)
    (hcount : maxPending < framesLeft payload.length node.maxPayload.toNat % 2 ^ 8) :
    SendsOrRefuses node c channel.reliable.nextTxSeq payload now := by
  refine ⟨fun _ => ?_, fun hfew => absurd hmany (Nat.not_lt.mpr hfew)⟩
  rw [sendReliable_checked Radio.up now h.at_channel hne h.active h.maxPayload,
    if_pos (long_of_many hne h.maxPayload hmany)]
  exact if_pos (Or.inl hcount)

/-- **A count that is not passes the check**, and the message is cut off. -/
theorem Idle.cutOff (h : Idle node c channel) (hne : payload ≠ []) (now : U32)
    (hmany : maxPending < framesLeft payload.length node.maxPayload.toNat)
    (hcount : framesLeft payload.length node.maxPayload.toNat % 2 ^ 8 ≤ maxPending) :
    ¬ SendsOrRefuses node c channel.reliable.nextTxSeq payload now := by
  have hslots := h.slots
  have hentries := h.entries
  have hadmitted : fragmentCount payload.length node.maxPayload.toNat ≤ maxPending := hcount
  obtain ⟨-, hleft⟩ := sendReliable_stuck Radio.up h.notHeartbeat now h.at_channel hne h.active
    h.maxPayload (fun _ => ⟨hadmitted, by omega, by omega⟩) (fun hclear => by
      have := hclear.slots
      omega)
  obtain ⟨channel', hat, hless⟩ := hleft (by rw [hslots]; decide)
  rintro ⟨hrefused, -⟩
  -- a refused node would still have its slots
  rw [hrefused hmany] at hat
  obtain rfl := Option.some.inj (h.at_channel.symm.trans hat)
  exact absurd hless (Nat.lt_irrefl _)

end Idle

/-- **The limit of sixteen fragments holds** exactly for the messages that keep to it and those
whose count is above sixteen also modulo 256. -/
theorem fragmentLimit {node : Node} {c : U8} {channel : ChannelState} (h : Idle node c channel)
    {payload : List U8} (hne : payload ≠ []) (now : U32) :
    SendsOrRefuses node c channel.reliable.nextTxSeq payload now ↔
      framesLeft payload.length node.maxPayload.toNat ≤ maxPending
      ∨ maxPending < framesLeft payload.length node.maxPayload.toNat % 2 ^ 8 := by
  rcases Nat.lt_or_ge maxPending (framesLeft payload.length node.maxPayload.toNat) with
    hmany | hfew
  · rcases Nat.lt_or_ge maxPending (framesLeft payload.length node.maxPayload.toNat % 2 ^ 8) with
      hcount | hcount
    · exact ⟨fun _ => Or.inr hcount, fun _ => h.refuses hne now hmany hcount⟩
    · refine ⟨fun hsends => absurd hsends (h.cutOff hne now hmany hcount), ?_⟩
      rintro (hfew | hbig)
      · omega
      · omega
  · exact ⟨fun _ => Or.inl hfew, fun _ => h.sends hne now hfew⟩

/-- The channel a node configured for one-byte fragments starts with. -/
def silentChannel : ChannelState := (silentNode.reliableAt 1#8).getD ChannelState.zero

theorem silentNode_idle : Idle silentNode 1#8 silentChannel where
  at_channel := by decide +kernel
  notHeartbeat := by decide
  maxPayload := by decide +kernel
  pending := by decide +kernel
  cache := by decide +kernel
  active := by decide +kernel
  tracked := by decide +kernel

theorem fragmentLimit_seventeen :
    SendsOrRefuses silentNode 1#8 silentChannel.reliable.nextTxSeq (List.replicate 17 0#8) 0#32 ↔
      framesLeft 17 1 ≤ maxPending ∨ maxPending < framesLeft 17 1 % 2 ^ 8 :=
  fragmentLimit silentNode_idle (by decide) 0#32

/-- **256 one-byte fragments pass for none.** -/
theorem fragmentLimit_not_kept :
    ¬ ∀ (node : Node) (c : U8) (channel : ChannelState), Idle node c channel →
      node.maxPayload.toNat ≤ maxPayloadLimit → ∀ (payload : List U8) (now : U32),
        0 < payload.length → payload.length < 2 ^ 16 →
        SendsOrRefuses node c channel.reliable.nextTxSeq payload now := by
  intro h
  have hlen : (List.replicate 256 0#8).length = 256 := List.length_replicate
  have hkept := h silentNode 1#8 silentChannel silentNode_idle (by decide +kernel)
    (List.replicate 256 0#8) 0#32 (by rw [hlen]; decide) (by rw [hlen]; decide)
  refine silentNode_idle.cutOff ?_ 0#32 ?_ ?_ hkept
  · exact List.ne_nil_of_length_eq_add_one hlen
  · rw [hlen]
    decide +kernel
  · rw [hlen]
    decide +kernel

end Relinow
