import Relinow.Proof.Network
import Relinow.Proof.TransmitSide

/-!
# The fragments of a message

The fragment loop takes one piece of the payload after the other, gives it the
next id and sends it. It gets through if each piece finds a pending slot, a cache
entry and a radio that takes its frame. Then the frames carry the pieces in
order; otherwise the loop stops, with an error, after the last piece that was
given an id, and every id it gave stays in its slot.
-/

namespace Relinow

open SlotTable Pieces

/-! ## What the frames carry -/

/-- The flags of fragment `j` of `n`. -/
def fragmentFlags (n j : Nat) : U8 :=
  if j + 1 = n then flagFragment ||| flagLastFragment else flagFragment

theorem fragmentFlags_data (n j : Nat) : DataFlags (fragmentFlags n j) := by
  unfold fragmentFlags
  split
  · exact Or.inr (Or.inr rfl)
  · exact Or.inr (Or.inl rfl)

/-- The frames carry the parts of one message, under consecutive ids from `q` on. -/
structure FragmentsOf (c : U8) (q : U16) (parts frames : List (List U8)) : Prop where
  length : frames.length = parts.length
  frame : ∀ (j : Nat) (hf : j < frames.length) (hp : j < parts.length),
    FrameOf frames[j]
      (dataHeader c (fragmentFlags parts.length j) (q + BitVec.ofNat 16 j) parts[j]) parts[j]

theorem FragmentsOf.nil (c : U8) (q : U16) : FragmentsOf c q [] [] :=
  ⟨rfl, fun j hf _ => absurd hf (Nat.not_lt_zero j)⟩

theorem FragmentsOf.cons {c : U8} {q : U16} {part : List U8} {parts frames : List (List U8)}
    {frame : List U8} (h : FragmentsOf c (seqNext q) parts frames)
    (hframe : FrameOf frame (dataHeader c (fragmentFlags (parts.length + 1) 0) q part) part) :
    FragmentsOf c q (part :: parts) (frame :: frames) := by
  refine ⟨by rw [List.length_cons, List.length_cons, h.length], fun j hf hp => ?_⟩
  cases j with
  | zero =>
      rw [List.length_cons]
      simpa using hframe
  | succ j =>
      have hnext := h.frame j (Nat.lt_of_succ_lt_succ hf) (Nat.lt_of_succ_lt_succ hp)
      have hseq : q + BitVec.ofNat 16 (j + 1) = seqNext q + BitVec.ofNat 16 j := by
        unfold seqNext
        rw [Nat.add_comm, BitVec.ofNat_add, BitVec.add_assoc]
      have hflags :
          fragmentFlags (part :: parts).length (j + 1) = fragmentFlags parts.length j := by
        unfold fragmentFlags
        rw [List.length_cons]
        simp only [Nat.add_right_cancel_iff]
      rw [hseq, hflags]
      exact hnext

/-! ## Getting through -/

/-- There are slots, entries and a willing radio for `n` more frames on the channel. -/
structure Clears (radio : Radio) (k : Call) (channel : ChannelState) (n : Nat) : Prop where
  slots : n ≤ countFreePending channel
  entries : n ≤ countFreeTxCache k.node
  radio : ∀ i, i < n → radio (k.attempts + i) = none

theorem free_pending (channel : ChannelState) :
    (pendingSeqs channel.reliable).card + countFreePending channel = maxPending := by
  unfold pendingSeqs
  rw [card_keys]
  exact card_live_add_free Pending.inUse channel.reliable.pending

theorem Assigned.countFreePending {k k' : Call} {c : U8} {channel channel' : ChannelState}
    (h : Assigned k k' c channel channel') :
    countFreePending channel = Relinow.countFreePending channel' + 1 := by
  have hb := free_pending channel
  have ha := free_pending channel'
  rw [h.pending, Multiset.card_cons] at ha
  omega

theorem Placed.countFreeTxCache {k k' : Call} {c flags : U8} {track : Bool} {payload : List U8}
    {channel channel' : ChannelState} (h : Placed k k' c flags track payload channel channel') :
    countFreeTxCache k.node = Relinow.countFreeTxCache k'.node + 1 := by
  obtain ⟨i, hi, hset⟩ := h.cache
  unfold Relinow.countFreeTxCache
  rw [hset]
  exact free_fill TxCache.inUse hi rfl

/-- One frame that gets through leaves room for one fewer. -/
theorem Placed.clears {radio : Radio} {k k' : Call} {c flags : U8} {track : Bool}
    {payload : List U8} {channel channel' : ChannelState} {n : Nat}
    (h : Placed k k' c flags track payload channel channel')
    (hask : Asked radio k k'.attempts .done) :
    Clears radio k channel (n + 1) ↔ Clears radio k' channel' n := by
  have hslots := h.countFreePending
  have hentries := h.countFreeTxCache
  have hnone : radio k.attempts = none := by
    have hout := hask.out
    cases hr : radio k.attempts with
    | none => rfl
    | some code =>
        rw [hr] at hout
        exact absurd hout (by simp)
  constructor
  · -- one slot and one cache entry went into this frame, and one answer of the radio
    intro hc
    have hs := hc.slots
    have he := hc.entries
    refine ⟨by omega, by omega, fun i hi => ?_⟩
    rw [hask.attempts, Nat.add_assoc, Nat.add_comm 1 i]
    exact hc.radio (i + 1) (by omega)
  · intro hc
    have hs := hc.slots
    have he := hc.entries
    refine ⟨by omega, by omega, fun i hi => ?_⟩
    cases i with
    | zero => exact hnone
    | succ i =>
        have hr := hc.radio i (by omega)
        rwa [hask.attempts, Nat.add_assoc, Nat.add_comm 1 i] at hr

/-- **One packet gets through, or the call ends with an error.** With room for it, the first; and
an error leaves the id in its slot, unless there was no slot. -/
theorem transmitNew_fits (radio : Radio) (k : Call) {c flags : U8} (track : Bool)
    {payload : List U8} (now : U32) (h : Fits k.node c flags payload) {channel : ChannelState}
    (hch : k.node.reliableAt c = some channel) :
    (transmitNew radio k c flags track payload now = (.refused, k)
      ∧ countFreePending channel = 0)
    ∨ (∃ out k' channel', transmitNew radio k c flags track payload now = (out, k')
      ∧ Assigned k k' c channel channel' ∧ ¬ Clears radio k channel 1
      ∧ (out = .noSlot ∨ ∃ e, out = .radio e ∧ e ≠ .ok))
    ∨ ∃ k' channel' frame, transmitNew radio k c flags track payload now = (.done, k')
      ∧ Placed k k' c flags track payload channel channel'
      ∧ Asked radio k k'.attempts .done
      ∧ FrameOf frame (dataHeader c flags channel.reliable.nextTxSeq payload) payload
      ∧ k'.log = k.log ++ .assigned c channel.reliable.nextTxSeq flags payload ::
          .sent k.node.peerMac frame ::
            if k.node.onTxEvent then [.txEvent .new channel.reliable.nextTxSeq] else [] := by
  have hcases := transmitNew_tx radio k c flags track payload now h.flags.lt
  revert hcases
  generalize transmitNew radio k c flags track payload now = r
  obtain ⟨out, k'⟩ := r
  rintro (⟨heq, hfull⟩ | ⟨hout, hfull, -, -, ch, channel', ha⟩ | ⟨hout, ch, channel', hp, hans⟩)
  · have hfree := free_pending channel
    rw [hfull channel hch] at hfree
    exact Or.inl ⟨heq, by omega⟩
  · obtain rfl := Option.some.inj (hch.symm.trans ha.before)
    refine Or.inr (Or.inl ⟨out, k', channel', rfl, ha, fun hc => ?_, Or.inl hout⟩)
    -- no free cache entry, so not even one frame is clear to go
    have he := hc.entries
    have hnone : countFreeTxCache k.node = 0 := hfull
    omega
  · obtain rfl := Option.some.inj (hch.symm.trans hp.before)
    have hask := hans.asked h
    dsimp only at hask hout hans
    rcases hout with rfl | ⟨e, rfl, he⟩
    · obtain ⟨frame, hframe, hlog⟩ := hans.sent rfl
      exact Or.inr (Or.inr ⟨k', channel', frame, rfl, hp, hask, hframe, hlog⟩)
    · -- the radio refused the frame
      refine Or.inr (Or.inl ⟨_, k', channel', rfl, hp.toAssigned, fun hc => ?_,
        Or.inr ⟨e, rfl, he⟩⟩)
      have hout := hask.out
      rw [show radio k.attempts = none from hc.radio 0 Nat.one_pos] at hout
      exact absurd hout (by simp)

/-! ## The loop -/

theorem framesLeft_eq_one {len mp : Nat} (hmp : 0 < mp) (hlen : 0 < len) :
    framesLeft len mp = 1 ↔ len ≤ mp := by
  have hle : framesLeft len mp ≤ 1 ↔ len ≤ 1 * mp := count_le_iff hmp
  have hpos : 0 < framesLeft len mp := count_pos hmp hlen
  rw [Nat.one_mul] at hle
  omega

/-- One round of the loop, in terms of the pieces of the payload. -/
theorem sendFragments_succ (radio : Radio) (c : U8) (now : U32) (fuel : Nat) (k : Call)
    {remaining : List U8} (hne : remaining ≠ []) (hmp : 0 < k.node.maxPayload.toNat) :
    sendFragments radio c now (fuel + 1) k remaining
      = match transmitNew radio k c
            (fragmentFlags (framesLeft remaining.length k.node.maxPayload.toNat) 0) true
            (remaining.take k.node.maxPayload.toNat) now with
        | (.done, k') =>
            sendFragments radio c now fuel k' (remaining.drop k.node.maxPayload.toNat)
        | (.refused, k') => (.fail, k'.setNode (unlockEmpty k'.node))
        | (.noSlot, k') => (.noMem, k')
        | (.radio e, k') => (e, k') := by
  have hlen : 0 < remaining.length := List.length_pos_iff.mpr hne
  have hflags : (if remaining.length = min k.node.maxPayload.toNat remaining.length then
        flagFragment ||| flagLastFragment else flagFragment)
      = fragmentFlags (framesLeft remaining.length k.node.maxPayload.toNat) 0 := by
    have hone := framesLeft_eq_one hmp hlen
    unfold fragmentFlags
    by_cases hle : remaining.length ≤ k.node.maxPayload.toNat
    · rw [if_pos (by omega), if_pos (by omega)]
    · rw [if_neg (by omega), if_neg (by omega)]
  -- `min` is there for the last piece, where `take` and `drop` do not need it
  have htake : remaining.take (min k.node.maxPayload.toNat remaining.length)
      = remaining.take k.node.maxPayload.toNat :=
    List.take_eq_take_iff.mpr (by omega)
  have hdrop : remaining.drop (min k.node.maxPayload.toNat remaining.length)
      = remaining.drop k.node.maxPayload.toNat :=
    List.drop_eq_drop_iff.mpr (by omega)
  rw [sendFragments, if_neg (by simpa using hne)]
  dsimp only
  rw [hflags, htake, hdrop]
  generalize transmitNew radio k c _ true _ now = r
  obtain ⟨out, k'⟩ := r
  cases out <;> rfl

/-- The first piece of what is left fits. -/
theorem fits_piece {node : Node} {c : U8} (hc : c ≠ heartbeatChannel) (remaining : List U8)
    (n : Nat) : Fits node c (fragmentFlags n 0) (remaining.take node.maxPayload.toNat) :=
  ⟨hc, fragmentFlags_data n 0, List.length_take_le _ _⟩

theorem framesLeft_drop {remaining : List U8} {mp : Nat} (hmp : 0 < mp) (hne : remaining ≠ []) :
    framesLeft remaining.length mp = framesLeft (remaining.drop mp).length mp + 1 := by
  rw [framesLeft_sub hmp (List.length_pos_iff.mpr hne), List.length_drop]
  congr 2
  omega

/-- **With room and a willing radio the loop sends every piece.** -/
theorem sendFragments_clear (radio : Radio) {c : U8} (hc : c ≠ heartbeatChannel) (now : U32) :
    ∀ (fuel : Nat) (k : Call) (remaining : List U8) (channel : ChannelState),
      remaining.length ≤ fuel → 0 < k.node.maxPayload.toNat →
      k.node.reliableAt c = some channel →
      Clears radio k channel (framesLeft remaining.length k.node.maxPayload.toNat) →
      ∃ k' frames, sendFragments radio c now fuel k remaining = (.ok, k')
        ∧ sentFrames k'.log = sentFrames k.log ++ frames
        ∧ FragmentsOf c channel.reliable.nextTxSeq (pieces k.node.maxPayload.toNat remaining)
            frames := by
  intro fuel
  induction fuel with
  | zero =>
      intro k remaining channel hlen hmp _ _
      obtain rfl := List.eq_nil_of_length_eq_zero (Nat.le_zero.mp hlen)
      refine ⟨k, [], rfl, (List.append_nil _).symm, ?_⟩
      rw [pieces_nil hmp]
      exact FragmentsOf.nil _ _
  | succ fuel ih =>
      intro k remaining channel hlen hmp hch hclear
      by_cases hne : remaining = []
      · subst hne
        exact ⟨k, [], by rw [sendFragments]; rfl, (List.append_nil _).symm,
          by rw [pieces_nil hmp]; exact FragmentsOf.nil _ _⟩
      · have hframes := framesLeft_drop hmp hne
        rw [hframes] at hclear
        rw [sendFragments_succ radio c now fuel k hne hmp]
        rcases transmitNew_fits radio k true now
            (fits_piece hc remaining (framesLeft remaining.length k.node.maxPayload.toNat)) hch with
          ⟨_, hfull⟩ | ⟨_, _, _, _, _, hstuck, _⟩ |
          ⟨k₁, channel₁, frame, heq, hp, hask, hframe, hlog⟩
        · -- neither refusal is possible while there is room
          have hslots := hclear.slots
          omega
        · exact absurd ⟨Nat.le_of_add_left_le hclear.slots, Nat.le_of_add_left_le hclear.entries,
            fun i hi => hclear.radio i (by omega)⟩ hstuck
        · rw [heq]
          dsimp only
          -- the frame went out, and what is left is clear to go from here
          have hpos : 0 < remaining.length := List.length_pos_iff.mpr hne
          obtain ⟨k', frames, hsend, hsent, hfr⟩ := ih k₁ (remaining.drop k.node.maxPayload.toNat)
            channel₁ (by rw [List.length_drop]; omega) (by rw [hp.maxPayload]; exact hmp)
            (by rw [hp.after, Function.update_self])
            (by rw [hp.maxPayload]; exact (hp.clears hask).mp hclear)
          refine ⟨k', frame :: frames, hsend, ?_, ?_⟩
          · rw [hsent, hlog, sentFrames_append, List.append_assoc]
            refine congrArg _ ?_
            show frame :: sentFrames (if k.node.onTxEvent then _ else _) ++ frames = _
            split <;> rfl
          · rw [hp.maxPayload, hp.next] at hfr
            rw [pieces_cons hmp hne]
            refine hfr.cons ?_
            rw [length_pieces]
            rw [hframes] at hframe
            exact hframe

/-- **Without, it stops with an error**, and the ids it gave stay in their slots. -/
theorem sendFragments_stuck (radio : Radio) {c : U8} (hc : c ≠ heartbeatChannel) (now : U32) :
    ∀ (fuel : Nat) (k : Call) (remaining : List U8) (channel : ChannelState),
      remaining.length ≤ fuel → 0 < k.node.maxPayload.toNat →
      k.node.reliableAt c = some channel →
      ¬ Clears radio k channel (framesLeft remaining.length k.node.maxPayload.toNat) →
      (sendFragments radio c now fuel k remaining).1 ≠ .ok
        ∧ ∃ channel',
          (sendFragments radio c now fuel k remaining).2.node.reliableAt c = some channel'
          ∧ countFreePending channel' ≤ countFreePending channel
          ∧ (0 < countFreePending channel →
            countFreePending channel' < countFreePending channel) := by
  intro fuel
  induction fuel with
  | zero =>
      intro k remaining channel hlen hmp _ hstuck
      obtain rfl := List.eq_nil_of_length_eq_zero (Nat.le_zero.mp hlen)
      have hzero : framesLeft ([] : List U8).length k.node.maxPayload.toNat = 0 := count_zero hmp
      rw [hzero] at hstuck
      exact absurd ⟨Nat.zero_le _, Nat.zero_le _, fun i hi => absurd hi (Nat.not_lt_zero i)⟩ hstuck
  | succ fuel ih =>
      intro k remaining channel hlen hmp hch hstuck
      -- nothing left to send is never stuck
      have hne : remaining ≠ [] := by
        rintro rfl
        have hzero : framesLeft ([] : List U8).length k.node.maxPayload.toNat = 0 := count_zero hmp
        rw [hzero] at hstuck
        exact hstuck ⟨Nat.zero_le _, Nat.zero_le _, fun i hi => absurd hi (Nat.not_lt_zero i)⟩
      have hframes := framesLeft_drop hmp hne
      rw [sendFragments_succ radio c now fuel k hne hmp]
      rcases transmitNew_fits radio k true now
          (fits_piece hc remaining (framesLeft remaining.length k.node.maxPayload.toNat)) hch with
        ⟨heq, hfull⟩ | ⟨out, k₁, channel₁, heq, ha, -, hout⟩ |
        ⟨k₁, channel₁, frame, heq, hp, hask, -, -⟩
      · rw [heq]
        -- the engine refused, which takes a table without a free slot
        refine ⟨by simp, channel, ?_, Nat.le_refl _, by omega⟩
        show (unlockEmpty k.node).reliableAt c = _
        unfold unlockEmpty
        split <;> exact hch
      · -- an id was assigned, and its frame did not go out
        have hless := ha.countFreePending
        have hat : k₁.node.reliableAt c = some channel₁ := by rw [ha.after, Function.update_self]
        rw [heq]
        rcases hout with rfl | ⟨e, rfl, he⟩
        · exact ⟨by simp, channel₁, hat, by omega, by omega⟩
        · exact ⟨he, channel₁, hat, by omega, by omega⟩
      · have hless := hp.countFreePending
        have hpos : 0 < remaining.length := List.length_pos_iff.mpr hne
        rw [heq]
        dsimp only
        obtain ⟨hrc, channel', hat, hle, -⟩ := ih k₁ (remaining.drop k.node.maxPayload.toNat)
          channel₁ (by rw [List.length_drop]; omega) (by rw [hp.maxPayload]; exact hmp)
          (by rw [hp.after, Function.update_self])
          (by
            rw [hp.maxPayload]
            intro hc
            rw [hframes] at hstuck
            exact hstuck ((hp.clears hask).mpr hc))
        exact ⟨hrc, channel', hat, by omega, by omega⟩

/-! ## The whole send -/

/-- What `relinow_send_reliable` does once its first checks have passed. -/
theorem sendReliable_checked (radio : Radio) {node : Node} {c : U8} {payload : List U8} (now : U32)
    {channel : ChannelState} (hch : node.reliableAt c = some channel) (hne : payload ≠ [])
    (hact : node.fragmentedTxActive = false) (hmp : 0 < node.maxPayload.toNat) :
    sendReliable radio node c payload now
      = if node.maxPayload.toNat < payload.length then
          if maxPending < fragmentCount payload.length node.maxPayload.toNat
              ∨ countFreePending channel < fragmentCount payload.length node.maxPayload.toNat
              ∨ countFreeTxCache node < fragmentCount payload.length node.maxPayload.toNat then
            (.noMem, Call.start node)
          else
            sendFragments radio c now payload.length
              ((Call.start node).setNode
                { node with fragmentedTxActive := true, fragmentedTxSeq := [] }) payload
        else
          ((transmitNew radio (Call.start node) c 0#8 false payload now).1.rc,
            (transmitNew radio (Call.start node) c 0#8 false payload now).2) := by
  have h0 : ¬ node.maxPayload.toNat = 0 := by omega
  rw [sendReliable_eq, if_neg hne, hch]
  dsimp only
  rw [if_neg (by simp [hact]), if_neg h0]

/-- The frames carry the message: DATA of the channel, with consecutive ids from `q` on, whose
payloads are together the payload. -/
structure MessageFrames (node : Node) (c : U8) (q : U16) (payload : List U8)
    (frames : List (List U8)) : Prop where
  data : ∀ (j : Nat) (hj : j < frames.length), ∃ header,
    decodeHeader frames[j] node.maxPayload = .ok header ∧ header.mode = modeReliable
      ∧ header.type = typeData ∧ header.channelId = c ∧ header.seqId = q + BitVec.ofNat 16 j
  whole : (frames.map framePayload).flatten = payload

/-- A DATA frame that fits is read as it was sent. -/
theorem FrameOf.data_decodes {node : Node} {c flags : U8} {q : U16} {frame payload : List U8}
    (h : FrameOf frame (dataHeader c flags q payload) payload) (hfits : Fits node c flags payload) :
    decodeHeader frame node.maxPayload = .ok (dataHeader c flags q payload)
      ∧ framePayload frame = payload :=
  h.decodes (validate_dataHeader hfits.notHeartbeat hfits.flags hfits.length)

theorem FragmentsOf.message {node : Node} {c : U8} {q : U16} {payload : List U8}
    {frames : List (List U8)} (hc : c ≠ heartbeatChannel) (hmp : 0 < node.maxPayload.toNat)
    (h : FragmentsOf c q (pieces node.maxPayload.toNat payload) frames) :
    MessageFrames node c q payload frames := by
  have hread : ∀ (j : Nat) (hf : j < frames.length)
      (hp : j < (pieces node.maxPayload.toNat payload).length),
      decodeHeader frames[j] node.maxPayload = .ok (dataHeader c
          (fragmentFlags (pieces node.maxPayload.toNat payload).length j) (q + BitVec.ofNat 16 j)
          (pieces node.maxPayload.toNat payload)[j])
        ∧ framePayload frames[j] = (pieces node.maxPayload.toNat payload)[j] := fun j hf hp =>
    (h.frame j hf hp).data_decodes ⟨hc, fragmentFlags_data _ j,
      length_le_of_mem (List.getElem_mem hp)⟩
  refine ⟨fun j hj => ?_, ?_⟩
  · obtain ⟨hd, -⟩ := hread j hj (h.length ▸ hj)
    exact ⟨_, hd, rfl, rfl, rfl, rfl⟩
  · have hmap : frames.map framePayload = pieces node.maxPayload.toNat payload := by
      refine List.ext_getElem (by rw [List.length_map, h.length]) fun j hj hp => ?_
      rw [List.getElem_map]
      exact (hread j (by simpa using hj) hp).2
    rw [hmap, flatten_pieces hmp]

/-- **A send with room and a willing radio goes through whole.** -/
theorem sendReliable_clear (radio : Radio) {node : Node} {c : U8} (hc : c ≠ heartbeatChannel)
    {payload : List U8} (now : U32) {channel : ChannelState}
    (hch : node.reliableAt c = some channel) (hne : payload ≠ [])
    (hact : node.fragmentedTxActive = false) (hmp : 0 < node.maxPayload.toNat)
    (hclear : Clears radio (Call.start node) channel
      (framesLeft payload.length node.maxPayload.toNat)) :
    ∃ k frames, sendReliable radio node c payload now = (.ok, k) ∧ sentFrames k.log = frames
      ∧ frames.length = framesLeft payload.length node.maxPayload.toNat
      ∧ MessageFrames node c channel.reliable.nextTxSeq payload frames
      ∧ (node.maxPayload.toNat < payload.length →
        FragmentsOf c channel.reliable.nextTxSeq (pieces node.maxPayload.toNat payload)
          frames) := by
  have hpos : 0 < payload.length := List.length_pos_iff.mpr hne
  have hone := framesLeft_eq_one hmp hpos
  have hslots := hclear.slots
  have hentries := hclear.entries
  have hfree := free_pending channel
  have hmax : maxPending = 16 := rfl
  rw [sendReliable_checked radio now hch hne hact hmp]
  by_cases hlen : node.maxPayload.toNat < payload.length
  · -- as many frames as there are slots: no truncation to eight bits
    have hcount : fragmentCount payload.length node.maxPayload.toNat
        = framesLeft payload.length node.maxPayload.toNat :=
      Nat.mod_eq_of_lt (show framesLeft payload.length node.maxPayload.toNat < 2 ^ 8 by omega)
    have hadmitted : ¬ (maxPending < framesLeft payload.length node.maxPayload.toNat
        ∨ countFreePending channel < framesLeft payload.length node.maxPayload.toNat
        ∨ countFreeTxCache node < framesLeft payload.length node.maxPayload.toNat) := by
      have hentries' : framesLeft payload.length node.maxPayload.toNat ≤ countFreeTxCache node :=
        hentries
      omega
    rw [if_pos hlen, hcount, if_neg hadmitted]
    obtain ⟨k, frames, hsend, hsent, hfr⟩ := sendFragments_clear radio hc now payload.length
      ((Call.start node).setNode { node with fragmentedTxActive := true, fragmentedTxSeq := [] })
      payload channel (Nat.le_refl _) hmp hch ⟨hslots, hentries, hclear.radio⟩
    exact ⟨k, frames, hsend, hsent, by rw [hfr.length, length_pieces]; rfl, hfr.message hc hmp,
      fun _ => hfr⟩
  · -- one frame
    rw [if_neg hlen]
    have hframes : framesLeft payload.length node.maxPayload.toNat = 1 := hone.mpr (by omega)
    have hfits : Fits node c 0#8 payload := ⟨hc, Or.inl rfl, by omega⟩
    rw [hframes] at hclear hslots ⊢
    rcases transmitNew_fits radio (Call.start node) false now hfits hch with
      ⟨_, hfull⟩ | ⟨_, _, _, _, _, hstuck, _⟩ | ⟨k, channel', frame, heq, -, -, hframe, hlog⟩
    · omega
    · exact absurd hclear hstuck
    · rw [heq]
      obtain ⟨hd, hp⟩ := hframe.data_decodes hfits
      refine ⟨k, [frame], rfl, ?_, rfl, ⟨fun j hj => ?_, ?_⟩, fun h => absurd h hlen⟩
      · rw [hlog]
        show frame :: sentFrames (if node.onTxEvent then _ else _) = _
        split <;> rfl
      · obtain rfl : j = 0 := by simpa using hj
        exact ⟨_, hd, rfl, rfl, rfl, (BitVec.add_zero _).symm⟩
      · rw [List.map_singleton, List.flatten_singleton, hp]

/-- **A send that passes the checks without room or radio for all its frames** ends with an
error, and the ids it gave stay in their slots. -/
theorem sendReliable_stuck (radio : Radio) {node : Node} {c : U8} (hc : c ≠ heartbeatChannel)
    {payload : List U8} (now : U32) {channel : ChannelState}
    (hch : node.reliableAt c = some channel) (hne : payload ≠ [])
    (hact : node.fragmentedTxActive = false) (hmp : 0 < node.maxPayload.toNat)
    (hadmitted : node.maxPayload.toNat < payload.length →
      fragmentCount payload.length node.maxPayload.toNat ≤ maxPending
      ∧ fragmentCount payload.length node.maxPayload.toNat ≤ countFreePending channel
      ∧ fragmentCount payload.length node.maxPayload.toNat ≤ countFreeTxCache node)
    (hstuck : ¬ Clears radio (Call.start node) channel
      (framesLeft payload.length node.maxPayload.toNat)) :
    (sendReliable radio node c payload now).1 ≠ .ok
      ∧ (0 < countFreePending channel →
        ∃ channel', (sendReliable radio node c payload now).2.node.reliableAt c = some channel'
          ∧ countFreePending channel' < countFreePending channel) := by
  have hpos : 0 < payload.length := List.length_pos_iff.mpr hne
  rw [sendReliable_checked radio now hch hne hact hmp]
  by_cases hlen : node.maxPayload.toNat < payload.length
  · obtain ⟨h1, h2, h3⟩ := hadmitted hlen
    rw [if_pos hlen, if_neg (by omega)]
    obtain ⟨hrc, channel', hat, -, hless⟩ := sendFragments_stuck radio hc now payload.length
      ((Call.start node).setNode { node with fragmentedTxActive := true, fragmentedTxSeq := [] })
      payload channel (Nat.le_refl _) hmp hch
      (fun hclear => hstuck ⟨hclear.slots, hclear.entries, hclear.radio⟩)
    exact ⟨hrc, fun hfree => ⟨channel', hat, hless hfree⟩⟩
  · -- one frame, of which the engine, the cache or the radio makes nothing
    rw [if_neg hlen]
    have hframes : framesLeft payload.length node.maxPayload.toNat = 1 :=
      (framesLeft_eq_one hmp hpos).mpr (by omega)
    rw [hframes] at hstuck
    rcases transmitNew_fits radio (Call.start node) false now
        (show Fits node c 0#8 payload from ⟨hc, Or.inl rfl, by omega⟩) hch with
      ⟨heq, hfull⟩ | ⟨out, k, channel', heq, ha, -, hout⟩ |
      ⟨k, channel', frame, heq, hp, hask, -, -⟩
    · rw [heq]
      exact ⟨by simp [Transmit.rc], fun hfree => by omega⟩
    · rw [heq]
      have hless := ha.countFreePending
      have hat : k.node.reliableAt c = some channel' := by rw [ha.after, Function.update_self]
      refine ⟨?_, fun _ => ⟨channel', hat, by omega⟩⟩
      rcases hout with rfl | ⟨e, rfl, he⟩
      · simp [Transmit.rc]
      · exact he
    · exact absurd ((hp.clears hask).mpr
        ⟨Nat.zero_le _, Nat.zero_le _, fun i hi => absurd hi (Nat.not_lt_zero i)⟩) hstuck

end Relinow
