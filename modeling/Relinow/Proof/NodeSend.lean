import Relinow.Proof.NodeFrames

/-!
# What sending can do

A send is one packet, or one packet for each fragment, or it is refused; and each
packet is transmitted in the same way.
-/

namespace Relinow

open SlotTable

/-! ## One packet -/

/-- Tracking a fragment touches the list of tracked fragments only. -/
theorem fragmentTxTrack_frame (node : Node) (q : U16) :
    fragmentTxTrack node q = { node with
      fragmentedTxSeq := (fragmentTxTrack node q).fragmentedTxSeq
      fragmentedTxActive := (fragmentTxTrack node q).fragmentedTxActive } := by
  unfold fragmentTxTrack
  split <;> rfl

/-- Tracking a fragment, or not, touches the list of tracked fragments only. -/
theorem trackIf_frame (track : Bool) (node : Node) (q : U16) :
    (if track = true then fragmentTxTrack node q else node) = { node with
      fragmentedTxSeq := (if track = true then fragmentTxTrack node q else node).fragmentedTxSeq
      fragmentedTxActive :=
        (if track = true then fragmentTxTrack node q else node).fragmentedTxActive } := by
  split
  · exact fragmentTxTrack_frame _ _
  · rfl

/-- The frame of a new packet is sent and reported, or the radio refuses it. -/
theorem sendNew_cases (radio : Radio) (k : Call) (c flags : U8) (q : U16) (payload : List U8)
    (hflags : flags.toNat < 16) :
    ∃ out attempts rest,
      (if (sendFrame radio k modeReliable c typeData flags q 0#16 payload).1 ≠ .ok then
          (Transmit.radio (sendFrame radio k modeReliable c typeData flags q 0#16 payload).1,
            (sendFrame radio k modeReliable c typeData flags q 0#16 payload).2)
        else (Transmit.done, raiseTxEvent
          (sendFrame radio k modeReliable c typeData flags q 0#16 payload).2 .new q))
        = (out, { k with attempts := attempts, log := k.log ++ rest })
      ∧ ((∃ e, out = .radio e ∧ e ≠ .ok ∧ rest = [])
        ∨ (out = .done ∧ ∃ frame, FrameOf frame (dataHeader c flags q payload) payload
          ∧ rest = .sent k.node.peerMac frame ::
              if k.node.onTxEvent then [.txEvent .new q] else []))
      ∧ (Fits k.node c flags payload → Asked radio k attempts out) := by
  rcases sendFrame_cases radio k modeReliable c typeData flags q 0#16 payload hflags with
    ⟨e, attempts, he, heq⟩ | ⟨frame, attempts, hf, heq⟩
  · refine ⟨.radio e, attempts, [], ?_, Or.inl ⟨e, rfl, he, rfl⟩, fun hfits => ?_⟩
    · rw [heq, if_pos he, List.append_nil]
    · obtain ⟨hat, hout⟩ := sendFrame_asked hfits heq
      refine ⟨hat, ?_⟩
      cases hr : radio k.attempts with
      | none =>
          rw [hr] at hout
          exact absurd hout he
      | some code =>
          rw [hr] at hout
          rw [hout]
  · refine ⟨.done, attempts, _, ?_, Or.inr ⟨rfl, frame, hf, rfl⟩, fun hfits => ?_⟩
    · rw [heq, if_neg (by simp)]
      -- the frame went out, and the event is raised if there is a callback
      unfold raiseTxEvent
      dsimp only
      split
      · simp [Call.push]
      · rfl
    · obtain ⟨hat, hout⟩ := sendFrame_asked hfits heq
      refine ⟨hat, ?_⟩
      cases hr : radio k.attempts with
      | none => rfl
      | some code =>
          rw [hr] at hout
          exact absurd hout (by simp)

/-- **One frame on its way**: refused without effect; or given an id and left without a cache
entry; or given an id, cached, tracked if it is a fragment, and handed to the radio. -/
theorem transmitNew_cases (radio : Radio) (k : Call) (c flags : U8) (track : Bool)
    (payload : List U8) (now : U32) (hflags : flags.toNat < 16) :
    (transmitNew radio k c flags track payload now = (.refused, k)
      ∧ ∀ channel, k.node.reliableAt c = some channel →
        (pendingSeqs channel.reliable).card = maxPending)
    ∨ ∃ channel channel' state', k.node.reliableAt c = some channel
      ∧ channel' = { channel with
          reliable := { channel.reliable with
            pending := channel'.reliable.pending
            nextTxSeq := seqNext channel.reliable.nextTxSeq }
          hasInflight := channel'.hasInflight
          inflightSeq := channel'.inflightSeq
          txQueue := channel'.txQueue }
      ∧ pendingSeqs channel'.reliable =
          channel.reliable.nextTxSeq ::ₘ pendingSeqs channel.reliable
      ∧ Relinow.reliableAt state' k.node.peerIndex
          = Function.update k.node.reliableAt c (some channel')
      ∧ (∀ c, channelAt state' k.node.peerIndex c = none
          ↔ channelAt k.node.state k.node.peerIndex c = none)
      ∧ ((txCacheAlloc k.node = none
            ∧ transmitNew radio k c flags track payload now
              = (.noSlot, { k with
                  node := { k.node with state := state' }
                  log := k.log ++ [.assigned c channel.reliable.nextTxSeq flags payload] }))
        ∨ ∃ i node' attempts out rest, txCacheAlloc k.node = some i
          ∧ node' = { k.node with
              state := state'
              txCache := k.node.txCache.put i ⟨true, channel.reliable.nextTxSeq, flags, payload⟩ }
          ∧ transmitNew radio k c flags track payload now
            = (out, {
                node :=
                  if track then fragmentTxTrack node' channel.reliable.nextTxSeq else node'
                attempts := attempts
                log := k.log ++ .assigned c channel.reliable.nextTxSeq flags payload :: rest })
          ∧ ((∃ e, out = .radio e ∧ e ≠ .ok ∧ rest = [])
            ∨ (out = .done ∧ ∃ frame,
                FrameOf frame (dataHeader c flags channel.reliable.nextTxSeq payload) payload
                ∧ rest = .sent k.node.peerMac frame ::
                    if k.node.onTxEvent then [.txEvent .new channel.reliable.nextTxSeq]
                    else []))
          ∧ (Fits k.node c flags payload → Asked radio k attempts out)) := by
  unfold transmitNew
  rcases stateReliableSend_cases k.node.state k.node.peerIndex c now with
    ⟨hrc, hst, hfull⟩ | ⟨a, b, state', hrw, ha, hfr, hks, heq⟩
  · -- the engine has no slot left
    refine Or.inl ⟨?_, fun channel hch => ?_⟩
    · dsimp only
      rw [if_pos (by simp [hrc]), hst]
      rfl
    · obtain ⟨hat, hm⟩ := Node.reliableAt_channelAt hch
      exact hfull channel hat hm
  · right
    obtain ⟨h1, h2⟩ := hrw.reliable ha (by rw [hfr]; exact ha)
    refine ⟨a, b, state', h1, hfr, hks, h2, hrw.opened, ?_⟩
    rw [heq, if_neg (by simp)]
    dsimp only
    cases halloc : txCacheAlloc k.node with
    | none =>
        have halloc' : txCacheAlloc (((k.setNode { k.node with state := state' }).push
            (.assigned c a.reliable.nextTxSeq flags payload)).node) = none := halloc
        rw [halloc']
        exact Or.inl ⟨rfl, rfl⟩
    | some i =>
        have halloc' : txCacheAlloc (((k.setNode { k.node with state := state' }).push
            (.assigned c a.reliable.nextTxSeq flags payload)).node) = some i := halloc
        rw [halloc']
        right
        dsimp only
        obtain ⟨out, attempts, rest, hsend, hrest, hasked⟩ := sendNew_cases radio
          { node :=
              if track then fragmentTxTrack
                { k.node with
                  state := state'
                  txCache := k.node.txCache.put i ⟨true, a.reliable.nextTxSeq, flags, payload⟩ }
                a.reliable.nextTxSeq
              else
                { k.node with
                  state := state'
                  txCache := k.node.txCache.put i ⟨true, a.reliable.nextTxSeq, flags, payload⟩ }
            attempts := k.attempts
            log := k.log ++ [.assigned c a.reliable.nextTxSeq flags payload] }
          c flags a.reliable.nextTxSeq payload hflags
        refine ⟨i, _, attempts, out, rest, rfl, rfl, ?_, ?_, fun hfits => ?_⟩
        · rw [List.append_cons]
          cases track with
          | false => exact hsend
          | true => exact hsend
        · rw [trackIf_frame] at hrest
          exact hrest
        · have hask := hasked (by
            rw [trackIf_frame]
            exact ⟨hfits.notHeartbeat, hfits.flags, hfits.length⟩)
          exact ⟨hask.attempts, hask.out⟩

/-! ## One message -/

theorem findChannelState_eq (node : Node) (c : U8) :
    findChannelState node c = channelAt node.state node.peerIndex c := by
  unfold findChannelState channelAt
  cases findChannelMut node.state node.peerIndex c <;> rfl

/-- The return code of a single frame. -/
def Transmit.rc : Transmit → EspErr
  | .done => .ok
  | .refused => .fail
  | .noSlot => .noMem
  | .radio e => e

/-- **A send, check by check**: the channel is one that is open as reliable, and the three counts
of the admission are one condition. -/
theorem sendReliable_eq (radio : Radio) (node : Node) (c : U8) (payload : List U8) (now : U32) :
    sendReliable radio node c payload now
      = if payload = [] then (.invalidArg, Call.start node)
        else match node.reliableAt c with
          | none => (.invalidState, Call.start node)
          | some channel =>
              if node.fragmentedTxActive = true then (.invalidState, Call.start node)
              else if node.maxPayload.toNat < payload.length then
                if node.maxPayload.toNat = 0 then (.trap, Call.start node)
                else if maxPending < fragmentCount payload.length node.maxPayload.toNat
                    ∨ countFreePending channel < fragmentCount payload.length node.maxPayload.toNat
                    ∨ countFreeTxCache node
                      < fragmentCount payload.length node.maxPayload.toNat then
                  (.noMem, Call.start node)
                else
                  sendFragments radio c now payload.length
                    ((Call.start node).setNode
                      { node with fragmentedTxActive := true, fragmentedTxSeq := [] }) payload
              else
                ((transmitNew radio (Call.start node) c 0#8 false payload now).1.rc,
                  (transmitNew radio (Call.start node) c 0#8 false payload now).2) := by
  unfold sendReliable
  dsimp only
  by_cases hne : payload = []
  · rw [if_pos (by simp [hne]), if_pos hne]
  · rw [if_neg (by simpa using hne), if_neg hne]
    cases hrel : node.reliableAt c with
    | none =>
        -- no such channel, or one of another mode
        cases hget : stateGetChannelMode node.state node.peerIndex c with
        | error e => rfl
        | ok mode =>
            obtain ⟨channel, hch, hcm⟩ := stateGetChannelMode_ok hget
            dsimp only
            rw [if_pos]
            rw [bne_iff_ne]
            rintro rfl
            have hsome : node.reliableAt c = some channel := reliableAt_eq_some.mpr ⟨hch, hcm⟩
            rw [hrel] at hsome
            exact absurd hsome (by simp)
    | some channel =>
        obtain ⟨hat, hm⟩ := Node.reliableAt_channelAt hrel
        rw [stateGetChannelMode_channelAt hat]
        dsimp only
        rw [if_neg (by simp [hm]), findChannelState_eq, hat]
        dsimp only
        congr 1
        congr 1
        · congr 1
          by_cases hcount :
              maxPending < fragmentCount payload.length node.maxPayload.toNat
          · rw [if_pos hcount, if_pos (Or.inl hcount)]
          · rw [if_neg hcount]
            simp only [hcount, false_or, Bool.or_eq_true, decide_eq_true_iff]
        · cases (transmitNew radio (Call.start node) c 0#8 false payload now).1 <;> rfl

/-- **A send is refused as it stands, sends one plain frame, or starts the fragment loop.** -/
theorem sendReliable_cases (radio : Radio) (node : Node) (c : U8) (payload : List U8) (now : U32) :
    ((sendReliable radio node c payload now).1 ≠ .ok
      ∧ (sendReliable radio node c payload now).2 = Call.start node)
    ∨ ∃ channel, node.reliableAt c = some channel ∧ payload ≠ []
      ∧ node.fragmentedTxActive = false
      ∧ ((payload.length ≤ node.maxPayload.toNat
          ∧ sendReliable radio node c payload now
            = ((transmitNew radio (Call.start node) c 0#8 false payload now).1.rc,
                (transmitNew radio (Call.start node) c 0#8 false payload now).2))
        ∨ (node.maxPayload.toNat < payload.length ∧ 0 < node.maxPayload.toNat
          ∧ fragmentCount payload.length node.maxPayload.toNat ≤ maxPending
          ∧ fragmentCount payload.length node.maxPayload.toNat ≤ countFreePending channel
          ∧ fragmentCount payload.length node.maxPayload.toNat ≤ countFreeTxCache node
          ∧ sendReliable radio node c payload now
            = sendFragments radio c now payload.length
                ((Call.start node).setNode
                  { node with fragmentedTxActive := true, fragmentedTxSeq := [] }) payload)) := by
  rw [sendReliable_eq]
  by_cases hne : payload = []
  · rw [if_pos hne]
    exact Or.inl ⟨by simp, rfl⟩
  · rw [if_neg hne]
    cases hrel : node.reliableAt c with
    | none => exact Or.inl ⟨by simp, rfl⟩
    | some channel =>
        dsimp only
        by_cases hact : node.fragmentedTxActive = true
        · rw [if_pos hact]
          exact Or.inl ⟨by simp, rfl⟩
        · rw [if_neg hact]
          rw [Bool.not_eq_true] at hact
          by_cases hlen : node.maxPayload.toNat < payload.length
          · rw [if_pos hlen]
            by_cases h0 : node.maxPayload.toNat = 0
            · rw [if_pos h0]
              exact Or.inl ⟨by simp, rfl⟩
            · rw [if_neg h0]
              split
              · exact Or.inl ⟨by simp, rfl⟩
              · rename_i hcount
                exact Or.inr ⟨channel, rfl, hne, hact,
                  Or.inr ⟨hlen, by omega, by omega, by omega, by omega, rfl⟩⟩
          · rw [if_neg hlen]
            -- a payload that fits in one frame
            exact Or.inr ⟨channel, rfl, hne, hact, Or.inl ⟨Nat.not_lt.mp hlen, rfl⟩⟩

/-! ## The fragments -/

/-- A refused fragment opens the lock if no fragment went out before it. -/
def unlockEmpty (node : Node) : Node :=
  if node.fragmentedTxSeq.isEmpty then { node with fragmentedTxActive := false } else node

/-- **The rule of the fragment loop.** `I` holds before each round, with what is left of the
payload; `Q` is what each way out leaves. -/
theorem sendFragments_rule {radio : Radio} {c : U8} {now : U32} {I : Call → List U8 → Prop}
    {Q : Call → Prop} (hpos : ∀ k remaining, I k remaining → 0 < k.node.maxPayload.toNat)
    (hdone : ∀ k, I k [] → Q k)
    (hround : ∀ k remaining flags, I k remaining → remaining ≠ [] →
      flags = flagFragment ∨ flags = flagFragment ||| flagLastFragment →
      match transmitNew radio k c flags true
          (remaining.take (min k.node.maxPayload.toNat remaining.length)) now with
      | (.done, k') => I k' (remaining.drop (min k.node.maxPayload.toNat remaining.length))
      | (.refused, k') => Q (k'.setNode (unlockEmpty k'.node))
      | (_, k') => Q k') :
    ∀ (fuel : Nat) (k : Call) (remaining : List U8), remaining.length ≤ fuel → I k remaining →
      Q (sendFragments radio c now fuel k remaining).2 := by
  intro fuel
  induction fuel with
  | zero =>
      intro k remaining hlen hI
      obtain rfl := List.eq_nil_of_length_eq_zero (Nat.le_zero.mp hlen)
      exact hdone k hI
  | succ fuel ih =>
      intro k remaining hlen hI
      rw [sendFragments]
      by_cases hnil : remaining = []
      · subst hnil
        exact hdone k hI
      · rw [if_neg (by simpa using hnil)]
        dsimp only
        have hflags : ∀ n : Nat, (if remaining.length = n then flagFragment ||| flagLastFragment
            else flagFragment) = flagFragment
            ∨ (if remaining.length = n then flagFragment ||| flagLastFragment
              else flagFragment) = flagFragment ||| flagLastFragment := by
          intro n
          split
          · exact Or.inr rfl
          · exact Or.inl rfl
        have hr := hround k remaining _ hI hnil
          (hflags (min k.node.maxPayload.toNat remaining.length))
        -- a round takes at least one byte, so the fuel lasts
        have hp := hpos k remaining hI
        have hl : 0 < remaining.length := List.length_pos_iff.mpr hnil
        revert hr
        generalize transmitNew radio k c _ true _ now = r
        obtain ⟨out, k'⟩ := r
        intro hr
        cases out with
        | done =>
            refine ih k' _ ?_ hr
            rw [List.length_drop]
            omega
        | refused => exact hr
        | noSlot => exact hr
        | radio e => exact hr

/-- What no frame and no unlocking breaks, the loop keeps. -/
theorem sendFragments_keeps {radio : Radio} {c : U8} {now : U32} {P : Call → Prop}
    (hunlock : ∀ k, P k → P (k.setNode (unlockEmpty k.node)))
    (hframe : ∀ k flags track part, P k → flags.toNat < 16 →
      part.length ≤ k.node.maxPayload.toNat → P (transmitNew radio k c flags track part now).2)
    (fuel : Nat) : ∀ (k : Call) (remaining : List U8), P k →
      P (sendFragments radio c now fuel k remaining).2 := by
  induction fuel with
  | zero => exact fun k _ h => h
  | succ fuel ih =>
      intro k remaining h
      rw [sendFragments]
      split
      · exact h
      · have hlen : (remaining.take (min k.node.maxPayload.toNat remaining.length)).length
            ≤ k.node.maxPayload.toNat := by
          rw [List.length_take]
          omega
        have hround := hframe k
          (if remaining.length = min k.node.maxPayload.toNat remaining.length then
            flagFragment ||| flagLastFragment else flagFragment)
          true _ h (by split <;> decide) hlen
        dsimp only
        revert hround
        generalize transmitNew radio k c _ true _ now = r
        obtain ⟨out, k'⟩ := r
        intro hround
        cases out with
        | done => exact ih k' _ hround
        | refused => exact hunlock k' hround
        | noSlot => exact hround
        | radio e => exact hround

/-- **What every frame of a send keeps, the send keeps.** -/
theorem sendReliable_keeps {radio : Radio} {node : Node} {c : U8} {payload : List U8} {now : U32}
    {P : Call → Prop} (hstart : P (Call.start node))
    (hlock : P ((Call.start node).setNode
      { node with fragmentedTxActive := true, fragmentedTxSeq := [] }))
    (hunlock : ∀ k, P k → P (k.setNode (unlockEmpty k.node)))
    (hframe : ∀ k flags track part, P k → flags.toNat < 16 →
      part.length ≤ k.node.maxPayload.toNat → P (transmitNew radio k c flags track part now).2) :
    P (sendReliable radio node c payload now).2 := by
  rcases sendReliable_cases radio node c payload now with ⟨_, heq⟩ |
    ⟨channel, _, _, _, ⟨hlen, heq⟩ | ⟨_, _, _, _, _, heq⟩⟩ <;> rw [heq]
  · exact hstart
  · exact hframe _ 0#8 false payload hstart (by decide) hlen
  · exact sendFragments_keeps hunlock hframe payload.length _ payload hlock

/-! ## The other modes -/

theorem sendUnreliable_quiet (radio : Radio) (node : Node) (c : U8) (payload : List U8) :
    QuietCall node (sendUnreliable radio node c payload).2 := by
  have hstart := QuietCall.start node
  unfold sendUnreliable
  dsimp only
  split
  · exact hstart
  · split
    · exact hstart
    · split
      · exact hstart
      · have hq := hstart.setState (stateUnreliableSend_quiet node.state node.peerIndex c)
        split
        · exact hq
        · exact hq.sendFrame radio typeData _ 0#16 payload (Or.inl (by decide))

theorem sendPriority_quiet (radio : Radio) (node : Node) (c : U8) (payload : List U8) :
    QuietCall node (sendPriority radio node c payload).2 := by
  have hstart := QuietCall.start node
  unfold sendPriority
  dsimp only
  split
  · exact hstart
  · split
    · exact hstart
    · split
      · exact hstart
      · have hq := hstart.setState (statePrioritySend_quiet node.state node.peerIndex c)
        split
        · exact hq
        · exact hq.sendFrame radio typeData _ 0#16 payload (Or.inl (by decide))

end Relinow
