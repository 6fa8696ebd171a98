import Relinow.Proof.NodeState
import Relinow.Proof.FragmentLock

/-!
# PING and PONG

A node answers a PING with a PONG in the mode of the PING, and acknowledges the
PING's sequence id with it. An UNRELIABLE frame must not acknowledge anything,
and the reply goes through the same validation as every other frame. So a PING
in UNRELIABLE mode is answered only if its sequence id is 0, which is the id
`relinow_poll` sends; the decoder accepts any other id as well.
-/

namespace Relinow

open Runs

/-- The header of the reply to a PING with this mode and sequence id. -/
def pongHeader (mode : U8) (seqId : U16) : Header :=
  frameHeader mode heartbeatChannel typePong 0#8 0#16 seqId []

/-- What a decoded PING says of its mode and channel. -/
theorem validateHeader_ping {header : Header} {maxPayload : U16}
    (h : validateHeader header maxPayload = .ok) (ht : header.type = typePing) :
    isValidMode header.mode = true ∧ header.channelId = heartbeatChannel := by
  unfold validateHeader at h
  simp only [ht] at h
  split at h
  · exact absurd h (by simp)
  · split at h
    · exact absurd h (by simp)
    · rename_i hmt
      rw [Bool.or_eq_true, not_or, Bool.not_eq_true', Bool.not_eq_false] at hmt
      refine ⟨hmt.1, ?_⟩
      split at h
      · exact absurd h (by simp)
      · split at h
        · exact absurd h (by simp)
        · -- on any other channel a PING is refused
          split at h
          · rename_i hch
            exact beq_iff_eq.mp hch
          · simp at h

/-- **The reply to a PING is valid** unless it is UNRELIABLE and acknowledges something. -/
theorem validateHeader_pong {mode : U8} (hm : isValidMode mode = true) (q : U16)
    (maxPayload : U16) :
    validateHeader (pongHeader mode q) maxPayload
      = if mode == modeUnreliable && q != 0#16 then .invalidPacket else .ok := by
  have hlen : ¬ maxPayload < BitVec.ofNat 16 ([] : List U8).length := by
    simp
  unfold validateHeader pongHeader frameHeader
  simp only [hm, if_neg hlen]
  simp [isValidType, hasFlag, heartbeatChannel, typePing, typePong, typeData, typeAck]

/-- Receiving `data` from `src` hands exactly one frame to `esp_now_send`, whatever the radio makes
of it, and every node decodes that frame as a PONG on the heartbeat channel. -/
def AnswersPing (node : Node) (src : Mac) (data : List U8) (now : U32) : Prop :=
  ∃ frame header, (∀ radio, onReceive radio node src data now
      = (.ok, (espNowSend radio (Call.start node) node.peerMac frame).2))
    ∧ (∀ maxPayload, decodeHeader frame maxPayload = .ok header)
    ∧ header.type = typePong ∧ header.channelId = heartbeatChannel

/-- A PING from the peer goes straight to the reply. -/
theorem onReceive_ping (radio : Radio) {node : Node} {data : List U8} {header : Header}
    (hdec : decodeHeader data node.maxPayload = .ok header) (ht : header.type = typePing)
    (now : U32) :
    onReceive radio node node.peerMac data now
      = (.ok, (sendFrame radio (Call.start node) header.mode heartbeatChannel typePong 0#8 0#16
          header.seqId []).2) := by
  obtain ⟨-, hch⟩ := validateHeader_ping (decodeHeader_ok hdec).2.1 ht
  have hlen : ¬ data.length < headerSize := by
    intro hshort
    -- nine bytes are missing for the match
    have htake := (encodeHeader_ok.mp (decodeHeader_ok hdec).1).2
    have := congrArg List.length htake
    rw [List.length_take, Nat.min_eq_right hshort.le] at this
    simp only [List.length_cons, List.length_nil] at this
    have : headerSize = 9 := rfl
    omega
  unfold onReceive
  dsimp only
  rw [if_neg hlen, if_neg (by simp), hdec]
  dsimp only
  rw [if_pos (by rw [hch]; simp)]
  unfold receiveHeartbeat
  rw [if_pos (by rw [ht]; simp)]

/-- What becomes of the reply. -/
theorem sendFrame_pong {mode : U8} (hm : isValidMode mode = true) (q : U16) (k : Call) :
    ((mode = modeUnreliable → q = 0#16) ∧ ∃ bytes,
      (∀ radio, sendFrame radio k mode heartbeatChannel typePong 0#8 0#16 q []
        = espNowSend radio k k.node.peerMac bytes)
      ∧ ∀ maxPayload, decodeHeader bytes maxPayload = .ok (pongHeader mode q))
    ∨ (mode = modeUnreliable ∧ q ≠ 0#16
      ∧ ∀ radio,
        sendFrame radio k mode heartbeatChannel typePong 0#8 0#16 q [] = (.invalidArg, k)) := by
  by_cases hbad : mode = modeUnreliable ∧ q ≠ 0#16
  · refine Or.inr ⟨hbad.1, hbad.2, fun radio => ?_⟩
    have henc : encodeHeader (pongHeader mode q) k.node.maxPayload = .error .invalidPacket := by
      unfold encodeHeader
      rw [validateHeader_pong hm, if_pos (by simpa using hbad)]
    exact sendFrame_refused radio henc
  · have hgood : mode = modeUnreliable → q = 0#16 := fun h => not_not.mp fun hq => hbad ⟨h, hq⟩
    have hvalid : ∀ maxPayload, validateHeader (pongHeader mode q) maxPayload = .ok := by
      intro maxPayload
      rw [validateHeader_pong hm, if_neg (by simpa using hgood)]
    obtain ⟨bytes, henc⟩ : ∃ bytes,
        encodeHeader (pongHeader mode q) k.node.maxPayload = .ok bytes :=
      ⟨_, encodeHeader_ok.mpr ⟨hvalid _, rfl⟩⟩
    refine Or.inl ⟨hgood, bytes ++ [], fun radio => ?_, fun maxPayload => ?_⟩
    · exact sendFrame_encoded radio (Nat.zero_le _) henc
    · rw [decodeHeader_encoded henc rfl, hvalid,
        (sent_eq_iff _).mpr (by decide : (0#8).toNat < 16)]

/-- **A PING is answered unless the reply would be an acknowledgement in UNRELIABLE mode**, and
then nothing is handed to the radio at all. -/
theorem answersPing_cases {node : Node} {data : List U8} {header : Header}
    (hdec : decodeHeader data node.maxPayload = .ok header) (ht : header.type = typePing)
    (now : U32) :
    ((header.mode = modeUnreliable → header.seqId = 0#16)
      ∧ AnswersPing node node.peerMac data now)
    ∨ (header.mode = modeUnreliable ∧ header.seqId ≠ 0#16
      ∧ ∀ radio, onReceive radio node node.peerMac data now = (.ok, Call.start node)) := by
  obtain ⟨hm, -⟩ := validateHeader_ping (decodeHeader_ok hdec).2.1 ht
  rcases sendFrame_pong hm header.seqId (Call.start node) with ⟨hgood, bytes, hsend, hpong⟩ |
    ⟨hu, hq, hsend⟩
  · refine Or.inl ⟨hgood, bytes, _, fun radio => ?_, hpong, rfl, rfl⟩
    rw [onReceive_ping radio hdec ht, hsend]
    rfl
  · refine Or.inr ⟨hu, hq, fun radio => ?_⟩
    rw [onReceive_ping radio hdec ht, hsend]

/-- A call that does not try the radio answers nothing. -/
theorem not_answersPing {node : Node} {src : Mac} {data : List U8} {now : U32}
    (h : onReceive Radio.up node src data now = (.ok, Call.start node)) :
    ¬ AnswersPing node src data now := by
  rintro ⟨frame, header, hall, -⟩
  have hattempts := congrArg (fun r => r.2.attempts) ((hall Radio.up).symm.trans h)
  exact absurd hattempts Nat.one_ne_zero

/--
**Which PINGs are answered.** In every state a node reaches, a PING that it
accepts from its peer is answered with one PONG exactly when it is not in
UNRELIABLE mode or has sequence id 0.
-/
theorem ping_answered_iff {node₀ node : Node} {cfg : Config} (hinit : init node₀ cfg = (.ok, node))
    (as : List ApiStep) {data : List U8} {header : Header}
    (hdec : decodeHeader data (run NodeRun.step ⟨node, []⟩ as).node.maxPayload = .ok header)
    (hping : header.type = typePing) (now : U32) :
    AnswersPing (run NodeRun.step ⟨node, []⟩ as).node cfg.peerMac data now ↔
      (header.mode = modeUnreliable → header.seqId = 0#16) := by
  have hmac : (run NodeRun.step ⟨node, []⟩ as).node.peerMac = cfg.peerMac := by
    obtain ⟨_, _, rfl, -⟩ := init_ok hinit
    exact (sameConfig_run _ as).peerMac
  rw [← hmac]
  rcases answersPing_cases hdec hping now with ⟨hgood, hans⟩ | ⟨hu, hq, hnone⟩
  · exact ⟨fun _ => hgood, fun _ => hans⟩
  · exact ⟨fun hans => absurd hans (not_answersPing (hnone Radio.up)), fun hgood =>
      absurd (hgood hu) hq⟩

/-- A PING in UNRELIABLE mode. -/
def pingHeader (q : U16) : Header :=
  frameHeader modeUnreliable heartbeatChannel typePing 0#8 q 0#16 []

/-- Its nine bytes, for a sequence id below 256. -/
def pingFrame (q : U8) : List U8 :=
  [0x12#8, 0x40#8, 0#8, q, 0#8, 0#8, 0xFF#8, 0#8, 0#8]

/-- The PING that nodes send is answered. -/
theorem ping_answered_zero :
    AnswersPing (run NodeRun.step ⟨silentNode, []⟩ []).node silentConfig.peerMac (pingFrame 0#8)
      0#32 := by
  have hinit : init Node.zero silentConfig = (.ok, silentNode) :=
    Prod.ext (by decide +kernel) rfl
  have hdec : decodeHeader (pingFrame 0#8)
      (run NodeRun.step ⟨silentNode, []⟩ []).node.maxPayload = .ok (pingHeader 0#16) := by
    decide +kernel
  exact (ping_answered_iff hinit [] hdec rfl 0#32).mpr fun _ => rfl

/-- **With sequence id 1 it is not.** -/
theorem ping_unanswered :
    ¬ ∀ (node₀ node : Node) (cfg : Config), init node₀ cfg = (.ok, node) →
      ∀ (as : List ApiStep) (data : List U8) (header : Header),
        decodeHeader data (run NodeRun.step ⟨node, []⟩ as).node.maxPayload = .ok header →
        header.type = typePing → ∀ now : U32,
        AnswersPing (run NodeRun.step ⟨node, []⟩ as).node cfg.peerMac data now := by
  intro h
  have hinit : init Node.zero silentConfig = (.ok, silentNode) :=
    Prod.ext (by decide +kernel) rfl
  have hans := h Node.zero silentNode silentConfig hinit [] (pingFrame 1#8) (pingHeader 1#16)
    (by decide +kernel) rfl 0#32
  exact not_answersPing (by decide +kernel) hans

end Relinow
