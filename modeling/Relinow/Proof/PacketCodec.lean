import Relinow.Packet
import Mathlib.Tactic.IntervalCases

/-!
# Decoding undoes encoding

A header that passes validation survives the nine bytes: decoding a frame gives
back the header it was encoded from, and the payload behind it. The receiver
validates against its own payload limit, which need not be the sender's, so
decoding may still refuse the frame, but never misreads it.

One field is wider in the record than on the wire. `flags` is a byte, of which
four bits are sent, and validation looks at three of those four only. A header
with a flag above them passes validation and loses it: the codec is a bijection
on the headers whose flags fit in a nibble.
-/

namespace Relinow

theorem bigEndian_bytes (x : U16) : bigEndian (highByte x) (lowByte x) = x := by
  unfold bigEndian highByte lowByte
  ext i hi
  interval_cases i <;> simp

theorem highNibble_pack (h l : U8) : highNibble (packNibbles h l) = h &&& 0x0F#8 := by
  unfold highNibble packNibbles
  ext i hi
  interval_cases i <;> simp

theorem lowNibble_pack (h l : U8) : lowNibble (packNibbles h l) = l &&& 0x0F#8 := by
  unfold lowNibble packNibbles
  ext i hi
  interval_cases i <;> simp

/-- A value below sixteen fits in a nibble. -/
theorem and_nibble {x : U8} (h : x.toNat < 16) : x &&& 0x0F#8 = x := by
  apply BitVec.eq_of_toNat_eq
  rw [BitVec.toNat_and]
  exact (Nat.and_two_pow_sub_one_eq_mod x.toNat 4).trans (Nat.mod_eq_of_lt h)

/-- What validation says about the two bytes of nibbles. -/
theorem validateHeader_nibbles {header : Header} {maxPayload : U16}
    (h : validateHeader header maxPayload = .ok) :
    header.version.toNat < 16 ∧ header.mode.toNat < 16 ∧ header.type.toNat < 16 := by
  unfold validateHeader at h
  split at h
  · exact absurd h (by decide)
  · rename_i hv
    split at h
    · exact absurd h (by decide)
    · rename_i hmt
      rw [Bool.not_eq_true, bne_eq_false_iff_eq] at hv
      rw [Bool.or_eq_true, not_or, Bool.not_eq_true', Bool.not_eq_false, Bool.not_eq_true',
        Bool.not_eq_false] at hmt
      obtain ⟨hm, ht⟩ := hmt
      -- each field is one of a few values, all below sixteen
      refine ⟨?_, ?_, ?_⟩
      · rw [hv]
        decide
      · unfold isValidMode at hm
        rw [Bool.or_eq_true, Bool.or_eq_true, beq_iff_eq, beq_iff_eq, beq_iff_eq] at hm
        rcases hm with (hm | hm) | hm <;> rw [hm] <;> decide
      · unfold isValidType at ht
        rw [Bool.and_eq_true, decide_eq_true_iff, decide_eq_true_iff] at ht
        have h5 : header.type.toNat ≤ 5 := ht.2
        omega

/-! ## From the header to the bytes and back -/

/-- The nine bytes of a header that passes validation. -/
theorem encodeHeader_ok {header : Header} {maxPayload : U16} {bytes : List U8} :
    encodeHeader header maxPayload = .ok bytes ↔
      validateHeader header maxPayload = .ok
        ∧ bytes = [ packNibbles header.version header.mode,
            packNibbles header.type header.flags,
            highByte header.seqId, lowByte header.seqId,
            highByte header.ackId, lowByte header.ackId,
            header.channelId,
            highByte header.payloadLen, lowByte header.payloadLen ] := by
  unfold encodeHeader
  cases hv : validateHeader header maxPayload with
  | ok =>
      dsimp only
      rw [Except.ok.injEq]
      exact ⟨fun h => ⟨rfl, h.symm⟩, fun h => h.2.symm⟩
  | _ =>
      refine ⟨fun h => absurd h (by simp), fun h => absurd h.1 (by decide)⟩

/-- What of a header is sent: the flags without their upper four bits. -/
def Header.sent (header : Header) : Header := { header with flags := header.flags &&& 0x0F#8 }

/-- Which of the four flags that are sent are set does not depend on the rest. -/
theorem hasFlag_low {flags flag : U8} (h : 0x0F#8 &&& flag = flag) :
    hasFlag (flags &&& 0x0F#8) flag = hasFlag flags flag := by
  unfold hasFlag
  rw [BitVec.and_assoc, h]

theorem validateHeader_sent (header : Header) (maxPayload : U16) :
    validateHeader header.sent maxPayload = validateHeader header maxPayload := by
  unfold validateHeader Header.sent
  dsimp only
  rw [hasFlag_low (by decide), hasFlag_low (by decide), hasFlag_low (by decide)]

theorem sent_eq_iff (header : Header) : header.sent = header ↔ header.flags.toNat < 16 := by
  constructor
  · intro h
    have hflags : header.flags &&& 0x0F#8 = header.flags := congrArg Header.flags h
    have hlow := congrArg BitVec.toNat hflags
    rw [BitVec.toNat_and] at hlow
    have : header.flags.toNat &&& 15 ≤ 15 := Nat.and_le_right
    change header.flags.toNat &&& 15 = header.flags.toNat at hlow
    omega
  · intro h
    unfold Header.sent
    rw [and_nibble h]

/-- **Decoding nine encoded bytes** reads what was sent of the header, and validates it again. -/
theorem decodeHeader_encoded {header : Header} {maxPayload maxPayload' : U16} {bytes : List U8}
    {payload : List U8} (henc : encodeHeader header maxPayload = .ok bytes)
    (hlen : header.payloadLen.toNat = payload.length) :
    decodeHeader (bytes ++ payload) maxPayload' =
      match validateHeader header maxPayload' with
      | .ok => .ok header.sent
      | e => .error e := by
  obtain ⟨hv, rfl⟩ := encodeHeader_ok.mp henc
  obtain ⟨h1, h2, h3⟩ := validateHeader_nibbles hv
  have hback : (⟨highNibble (packNibbles header.version header.mode),
      lowNibble (packNibbles header.version header.mode),
      highNibble (packNibbles header.type header.flags),
      lowNibble (packNibbles header.type header.flags),
      bigEndian (highByte header.seqId) (lowByte header.seqId),
      bigEndian (highByte header.ackId) (lowByte header.ackId),
      header.channelId,
      bigEndian (highByte header.payloadLen) (lowByte header.payloadLen)⟩ : Header)
      = header.sent := by
    rw [highNibble_pack, lowNibble_pack, highNibble_pack, lowNibble_pack, and_nibble h1,
      and_nibble h2, and_nibble h3, bigEndian_bytes, bigEndian_bytes, bigEndian_bytes]
    rfl
  simp only [decodeHeader, List.cons_append, List.nil_append, hback, validateHeader_sent]
  refine (if_neg ?_).trans ?_
  · rw [bigEndian_bytes, hlen]
    exact not_not.mpr rfl
  · cases validateHeader header maxPayload' <;> rfl

/-- `frame` carries this header and this payload. -/
def FrameOf (frame : List U8) (header : Header) (payload : List U8) : Prop :=
  ∃ maxPayload bytes, encodeHeader header maxPayload = .ok bytes ∧ frame = bytes ++ payload
    ∧ header.payloadLen.toNat = payload.length ∧ header.flags.toNat < 16

/-- **Decoding reads what was encoded**, or refuses. -/
theorem FrameOf.decode {frame payload : List U8} {header header' : Header} {maxPayload : U16}
    (hf : FrameOf frame header payload) (hd : decodeHeader frame maxPayload = .ok header') :
    header' = header ∧ framePayload frame = payload := by
  obtain ⟨mp, bytes, henc, rfl, hlen, hflags⟩ := hf
  rw [decodeHeader_encoded henc hlen] at hd
  split at hd
  · refine ⟨(Except.ok.inj hd).symm.trans ((sent_eq_iff header).mpr hflags), ?_⟩
    obtain ⟨_, rfl⟩ := encodeHeader_ok.mp henc
    rfl
  · exact absurd hd (by simp)

/-- A frame whose header the receiver finds valid is accepted. -/
theorem FrameOf.decodes {frame payload : List U8} {header : Header} {maxPayload : U16}
    (hf : FrameOf frame header payload) (hv : validateHeader header maxPayload = .ok) :
    decodeHeader frame maxPayload = .ok header ∧ framePayload frame = payload := by
  have hd : decodeHeader frame maxPayload = .ok header := by
    obtain ⟨mp, bytes, henc, rfl, hlen, hflags⟩ := hf
    rw [decodeHeader_encoded henc hlen, hv, (sent_eq_iff header).mpr hflags]
  exact ⟨hd, (hf.decode hd).2⟩

/-! ## From the bytes to the header and back -/

theorem pack_nibbles (x : U8) : packNibbles (highNibble x) (lowNibble x) = x := by
  unfold packNibbles highNibble lowNibble
  ext i hi
  interval_cases i <;> simp

theorem highByte_bigEndian (a b : U8) : highByte (bigEndian a b) = a := by
  unfold highByte bigEndian
  ext i hi
  interval_cases i <;> simp

theorem lowByte_bigEndian (a b : U8) : lowByte (bigEndian a b) = b := by
  unfold lowByte bigEndian
  ext i hi
  interval_cases i <;> simp

/-- **Encoding a decoded header** gives the first nine bytes back, and the rest are as many as
its length field says. -/
theorem decodeHeader_ok {frame : List U8} {maxPayload : U16} {header : Header}
    (h : decodeHeader frame maxPayload = .ok header) :
    encodeHeader header maxPayload = .ok (frame.take headerSize)
      ∧ validateHeader header maxPayload = .ok
      ∧ (framePayload frame).length = header.payloadLen.toNat := by
  unfold decodeHeader at h
  split at h
  · dsimp only at h
    split at h
    · exact absurd h (by simp)
    · rename_i hlen
      rw [not_not] at hlen
      split at h
      · rename_i hv
        obtain rfl := Except.ok.inj h
        refine ⟨encodeHeader_ok.mpr ⟨hv, ?_⟩, hv, hlen.symm⟩
        dsimp only
        rw [pack_nibbles, pack_nibbles, highByte_bigEndian, lowByte_bigEndian, highByte_bigEndian,
          lowByte_bigEndian, highByte_bigEndian, lowByte_bigEndian]
        rfl
      · exact absurd h (by simp)
  · exact absurd h (by simp)

/--
**The header codec.** Decoding gives back an encoded header exactly when its
flags fit in four bits; encoding gives back the nine bytes of any frame that
decodes; and the frames that decode are the encoded headers followed by as many
bytes as they say.
-/
theorem headerCodec (maxPayload : U16) :
    (∀ (header : Header) (bytes payload : List U8), encodeHeader header maxPayload = .ok bytes →
        payload.length = header.payloadLen.toNat →
        (decodeHeader (bytes ++ payload) maxPayload = .ok header ↔ header.flags.toNat < 16))
    ∧ (∀ (frame : List U8) (header : Header), decodeHeader frame maxPayload = .ok header →
        encodeHeader header maxPayload = .ok (frame.take headerSize))
    ∧ ∀ frame : List U8, (∃ header, decodeHeader frame maxPayload = .ok header) ↔
        ∃ (header : Header) (bytes payload : List U8), validateHeader header maxPayload = .ok
          ∧ encodeHeader header maxPayload = .ok bytes
          ∧ payload.length = header.payloadLen.toNat ∧ frame = bytes ++ payload := by
  have hdecode : ∀ (header : Header) (bytes payload : List U8),
      encodeHeader header maxPayload = .ok bytes → payload.length = header.payloadLen.toNat →
      decodeHeader (bytes ++ payload) maxPayload = .ok header.sent := by
    intro header bytes payload henc hlen
    rw [decodeHeader_encoded henc hlen.symm, (encodeHeader_ok.mp henc).1]
  refine ⟨fun header bytes payload henc hlen => ?_, fun frame header h => (decodeHeader_ok h).1,
    fun frame => ⟨?_, ?_⟩⟩
  · rw [hdecode header bytes payload henc hlen, Except.ok.injEq]
    exact sent_eq_iff header
  · rintro ⟨header, h⟩
    obtain ⟨henc, hv, hlen⟩ := decodeHeader_ok h
    exact ⟨header, _, framePayload frame, hv, henc, hlen, (List.take_append_drop 9 frame).symm⟩
  · rintro ⟨header, bytes, payload, _, henc, hlen, rfl⟩
    exact ⟨header.sent, hdecode header bytes payload henc hlen⟩

/-- A header that validation accepts, with a flag that is not sent. -/
def flaggedHeader : Header :=
  { version := protocolVersion, mode := modeReliable, type := typeData, flags := 0x10#8
    seqId := 0#16, ackId := 0#16, channelId := 1#8, payloadLen := 0#16 }

/-- So the codec is no bijection on all headers that are accepted. -/
theorem headerCodec_not_bijective :
    ¬ ∀ maxPayload : U16,
      (∀ (header : Header) (bytes payload : List U8), encodeHeader header maxPayload = .ok bytes →
        payload.length = header.payloadLen.toNat →
        decodeHeader (bytes ++ payload) maxPayload = .ok header)
      ∧ (∀ (frame : List U8) (header : Header), decodeHeader frame maxPayload = .ok header →
        encodeHeader header maxPayload = .ok (frame.take headerSize))
      ∧ ∀ frame : List U8, (∃ header, decodeHeader frame maxPayload = .ok header) ↔
        ∃ (header : Header) (bytes payload : List U8), validateHeader header maxPayload = .ok
          ∧ encodeHeader header maxPayload = .ok bytes
          ∧ payload.length = header.payloadLen.toNat ∧ frame = bytes ++ payload := by
  intro h
  have hd := (h 241#16).1 flaggedHeader [0x11#8, 0x10#8, 0#8, 0#8, 0#8, 0#8, 1#8, 0#8, 0#8] []
    (by decide) rfl
  revert hd
  decide

end Relinow
