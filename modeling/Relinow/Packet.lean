import Relinow.Lib.SerialNumber

/-!
# The packet header

Nine bytes in front of every payload: `relinow_packet.h` and `relinow_packet.c`.
A frame is the list of its bytes. Encoding fails or yields the nine bytes;
decoding fails or yields the header, and leaves the payload where it is, in the
bytes after the ninth.
-/

namespace Relinow

/-- `uint8_t`. -/
abbrev U8 := BitVec 8

/-- `uint16_t`. -/
abbrev U16 := BitVec 16

instance lawfulSeqIds : LawfulBEq U16 := inferInstance

/-- `uint32_t`. -/
abbrev U32 := BitVec 32

def protocolVersion : U8 := 0x01#8

def modeReliable : U8 := 0x01#8
def modeUnreliable : U8 := 0x02#8
def modePriority : U8 := 0x03#8

def typeData : U8 := 0x01#8
def typeAck : U8 := 0x02#8
def typePing : U8 := 0x04#8
def typePong : U8 := 0x05#8

def flagFragment : U8 := 0x01#8
def flagLastFragment : U8 := 0x02#8
def flagReserved : U8 := 0x08#8

/-- The channel id set aside for PING and PONG. -/
def heartbeatChannel : U8 := 0xFF#8

/-- `relinow_err_t`. -/
inductive Err where
  | ok
  | invalidArg
  | invalidPacket
  | payloadTooLarge
  deriving DecidableEq, Repr

/-- `relinow_header_t`. -/
structure Header where
  version : U8
  mode : U8
  type : U8
  flags : U8
  seqId : U16
  ackId : U16
  channelId : U8
  payloadLen : U16
  deriving DecidableEq, Repr

def isValidMode (mode : U8) : Bool :=
  mode == modeReliable || mode == modeUnreliable || mode == modePriority

def isValidType (type : U8) : Bool :=
  decide (typeData ≤ type) && decide (type ≤ typePong)

/-- Is this flag bit set? -/
def hasFlag (flags flag : U8) : Bool := flags &&& flag != 0#8

/-- `relinow_validate_header`: the checks in the order they are made. -/
def validateHeader (header : Header) (maxPayload : U16) : Err :=
  if header.version != protocolVersion then .invalidPacket
  else if !isValidMode header.mode || !isValidType header.type then .invalidPacket
  else if hasFlag header.flags flagReserved then .invalidPacket
  else if maxPayload < header.payloadLen then .payloadTooLarge
  else if (if header.channelId == heartbeatChannel then
      header.type != typePing && header.type != typePong
    else header.type == typePing || header.type == typePong) then .invalidPacket
  else if header.type == typeAck && header.payloadLen != 0#16 then .invalidPacket
  else if header.mode == modeUnreliable && header.ackId != 0#16 then .invalidPacket
  else if hasFlag header.flags flagFragment && header.mode != modeReliable then .invalidPacket
  else if hasFlag header.flags flagLastFragment && !hasFlag header.flags flagFragment then
    .invalidPacket
  else .ok

/-- High and low byte of a 16-bit field. -/
def highByte (x : U16) : U8 := (x >>> 8).setWidth 8
def lowByte (x : U16) : U8 := (x &&& 0xFF#16).setWidth 8

/-- `(a << 8) | b`, the big-endian pair. -/
def bigEndian (a b : U8) : U16 := (a.setWidth 16 <<< 8) ||| b.setWidth 16

/-- Two nibbles in one byte. -/
def packNibbles (high low : U8) : U8 := ((high &&& 0x0F#8) <<< 4) ||| (low &&& 0x0F#8)
def highNibble (x : U8) : U8 := (x >>> 4) &&& 0x0F#8
def lowNibble (x : U8) : U8 := x &&& 0x0F#8

/-- `relinow_encode_header`: the nine bytes, or the validation error. -/
def encodeHeader (header : Header) (maxPayload : U16) : Except Err (List U8) :=
  match validateHeader header maxPayload with
  | .ok => .ok
      [ packNibbles header.version header.mode,
        packNibbles header.type header.flags,
        highByte header.seqId, lowByte header.seqId,
        highByte header.ackId, lowByte header.ackId,
        header.channelId,
        highByte header.payloadLen, lowByte header.payloadLen ]
  | e => .error e

/-- `relinow_decode_header`: fewer than nine bytes, a length field that disagrees with the
number of bytes that follow, and everything validation refuses are errors. -/
def decodeHeader (frame : List U8) (maxPayload : U16) : Except Err Header :=
  match frame with
  | b0 :: b1 :: b2 :: b3 :: b4 :: b5 :: b6 :: b7 :: b8 :: payload =>
      let header : Header :=
        { version := highNibble b0
          mode := lowNibble b0
          type := highNibble b1
          flags := lowNibble b1
          seqId := bigEndian b2 b3
          ackId := bigEndian b4 b5
          channelId := b6
          payloadLen := bigEndian b7 b8 }
      if header.payloadLen.toNat ≠ payload.length then .error .invalidPacket
      else
        match validateHeader header maxPayload with
        | .ok => .ok header
        | e => .error e
  | _ => .error .invalidPacket

/-- `RELINOW_HEADER_SIZE`. -/
def headerSize : Nat := 9

/-- The bytes of a frame after its header. -/
def framePayload (frame : List U8) : List U8 := frame.drop headerSize

/-- `relinow_is_seq_newer`: `(int16_t)(seq_a - seq_b) > 0`. -/
def isSeqNewer (seqA seqB : U16) : Bool := SerialNumber.newer seqA seqB

/-- `relinow_seq_next`. -/
def seqNext (current : U16) : U16 := current + 1#16

end Relinow
