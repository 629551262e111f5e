import Rivr.ForMathlib.LittleEndian

/-!
# The RIVR wire format

`firmware_core/protocol.c`: the packet header, its packed form, the CRC-16/CCITT over header
and payload, and the two entry points `protocolEncode` and `protocolDecode`.

A buffer is the list of its bytes. `protocolEncode` returns the bytes it leaves in the first
`total` places of the output buffer (`none` models the return value `-1`), and takes the
buffer's previous contents because a NULL payload of nonzero length leaves the payload region
as it was. A payload pointer is `none` when it is NULL.
-/

namespace Rivr

open LittleEndian

/-! ### Constants -/

def rivrMagic : UInt16 := 0x5256
def rivrProtoVer : UInt8 := 1
def rivrProtoMin : UInt8 := 1
def rivrProtoMax : UInt8 := rivrProtoVer

def pktChat : UInt8 := 1
def pktBeacon : UInt8 := 2
def pktRouteReq : UInt8 := 3
def pktRouteRpl : UInt8 := 4
def pktAck : UInt8 := 5
def pktData : UInt8 := 6
def pktProgPush : UInt8 := 7
def pktTelemetry : UInt8 := 8
def pktMailbox : UInt8 := 9
def pktAlert : UInt8 := 10
def pktMetrics : UInt8 := 11

def rivrPktHdrLen : UInt8 := 23
def rivrPktCrcLen : UInt8 := 2
def rivrPktMaxPayload : UInt8 := 255 - rivrPktHdrLen - rivrPktCrcLen
def rivrPktMinFrame : UInt8 := rivrPktHdrLen + rivrPktCrcLen
def rivrPktDefaultTtl : UInt8 := 15
def rivrFallbackTtl : UInt8 := 3

def pktFlagAckReq : UInt8 := 0x01
def pktFlagRelay : UInt8 := 0x02
def pktFlagFallback : UInt8 := 0x04

/-- `RF_MAX_PAYLOAD_LEN`, the size of every frame buffer. -/
def rfMaxPayloadLen : UInt8 := 255

/-- `rivr_pkt_hdr_t`: the header in memory. -/
structure RivrPktHdr where
  magic : UInt16
  version : UInt8
  pktType : UInt8
  flags : UInt8
  ttl : UInt8
  hop : UInt8
  netId : UInt16
  srcId : UInt32
  dstId : UInt32
  seq : UInt16
  pktId : UInt16
  payloadLen : UInt8
  loopGuard : UInt8
  deriving DecidableEq, Repr

/-- A chat header from node `0xA1` to node `0xB2`. -/
def sampleChatHdr : RivrPktHdr :=
  { magic := 0, version := 0, pktType := pktChat, flags := 0, ttl := 7, hop := 0, netId := 0x0102,
    srcId := 0xA1, dstId := 0xB2, seq := 3, pktId := 0x0405, payloadLen := 0, loopGuard := 0 }

/-! ### CRC-16/CCITT -/

/-- `s_crc16_table`. -/
def crc16Table : List UInt16 := [
  0x0000, 0x1021, 0x2042, 0x3063, 0x4084, 0x50a5, 0x60c6, 0x70e7,
  0x8108, 0x9129, 0xa14a, 0xb16b, 0xc18c, 0xd1ad, 0xe1ce, 0xf1ef,
  0x1231, 0x0210, 0x3273, 0x2252, 0x52b5, 0x4294, 0x72f7, 0x62d6,
  0x9339, 0x8318, 0xb37b, 0xa35a, 0xd3bd, 0xc39c, 0xf3ff, 0xe3de,
  0x2462, 0x3443, 0x0420, 0x1401, 0x64e6, 0x74c7, 0x44a4, 0x5485,
  0xa56a, 0xb54b, 0x8528, 0x9509, 0xe5ee, 0xf5cf, 0xc5ac, 0xd58d,
  0x3653, 0x2672, 0x1611, 0x0630, 0x76d7, 0x66f6, 0x5695, 0x46b4,
  0xb75b, 0xa77a, 0x9719, 0x8738, 0xf7df, 0xe7fe, 0xd79d, 0xc7bc,
  0x48c4, 0x58e5, 0x6886, 0x78a7, 0x0840, 0x1861, 0x2802, 0x3823,
  0xc9cc, 0xd9ed, 0xe98e, 0xf9af, 0x8948, 0x9969, 0xa90a, 0xb92b,
  0x5af5, 0x4ad4, 0x7ab7, 0x6a96, 0x1a71, 0x0a50, 0x3a33, 0x2a12,
  0xdbfd, 0xcbdc, 0xfbbf, 0xeb9e, 0x9b79, 0x8b58, 0xbb3b, 0xab1a,
  0x6ca6, 0x7c87, 0x4ce4, 0x5cc5, 0x2c22, 0x3c03, 0x0c60, 0x1c41,
  0xedae, 0xfd8f, 0xcdec, 0xddcd, 0xad2a, 0xbd0b, 0x8d68, 0x9d49,
  0x7e97, 0x6eb6, 0x5ed5, 0x4ef4, 0x3e13, 0x2e32, 0x1e51, 0x0e70,
  0xff9f, 0xefbe, 0xdfdd, 0xcffc, 0xbf1b, 0xaf3a, 0x9f59, 0x8f78,
  0x9188, 0x81a9, 0xb1ca, 0xa1eb, 0xd10c, 0xc12d, 0xf14e, 0xe16f,
  0x1080, 0x00a1, 0x30c2, 0x20e3, 0x5004, 0x4025, 0x7046, 0x6067,
  0x83b9, 0x9398, 0xa3fb, 0xb3da, 0xc33d, 0xd31c, 0xe37f, 0xf35e,
  0x02b1, 0x1290, 0x22f3, 0x32d2, 0x4235, 0x5214, 0x6277, 0x7256,
  0xb5ea, 0xa5cb, 0x95a8, 0x8589, 0xf56e, 0xe54f, 0xd52c, 0xc50d,
  0x34e2, 0x24c3, 0x14a0, 0x0481, 0x7466, 0x6447, 0x5424, 0x4405,
  0xa7db, 0xb7fa, 0x8799, 0x97b8, 0xe75f, 0xf77e, 0xc71d, 0xd73c,
  0x26d3, 0x36f2, 0x0691, 0x16b0, 0x6657, 0x7676, 0x4615, 0x5634,
  0xd94c, 0xc96d, 0xf90e, 0xe92f, 0x99c8, 0x89e9, 0xb98a, 0xa9ab,
  0x5844, 0x4865, 0x7806, 0x6827, 0x18c0, 0x08e1, 0x3882, 0x28a3,
  0xcb7d, 0xdb5c, 0xeb3f, 0xfb1e, 0x8bf9, 0x9bd8, 0xabbb, 0xbb9a,
  0x4a75, 0x5a54, 0x6a37, 0x7a16, 0x0af1, 0x1ad0, 0x2ab3, 0x3a92,
  0xfd2e, 0xed0f, 0xdd6c, 0xcd4d, 0xbdaa, 0xad8b, 0x9de8, 0x8dc9,
  0x7c26, 0x6c07, 0x5c64, 0x4c45, 0x3ca2, 0x2c83, 0x1ce0, 0x0cc1,
  0xef1f, 0xff3e, 0xcf5d, 0xdf7c, 0xaf9b, 0xbfba, 0x8fd9, 0x9ff8,
  0x6e17, 0x7e36, 0x4e55, 0x5e74, 0x2e93, 0x3eb2, 0x0ed1, 0x1ef0]

/-- One turn of the table-driven loop of `protocol_crc16`. -/
def crc16Step (crc : UInt16) (b : UInt8) : UInt16 :=
  (crc <<< 8) ^^^ crc16Table.getD ((crc >>> 8).toUInt8 ^^^ b).toNat 0

/-- `protocol_crc16`. -/
def protocolCrc16 (buf : List UInt8) (len : UInt8) : UInt16 :=
  (buf.take len.toNat).foldl crc16Step 0xFFFF

/-! ### Encoding -/

/-- The 23 header bytes `protocol_encode` writes: magic and version are the constants,
the length byte is the argument, every other byte comes from the header. -/
def packHeader (hdr : RivrPktHdr) (payloadLen : UInt8) : List UInt8 :=
  [u16Byte rivrMagic 0, u16Byte rivrMagic 8, rivrProtoVer,
    hdr.pktType, hdr.flags, hdr.ttl, hdr.hop,
    u16Byte hdr.netId 0, u16Byte hdr.netId 8,
    u32Byte hdr.srcId 0, u32Byte hdr.srcId 8, u32Byte hdr.srcId 16, u32Byte hdr.srcId 24,
    u32Byte hdr.dstId 0, u32Byte hdr.dstId 8, u32Byte hdr.dstId 16, u32Byte hdr.dstId 24,
    u16Byte hdr.seq 0, u16Byte hdr.seq 8,
    u16Byte hdr.pktId 0, u16Byte hdr.pktId 8,
    payloadLen, hdr.loopGuard]

/-- The payload region after the guarded `memcpy`: the payload's bytes, or what the output
buffer held there when there is nothing to copy from. -/
def payloadRegion (payload : Option (List UInt8)) (payloadLen : UInt8) (outBuf : List UInt8) :
    List UInt8 :=
  match payload with
  | some p => p.take payloadLen.toNat
  | none => (outBuf.drop rivrPktHdrLen.toNat).take payloadLen.toNat

/-- The two CRC bytes appended to a frame body, low byte first. -/
def crcBytes (crc : UInt16) : List UInt8 := [u16Byte crc 0, u16Byte crc 8]

/-- `protocol_encode`. The total is an 8-bit sum, so a payload above the maximum wraps it
before the second test refuses the payload. -/
def protocolEncode (hdr : RivrPktHdr) (payload : Option (List UInt8)) (payloadLen : UInt8)
    (outBuf : List UInt8) (outCap : UInt8) : Option (List UInt8) :=
  let total := rivrPktHdrLen + payloadLen + rivrPktCrcLen
  if total > outCap then none
  else if payloadLen > rivrPktMaxPayload then none
  else
    let body := packHeader hdr payloadLen ++ payloadRegion payload payloadLen outBuf
    some (body ++ crcBytes (protocolCrc16 body (rivrPktHdrLen + payloadLen)))

/-! ### Decoding -/

/-- `validate_wire_frame`: the validated payload length, or `none`. -/
def validateWireFrame (buf : List UInt8) (len : UInt8) : Option UInt8 :=
  let at' := fun i => buf.getD i 0
  if len < rivrPktMinFrame then none
  else if u16OfBytes (at' 0) (at' 1) ≠ rivrMagic then none
  else if at' 2 < rivrProtoMin ∨ at' 2 > rivrProtoMax then none
  else if at' 3 = 0 ∨ at' 3 > pktMetrics then none
  else
    let payloadLen := at' 21
    if payloadLen > rivrPktMaxPayload then none
    else if len < rivrPktHdrLen + payloadLen + rivrPktCrcLen then none
    else
      let dataLen := rivrPktHdrLen + payloadLen
      if protocolCrc16 buf dataLen ≠ u16OfBytes (at' dataLen.toNat) (at' (dataLen.toNat + 1)) then
        none
      else some payloadLen

/-- `unpack_header_from_wire`. -/
def unpackHeaderFromWire (buf : List UInt8) (payloadLen : UInt8) : RivrPktHdr :=
  let at' := fun i => buf.getD i 0
  { magic := u16OfBytes (at' 0) (at' 1)
    version := at' 2
    pktType := at' 3
    flags := at' 4
    ttl := at' 5
    hop := at' 6
    netId := u16OfBytes (at' 7) (at' 8)
    srcId := u32OfBytes (at' 9) (at' 10) (at' 11) (at' 12)
    dstId := u32OfBytes (at' 13) (at' 14) (at' 15) (at' 16)
    seq := u16OfBytes (at' 17) (at' 18)
    pktId := u16OfBytes (at' 19) (at' 20)
    payloadLen := payloadLen
    loopGuard := at' 22 }

/-- `protocol_decode`: the header and the payload pointer (NULL for an empty payload). -/
def protocolDecode (buf : List UInt8) (len : UInt8) :
    Option (RivrPktHdr × Option (List UInt8)) :=
  match validateWireFrame buf len with
  | none => none
  | some payloadLen =>
    some (unpackHeaderFromWire buf payloadLen,
      if payloadLen > 0 then
        some ((buf.drop rivrPktHdrLen.toNat).take payloadLen.toNat) else none)

end Rivr
