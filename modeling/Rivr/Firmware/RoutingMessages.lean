import Rivr.Firmware.ProtocolRoundTrip
import Rivr.Firmware.RouteCache

/-!
# Route requests, route replies and acknowledgements

The control frames that `firmware_core/routing.c` builds, and how the receive path reads their
payloads. A route reply floods: its destination is the node that asked, and every node that
hears it learns from it.
-/

namespace Rivr

open LittleEndian

def routeReqTtl : UInt8 := 4
def routeRplPayloadLen : UInt8 := 9
def ackPayloadLen : UInt8 := 6

/-- The header of a control frame that this node originates. -/
def controlHdr (pktType : UInt8) (myId dstId : UInt32) (seq pktId : UInt16) (payloadLen : UInt8) :
    RivrPktHdr where
  magic := rivrMagic
  version := rivrProtoVer
  pktType := pktType
  flags := 0
  ttl := routeReqTtl
  hop := 0
  netId := 0
  srcId := myId
  dstId := dstId
  seq := seq
  pktId := pktId
  payloadLen := payloadLen
  loopGuard := 0

/-- `routing_build_route_req`, into a buffer of the size of the frame. -/
def routingBuildRouteReq (myId targetId : UInt32) (seq pktId : UInt16) : Option (List UInt8) :=
  protocolEncode (controlHdr pktRouteReq myId targetId seq pktId 0) none 0 []
    (rivrPktHdrLen + rivrPktCrcLen)

/-- The payload of a route reply: where to, over which next hop of the replier, and how far from
it. -/
structure RouteRpl where
  targetId : UInt32
  nextHop : UInt32
  hopCount : UInt8
  deriving DecidableEq, Repr

/-- The nine bytes of the payload of a route reply. -/
def RouteRpl.bytes (rpl : RouteRpl) : List UInt8 :=
  [u32Byte rpl.targetId 0, u32Byte rpl.targetId 8, u32Byte rpl.targetId 16, u32Byte rpl.targetId 24,
    u32Byte rpl.nextHop 0, u32Byte rpl.nextHop 8, u32Byte rpl.nextHop 16, u32Byte rpl.nextHop 24,
    rpl.hopCount]

/-- `routing_build_route_rpl`, into a buffer of 64 bytes. -/
def routingBuildRouteRpl (myId requesterId : UInt32) (rpl : RouteRpl) (seq pktId : UInt16) :
    Option (List UInt8) :=
  protocolEncode (controlHdr pktRouteRpl myId requesterId seq pktId routeRplPayloadLen)
    (some rpl.bytes) routeRplPayloadLen [] 64

/-- The six bytes of the payload of an acknowledgement. -/
def ackBytes (ackSrcId : UInt32) (ackPktId : UInt16) : List UInt8 :=
  [u32Byte ackSrcId 0, u32Byte ackSrcId 8, u32Byte ackSrcId 16, u32Byte ackSrcId 24,
    u16Byte ackPktId 0, u16Byte ackPktId 8]

/-- `routing_build_ack`, into a buffer of the size of the frame. -/
def routingBuildAck (myId dstId ackSrcId : UInt32) (ackPktId seq pktId : UInt16) :
    Option (List UInt8) :=
  protocolEncode (controlHdr pktAck myId dstId seq pktId ackPayloadLen)
    (some (ackBytes ackSrcId ackPktId)) ackPayloadLen []
    (rivrPktHdrLen + ackPayloadLen + rivrPktCrcLen)

/-- Reading the payload of a route reply, if it is long enough. -/
def parseRouteRpl (hdr : RivrPktHdr) (pl : Option (List UInt8)) : Option RouteRpl := do
  let p ← pl
  if hdr.payloadLen < routeRplPayloadLen then none
  else
    some ⟨u32OfBytes (p.getD 0 0) (p.getD 1 0) (p.getD 2 0) (p.getD 3 0),
      u32OfBytes (p.getD 4 0) (p.getD 5 0) (p.getD 6 0) (p.getD 7 0), p.getD 8 0⟩

/-- Reading the payload of an acknowledgement, if it is long enough: the sender and the packet
id it is for. -/
def parseAck (hdr : RivrPktHdr) (pl : Option (List UInt8)) : Option (UInt32 × UInt16) := do
  let p ← pl
  if hdr.payloadLen < ackPayloadLen then none
  else
    some (u32OfBytes (p.getD 0 0) (p.getD 1 0) (p.getD 2 0) (p.getD 3 0),
      u16OfBytes (p.getD 4 0) (p.getD 5 0))

variable {rcacheSize : ℕ}

/-- `routing_should_reply_route_req`: the answer and the cache it leaves. -/
def routingShouldReplyRouteReq (pkt : RivrPktHdr) (myId : UInt32) (cache : RouteCache rcacheSize)
    (nowMs : UInt32) : Bool × RouteCache rcacheSize :=
  if pkt.pktType ≠ pktRouteReq then (false, cache)
  else if pkt.dstId = myId then (true, cache)
  else routeCacheCanReplyForDst cache pkt.dstId nowMs

/-- What a node answers to a route request it should reply to: itself as the target, or its
cached route, unless that has just expired. -/
def routeReply (pkt : RivrPktHdr) (myId : UInt32) (cache : RouteCache rcacheSize)
    (nowMs : UInt32) : Option RouteRpl × RouteCache rcacheSize :=
  if pkt.dstId = myId then (some ⟨myId, myId, 0⟩, cache)
  else
    ((routeCacheLookup cache pkt.dstId nowMs).1.map fun e => ⟨pkt.dstId, e.nextHop, e.hopCount⟩,
      (routeCacheLookup cache pkt.dstId nowMs).2)

/-! ### Round trips -/

/-- A control frame and its payload, as a receiver decodes it. -/
theorem protocolDecode_control {pktType : UInt8} {payload : List UInt8} {len : UInt8}
    (htype : 1 ≤ pktType ∧ pktType ≤ pktMetrics) (hlen : payload.length = len.toNat)
    (hmax : len.toNat ≤ 230) (hne : payload ≠ []) (myId dstId : UInt32) (seq pktId : UInt16) :
    protocolDecode (wireFrame (controlHdr pktType myId dstId seq pktId len) payload)
        (UInt8.ofNat (25 + payload.length)) =
      some (controlHdr pktType myId dstId seq pktId len, some payload) := by
  have hof : UInt8.ofNat payload.length = len := by rw [hlen, UInt8.ofNat_toNat]
  have hcap : 25 + payload.length ≤ (UInt8.ofNat (25 + payload.length)).toNat := by
    rw [UInt8.toNat_ofNat_of_lt' (by simp only [UInt8.size]; omega)]
  have hdec := protocolDecode_wireFrame (controlHdr pktType myId dstId seq pktId len) [] htype
    (hlen.trans_le hmax) hcap
  rw [List.append_nil, hof, payloadPtr, if_neg hne] at hdec
  exact hdec

/-- The reply a node reads is the one that was sent. -/
theorem parseRouteRpl_bytes (rpl : RouteRpl) {hdr : RivrPktHdr}
    (hlen : hdr.payloadLen = routeRplPayloadLen) : parseRouteRpl hdr (some rpl.bytes) = some rpl := by
  have hlong : ¬hdr.payloadLen < routeRplPayloadLen := by rw [hlen]; decide
  simp [parseRouteRpl, hlong, RouteRpl.bytes]

/-- The acknowledgement a node reads is the one that was sent. -/
theorem parseAck_bytes (ackSrcId : UInt32) (ackPktId : UInt16) {hdr : RivrPktHdr}
    (hlen : hdr.payloadLen = ackPayloadLen) :
    parseAck hdr (some (ackBytes ackSrcId ackPktId)) = some (ackSrcId, ackPktId) := by
  have hlong : ¬hdr.payloadLen < ackPayloadLen := by rw [hlen]; decide
  simp [parseAck, hlong, ackBytes]

theorem routingBuildAck_eq (myId dstId ackSrcId : UInt32) (ackPktId seq pktId : UInt16) :
    routingBuildAck myId dstId ackSrcId ackPktId seq pktId =
      some (wireFrame (controlHdr pktAck myId dstId seq pktId ackPayloadLen)
        (ackBytes ackSrcId ackPktId)) := by
  have hcap : 25 + (ackBytes ackSrcId ackPktId).length ≤
      (rivrPktHdrLen + ackPayloadLen + rivrPktCrcLen).toNat := le_refl 31
  have hlen : (ackBytes ackSrcId ackPktId).length ≤ 230 := (by decide : 6 ≤ 230)
  exact protocolEncode_eq_some (.inl rfl) hlen hcap _ _

theorem routingBuildRouteRpl_eq (myId requesterId : UInt32) (rpl : RouteRpl) (seq pktId : UInt16) :
    routingBuildRouteRpl myId requesterId rpl seq pktId =
      some (wireFrame (controlHdr pktRouteRpl myId requesterId seq pktId routeRplPayloadLen)
        rpl.bytes) := by
  have hcap : 25 + rpl.bytes.length ≤ (64 : UInt8).toNat := (by decide : 34 ≤ 64)
  have hlen : rpl.bytes.length ≤ 230 := (by decide : 9 ≤ 230)
  exact protocolEncode_eq_some (.inl rfl) hlen hcap _ _

theorem routingBuildRouteReq_eq (myId targetId : UInt32) (seq pktId : UInt16) :
    routingBuildRouteReq myId targetId seq pktId =
      some (wireFrame (controlHdr pktRouteReq myId targetId seq pktId 0) []) := by
  have hnull : PointsTo none [] := .inr ⟨rfl, rfl⟩
  exact protocolEncode_eq_some hnull (by decide)
    (by decide : 25 ≤ (rivrPktHdrLen + rivrPktCrcLen).toNat) _ _

end Rivr
