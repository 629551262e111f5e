import Rivr.Firmware.RadioNode

/-!
# How a node receives

One turn of the loop of `sources_rf_rx_drain` in `rivr_layer/rivr_sources.c`: decoding, the
network filter, the flood decision, reverse learning, acknowledgements, route requests and
replies, the application handlers, and the relay; and `sourceHandleBleOrigination`, which takes
the frames of a BLE application to the sink.

What other parts of the firmware decide about the frame is the argument `RxVerdicts`: whether
the packet bus passes it, and whether and how long the gates in front of the relay hold it back.
-/

namespace Rivr

open LittleEndian

variable {cfg : BuildConfig}

/-- `rf_rx_frame_t`. -/
structure RfRxFrame where
  data : List UInt8
  rssiDbm : Int16
  snrDb : Int8
  fromId : UInt32
  deriving DecidableEq, Repr

/-- What the rest of the firmware decides about a received frame. -/
structure RxVerdicts where
  /-- `rivr_bus_receive`. -/
  busAccepts : Bool
  /-- The fabric, the back-pressure and the forward-set gates let a relayed frame pass. -/
  relayGates : Bool
  delayMs : UInt32

/-- What the application side sees of a frame. -/
inductive AppEvent
  | chatMessage (hdr : RivrPktHdr) (payload : List UInt8)
  | telemetryPublish (hdr : RivrPktHdr) (payload : List UInt8)
  | mailboxStore (hdr : RivrPktHdr) (payload : List UInt8)
  | alertEvent (hdr : RivrPktHdr) (payload : List UInt8)
  | inject (data : List UInt8)
  deriving DecidableEq, Repr

def svcTelemetryPayloadLen : UInt8 := 11
def svcMailboxHdrLen : UInt8 := 7
def svcAlertPayloadLen : UInt8 := 7

/-- The immediate sender of a frame, as far as it is known: 0 if it is not. -/
def immediateSender (frame : RfRxFrame) (hdr : RivrPktHdr) : UInt32 :=
  if frame.fromId = 0 ∧ hdr.hop = 0 then hdr.srcId else frame.fromId

/-- What the neighbour table is told about a frame. -/
def observation (frame : RfRxFrame) (hdr : RivrPktHdr) : Observation :=
  ⟨hdr.srcId, frame.rssiDbm, frame.snrDb, hdr.hop, hdr.seq, UInt8.ofNat frame.data.length⟩

/-- Step 3: the neighbour table, reverse learning, and the look at the route it learned. -/
def RadioNode.learn (node : RadioNode cfg) (frame : RfRxFrame) (hdr : RivrPktHdr)
    (nowMs : UInt32) : RadioNode cfg :=
  let fromId := immediateSender frame hdr
  let cache := routeCacheLearnRx node.routeCache hdr.srcId fromId hdr.hop frame.rssiDbm
    frame.snrDb nowMs
  let cache := if fromId ≠ 0 then
      (routeCacheLookup (routeCacheTxDecide cache hdr.srcId nowMs).2.2 hdr.srcId nowMs).2
    else cache
  { node with ntbl := neighborUpdate node.ntbl (observation frame hdr) nowMs, routeCache := cache }

/-! ### Acknowledgements -/

/-- Step 4a-0: an acknowledgement clears the entry it is for. -/
def RadioNode.handleAck (node : RadioNode cfg) (hdr : RivrPktHdr) (pl : Option (List UInt8)) :
    RadioNode cfg :=
  match parseAck hdr pl with
  | none => node
  | some (ackSrcId, ackPktId) =>
    { node with retryTable := (retryTableAck node.retryTable ackSrcId ackPktId).2 }

/-- Step 4a-1: the acknowledgement of a frame that asks this node for one. -/
def RadioNode.sendAck (node : RadioNode cfg) (hdr : RivrPktHdr) : RadioNode cfg :=
  if hdr.flags &&& pktFlagAckReq ≠ 0 ∧ hdr.dstId = node.myNodeId then
    let node := node.bumpSeq
    node.pushControl
      (routingBuildAck node.myNodeId hdr.srcId hdr.srcId hdr.pktId node.seq16 node.seq16)
  else node

/-! ### Route requests and replies -/

/-- Step 4c: answering a route request. -/
def RadioNode.handleRouteReq (node : RadioNode cfg) (hdr : RivrPktHdr) (nowMs : UInt32) :
    RadioNode cfg :=
  let (should, cache) := routingShouldReplyRouteReq hdr node.myNodeId node.routeCache nowMs
  let node := { node with routeCache := cache }
  if should then
    let (reply, cache) := routeReply hdr node.myNodeId node.routeCache nowMs
    let node := { node with routeCache := cache }
    match reply with
    | none => node
    | some rpl =>
      let node := node.bumpSeq
      node.pushControl (routingBuildRouteRpl node.myNodeId hdr.srcId rpl node.seq16 node.seq16)
  else node

/-- The next hop toward whoever sent a route reply. -/
def effectiveNextHop (frame : RfRxFrame) (hdr : RivrPktHdr) : UInt32 :=
  if immediateSender frame hdr ≠ 0 then immediateSender frame hdr else hdr.srcId

/-- The metric of the link to the next hop: its score in the neighbour table, or its signal
strength alone. -/
def rplMetric (airtimeRouting : Bool) (nb : Option RivrNeighbor) (frame : RfRxFrame)
    (nowMs : UInt32) : UInt8 :=
  match nb with
  | some n => neighborLinkScoreFull airtimeRouting n nowMs
  | none => UInt8.ofNat (clampI32 (frame.rssiDbm.toInt + 140) 0 80).toNat

/-- What a node reports to its cache on a route reply. The hop count is an 8-bit sum. -/
def rplReport (frame : RfRxFrame) (hdr : RivrPktHdr) (rpl : RouteRpl) (metric : UInt8) :
    RouteReport :=
  ⟨rpl.targetId, effectiveNextHop frame hdr, rpl.hopCount + hdr.hop + 1, metric, rcacheFlagValid⟩

/-- Step 5: learning from a route reply, and sending what waited for it. -/
def RadioNode.handleRouteRpl (node : RadioNode cfg) (frame : RfRxFrame) (hdr : RivrPktHdr)
    (pl : Option (List UInt8)) (nowMs : UInt32) : RadioNode cfg :=
  match parseRouteRpl hdr pl with
  | none => node
  | some rpl =>
    let (nb, ntbl) := neighborFind node.ntbl (effectiveNextHop frame hdr) nowMs
    let metric := rplMetric cfg.airtimeRouting nb frame nowMs
    let (_, pendingQueue, txQueue) := pendingQueueDrainForDst node.pendingQueue rpl.targetId
      (effectiveNextHop frame hdr) node.txQueue nowMs
    { node with
      ntbl := ntbl
      routeCache := routeCacheUpdate node.routeCache (rplReport frame hdr rpl metric) nowMs
      pendingQueue := pendingQueue
      txQueue := txQueue }

/-! ### Delivery and relay -/

/-- Steps 5d and 6: the application handlers and the injection. -/
def appEvents (frame : RfRxFrame) (hdr : RivrPktHdr) (pl : Option (List UInt8)) : List AppEvent :=
  let handled : List AppEvent := match pl with
    | none => []
    | some payload =>
      if hdr.pktType = pktChat ∧ hdr.payloadLen > 0 then [.chatMessage hdr payload]
      else if hdr.pktType = pktTelemetry ∧ hdr.payloadLen ≥ svcTelemetryPayloadLen then
        [.telemetryPublish hdr payload]
      else if hdr.pktType = pktMailbox ∧ hdr.payloadLen ≥ svcMailboxHdrLen then
        [.mailboxStore hdr payload]
      else if hdr.pktType = pktAlert ∧ hdr.payloadLen ≥ svcAlertPayloadLen then
        [.alertEvent hdr payload]
      else []
  handled ++ [.inject frame.data]

/-- Step 7: the relay, of a frame that is to be forwarded. -/
def RadioNode.relay (node : RadioNode cfg) (env : RxVerdicts) (frame : RfRxFrame)
    (fwdHdr : RivrPktHdr) (pl : Option (List UInt8)) (nowMs : UInt32) : RadioNode cfg :=
  let (verdict, ttl, policy) := policyCheck node.policy fwdHdr nowMs
  let node := { node with policy := policy }
  if verdict = .drop then node
  else if cfg.isClient ∧ (fwdHdr.pktType = pktChat ∨ fwdHdr.pktType = pktData) then node
  else if !env.relayGates then node
  else
    match protocolEncode { fwdHdr with ttl := ttl } pl fwdHdr.payloadLen
        (List.replicate rfMaxPayloadLen.toNat 0) rfMaxPayloadLen with
    | none => node
    | some relayed => (node.push ⟨relayed, cfg.toaApproxUs frame.data, nowMs + env.delayMs⟩).2

/-- What the steps between learning and relaying do with a frame. -/
structure RxHandled (cfg : BuildConfig) where
  node : RadioNode cfg
  events : List AppEvent
  mayRelay : Bool

/-- Steps 4a-0 to 6. Program pushes are consumed here and never relayed. -/
def RadioNode.handle (node : RadioNode cfg) (frame : RfRxFrame) (hdr : RivrPktHdr)
    (pl : Option (List UInt8)) (nowMs : UInt32) : RxHandled cfg :=
  if hdr.pktType = pktAck then ⟨node.handleAck hdr pl, [], true⟩
  else
    let node := node.sendAck hdr
    if hdr.pktType = pktBeacon then ⟨node, [], true⟩
    else if hdr.pktType = pktProgPush then ⟨node, [], false⟩
    else if hdr.pktType = pktRouteReq then ⟨node.handleRouteReq hdr nowMs, [], true⟩
    else if hdr.pktType = pktRouteRpl then ⟨node.handleRouteRpl frame hdr pl nowMs, [], true⟩
    else ⟨node, appEvents frame hdr pl, true⟩

/-- One frame in `sources_rf_rx_drain`: the node it leaves, and what the application sees. -/
def rfRxFrame (node : RadioNode cfg) (env : RxVerdicts) (frame : RfRxFrame) (nowMs : UInt32) :
    RadioNode cfg × List AppEvent :=
  match protocolDecode frame.data (UInt8.ofNat frame.data.length) with
  | none => (node, [])
  | some (hdr, pl) =>
    if hdr.netId ≠ 0 ∧ hdr.netId ≠ node.netId then (node, [])
    else if !env.busAccepts then (node, [])
    else
      let fwd := routingFloodForward node.dedupe (some node.fwdBudget) hdr
        (cfg.toaApproxUs frame.data) nowMs
      let node := { node with dedupe := fwd.cache, fwdBudget := fwd.fb.getD node.fwdBudget }
      if fwd.result = .dropDedupe then (node, [])
      else
        let handled := (node.learn frame hdr nowMs).handle frame hdr pl nowMs
        if handled.mayRelay ∧ fwd.result = .forward then
          (handled.node.relay env frame fwd.pkt pl nowMs, handled.events)
        else (handled.node, handled.events)

/-! ### Frames of a BLE application -/

/-- The header of an application's frame, brought to what the node's own frames look like. -/
def normalizedHdr (node : RadioNode cfg) (hdr : RivrPktHdr) : RivrPktHdr :=
  { hdr with
    dstId := if hdr.dstId = 0xFFFFFFFF then 0 else hdr.dstId
    netId := if hdr.netId = 0 then node.netId else hdr.netId
    pktId := if hdr.pktId = 0 then node.seq16 else hdr.pktId
    hop := 0
    loopGuard := 0
    flags := hdr.flags &&& ~~~(pktFlagRelay ||| pktFlagFallback) }

/-- `source_handle_ble_origination` on a frame that came over BLE; `allowed` is the answer of the
origination policy. -/
def sourceHandleBleOrigination (node : RadioNode cfg) (data : List UInt8) (allowed : Bool)
    (nowMs : UInt32) : RadioNode cfg :=
  match protocolDecode data (UInt8.ofNat data.length) with
  | none => node
  | some (hdr, pl) =>
    if hdr.srcId = 0 then node
    else if !allowed then node
    else
      let node := if hdr.pktId = 0 then node.bumpSeq else node
      match protocolEncode (normalizedHdr node hdr) pl hdr.payloadLen [] rfMaxPayloadLen with
      | none => node
      | some normalized => rfTxSinkCb node normalized nowMs

end Rivr
