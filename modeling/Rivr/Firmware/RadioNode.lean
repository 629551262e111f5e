import Rivr.Firmware.FloodForward
import Rivr.Firmware.FrameRewrite
import Rivr.Firmware.PendingQueue
import Rivr.Firmware.Policy
import Rivr.Firmware.RetryTable
import Rivr.Firmware.RoutingMessages

/-!
# A node, and how it transmits

The state that the receive and transmit paths of `rivr_layer` share, and `rfTxSinkCb`, the sink
through which every originated frame goes: with a route to its destination it is rewritten for
the next hop and registered for an acknowledgement; without one it waits for a route request to
be answered.
-/

namespace Rivr

/-- What a build fixes: the sizes of the tables, the feature flags, the role, and the symbol
time of the radio settings. -/
structure BuildConfig where
  rcacheSize : ℕ
  retryTableSize : ℕ
  airtimeRouting : Bool
  isClient : Bool
  toaSymUs : UInt32
  rcacheSize_ne_zero : rcacheSize ≠ 0

instance (cfg : BuildConfig) : NeZero cfg.rcacheSize := ⟨cfg.rcacheSize_ne_zero⟩

/-- A client with the default settings. -/
def clientBuild : BuildConfig where
  rcacheSize := 32
  retryTableSize := 8
  airtimeRouting := false
  isClient := true
  toaSymUs := 4096
  rcacheSize_ne_zero := by decide

/-- `RF_TOA_APPROX_US` of a frame. -/
def BuildConfig.toaApproxUs (cfg : BuildConfig) (data : List UInt8) : UInt32 :=
  49 * cfg.toaSymUs / 4 + (8 * UInt32.ofNat data.length + 43) / 32 * 8 * cfg.toaSymUs

/-- The globals of a node. -/
structure RadioNode (cfg : BuildConfig) where
  myNodeId : UInt32
  netId : UInt16
  dedupe : DedupeCache
  fwdBudget : ForwardBudget
  routeCache : RouteCache cfg.rcacheSize
  ntbl : RivrNeighborTable
  retryTable : RetryTable cfg.retryTableSize
  pendingQueue : PendingQueue
  txQueue : TxQueue
  policy : PolicyState
  ctrlSeq : UInt32

/-- The globals after `rivr_embed_init`. -/
def RadioNode.init (cfg : BuildConfig) (role : NodeRole) (myNodeId : UInt32) (netId : UInt16) :
    RadioNode cfg where
  myNodeId := myNodeId
  netId := netId
  dedupe := routingDedupeInit
  fwdBudget := routingFwdbudgetInit role
  routeCache := routeCacheInit cfg.rcacheSize
  ntbl := neighborTableInit
  retryTable := retryTableInit cfg.retryTableSize
  pendingQueue := pendingQueueInit
  txQueue := TxQueue.empty
  policy := policyInit
  ctrlSeq := 0

/-- A client that has received nothing yet. -/
def freshClient : RadioNode clientBuild := .init clientBuild .client 0xA 0

variable {cfg : BuildConfig}

/-- A push to the transmit queue. -/
def RadioNode.push (node : RadioNode cfg) (req : RfTxRequest) : Bool × RadioNode cfg :=
  ((rbTryPush node.txQueue req).1, { node with txQueue := (rbTryPush node.txQueue req).2 })

/-- `++g_ctrl_seq`. -/
def RadioNode.bumpSeq (node : RadioNode cfg) : RadioNode cfg :=
  { node with ctrlSeq := node.ctrlSeq + 1 }

/-- The control sequence number as the 16-bit number frames carry. -/
def RadioNode.seq16 (node : RadioNode cfg) : UInt16 := node.ctrlSeq.toUInt16

/-- Pushing a control frame, if it could be built. -/
def RadioNode.pushControl (node : RadioNode cfg) : Option (List UInt8) → RadioNode cfg
  | none => node
  | some frame => (node.push ⟨frame, cfg.toaApproxUs frame, 0⟩).2

/-! ### The sink -/

/-- The types whose unicast frames are acknowledged. -/
def needsAck (pktType : UInt8) : Bool :=
  pktType ≠ pktAck ∧ pktType ≠ pktRouteReq ∧ pktType ≠ pktRouteRpl ∧ pktType ≠ pktBeacon

/-- Asking the receiver of an encoded frame for an acknowledgement. -/
def requestAck (data : List UInt8) : List UInt8 :=
  writeCrc (data.set 4 (data.getD 4 0 ||| pktFlagAckReq))

/-- The miss branch of the sink: the frame waits, and a route request goes out. -/
def RadioNode.awaitRoute (node : RadioNode cfg) (pkt : RivrPktHdr) (data : List UInt8)
    (nowMs : UInt32) : RadioNode cfg :=
  let pq := (pendingQueueEnqueue node.pendingQueue pkt.dstId data (cfg.toaApproxUs data) nowMs).2
  let node := { node with pendingQueue := pq }.bumpSeq
  node.pushControl (routingBuildRouteReq node.myNodeId pkt.dstId node.seq16 node.seq16)

/-- The unicast branch of the sink: the frame for the next hop, and the node after the frame was
registered for an acknowledgement. -/
def RadioNode.toNextHop (node : RadioNode cfg) (pkt : RivrPktHdr) (payload data : List UInt8)
    (nextHop nowMs : UInt32) : List UInt8 × RadioNode cfg :=
  match protocolEncode { pkt with dstId := nextHop, ttl := 1 } (some payload)
      (UInt8.ofNat payload.length) data rfMaxPayloadLen with
  -- a frame that does not fit is sent as it came
  | none => (data, node)
  | some frame =>
    if needsAck pkt.pktType then
      (requestAck frame, { node with
        retryTable := (retryTableEnqueue node.retryTable node.myNodeId pkt.pktId pkt.dstId nextHop
          (requestAck frame) (cfg.toaApproxUs frame) nowMs).2 })
    else (frame, node)

/-- The header of the flood that replaces a unicast frame the transmit queue had no room for. -/
def fallbackHdr (pkt : RivrPktHdr) (pktId : UInt16) : RivrPktHdr :=
  { pkt with
    dstId := 0
    ttl := rivrFallbackTtl
    hop := 0
    pktId := pktId
    flags := (pkt.flags &&& ~~~pktFlagRelay) ||| pktFlagFallback }

/-- The fallback flood. -/
def RadioNode.fallbackFlood (node : RadioNode cfg) (pkt : RivrPktHdr) (payload data : List UInt8) :
    Bool × RadioNode cfg :=
  let node := node.bumpSeq
  match protocolEncode (fallbackHdr pkt node.seq16) (some payload) (UInt8.ofNat payload.length)
      data rfMaxPayloadLen with
  | none => (false, node)
  | some frame => node.push ⟨frame, cfg.toaApproxUs frame, 0⟩

/-- An originated frame that went out is counted under its type. -/
def RadioNode.countOriginated (node : RadioNode cfg) (pktType : UInt8) : RadioNode cfg :=
  if pktType < fwdbudgetPktTypes then
    { node with fwdBudget := { node.fwdBudget with
        txOriginatedCount := node.fwdBudget.txOriginatedCount.setIfInBounds pktType.toNat
          (node.fwdBudget.txOriginatedCount.getD pktType.toNat 0 + 1) } }
  else node

/-- The push at the end of the sink, for a frame that could be decoded. -/
def RadioNode.pushOriginated (node : RadioNode cfg) (pkt : RivrPktHdr)
    (payload frame : List UInt8) : RadioNode cfg :=
  let (ok, node) := node.push ⟨frame, cfg.toaApproxUs frame, 0⟩
  if ok then node.countOriginated pkt.pktType
  -- a broadcast that finds the queue full is lost
  else if pkt.dstId = 0 then node
  else
    let (ok, node) := node.fallbackFlood pkt payload frame
    -- the fallback counts as the frame it replaces
    if ok then node.countOriginated pkt.pktType else node

/-- `rf_tx_sink_cb` on a byte value. -/
def rfTxSinkCb (node : RadioNode cfg) (value : List UInt8) (nowMs : UInt32) : RadioNode cfg :=
  let data := value.take rfMaxPayloadLen.toNat
  match protocolDecode data (UInt8.ofNat data.length) with
  -- bytes that are no frame go out unchanged and are not counted
  | none => (node.push ⟨data, cfg.toaApproxUs data, 0⟩).2
  | some (pkt, pl) =>
    let payload := pl.getD []
    if pkt.dstId = 0 then node.pushOriginated pkt payload data
    else
      let (route, routeCache, ntbl) := routeCacheBestHop cfg.airtimeRouting node.routeCache
        (some node.ntbl) pkt.dstId nowMs
      let node := { node with routeCache := routeCache, ntbl := ntbl.getD node.ntbl }
      match route with
      -- without a route the frame waits for one
      | none => node.awaitRoute pkt data nowMs
      | some route =>
        let (frame, node) := node.toNextHop pkt payload data route.nextHopId nowMs
        node.pushOriginated pkt payload frame

/-! ### The branches of the sink -/

/-- The bytes of a value that the sink takes. -/
def sinkData (value : List UInt8) : List UInt8 := value.take rfMaxPayloadLen.toNat

/-- The route the sink chooses, if it has one. -/
def RadioNode.chosenRoute (node : RadioNode cfg) (dstId nowMs : UInt32) : Option RivrRoute :=
  (routeCacheBestHop cfg.airtimeRouting node.routeCache (some node.ntbl) dstId nowMs).1

/-- The node after the sink looked for a route. -/
def RadioNode.routed (node : RadioNode cfg) (dstId nowMs : UInt32) : RadioNode cfg :=
  { node with
    routeCache :=
      (routeCacheBestHop cfg.airtimeRouting node.routeCache (some node.ntbl) dstId nowMs).2.1
    ntbl := (routeCacheBestHop cfg.airtimeRouting node.routeCache (some node.ntbl) dstId
      nowMs).2.2.getD node.ntbl }

theorem rfTxSinkCb_raw {node : RadioNode cfg} {value : List UInt8} {nowMs : UInt32}
    (hdec : protocolDecode (sinkData value) (UInt8.ofNat (sinkData value).length) = none) :
    rfTxSinkCb node value nowMs =
      (node.push ⟨sinkData value, cfg.toaApproxUs (sinkData value), 0⟩).2 := by
  rw [sinkData] at hdec
  rw [rfTxSinkCb, hdec]
  rfl

theorem rfTxSinkCb_flood {node : RadioNode cfg} {value : List UInt8} {nowMs : UInt32}
    {pkt : RivrPktHdr} {pl : Option (List UInt8)}
    (hdec : protocolDecode (sinkData value) (UInt8.ofNat (sinkData value).length) = some (pkt, pl))
    (hdst : pkt.dstId = 0) :
    rfTxSinkCb node value nowMs = node.pushOriginated pkt (pl.getD []) (sinkData value) := by
  rw [sinkData] at hdec
  rw [rfTxSinkCb, hdec]
  exact if_pos hdst

theorem rfTxSinkCb_miss {node : RadioNode cfg} {value : List UInt8} {nowMs : UInt32}
    {pkt : RivrPktHdr} {pl : Option (List UInt8)}
    (hdec : protocolDecode (sinkData value) (UInt8.ofNat (sinkData value).length) = some (pkt, pl))
    (hdst : pkt.dstId ≠ 0) (hroute : node.chosenRoute pkt.dstId nowMs = none) :
    rfTxSinkCb node value nowMs =
      (node.routed pkt.dstId nowMs).awaitRoute pkt (sinkData value) nowMs := by
  rw [sinkData] at hdec
  rw [RadioNode.chosenRoute] at hroute
  rw [rfTxSinkCb, hdec]
  dsimp only
  rw [if_neg hdst, hroute]
  rfl

theorem rfTxSinkCb_unicast {node : RadioNode cfg} {value : List UInt8} {nowMs : UInt32}
    {pkt : RivrPktHdr} {pl : Option (List UInt8)} {route : RivrRoute}
    (hdec : protocolDecode (sinkData value) (UInt8.ofNat (sinkData value).length) = some (pkt, pl))
    (hdst : pkt.dstId ≠ 0) (hroute : node.chosenRoute pkt.dstId nowMs = some route) :
    rfTxSinkCb node value nowMs =
      ((node.routed pkt.dstId nowMs).toNextHop pkt (pl.getD []) (sinkData value) route.nextHopId
        nowMs).2.pushOriginated pkt (pl.getD [])
          ((node.routed pkt.dstId nowMs).toNextHop pkt (pl.getD []) (sinkData value)
            route.nextHopId nowMs).1 := by
  rw [sinkData] at hdec
  rw [RadioNode.chosenRoute] at hroute
  rw [rfTxSinkCb, hdec]
  dsimp only
  rw [if_neg hdst, hroute]
  rfl

/-! ### What the sink changes -/

theorem pushControl_eq (node : RadioNode cfg) (frame : Option (List UInt8)) :
    ∃ txQueue, node.pushControl frame = { node with txQueue := txQueue } := by
  cases frame with
  | none => exact ⟨_, rfl⟩
  | some frame => exact ⟨_, rfl⟩

theorem countOriginated_eq (node : RadioNode cfg) (pktType : UInt8) :
    ∃ fwdBudget, node.countOriginated pktType = { node with fwdBudget := fwdBudget } := by
  rw [RadioNode.countOriginated]
  split_ifs
  · exact ⟨_, rfl⟩
  · exact ⟨_, rfl⟩

/-- The fallback flood comes right after the queue refused a frame, and is refused as well. -/
theorem fallbackFlood_of_refused {node : RadioNode cfg} {req : RfTxRequest}
    (hfull : (rbTryPush node.txQueue req).1 = false) (pkt : RivrPktHdr)
    (payload data : List UInt8) :
    node.fallbackFlood pkt payload data = (false, node.bumpSeq) := by
  rw [RadioNode.fallbackFlood]
  split
  · rfl
  · rw [RadioNode.push, RadioNode.bumpSeq, rbTryPush_of_refused hfull]

/-- The end of the sink pushes the frame; besides the queue it changes the counter of originated
frames and the sequence number. -/
theorem pushOriginated_eq (node : RadioNode cfg) (pkt : RivrPktHdr) (payload frame : List UInt8) :
    ∃ ctrlSeq fwdBudget, node.pushOriginated pkt payload frame =
      { node with
        txQueue := (rbTryPush node.txQueue ⟨frame, cfg.toaApproxUs frame, 0⟩).2
        ctrlSeq := ctrlSeq
        fwdBudget := fwdBudget } := by
  obtain ⟨fwdBudget, hcount⟩ := countOriginated_eq
    (node.push ⟨frame, cfg.toaApproxUs frame, 0⟩).2 pkt.pktType
  rw [RadioNode.pushOriginated]
  dsimp only
  split_ifs with hpushed hdst hflood
  · exact ⟨_, fwdBudget, hcount⟩
  · exact ⟨_, _, rfl⟩
  all_goals
    have hfull : (rbTryPush node.txQueue ⟨frame, cfg.toaApproxUs frame, 0⟩).1 = false :=
      Bool.eq_false_iff.mpr hpushed
    have hsame : (node.push ⟨frame, cfg.toaApproxUs frame, 0⟩).2.txQueue = node.txQueue := by
      rw [RadioNode.push, rbTryPush_of_refused hfull]
    rw [← hsame] at hfull
    rw [fallbackFlood_of_refused hfull] at hflood ⊢
  · exact nomatch hflood
  · exact ⟨_, _, rfl⟩

theorem awaitRoute_eq (node : RadioNode cfg) (pkt : RivrPktHdr) (data : List UInt8)
    (nowMs : UInt32) :
    ∃ pendingQueue txQueue, node.awaitRoute pkt data nowMs =
      { node.bumpSeq with pendingQueue := pendingQueue, txQueue := txQueue } := by
  rw [RadioNode.awaitRoute]
  dsimp only
  obtain ⟨txQueue, hpush⟩ := pushControl_eq (RadioNode.bumpSeq { node with
    pendingQueue := (pendingQueueEnqueue node.pendingQueue pkt.dstId data (cfg.toaApproxUs data)
      nowMs).2 })
    (routingBuildRouteReq node.myNodeId pkt.dstId (node.ctrlSeq + 1).toUInt16
      (node.ctrlSeq + 1).toUInt16)
  exact ⟨_, txQueue, hpush⟩

theorem toNextHop_eq (node : RadioNode cfg) (pkt : RivrPktHdr) (payload data : List UInt8)
    (nextHop nowMs : UInt32) :
    ∃ retryTable, (node.toNextHop pkt payload data nextHop nowMs).2 =
      { node with retryTable := retryTable } := by
  rw [RadioNode.toNextHop]
  split
  · exact ⟨_, rfl⟩
  · split_ifs
    · exact ⟨_, rfl⟩
    · exact ⟨_, rfl⟩

end Rivr
