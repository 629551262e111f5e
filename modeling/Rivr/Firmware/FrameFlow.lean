import Rivr.Firmware.Reception
import Rivr.Firmware.RetryLifecycle

/-!
# What nodes transmit

For each entry point of the firmware the frames it can push to the transmit queue, and what it
does to the two tables that hold frames for later, the retry table and the pending queue: the sink
(`SinkEffect`), the receive loop (`RxEffect`) and the tick of the retry table (`mem_tickScan`,
`mem_tickScan_txQueue`). Facts about every frame in a mesh are proved from these.
-/

namespace Rivr

open SlotTable LittleEndian

variable {cfg : BuildConfig}

/-! ### Frames -/

/-- The bytes are a frame with the header and the payload. -/
structure IsFrame (data : List UInt8) (hdr : RivrPktHdr) (payload : List UInt8) : Prop where
  decode : protocolDecode data (UInt8.ofNat data.length) = some (hdr, payloadPtr payload)
  type : 1 ≤ hdr.pktType ∧ hdr.pktType ≤ pktMetrics
  length_le : payload.length ≤ 230
  payloadLen : hdr.payloadLen = UInt8.ofNat payload.length

theorem isFrame_wireFrame (hdr : RivrPktHdr) {payload : List UInt8}
    (htype : 1 ≤ hdr.pktType ∧ hdr.pktType ≤ pktMetrics) (hlen : payload.length ≤ 230) :
    IsFrame (wireFrame hdr payload) (hdr.onWire (UInt8.ofNat payload.length)) payload := by
  refine ⟨?_, htype, hlen, rfl⟩
  have hcap : 25 + payload.length ≤ (UInt8.ofNat (wireFrame hdr payload).length).toNat := by
    rw [wireFrame_length, UInt8.toNat_ofNat_of_lt' (by simp only [UInt8.size]; omega)]
  have hdec := protocolDecode_wireFrame hdr [] htype hlen hcap
  rwa [List.append_nil] at hdec

/-- What decodes is a frame. -/
theorem isFrame_of_protocolDecode {data : List UInt8} {hdr : RivrPktHdr}
    {pl : Option (List UInt8)}
    (h : protocolDecode data (UInt8.ofNat data.length) = some (hdr, pl)) :
    ∃ payload, pl = payloadPtr payload ∧ IsFrame data hdr payload := by
  have hlen : (UInt8.ofNat data.length).toNat ≤ data.length := by
    rw [UInt8.toNat_ofNat']
    exact Nat.mod_le _ _
  obtain ⟨payload, hpoints, hpl, hpayloadLen, -⟩ := wireFrame_of_protocolDecode hlen h
  obtain ⟨n, hvalid, hhdr, hptr⟩ := protocolDecode_eq_some_iff.mp h
  obtain ⟨-, -, -, htype, -⟩ := validateWireFrame_eq_some_iff.mp hvalid
  have heq : pl = payloadPtr payload := by
    rw [payloadPtr]
    rcases hpoints with rfl | ⟨rfl, rfl⟩
    · refine (if_neg ?_).symm
      rintro rfl
      -- an empty payload is returned as NULL
      have hn : n = 0 := by rw [hhdr] at hpayloadLen; exact hpayloadLen
      rw [hn] at hptr
      cases hptr
    · rfl
  refine ⟨payload, heq, heq ▸ h, ?_, hpl, hpayloadLen⟩
  rw [hhdr]
  exact htype

theorem IsFrame.pointsTo {data payload : List UInt8} {hdr : RivrPktHdr}
    (_ : IsFrame data hdr payload) : PointsTo (payloadPtr payload) payload := by
  rw [payloadPtr]
  split_ifs with hnil
  · exact Or.inr ⟨rfl, hnil⟩
  · exact Or.inl rfl

theorem payloadPtr_getD (payload : List UInt8) : (payloadPtr payload).getD [] = payload := by
  rw [payloadPtr]
  split_ifs with hnil
  · exact hnil.symm
  · rfl

/-- The payload of a frame can be encoded again, under any header. -/
theorem IsFrame.protocolEncode {data payload : List UInt8} {hdr : RivrPktHdr}
    (h : IsFrame data hdr payload) (hdr' : RivrPktHdr) (outBuf : List UInt8) :
    protocolEncode hdr' (payloadPtr payload) hdr.payloadLen outBuf rfMaxPayloadLen =
      some (wireFrame hdr' payload) := by
  have hcap : 25 + payload.length ≤ rfMaxPayloadLen.toNat := Nat.add_le_add_left h.length_le 25
  rw [h.payloadLen]
  exact protocolEncode_eq_some h.pointsTo h.length_le hcap hdr' outBuf

theorem IsFrame.unique {data payload payload' : List UInt8} {hdr hdr' : RivrPktHdr}
    (h : IsFrame data hdr payload) (h' : IsFrame data hdr' payload') :
    hdr = hdr' ∧ payload = payload' := by
  obtain ⟨rfl, hptr⟩ := Prod.mk.inj (Option.some.inj (h.decode.symm.trans h'.decode))
  refine ⟨rfl, ?_⟩
  rw [← payloadPtr_getD payload, hptr, payloadPtr_getD]

/-! ### The sink -/

/-- The header of the unicast copy of a packet. -/
def unicastHdr (pkt : RivrPktHdr) (nextHop : UInt32) : RivrPktHdr :=
  { pkt with
    dstId := nextHop
    ttl := 1
    flags := if needsAck pkt.pktType then pkt.flags ||| pktFlagAckReq else pkt.flags }

/-- The unicast copy, and the node after it was registered. -/
theorem toNextHop_of_isFrame (node : RadioNode cfg) {pkt : RivrPktHdr} {payload data : List UInt8}
    (h : IsFrame data pkt payload) (nextHop nowMs : UInt32) :
    node.toNextHop pkt payload data nextHop nowMs =
      (wireFrame (unicastHdr pkt nextHop) payload,
        if needsAck pkt.pktType then { node with
          retryTable := (retryTableEnqueue node.retryTable node.myNodeId pkt.pktId pkt.dstId nextHop
            (wireFrame (unicastHdr pkt nextHop) payload)
            (cfg.toaApproxUs (wireFrame { pkt with dstId := nextHop, ttl := 1 } payload)) nowMs).2 }
        else node) := by
  have henc : protocolEncode { pkt with dstId := nextHop, ttl := 1 } (some payload)
      (UInt8.ofNat payload.length) data rfMaxPayloadLen =
        some (wireFrame { pkt with dstId := nextHop, ttl := 1 } payload) := by
    have hcap : 25 + payload.length ≤ rfMaxPayloadLen.toNat := Nat.add_le_add_left h.length_le 25
    exact protocolEncode_eq_some (Or.inl rfl) h.length_le hcap _ _
  have hack : requestAck (wireFrame { pkt with dstId := nextHop, ttl := 1 } payload) =
      wireFrame { pkt with
        dstId := nextHop, ttl := 1, flags := pkt.flags ||| pktFlagAckReq } payload :=
    writeCrc_set_flags_wireFrame h.length_le _ _
  rw [RadioNode.toNextHop, henc]
  dsimp only
  rw [hack, unicastHdr]
  split_ifs <;> rfl

/-- What the sink does with a frame for which it has a route: the copy is pushed, and registered
if its type is acknowledged. -/
theorem rfTxSinkCb_unicast_eq {node : RadioNode cfg} {value payload : List UInt8}
    {pkt : RivrPktHdr} {nowMs : UInt32} {route : RivrRoute}
    (h : IsFrame (sinkData value) pkt payload) (hdst : pkt.dstId ≠ 0)
    (hroute : node.chosenRoute pkt.dstId nowMs = some route) :
    ∃ toaUs ctrlSeq fwdBudget, rfTxSinkCb node value nowMs = { node.routed pkt.dstId nowMs with
      txQueue := (rbTryPush node.txQueue ⟨wireFrame (unicastHdr pkt route.nextHopId) payload,
        cfg.toaApproxUs (wireFrame (unicastHdr pkt route.nextHopId) payload), 0⟩).2
      retryTable := if needsAck pkt.pktType then
          (retryTableEnqueue node.retryTable node.myNodeId pkt.pktId pkt.dstId route.nextHopId
            (wireFrame (unicastHdr pkt route.nextHopId) payload) toaUs nowMs).2
        else node.retryTable
      ctrlSeq := ctrlSeq
      fwdBudget := fwdBudget } := by
  rw [rfTxSinkCb_unicast h.decode hdst hroute, payloadPtr_getD, toNextHop_of_isFrame _ h]
  dsimp only
  split_ifs
  · obtain ⟨ctrlSeq, fwdBudget, hpush⟩ := pushOriginated_eq { node.routed pkt.dstId nowMs with
      retryTable := (retryTableEnqueue node.retryTable node.myNodeId pkt.pktId pkt.dstId
        route.nextHopId (wireFrame (unicastHdr pkt route.nextHopId) payload)
        (cfg.toaApproxUs (wireFrame { pkt with dstId := route.nextHopId, ttl := 1 } payload))
        nowMs).2 } pkt payload (wireFrame (unicastHdr pkt route.nextHopId) payload)
    exact ⟨_, ctrlSeq, fwdBudget, hpush⟩
  · obtain ⟨ctrlSeq, fwdBudget, hpush⟩ := pushOriginated_eq (node.routed pkt.dstId nowMs) pkt
      payload (wireFrame (unicastHdr pkt route.nextHopId) payload)
    exact ⟨0, ctrlSeq, fwdBudget, hpush⟩

/-- A frame that waited is encoded again with the next hop as its destination and a TTL of 1. -/
theorem reencodeAsUnicastHop_of_isFrame {data payload : List UInt8} {hdr : RivrPktHdr}
    (h : IsFrame data hdr payload) (nextHop toaUs : UInt32) :
    reencodeAsUnicastHop data nextHop toaUs =
      some ⟨wireFrame { hdr with dstId := nextHop, ttl := 1 } payload, toaUs, 0⟩ := by
  rw [reencodeAsUnicastHop, h.decode]
  simp only [Option.bind_eq_bind, Option.bind_some, h.protocolEncode]
  rfl

/-- Only a frame is encoded again. -/
theorem isFrame_of_reencodeAsUnicastHop {data : List UInt8} {nextHop toaUs : UInt32}
    {req : RfTxRequest} (h : reencodeAsUnicastHop data nextHop toaUs = some req) :
    ∃ hdr payload, IsFrame data hdr payload := by
  obtain ⟨⟨hdr, pl⟩, hdec, -⟩ := Option.bind_eq_some_iff.mp h
  obtain ⟨payload, -, hframe⟩ := isFrame_of_protocolDecode hdec
  exact ⟨hdr, payload, hframe⟩

/-! ### The relay -/

/-- The relay step of the node pushes the request. -/
def RadioNode.RelayPushes (node : RadioNode cfg) (env : RxVerdicts) (frame : RfRxFrame)
    (nowMs : UInt32) (req : RfTxRequest) : Prop :=
  ∃ hdr pl, node.Accepts env frame hdr pl nowMs ∧
    (node.floodDecision frame hdr nowMs).result = .forward ∧
    (((node.received frame hdr nowMs).handle frame hdr pl nowMs).node.relay env frame
        (node.floodDecision frame hdr nowMs).pkt pl nowMs).txQueue.items =
      ((node.received frame hdr nowMs).handle frame hdr pl nowMs).node.txQueue.items ++ [req]

/-- What a relay encodes: the relayed header, with a TTL that the policy may have lowered. -/
theorem relayRequest_of_isFrame {frame : RfRxFrame} {hdr : RivrPktHdr} {payload : List UInt8}
    (h : IsFrame frame.data hdr payload) (node : RadioNode cfg) (env : RxVerdicts)
    (nowMs : UInt32) :
    node.relayRequest env frame (relayHdr hdr) (payloadPtr payload) nowMs =
      some ⟨wireFrame { relayHdr hdr with
          ttl := (policyCheck node.policy (relayHdr hdr) nowMs).2.1 } payload,
        cfg.toaApproxUs frame.data, nowMs + env.delayMs⟩ := by
  have hlen : (relayHdr hdr).payloadLen = hdr.payloadLen := rfl
  rw [RadioNode.relayRequest, hlen, h.protocolEncode]
  rfl

/-- What a relay may push: the frame with the relayed header, and a TTL no greater than that. -/
theorem RadioNode.RelayPushes.data {node : RadioNode cfg} {env : RxVerdicts} {frame : RfRxFrame}
    {nowMs : UInt32} {req : RfTxRequest} (h : node.RelayPushes env frame nowMs req)
    {hdr : RivrPktHdr} {payload : List UInt8} (hframe : IsFrame frame.data hdr payload) :
    hdr.ttl ≠ 0 ∧ ∃ ttl ≤ hdr.ttl - 1,
      req.data = wireFrame { relayHdr hdr with ttl := ttl } payload := by
  obtain ⟨hdr', pl, hacc, hforward, hpush⟩ := h
  obtain ⟨rfl, rfl⟩ := Prod.mk.inj (Option.some.inj (hframe.decode.symm.trans hacc.decoded))
  obtain ⟨-, httl, -, hpkt⟩ := of_routingFloodForward_forward hforward
  rw [RadioNode.floodDecision, hpkt] at hpush
  obtain ⟨policy, hsame | ⟨req', hreq', hrelay⟩⟩ := relay_cases
    ((node.received frame hdr nowMs).handle frame hdr (payloadPtr payload) nowMs).node env frame
    (relayHdr hdr) (payloadPtr payload) nowMs
  · rw [hsame] at hpush
    simp at hpush
  · rw [hrelay] at hpush
    rw [relayRequest_of_isFrame hframe] at hreq'
    rw [eq_of_rbTryPush hpush, ← Option.some.inj hreq']
    exact ⟨httl, _, policyCheck_ttl_le _ (relayHdr hdr) nowMs, rfl⟩

/-! ### What the sink does -/

/-- The frames that the sink can push. -/
inductive SinkPush (node : RadioNode cfg) (value : List UInt8) (nowMs : UInt32) : List UInt8 → Prop
  /-- The value is no frame. -/
  | raw : protocolDecode (sinkData value) (UInt8.ofNat (sinkData value).length) = none →
      SinkPush node value nowMs (sinkData value)
  /-- The frame is for every node. -/
  | flood {pkt : RivrPktHdr} {payload : List UInt8} : IsFrame (sinkData value) pkt payload →
      pkt.dstId = 0 → SinkPush node value nowMs (sinkData value)
  /-- A route is asked for. -/
  | routeReq (dstId : UInt32) (seq pktId : UInt16) : SinkPush node value nowMs
      (wireFrame (controlHdr pktRouteReq node.myNodeId dstId seq pktId 0) [])
  /-- The frame is for the next hop. -/
  | unicast {pkt : RivrPktHdr} {payload : List UInt8} {route : RivrRoute} :
      IsFrame (sinkData value) pkt payload → pkt.dstId ≠ 0 →
      node.chosenRoute pkt.dstId nowMs = some route →
      SinkPush node value nowMs (wireFrame (unicastHdr pkt route.nextHopId) payload)

/-- The value is a frame that finds no route. -/
def SinkWaits (node : RadioNode cfg) (value : List UInt8) (nowMs : UInt32) : Prop :=
  ∃ pkt payload, IsFrame (sinkData value) pkt payload ∧ pkt.dstId ≠ 0 ∧
    node.chosenRoute pkt.dstId nowMs = none

/-- The value is a frame that is registered in the retry table, which it leaves as `rt`. -/
def SinkRegisters (node : RadioNode cfg) (value : List UInt8) (nowMs : UInt32)
    (rt : RetryTable cfg.retryTableSize) : Prop :=
  ∃ pkt payload route toaUs, IsFrame (sinkData value) pkt payload ∧ pkt.dstId ≠ 0 ∧
    node.chosenRoute pkt.dstId nowMs = some route ∧ needsAck pkt.pktType = true ∧
    rt = (retryTableEnqueue node.retryTable node.myNodeId pkt.pktId pkt.dstId route.nextHopId
      (wireFrame (unicastHdr pkt route.nextHopId) payload) toaUs nowMs).2

/-- What the sink does to the frames that a node keeps. -/
structure SinkEffect (node : RadioNode cfg) (value : List UInt8) (nowMs : UInt32)
    (node' : RadioNode cfg) : Prop where
  id : node'.myNodeId = node.myNodeId
  queue : ∀ req ∈ node'.txQueue.items, req ∈ node.txQueue.items ∨
    SinkPush node value nowMs req.data
  pending : ∀ e ∈ node'.pendingQueue.entries, e.valid = true → e ∈ node.pendingQueue.entries ∨
    (SinkWaits node value nowMs ∧ e.data = sinkData value)
  retry : node'.retryTable = node.retryTable ∨ SinkRegisters node value nowMs node'.retryTable

theorem mem_pendingExpireScan {nowMs : UInt32} {es : List PendingEntry} {e : PendingEntry}
    (h : e ∈ (pendingExpireScan nowMs es).2) (hvalid : e.valid = true) : e ∈ es := by
  induction es with
  | nil => cases h
  | cons x es ih =>
    rw [pendingExpireScan] at h
    split_ifs at h
    · rcases List.mem_cons.mp h with rfl | h
      · cases hvalid
      · exact List.mem_cons_of_mem _ (ih h)
    · rcases List.mem_cons.mp h with rfl | h
      · exact List.mem_cons_self
      · exact List.mem_cons_of_mem _ (ih h)

/-- What waits after a frame was saved waited before, or is the frame. -/
theorem mem_pendingQueueEnqueue {pq : PendingQueue} {dstId toaUs nowMs : UInt32}
    {data : List UInt8} {e : PendingEntry}
    (h : e ∈ (pendingQueueEnqueue pq dstId data toaUs nowMs).2.entries) (hvalid : e.valid = true) :
    e ∈ pq.entries ∨ e.data = data.take rfMaxPayloadLen.toNat := by
  rw [pendingQueueEnqueue] at h
  split_ifs at h
  · exact .inl h
  · dsimp only at h
    split at h
    · exact .inl (mem_pendingExpireScan h hvalid)
    · rcases List.mem_or_eq_of_mem_set h with h | rfl
      · exact .inl (mem_pendingExpireScan h hvalid)
      · exact .inr rfl

theorem sinkData_take (value : List UInt8) :
    (sinkData value).take rfMaxPayloadLen.toNat = sinkData value := by
  rw [sinkData, List.take_take, min_self]

theorem sinkEffect_rfTxSinkCb (node : RadioNode cfg) (value : List UInt8) (nowMs : UInt32) :
    SinkEffect node value nowMs (rfTxSinkCb node value nowMs) := by
  rcases hdec : protocolDecode (sinkData value) (UInt8.ofNat (sinkData value).length) with
    _ | ⟨pkt, pl⟩
  · rw [rfTxSinkCb_raw hdec]
    refine ⟨rfl, fun req hreq => ?_, fun e he _ => .inl he, .inl rfl⟩
    rcases mem_rbTryPush hreq with hold | rfl
    · exact .inl hold
    · exact .inr (.raw hdec)
  obtain ⟨payload, rfl, hframe⟩ := isFrame_of_protocolDecode hdec
  by_cases hdst : pkt.dstId = 0
  · obtain ⟨ctrlSeq, fwdBudget, hpush⟩ := pushOriginated_eq node pkt
      ((payloadPtr payload).getD []) (sinkData value)
    rw [rfTxSinkCb_flood hdec hdst, hpush]
    refine ⟨rfl, fun req hreq => ?_, fun e he _ => .inl he, .inl rfl⟩
    rcases mem_rbTryPush hreq with hold | rfl
    · exact .inl hold
    · exact .inr (.flood hframe hdst)
  rcases hroute : node.chosenRoute pkt.dstId nowMs with _ | route
  · rw [rfTxSinkCb_miss hdec hdst hroute, RadioNode.awaitRoute, routingBuildRouteReq_eq]
    refine ⟨rfl, fun req hreq => ?_, fun e he hvalid => ?_, .inl rfl⟩
    · rcases mem_rbTryPush hreq with hold | rfl
      · exact .inl hold
      · exact .inr (.routeReq _ _ _)
    · refine (mem_pendingQueueEnqueue he hvalid).imp_right fun heq => ?_
      exact ⟨⟨pkt, payload, hframe, hdst, hroute⟩, heq.trans (sinkData_take value)⟩
  · obtain ⟨toaUs, ctrlSeq, fwdBudget, heq⟩ := rfTxSinkCb_unicast_eq hframe hdst hroute
    rw [heq]
    refine ⟨rfl, fun req hreq => ?_, fun e he _ => .inl he, ?_⟩
    · rcases mem_rbTryPush hreq with hold | rfl
      · exact .inl hold
      · exact .inr (.unicast hframe hdst hroute)
    · dsimp only
      split_ifs with hack
      · exact .inr ⟨pkt, payload, route, toaUs, hframe, hdst, hroute, hack, rfl⟩
      · exact .inl rfl

/-- The frame of an application leaves the id of the node alone. -/
theorem sourceHandleBleOrigination_myNodeId (node : RadioNode cfg) (data : List UInt8)
    (allowed : Bool) (nowMs : UInt32) :
    (sourceHandleBleOrigination node data allowed nowMs).myNodeId = node.myNodeId := by
  rcases sourceHandleBleOrigination_cases node data allowed nowMs with
    ⟨ctrlSeq, hsame⟩ | ⟨hdr, pl, normalized, -, -, -, hsink⟩
  · rw [hsame]
  · obtain ⟨ctrlSeq, hnum⟩ := numbered_eq node hdr
    rw [hsink, (sinkEffect_rfTxSinkCb _ _ _).id, hnum]

/-! ### What receiving does -/

/-- The frames that a node can push for one that reached its handlers. -/
inductive RxPush (node : RadioNode cfg) (frame : RfRxFrame) (hdr : RivrPktHdr)
    (pl : Option (List UInt8)) : List UInt8 → Prop
  /-- The acknowledgement that was asked for. -/
  | ack (seq pktId : UInt16) : hdr.flags &&& pktFlagAckReq ≠ 0 → hdr.dstId = node.myNodeId →
      hdr.pktType ≠ pktAck → RxPush node frame hdr pl
        (wireFrame (controlHdr pktAck node.myNodeId hdr.srcId seq pktId ackPayloadLen)
          (ackBytes hdr.srcId hdr.pktId))
  /-- The answer to a route request. -/
  | routeRpl (rpl : RouteRpl) (seq pktId : UInt16) : RxPush node frame hdr pl
      (wireFrame (controlHdr pktRouteRpl node.myNodeId hdr.srcId seq pktId routeRplPayloadLen)
        rpl.bytes)
  /-- A frame that waited for the route. -/
  | pending {e : PendingEntry} {nextHop : UInt32} {req : RfTxRequest} :
      e ∈ node.pendingQueue.entries → e.valid = true →
      reencodeAsUnicastHop e.data nextHop e.toaUs = some req → RxPush node frame hdr pl req.data
  /-- The frame itself, relayed. -/
  | relay {payload : List UInt8} (ttl : UInt8) : pl = payloadPtr payload →
      IsFrame frame.data hdr payload →
      RxPush node frame hdr pl (wireFrame { relayHdr hdr with ttl := ttl } payload)

/-- The retry table after a frame: an acknowledgement clears the entry it is for. -/
def ackedTable {n : ℕ} (rt : RetryTable n) (hdr : RivrPktHdr) (pl : Option (List UInt8)) :
    RetryTable n :=
  if hdr.pktType = pktAck then
    match parseAck hdr pl with
    | none => rt
    | some (ackSrcId, ackPktId) => (retryTableAck rt ackSrcId ackPktId).2
  else rt

/-- What receiving does to the frames that a node keeps. -/
structure RxEffect (node : RadioNode cfg) (frame : RfRxFrame) (hdr : RivrPktHdr)
    (pl : Option (List UInt8)) (node' : RadioNode cfg) : Prop where
  id : node'.myNodeId = node.myNodeId
  queue : ∀ req ∈ node'.txQueue.items, req ∈ node.txQueue.items ∨ RxPush node frame hdr pl req.data
  pending : ∀ e ∈ node'.pendingQueue.entries, e.valid = true → e ∈ node.pendingQueue.entries
  retry : node'.retryTable = ackedTable node.retryTable hdr pl

/-- What a drain leaves waiting was waiting, and what it pushes was. -/
theorem drainScan_spec {dstId nextHop nowMs : UInt32} (es : List PendingEntry) (d : PendingDrain) :
    (∀ e ∈ (drainScan dstId nextHop nowMs es d).1, e.valid = true → e ∈ es) ∧
      ∀ req ∈ (drainScan dstId nextHop nowMs es d).2.txQueue.items, req ∈ d.txQueue.items ∨
        ∃ e ∈ es, e.valid = true ∧ reencodeAsUnicastHop e.data nextHop e.toaUs = some req := by
  induction es generalizing d with
  | nil => exact ⟨fun e he _ => he, fun req hreq => .inl hreq⟩
  | cons x es ih =>
    rw [drainScan]
    split_ifs with hskip hexpired
    · obtain ⟨hwait, hpush⟩ := ih d
      refine ⟨fun e he hvalid => ?_, fun req hreq => ?_⟩
      · rcases List.mem_cons.mp he with rfl | he
        · exact List.mem_cons_self
        · exact List.mem_cons_of_mem _ (hwait e he hvalid)
      · refine (hpush req hreq).imp_right ?_
        rintro ⟨e, he, h⟩
        exact ⟨e, List.mem_cons_of_mem _ he, h⟩
    all_goals
      rw [not_or, not_not, not_not] at hskip
    · obtain ⟨hwait, hpush⟩ := ih d.clear
      refine ⟨fun e he hvalid => ?_, fun req hreq => ?_⟩
      · rcases List.mem_cons.mp he with rfl | he
        · cases hvalid
        · exact List.mem_cons_of_mem _ (hwait e he hvalid)
      · refine (hpush req hreq).imp_right ?_
        rintro ⟨e, he, h⟩
        exact ⟨e, List.mem_cons_of_mem _ he, h⟩
    · obtain ⟨hwait, hpush⟩ := ih (d.send x nextHop).clear
      refine ⟨fun e he hvalid => ?_, fun req hreq => ?_⟩
      · rcases List.mem_cons.mp he with rfl | he
        · cases hvalid
        · exact List.mem_cons_of_mem _ (hwait e he hvalid)
      · rcases hpush req hreq with hold | ⟨e, he, h⟩
        · -- the frame of this slot may have been sent
          change req ∈ (d.send x nextHop).txQueue.items at hold
          rw [PendingDrain.send] at hold
          split at hold
          · exact .inl hold
          · rename_i sent hsent
            refine (mem_rbTryPush hold).imp_right fun heq => ?_
            exact ⟨x, List.mem_cons_self, hskip.1, heq ▸ hsent⟩
        · exact .inr ⟨e, List.mem_cons_of_mem _ he, h⟩

variable {node : RadioNode cfg} {env : RxVerdicts} {frame : RfRxFrame} {hdr : RivrPktHdr}
  {pl : Option (List UInt8)} {nowMs : UInt32}

/-- Of what the handlers push, the acknowledgement comes first. -/
theorem rxPush_of_mem_sendAck (htype : hdr.pktType ≠ pktAck) {req : RfTxRequest}
    (h : req ∈ (node.sendAck hdr).txQueue.items) :
    req ∈ node.txQueue.items ∨ RxPush node frame hdr pl req.data := by
  rw [RadioNode.sendAck] at h
  split_ifs at h with hasks
  · dsimp only at h
    rw [routingBuildAck_eq] at h
    rcases mem_rbTryPush h with hold | rfl
    · exact .inl hold
    · exact .inr (.ack _ _ hasks.1 hasks.2 htype)
  · exact .inl h

theorem rxPush_of_mem_handleRouteReq {req : RfTxRequest}
    (h : req ∈ (node.handleRouteReq hdr nowMs).txQueue.items) :
    req ∈ node.txQueue.items ∨ RxPush node frame hdr pl req.data := by
  rw [RadioNode.handleRouteReq] at h
  dsimp only at h
  split_ifs at h
  · split at h
    · exact .inl h
    · rw [routingBuildRouteRpl_eq] at h
      rcases mem_rbTryPush h with hold | rfl
      · exact .inl hold
      · exact .inr (.routeRpl _ _ _)
  · exact .inl h

/-- A drain of the pending queue. -/
theorem pendingQueueDrainForDst_spec (pq : PendingQueue) (dstId nextHop : UInt32)
    (txQueue : TxQueue) (nowMs : UInt32) :
    (∀ e ∈ (pendingQueueDrainForDst pq dstId nextHop txQueue nowMs).2.1.entries, e.valid = true →
        e ∈ pq.entries) ∧
      ∀ req ∈ (pendingQueueDrainForDst pq dstId nextHop txQueue nowMs).2.2.items,
        req ∈ txQueue.items ∨
          ∃ e ∈ pq.entries, e.valid = true ∧
            reencodeAsUnicastHop e.data nextHop e.toaUs = some req := by
  rw [pendingQueueDrainForDst]
  split_ifs
  · exact ⟨fun e he _ => he, fun req hreq => .inl hreq⟩
  · exact drainScan_spec pq.entries ⟨txQueue, pq.count, 0⟩

theorem rxEffect_handleRouteRpl (htype : hdr.pktType ≠ pktAck) :
    RxEffect node frame hdr pl (node.handleRouteRpl frame hdr pl nowMs) := by
  have hretry : node.retryTable = ackedTable node.retryTable hdr pl := (if_neg htype).symm
  rw [RadioNode.handleRouteRpl]
  split
  · exact ⟨rfl, fun req hreq => .inl hreq, fun e he _ => he, hretry⟩
  · rename_i rpl hrpl
    obtain ⟨hwait, hpush⟩ := pendingQueueDrainForDst_spec node.pendingQueue rpl.targetId
      (effectiveNextHop frame hdr) node.txQueue nowMs
    refine ⟨rfl, fun req hreq => ?_, hwait, hretry⟩
    refine (hpush req hreq).imp_right ?_
    rintro ⟨e, he, hvalid, hsent⟩
    exact .pending he hvalid hsent

/-- What a node can push depends on its id and on what waits only. -/
theorem RxPush.of_keeps {node' : RadioNode cfg} (hid : node'.myNodeId = node.myNodeId)
    (hpending : node'.pendingQueue = node.pendingQueue) {data : List UInt8}
    (h : RxPush node' frame hdr pl data) : RxPush node frame hdr pl data := by
  cases h with
  | ack seq pktId hflag hdst hne =>
    rw [hid] at hdst ⊢
    exact .ack seq pktId hflag hdst hne
  | routeRpl rpl seq pktId =>
    rw [hid]
    exact .routeRpl rpl seq pktId
  | pending he hvalid hsent => exact .pending (hpending ▸ he) hvalid hsent
  | relay ttl hpl hframe => exact .relay ttl hpl hframe

theorem handleAck_retryTable (hack : hdr.pktType = pktAck) :
    (node.handleAck hdr pl).retryTable = ackedTable node.retryTable hdr pl := by
  rw [RadioNode.handleAck, ackedTable, if_pos hack]
  cases parseAck hdr pl <;> rfl

/-- Acknowledging changes neither what waits nor what is registered. -/
theorem sendAck_keeps (node : RadioNode cfg) (hdr : RivrPktHdr) :
    (node.sendAck hdr).myNodeId = node.myNodeId ∧
      (node.sendAck hdr).pendingQueue = node.pendingQueue ∧
      (node.sendAck hdr).retryTable = node.retryTable := by
  obtain ⟨ctrlSeq, txQueue, heq⟩ := sendAck_eq node hdr
  rw [heq]
  exact ⟨rfl, rfl, rfl⟩

/-- What the handlers do after the acknowledgement. -/
theorem RxEffect.sendAck {node' : RadioNode cfg} (htype : hdr.pktType ≠ pktAck)
    (h : RxEffect (node.sendAck hdr) frame hdr pl node') : RxEffect node frame hdr pl node' := by
  obtain ⟨hid, hpending, hretry⟩ := sendAck_keeps node hdr
  refine ⟨h.id.trans hid, fun req hreq => ?_, ?_, ?_⟩
  · rcases h.queue req hreq with hold | hpush
    · exact rxPush_of_mem_sendAck htype hold
    · exact .inr (hpush.of_keeps hid hpending)
  · rw [← hpending]
    exact h.pending
  · rw [← hretry]
    exact h.retry

theorem rxEffect_handle (node : RadioNode cfg) (frame : RfRxFrame) (hdr : RivrPktHdr)
    (pl : Option (List UInt8)) (nowMs : UInt32) :
    RxEffect node frame hdr pl (node.handle frame hdr pl nowMs).node := by
  have hsame : ∀ node : RadioNode cfg, hdr.pktType ≠ pktAck → RxEffect node frame hdr pl node :=
    fun node htype => ⟨rfl, fun req hreq => .inl hreq, fun e he _ => he, (if_neg htype).symm⟩
  rw [RadioNode.handle]
  dsimp only
  split_ifs with hack hbeacon hpush hreq hrpl
  · obtain ⟨retryTable, heq⟩ := handleAck_eq node hdr pl
    refine ⟨by rw [heq], fun req hreq => .inl ?_, fun e he _ => ?_, ?_⟩
    · rwa [heq] at hreq
    · rwa [heq] at he
    · exact handleAck_retryTable hack
  · exact (hsame _ hack).sendAck hack
  · exact (hsame _ hack).sendAck hack
  · refine RxEffect.sendAck hack ?_
    obtain ⟨routeCache, ctrlSeq, txQueue, heq, -⟩ := handleRouteReq_eq (node.sendAck hdr) hdr nowMs
    refine ⟨by rw [heq], fun req hreq => rxPush_of_mem_handleRouteReq hreq, fun e he _ => ?_, ?_⟩
    · rwa [heq] at he
    · rw [heq]
      exact (hsame _ hack).retry
  · exact (rxEffect_handleRouteRpl hack).sendAck hack
  · exact (hsame _ hack).sendAck hack

/-- **One turn of the receive loop.** -/
theorem rxEffect_rfRxFrame (h : node.Accepts env frame hdr pl nowMs) :
    RxEffect node frame hdr pl (rfRxFrame node env frame nowMs).1 := by
  obtain ⟨payload, hpl, hframe⟩ := isFrame_of_protocolDecode h.decoded
  rw [rfRxFrame_of_accepts h]
  have hhandle := rxEffect_handle (node.received frame hdr nowMs) frame hdr pl nowMs
  -- the frame meets a node with the same queues and tables
  have hid : (node.received frame hdr nowMs).myNodeId = node.myNodeId := rfl
  have hpending : (node.received frame hdr nowMs).pendingQueue = node.pendingQueue := rfl
  have hhandled : RxEffect node frame hdr pl
      ((node.received frame hdr nowMs).handle frame hdr pl nowMs).node := by
    refine ⟨hhandle.id, fun req hreq => ?_, hhandle.pending, hhandle.retry⟩
    exact (hhandle.queue req hreq).imp_right fun hpush => hpush.of_keeps hid hpending
  dsimp only
  rw [RxHandled.relayed]
  split_ifs with hforward
  · obtain ⟨-, -, -, hpkt⟩ := of_routingFloodForward_forward hforward.2
    rw [RadioNode.floodDecision, hpkt]
    obtain ⟨policy, hkeep | ⟨req, hreq, hrelay⟩⟩ := relay_cases
      ((node.received frame hdr nowMs).handle frame hdr pl nowMs).node env frame (relayHdr hdr) pl
      nowMs
    · rw [hkeep]
      exact ⟨hhandled.id, hhandled.queue, hhandled.pending, hhandled.retry⟩
    · rw [hrelay]
      refine ⟨hhandled.id, fun r hr => ?_, hhandled.pending, hhandled.retry⟩
      rcases mem_rbTryPush hr with hold | rfl
      · exact hhandled.queue r hold
      · rw [hpl, relayRequest_of_isFrame hframe] at hreq
        rw [← Option.some.inj hreq]
        exact .inr (.relay _ hpl hframe)
  · exact hhandled

/-! ### What a tick does -/

/-- The header of the flood of a message that was not acknowledged. -/
def expiredHdr (hdr : RivrPktHdr) (pktId : UInt16) : RivrPktHdr :=
  { hdr with
    flags := (hdr.flags &&& ~~~pktFlagAckReq) ||| pktFlagFallback
    ttl := rivrFallbackTtl
    hop := 0
    dstId := 0
    pktId := pktId
    loopGuard := 0 }

theorem buildFallbackFlood_wireFrame {payload : List UInt8} (hlen : payload.length ≤ 230)
    (hdr : RivrPktHdr) (pktId : UInt16) :
    buildFallbackFlood (wireFrame hdr payload) pktId = wireFrame (expiredHdr hdr pktId) payload := by
  obtain ⟨x, y, hframe⟩ := exists_openFrame_eq_wireFrame hdr payload
  let flags : UInt8 := (hdr.flags &&& ~~~pktFlagAckReq) ||| pktFlagFallback
  have hflags : (openFrame hdr payload x y).set 4 flags =
      openFrame { hdr with flags := flags } payload x y := rfl
  have hhops : ∀ hdr : RivrPktHdr, ((openFrame hdr payload x y).set 5 rivrFallbackTtl).set 6 0 =
      openFrame { hdr with ttl := rivrFallbackTtl, hop := 0 } payload x y := fun _ => rfl
  have hzero : u32Byte 0 0 = 0 ∧ u32Byte 0 8 = 0 ∧ u32Byte 0 16 = 0 ∧ u32Byte 0 24 = 0 := by decide
  have hdst : ∀ hdr : RivrPktHdr,
      (((((openFrame hdr payload x y).set 13 0).set 14 0).set 15 0).set 16 0).set 22 0 =
        openFrame { hdr with dstId := 0, loopGuard := 0 } payload x y := by
    intro hdr
    rw [openFrame, openFrame, packHeader, packHeader, hzero.1, hzero.2.1, hzero.2.2.1, hzero.2.2.2]
    rfl
  have hget : (openFrame hdr payload x y).getD 4 0 = hdr.flags := rfl
  rw [hframe, buildFallbackFlood, hget, hflags, hhops, hdst, patchPktIdAndCrc_openFrame hlen]
  rfl

/-- The packet ids under which a tick sends frames again, in slot order. -/
def resentIds (nowMs : UInt32) : List RetryEntry → RetryTick → List UInt16
  | [], _ => []
  | e :: es, t =>
    let rest := resentIds nowMs es (tickEntry e t nowMs).2
    if e.valid ∧ e.Due nowMs ∧ e.retriesLeft > 0 then t.freshPktId :: rest else rest

section Tick

variable {nowMs : UInt32} {e e' : RetryEntry} {es : List RetryEntry} {t : RetryTick}

/-- A slot that a tick leaves valid was valid, and is as it was or was sent again under one of the
ids. -/
theorem tickEntry_valid (es : List RetryEntry) (h : (tickEntry e t nowMs).1.valid = true) :
    e.valid = true ∧ ((tickEntry e t nowMs).1 = e ∨
      ((tickEntry e t nowMs).1 = e.resend t.freshPktId nowMs ∧
        resentIds nowMs (e :: es) t = t.freshPktId :: resentIds nowMs es (tickEntry e t nowMs).2)) := by
  have hout := tickOutcome e t nowMs
  have hids : resentIds nowMs (e :: es) t = if e.valid ∧ e.Due nowMs ∧ e.retriesLeft > 0 then
      t.freshPktId :: resentIds nowMs es (tickEntry e t nowMs).2
    else resentIds nowMs es (tickEntry e t nowMs).2 := rfl
  generalize tickEntry e t nowMs = r at hout h hids ⊢
  rcases hout with _ | ⟨hvalid, hdue, hleft⟩ | ⟨-, -, -⟩
  · exact ⟨h, .inl rfl⟩
  · exact ⟨hvalid, .inr ⟨rfl, hids.trans (if_pos ⟨hvalid, hdue, hleft⟩)⟩⟩
  · exact nomatch h

theorem mem_resentIds_cons {pktId : UInt16} (h : pktId ∈ resentIds nowMs es (tickEntry e t nowMs).2) :
    pktId ∈ resentIds nowMs (e :: es) t := by
  rw [resentIds]
  split_ifs
  · exact List.mem_cons_of_mem _ h
  · exact h

/-- The valid slots after a tick. -/
theorem mem_tickScan (h : e' ∈ (tickScan nowMs es t).1) (hvalid : e'.valid = true) :
    ∃ e ∈ es, e.valid = true ∧ (e' = e ∨ ∃ pktId ∈ resentIds nowMs es t, e' = e.resend pktId nowMs) := by
  induction es generalizing t with
  | nil => exact nomatch h
  | cons e es ih =>
    rcases List.mem_cons.mp h with rfl | h
    · obtain ⟨hold, hsame | ⟨hsent, hids⟩⟩ := tickEntry_valid es hvalid
      · exact ⟨e, List.mem_cons_self, hold, .inl hsame⟩
      · refine ⟨e, List.mem_cons_self, hold, .inr ⟨t.freshPktId, ?_, hsent⟩⟩
        rw [hids]
        exact List.mem_cons_self
    · obtain ⟨x, hx, hold, hsame | ⟨pktId, hid, hsent⟩⟩ := ih h
      · exact ⟨x, List.mem_cons_of_mem _ hx, hold, .inl hsame⟩
      · exact ⟨x, List.mem_cons_of_mem _ hx, hold, .inr ⟨pktId, mem_resentIds_cons hid, hsent⟩⟩

/-- The frame that a due slot sends, under the id that its turn takes. -/
def tickFrame (e : RetryEntry) (t : RetryTick) : List UInt8 :=
  if e.retriesLeft > 0 then patchPktIdAndCrc e.data t.freshPktId
  else buildFallbackFlood e.data t.freshPktId

/-- What a tick pushes: one frame of each due slot at most. -/
theorem mem_tickScan_txQueue {req : RfTxRequest}
    (h : req ∈ (tickScan nowMs es t).2.txQueue.items) :
    req ∈ t.txQueue.items ∨ ∃ (k : ℕ) (e : RetryEntry) (t' : RetryTick), es[k]? = some e ∧
      (tickCarried nowMs es t)[k]? = some t' ∧ e.valid = true ∧ e.Due nowMs ∧
      req.data = tickFrame e t' := by
  induction es generalizing t with
  | nil => exact .inl h
  | cons e es ih =>
    have hout := tickOutcome e t nowMs
    rcases ih (t := (tickEntry e t nowMs).2) h with hold | ⟨k, x, t', hx, ht', hsent⟩
    · -- the turn of this slot
      clear h ih
      generalize tickEntry e t nowMs = r at hout hold
      rcases hout with _ | ⟨hvalid, hdue, hleft⟩ | ⟨hvalid, hdue, hleft⟩
      · exact .inl hold
      · refine (mem_rbTryPush hold).imp_right fun heq => ⟨0, e, t, rfl, rfl, hvalid, hdue, ?_⟩
        rw [heq, tickFrame, if_pos hleft]
        rfl
      · refine (mem_rbTryPush hold).imp_right fun heq => ⟨0, e, t, rfl, rfl, hvalid, hdue, ?_⟩
        rw [heq, tickFrame, if_neg (by rw [hleft]; decide)]
    · exact .inr ⟨k + 1, x, t', hx, ht', hsent⟩

/-- What a due slot sends again is its frame after the tick. -/
theorem tickEntry_of_due (hvalid : e.valid = true) (hdue : e.Due nowMs) (hleft : e.retriesLeft > 0) :
    (tickEntry e t nowMs).1 = e.resend t.freshPktId nowMs := by
  rw [tickEntry, if_neg (by simp [hvalid, hdue]), if_pos hleft]

/-- A tick that takes new ids only, each of them once, keeps the ids of the slots apart. -/
theorem oneEach_tickScan (hone : OneEach (·.valid = true) RetryEntry.curPktId es)
    (hnodup : (resentIds nowMs es t).Nodup)
    (hnew : ∀ e ∈ es, e.valid = true → e.curPktId ∉ resentIds nowMs es t) :
    OneEach (·.valid = true) RetryEntry.curPktId (tickScan nowMs es t).1 := by
  induction es generalizing t with
  | nil => exact hone
  | cons e es ih =>
    rw [oneEach_cons] at hone
    have hrest : OneEach (·.valid = true) RetryEntry.curPktId
        (tickScan nowMs es (tickEntry e t nowMs).2).1 := by
      refine ih hone.1 ?_ fun x hx hvalid hid => ?_
      · rw [resentIds] at hnodup
        split_ifs at hnodup
        · exact hnodup.of_cons
        · exact hnodup
      · exact hnew x (List.mem_cons_of_mem _ hx) hvalid (mem_resentIds_cons hid)
    have hscan : (tickScan nowMs (e :: es) t).1 =
        (tickEntry e t nowMs).1 :: (tickScan nowMs es (tickEntry e t nowMs).2).1 := rfl
    rw [hscan, oneEach_cons]
    refine ⟨hrest, fun hvalid y hy hvy hkey => ?_⟩
    obtain ⟨x, hx, hvx, hy⟩ := mem_tickScan hy hvy
    obtain ⟨hve, hsame | ⟨hsent, hids⟩⟩ := tickEntry_valid es hvalid
    · rw [hsame] at hkey
      rcases hy with rfl | ⟨pktId, hid, rfl⟩
      · exact hone.2 hve y hx hvx hkey
      · -- the later slot took the id that this one has
        refine hnew e List.mem_cons_self hve ?_
        rw [← hkey]
        exact mem_resentIds_cons hid
    · rw [hsent] at hkey
      rw [hids] at hnodup hnew
      rcases hy with rfl | ⟨pktId, hid, rfl⟩
      · exact hnew y (List.mem_cons_of_mem _ hx) hvx (hkey ▸ List.mem_cons_self)
      · have hsame : pktId = t.freshPktId := hkey
        exact (List.nodup_cons.mp hnodup).1 (hsame ▸ hid)

end Tick
end Rivr
