import Rivr.Firmware.Sources

/-!
# What receiving a frame does

The two ways `rfRxFrame` can go (`rfRxFrame_cases`): a frame that is decoded, belongs to the
network, passes the bus and is new reaches the handlers; of any other frame nothing is kept but
what the flood decision notes. What the later facts need of the handlers is said here once, in
terms of the node that the frame meets there, `RadioNode.received`.
-/

namespace Rivr

variable {cfg : BuildConfig}

/-! ### Reaching the handlers -/

/-- The flood decision on a frame. -/
def RadioNode.floodDecision (node : RadioNode cfg) (frame : RfRxFrame) (hdr : RivrPktHdr)
    (nowMs : UInt32) : FloodOutcome :=
  routingFloodForward node.dedupe (some node.fwdBudget) hdr (cfg.toaApproxUs frame.data) nowMs

/-- The node after the flood decision. -/
def RadioNode.flooded (node : RadioNode cfg) (frame : RfRxFrame) (hdr : RivrPktHdr)
    (nowMs : UInt32) : RadioNode cfg :=
  { node with
    dedupe := (node.floodDecision frame hdr nowMs).cache
    fwdBudget := (node.floodDecision frame hdr nowMs).fb.getD node.fwdBudget }

/-- The node that a frame meets when it reaches the handlers. -/
def RadioNode.received (node : RadioNode cfg) (frame : RfRxFrame) (hdr : RivrPktHdr)
    (nowMs : UInt32) : RadioNode cfg :=
  (node.flooded frame hdr nowMs).learn frame hdr nowMs

/-- The frame reaches the handlers, decoded as the header and the payload. -/
structure RadioNode.Accepts (node : RadioNode cfg) (env : RxVerdicts) (frame : RfRxFrame)
    (hdr : RivrPktHdr) (pl : Option (List UInt8)) (nowMs : UInt32) : Prop where
  decoded : protocolDecode frame.data (UInt8.ofNat frame.data.length) = some (hdr, pl)
  network : hdr.netId = 0 ∨ hdr.netId = node.netId
  bus : env.busAccepts = true
  fresh : (routingDedupeCheck node.dedupe hdr.srcId hdr.pktId nowMs).1 = true

/-- The header and the payload of a frame, if it reaches the handlers. -/
def RadioNode.accepted (node : RadioNode cfg) (env : RxVerdicts) (frame : RfRxFrame)
    (nowMs : UInt32) : Option (RivrPktHdr × Option (List UInt8)) := do
  let (hdr, pl) ← protocolDecode frame.data (UInt8.ofNat frame.data.length)
  if (hdr.netId = 0 ∨ hdr.netId = node.netId) ∧ env.busAccepts = true ∧
      (routingDedupeCheck node.dedupe hdr.srcId hdr.pktId nowMs).1 = true then
    some (hdr, pl)
  else none

theorem accepted_eq_some_iff {node : RadioNode cfg} {env : RxVerdicts} {frame : RfRxFrame}
    {hdr : RivrPktHdr} {pl : Option (List UInt8)} {nowMs : UInt32} :
    node.accepted env frame nowMs = some (hdr, pl) ↔ node.Accepts env frame hdr pl nowMs := by
  rw [RadioNode.accepted]
  constructor
  · intro h
    obtain ⟨⟨hdr', pl'⟩, hdec, h⟩ := Option.bind_eq_some_iff.mp h
    dsimp only at h
    split_ifs at h with hacc
    obtain ⟨rfl, rfl⟩ := Prod.mk.inj (Option.some.inj h)
    exact ⟨hdec, hacc.1, hacc.2.1, hacc.2.2⟩
  · rintro ⟨hdec, hnet, hbus, hfresh⟩
    rw [hdec]
    exact if_pos ⟨hnet, hbus, hfresh⟩

/-- The flood decision calls a frame a duplicate exactly when the dedupe cache does. -/
theorem routingFloodForward_eq_dropDedupe {cache : DedupeCache} {fb : Option ForwardBudget}
    {pkt : RivrPktHdr} {toaUs nowMs : UInt32} :
    (routingFloodForward cache fb pkt toaUs nowMs).result = .dropDedupe ↔
      (routingDedupeCheck cache pkt.srcId pkt.pktId nowMs).1 = false := by
  rw [routingFloodForward]
  dsimp only
  split_ifs <;> simp_all

/-- The end of a turn: the relay of a frame that was handled and is to be forwarded. -/
def RxHandled.relayed (handled : RxHandled cfg) (env : RxVerdicts) (frame : RfRxFrame)
    (fwd : FloodOutcome) (pl : Option (List UInt8)) (nowMs : UInt32) : RadioNode cfg :=
  if handled.mayRelay ∧ fwd.result = .forward then handled.node.relay env frame fwd.pkt pl nowMs
  else handled.node

/-- **One turn.** -/
theorem rfRxFrame_of_accepts {node : RadioNode cfg} {env : RxVerdicts} {frame : RfRxFrame}
    {hdr : RivrPktHdr} {pl : Option (List UInt8)} {nowMs : UInt32}
    (h : node.Accepts env frame hdr pl nowMs) :
    rfRxFrame node env frame nowMs =
      ((((node.received frame hdr nowMs).handle frame hdr pl nowMs).relayed env frame
          (node.floodDecision frame hdr nowMs) pl nowMs),
        ((node.received frame hdr nowMs).handle frame hdr pl nowMs).events) := by
  have hnet : ¬(hdr.netId ≠ 0 ∧ hdr.netId ≠ node.netId) :=
    fun hother => h.network.elim hother.1 hother.2
  have hnew : (routingFloodForward node.dedupe (some node.fwdBudget) hdr
      (cfg.toaApproxUs frame.data) nowMs).result ≠ .dropDedupe := by
    rw [ne_eq, routingFloodForward_eq_dropDedupe, h.fresh]
    decide
  rw [rfRxFrame, h.decoded]
  simp only [hnet, if_false, h.bus, Bool.not_true, Bool.false_eq_true]
  rw [if_neg hnew, RxHandled.relayed]
  change (if ((node.received frame hdr nowMs).handle frame hdr pl nowMs).mayRelay = true ∧
    (node.floodDecision frame hdr nowMs).result = .forward then _ else _) = _
  split_ifs <;> rfl

/-- Of a frame that does not reach the handlers only the flood decision is kept. -/
theorem rfRxFrame_of_not_accepts {node : RadioNode cfg} {env : RxVerdicts} {frame : RfRxFrame}
    {nowMs : UInt32} (h : ∀ hdr pl, ¬node.Accepts env frame hdr pl nowMs) :
    ∃ dedupe fwdBudget, rfRxFrame node env frame nowMs =
      ({ node with dedupe := dedupe, fwdBudget := fwdBudget }, []) := by
  rw [rfRxFrame]
  split
  · exact ⟨_, _, rfl⟩
  · rename_i hdr pl hdec
    dsimp only
    split_ifs with hnet hbus hdup hrelay
    · exact ⟨_, _, rfl⟩
    · exact ⟨_, _, rfl⟩
    · exact ⟨_, _, rfl⟩
    all_goals
      refine absurd ⟨hdec, ?_, by simpa using hbus, ?_⟩ (h hdr pl)
      · rwa [not_and_or, not_not, not_not] at hnet
      · exact Bool.eq_true_of_not_eq_false fun hold =>
          hdup (routingFloodForward_eq_dropDedupe.mpr hold)

/-! ### The relay -/

/-- What a relay pushes, if it pushes. -/
def RadioNode.relayRequest (node : RadioNode cfg) (env : RxVerdicts) (frame : RfRxFrame)
    (fwdHdr : RivrPktHdr) (pl : Option (List UInt8)) (nowMs : UInt32) : Option RfTxRequest :=
  (protocolEncode { fwdHdr with ttl := (policyCheck node.policy fwdHdr nowMs).2.1 } pl
    fwdHdr.payloadLen (List.replicate rfMaxPayloadLen.toNat 0) rfMaxPayloadLen).map fun relayed =>
      ⟨relayed, cfg.toaApproxUs frame.data, nowMs + env.delayMs⟩

/-- The copy that the relay step hands to the transmit queue, if the policy, the role and the gates
let it. -/
def RadioNode.relayOffer (node : RadioNode cfg) (env : RxVerdicts) (frame : RfRxFrame)
    (fwdHdr : RivrPktHdr) (pl : Option (List UInt8)) (nowMs : UInt32) : Option RfTxRequest :=
  if (policyCheck node.policy fwdHdr nowMs).1 = .drop then none
  -- a client relays neither chat nor data
  else if cfg.isClient ∧ (fwdHdr.pktType = pktChat ∨ fwdHdr.pktType = pktData) then none
  else if !env.relayGates then none
  else node.relayRequest env frame fwdHdr pl nowMs

/-- **The relay step** changes the policy's buckets, and pushes what it offers. -/
theorem relay_eq (node : RadioNode cfg) (env : RxVerdicts) (frame : RfRxFrame)
    (fwdHdr : RivrPktHdr) (pl : Option (List UInt8)) (nowMs : UInt32) :
    node.relay env frame fwdHdr pl nowMs = { node with
      policy := (policyCheck node.policy fwdHdr nowMs).2.2
      txQueue := match node.relayOffer env frame fwdHdr pl nowMs with
        | none => node.txQueue
        | some req => (rbTryPush node.txQueue req).2 } := by
  rw [RadioNode.relay, RadioNode.relayOffer, RadioNode.relayRequest]
  dsimp only
  split_ifs
  · rfl
  · rfl
  · rfl
  · split
    · rename_i hnone
      rw [hnone]
      rfl
    · rename_i relayed hrelayed
      rw [hrelayed]
      rfl

/-- A relay changes the policy's buckets and the transmit queue, and pushes one frame at most. -/
theorem relay_cases (node : RadioNode cfg) (env : RxVerdicts) (frame : RfRxFrame)
    (fwdHdr : RivrPktHdr) (pl : Option (List UInt8)) (nowMs : UInt32) :
    ∃ policy, node.relay env frame fwdHdr pl nowMs = { node with policy := policy } ∨
      ∃ req, node.relayRequest env frame fwdHdr pl nowMs = some req ∧
        node.relay env frame fwdHdr pl nowMs =
          { node with policy := policy, txQueue := (rbTryPush node.txQueue req).2 } := by
  refine ⟨(policyCheck node.policy fwdHdr nowMs).2.2, ?_⟩
  rw [relay_eq]
  rcases hoffer : node.relayOffer env frame fwdHdr pl nowMs with _ | req
  · exact Or.inl rfl
  · refine Or.inr ⟨req, ?_, rfl⟩
    rw [RadioNode.relayOffer] at hoffer
    split_ifs at hoffer
    exact hoffer

/-- The relay leaves everything but the policy and the queue as the handlers left it. -/
theorem relayed_eq (handled : RxHandled cfg) (env : RxVerdicts) (frame : RfRxFrame)
    (fwd : FloodOutcome) (pl : Option (List UInt8)) (nowMs : UInt32) :
    ∃ policy txQueue, handled.relayed env frame fwd pl nowMs =
      { handled.node with policy := policy, txQueue := txQueue } := by
  rw [RxHandled.relayed]
  split_ifs
  · obtain ⟨policy, hsame | ⟨req, -, hpush⟩⟩ :=
      relay_cases handled.node env frame fwd.pkt pl nowMs
    · exact ⟨policy, handled.node.txQueue, hsame⟩
    · exact ⟨policy, _, hpush⟩
  · exact ⟨_, _, rfl⟩

/-! ### The handlers -/

theorem handleAck_eq (node : RadioNode cfg) (hdr : RivrPktHdr) (pl : Option (List UInt8)) :
    ∃ retryTable, node.handleAck hdr pl = { node with retryTable := retryTable } := by
  rw [RadioNode.handleAck]
  split
  · exact ⟨_, rfl⟩
  · exact ⟨_, rfl⟩

/-- Sending an acknowledgement takes a sequence number and a place in the queue. -/
theorem sendAck_eq (node : RadioNode cfg) (hdr : RivrPktHdr) :
    ∃ ctrlSeq txQueue, node.sendAck hdr = { node with ctrlSeq := ctrlSeq, txQueue := txQueue } := by
  rw [RadioNode.sendAck]
  split_ifs
  · obtain ⟨txQueue, hpush⟩ := pushControl_eq node.bumpSeq (routingBuildAck node.bumpSeq.myNodeId
      hdr.srcId hdr.srcId hdr.pktId node.bumpSeq.seq16 node.bumpSeq.seq16)
    exact ⟨node.ctrlSeq + 1, txQueue, hpush⟩
  · exact ⟨_, _, rfl⟩

theorem routingShouldReplyRouteReq_shrinks (pkt : RivrPktHdr) (myId : UInt32) {n : ℕ}
    (cache : RouteCache n) (nowMs : UInt32) :
    SlotTable.Shrinks RouteCacheEntry.Valid cache.entries
      (routingShouldReplyRouteReq pkt myId cache nowMs).2.entries := by
  rw [routingShouldReplyRouteReq]
  split_ifs
  · exact SlotTable.Shrinks.refl _
  · exact SlotTable.Shrinks.refl _
  · exact routeCacheCanReplyForDst_shrinks cache pkt.dstId nowMs

theorem routeReply_shrinks (pkt : RivrPktHdr) (myId : UInt32) {n : ℕ} (cache : RouteCache n)
    (nowMs : UInt32) :
    SlotTable.Shrinks RouteCacheEntry.Valid cache.entries
      (routeReply pkt myId cache nowMs).2.entries := by
  rw [routeReply]
  split_ifs
  · exact SlotTable.Shrinks.refl _
  · exact routeCacheLookup_shrinks cache pkt.dstId nowMs

/-- Answering a route request clears expired routes at most, and takes a sequence number and a
place in the queue. -/
theorem handleRouteReq_eq (node : RadioNode cfg) (hdr : RivrPktHdr) (nowMs : UInt32) :
    ∃ routeCache ctrlSeq txQueue, node.handleRouteReq hdr nowMs =
        { node with routeCache := routeCache, ctrlSeq := ctrlSeq, txQueue := txQueue } ∧
      SlotTable.Shrinks RouteCacheEntry.Valid node.routeCache.entries routeCache.entries := by
  have hshould := routingShouldReplyRouteReq_shrinks hdr node.myNodeId node.routeCache nowMs
  rw [RadioNode.handleRouteReq]
  dsimp only
  split_ifs
  · have hreply := hshould.trans (routeReply_shrinks hdr node.myNodeId
      (routingShouldReplyRouteReq hdr node.myNodeId node.routeCache nowMs).2 nowMs)
    split
    · exact ⟨_, _, _, rfl, hreply⟩
    · rename_i rpl hrpl
      obtain ⟨txQueue, hpush⟩ := pushControl_eq (RadioNode.bumpSeq { node with
        routeCache := (routeReply hdr node.myNodeId
          (routingShouldReplyRouteReq hdr node.myNodeId node.routeCache nowMs).2 nowMs).2 })
        (routingBuildRouteRpl node.myNodeId hdr.srcId rpl (node.ctrlSeq + 1).toUInt16
          (node.ctrlSeq + 1).toUInt16)
      exact ⟨_, node.ctrlSeq + 1, txQueue, hpush, hreply⟩
  · exact ⟨_, _, _, rfl, hshould⟩

/-- What the handlers change: the tables, the queues and the sequence number. -/
theorem handle_eq (node : RadioNode cfg) (frame : RfRxFrame) (hdr : RivrPktHdr)
    (pl : Option (List UInt8)) (nowMs : UInt32) :
    ∃ routeCache ntbl retryTable pendingQueue txQueue ctrlSeq,
      (node.handle frame hdr pl nowMs).node = { node with
        routeCache := routeCache
        ntbl := ntbl
        retryTable := retryTable
        pendingQueue := pendingQueue
        txQueue := txQueue
        ctrlSeq := ctrlSeq } := by
  obtain ⟨retryTable, hack⟩ := handleAck_eq node hdr pl
  obtain ⟨ctrlSeq, txQueue, hsend⟩ := sendAck_eq node hdr
  obtain ⟨routeCache, ctrlSeq', txQueue', hreq, -⟩ := handleRouteReq_eq (node.sendAck hdr) hdr nowMs
  rw [RadioNode.handle, hack]
  dsimp only
  rw [hreq, hsend]
  split_ifs
  · exact ⟨_, _, _, _, _, _, rfl⟩
  · exact ⟨_, _, _, _, _, _, rfl⟩
  · exact ⟨_, _, _, _, _, _, rfl⟩
  · exact ⟨_, _, _, _, _, _, rfl⟩
  · rw [RadioNode.handleRouteRpl]
    split
    · exact ⟨_, _, _, _, _, _, rfl⟩
    · exact ⟨_, _, _, _, _, _, rfl⟩
  · exact ⟨_, _, _, _, _, _, rfl⟩

/-! ### Frames of a BLE application -/

/-- The node on which the frame of an application is normalized: a frame without a packet id
takes the next sequence number. -/
def RadioNode.numbered (node : RadioNode cfg) (hdr : RivrPktHdr) : RadioNode cfg :=
  if hdr.pktId = 0 then node.bumpSeq else node

theorem numbered_eq (node : RadioNode cfg) (hdr : RivrPktHdr) :
    ∃ ctrlSeq, node.numbered hdr = { node with ctrlSeq := ctrlSeq } := by
  rw [RadioNode.numbered]
  split_ifs
  · exact ⟨_, rfl⟩
  · exact ⟨_, rfl⟩

/-- The frame of an application is dropped, or goes to the sink in normal form. -/
theorem sourceHandleBleOrigination_cases (node : RadioNode cfg) (data : List UInt8)
    (allowed : Bool) (nowMs : UInt32) :
    (∃ ctrlSeq, sourceHandleBleOrigination node data allowed nowMs =
        { node with ctrlSeq := ctrlSeq }) ∨
      ∃ hdr pl normalized, protocolDecode data (UInt8.ofNat data.length) = some (hdr, pl) ∧
        (hdr.srcId ≠ 0 ∧ allowed = true) ∧
        protocolEncode (normalizedHdr (node.numbered hdr) hdr) pl hdr.payloadLen []
          rfMaxPayloadLen = some normalized ∧
        sourceHandleBleOrigination node data allowed nowMs =
          rfTxSinkCb (node.numbered hdr) normalized nowMs := by
  rw [sourceHandleBleOrigination]
  split
  · exact Or.inl ⟨_, rfl⟩
  · rename_i hdr pl hdec
    dsimp only
    rw [← RadioNode.numbered]
    split_ifs with hsrc hallowed
    · exact Or.inl ⟨_, rfl⟩
    · exact Or.inl ⟨_, rfl⟩
    · split
      · exact Or.inl (numbered_eq node hdr)
      · rename_i normalized henc
        exact Or.inr ⟨hdr, pl, normalized, hdec, ⟨hsrc, by simpa using hallowed⟩, henc, rfl⟩

/-! ### The dedupe cache -/

theorem pushOriginated_dedupe (node : RadioNode cfg) (pkt : RivrPktHdr)
    (payload frame : List UInt8) : (node.pushOriginated pkt payload frame).dedupe = node.dedupe := by
  obtain ⟨ctrlSeq, fwdBudget, hpush⟩ := pushOriginated_eq node pkt payload frame
  rw [hpush]

/-- The sink does not touch it. -/
theorem rfTxSinkCb_dedupe (node : RadioNode cfg) (value : List UInt8) (nowMs : UInt32) :
    (rfTxSinkCb node value nowMs).dedupe = node.dedupe := by
  rcases hdec : protocolDecode (sinkData value) (UInt8.ofNat (sinkData value).length) with
    _ | ⟨pkt, pl⟩
  · rw [rfTxSinkCb_raw hdec]
    rfl
  · by_cases hdst : pkt.dstId = 0
    · rw [rfTxSinkCb_flood hdec hdst, pushOriginated_dedupe]
    · rcases hroute : node.chosenRoute pkt.dstId nowMs with _ | route
      · obtain ⟨pendingQueue, txQueue, hwait⟩ :=
          awaitRoute_eq (node.routed pkt.dstId nowMs) pkt (sinkData value) nowMs
        rw [rfTxSinkCb_miss hdec hdst hroute, hwait]
        rfl
      · obtain ⟨retryTable, hhop⟩ := toNextHop_eq (node.routed pkt.dstId nowMs) pkt (pl.getD [])
          (sinkData value) route.nextHopId nowMs
        rw [rfTxSinkCb_unicast hdec hdst hroute, pushOriginated_dedupe, hhop]
        rfl

theorem sourceHandleBleOrigination_dedupe (node : RadioNode cfg) (data : List UInt8)
    (allowed : Bool) (nowMs : UInt32) :
    (sourceHandleBleOrigination node data allowed nowMs).dedupe = node.dedupe := by
  rcases sourceHandleBleOrigination_cases node data allowed nowMs with
    ⟨ctrlSeq, hsame⟩ | ⟨hdr, pl, normalized, -, -, -, hsink⟩
  · rw [hsame]
  · obtain ⟨ctrlSeq, hnum⟩ := numbered_eq node hdr
    rw [hsink, rfTxSinkCb_dedupe, hnum]

theorem handle_dedupe (node : RadioNode cfg) (frame : RfRxFrame) (hdr : RivrPktHdr)
    (pl : Option (List UInt8)) (nowMs : UInt32) :
    (node.handle frame hdr pl nowMs).node.dedupe = node.dedupe := by
  obtain ⟨routeCache, ntbl, retryTable, pendingQueue, txQueue, ctrlSeq, heq⟩ :=
    handle_eq node frame hdr pl nowMs
  rw [heq]

/-- A frame that the bus lets through meets the dedupe cache once. -/
theorem rfRxFrame_dedupe {node : RadioNode cfg} {env : RxVerdicts} {frame : RfRxFrame}
    {hdr : RivrPktHdr} {pl : Option (List UInt8)} {nowMs : UInt32}
    (hdec : protocolDecode frame.data (UInt8.ofNat frame.data.length) = some (hdr, pl))
    (hnet : hdr.netId = 0 ∨ hdr.netId = node.netId) (hbus : env.busAccepts = true) :
    (rfRxFrame node env frame nowMs).1.dedupe =
      (routingDedupeCheck node.dedupe hdr.srcId hdr.pktId nowMs).2 := by
  have hcache : (node.floodDecision frame hdr nowMs).cache =
      (routingDedupeCheck node.dedupe hdr.srcId hdr.pktId nowMs).2 :=
    routingFloodForward_cache _ _ _ _ _
  by_cases hfresh : (routingDedupeCheck node.dedupe hdr.srcId hdr.pktId nowMs).1 = true
  · obtain ⟨policy, txQueue, hrelayed⟩ := relayed_eq
      ((node.received frame hdr nowMs).handle frame hdr pl nowMs) env frame
      (node.floodDecision frame hdr nowMs) pl nowMs
    rw [rfRxFrame_of_accepts ⟨hdec, hnet, hbus, hfresh⟩, hrelayed]
    exact (handle_dedupe _ frame hdr pl nowMs).trans hcache
  · have hdup : (node.floodDecision frame hdr nowMs).result = .dropDedupe :=
      routingFloodForward_eq_dropDedupe.mpr (Bool.eq_false_iff.mpr hfresh)
    have hmine : ¬(hdr.netId ≠ 0 ∧ hdr.netId ≠ node.netId) :=
      fun hother => hnet.elim hother.1 hother.2
    rw [RadioNode.floodDecision] at hcache hdup
    rw [rfRxFrame, hdec]
    dsimp only
    rw [if_neg hmine, hbus, Bool.not_true, if_neg Bool.false_ne_true, if_pos hdup]
    exact hcache

/-! ### The id of the node -/

theorem handle_myNodeId (node : RadioNode cfg) (frame : RfRxFrame) (hdr : RivrPktHdr)
    (pl : Option (List UInt8)) (nowMs : UInt32) :
    (node.handle frame hdr pl nowMs).node.myNodeId = node.myNodeId := by
  obtain ⟨routeCache, ntbl, retryTable, pendingQueue, txQueue, ctrlSeq, heq⟩ :=
    handle_eq node frame hdr pl nowMs
  rw [heq]

/-- Receiving does not touch it. -/
theorem rfRxFrame_myNodeId (node : RadioNode cfg) (env : RxVerdicts) (frame : RfRxFrame)
    (nowMs : UInt32) : (rfRxFrame node env frame nowMs).1.myNodeId = node.myNodeId := by
  by_cases hacc : ∃ hdr pl, node.Accepts env frame hdr pl nowMs
  · obtain ⟨hdr, pl, hacc⟩ := hacc
    obtain ⟨policy, txQueue, hrelay⟩ := relayed_eq
      ((node.received frame hdr nowMs).handle frame hdr pl nowMs) env frame
      (node.floodDecision frame hdr nowMs) pl nowMs
    rw [rfRxFrame_of_accepts hacc, hrelay]
    exact handle_myNodeId (node.received frame hdr nowMs) frame hdr pl nowMs
  · obtain ⟨dedupe, fwdBudget, hdrop⟩ :=
      rfRxFrame_of_not_accepts fun hdr pl h => hacc ⟨hdr, pl, h⟩
    rw [hdrop]

end Rivr
