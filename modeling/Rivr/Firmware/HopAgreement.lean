import Rivr.Firmware.AckInvariant
import Rivr.Firmware.RouteLearning
import Rivr.Firmware.UnicastForwarding

/-!
# The two ways to the next hop

A message with a known route leaves for the next hop at once, through the sink; one without a route
waits, and leaves when a route reply drains the pending queue. Both make a frame for the next hop
and offer it to the transmit queue. The sink asks for an acknowledgement and registers the frame
before it knows whether the queue takes it; the drain does neither.

So a hop is covered by an entry of the retry table exactly when the queue took it in two cases: the
sink sent it and the queue had room, or the drain offered it and the queue had none
(`hopAgrees_iff`).
-/

namespace Rivr

variable {cfg : BuildConfig}

/-! ### What a drain pushes -/

/-- The request that a drain makes of a slot. -/
def PendingEntry.request (e : PendingEntry) (dstId nextHop nowMs : UInt32) : Option RfTxRequest :=
  if e.valid ∧ e.dstId = dstId ∧ ¬e.Expired nowMs then reencodeAsUnicastHop e.data nextHop e.toaUs
  else none

/-- The requests that a drain makes of the slots. -/
def drainRequests (dstId nextHop nowMs : UInt32) (es : List PendingEntry) : List RfTxRequest :=
  es.filterMap fun e => e.request dstId nextHop nowMs

theorem drainRequests_cons_none {dstId nextHop nowMs : UInt32} {e : PendingEntry}
    (h : e.request dstId nextHop nowMs = none) (es : List PendingEntry) :
    drainRequests dstId nextHop nowMs (e :: es) = drainRequests dstId nextHop nowMs es :=
  List.filterMap_cons_none h

theorem drainRequests_cons_some {dstId nextHop nowMs : UInt32} {e : PendingEntry}
    {req : RfTxRequest} (h : e.request dstId nextHop nowMs = some req) (es : List PendingEntry) :
    drainRequests dstId nextHop nowMs (e :: es) = req :: drainRequests dstId nextHop nowMs es :=
  List.filterMap_cons_some h

/-- The requests up to a slot, its own, and those of the slots behind it. -/
theorem drainRequests_split {dstId nextHop nowMs : UInt32} {es : List PendingEntry} {i : ℕ}
    {e : PendingEntry} {req : RfTxRequest} (he : es[i]? = some e)
    (h : e.request dstId nextHop nowMs = some req) :
    drainRequests dstId nextHop nowMs es = drainRequests dstId nextHop nowMs (es.take i) ++
      req :: drainRequests dstId nextHop nowMs (es.drop (i + 1)) := by
  obtain ⟨hlt, hslot⟩ := List.getElem?_eq_some_iff.mp he
  rw [← drainRequests_cons_some h, ← hslot, ← List.drop_eq_getElem_cons hlt, drainRequests,
    drainRequests, drainRequests, ← List.filterMap_append, List.take_append_drop]

/-- The queue has room for a request when `k` others have been offered before. -/
def TxQueue.RoomFor (q : TxQueue) (k : ℕ) : Prop := q.items.length + k + 1 < rfTxQueueCap

instance TxQueue.decidableRoomFor (q : TxQueue) (k : ℕ) : Decidable (q.RoomFor k) :=
  inferInstanceAs (Decidable (_ < _))

/-- How many requests the queue can still take. -/
def TxQueue.room (q : TxQueue) : ℕ := rfTxQueueCap - 1 - q.items.length

theorem TxQueue.roomFor_iff (q : TxQueue) (k : ℕ) : q.RoomFor k ↔ k < q.room := by
  have hlt := q.length_lt
  rw [TxQueue.RoomFor, TxQueue.room]
  omega

/-- A push and what is offered after it. -/
theorem rbTryPush_append_take (q : TxQueue) (req : RfTxRequest) (reqs : List RfTxRequest) :
    (rbTryPush q req).2.items ++ reqs.take (rbTryPush q req).2.room =
      q.items ++ (req :: reqs).take q.room := by
  rw [rbTryPush]
  split
  · rename_i hroom
    have hsucc : q.room = (rfTxQueueCap - 1 - (q.items.length + 1)) + 1 := by
      rw [TxQueue.room]
      omega
    simp only [TxQueue.room, List.length_append, List.length_singleton] at hsucc ⊢
    rw [hsucc, List.take_succ_cons, List.append_assoc, List.singleton_append]
  · rename_i hfull
    have hzero : q.room = 0 := by
      rw [TxQueue.room]
      omega
    rw [hzero, List.take_zero, List.take_zero]

/-- The queue takes the requests of the slots in their order, as far as it has room. -/
theorem drainScan_txQueue (dstId nextHop nowMs : UInt32) (es : List PendingEntry)
    (d : PendingDrain) : (drainScan dstId nextHop nowMs es d).2.txQueue.items =
      d.txQueue.items ++ (drainRequests dstId nextHop nowMs es).take d.txQueue.room := by
  induction es generalizing d with
  | nil => simp [drainScan, drainRequests]
  | cons e es ih =>
    rw [drainScan]
    split_ifs with hskip hexpired
    · have hnone : e.request dstId nextHop nowMs = none := by
        refine if_neg ?_
        rintro ⟨hvalid, hdst, -⟩
        exact hskip.elim (absurd hvalid) (absurd hdst)
      rw [drainRequests_cons_none hnone]
      exact ih d
    · have hnone : e.request dstId nextHop nowMs = none := if_neg fun h => h.2.2 hexpired
      rw [drainRequests_cons_none hnone]
      exact ih d.clear
    · rw [not_or, not_not, not_not] at hskip
      -- a fresh slot of the destination: its request is pushed next
      have hreq : e.request dstId nextHop nowMs = reencodeAsUnicastHop e.data nextHop e.toaUs :=
        if_pos ⟨hskip.1, hskip.2, hexpired⟩
      refine (ih (d.send e nextHop).clear).trans ?_
      change (d.send e nextHop).txQueue.items ++ List.take (d.send e nextHop).txQueue.room _ = _
      rw [PendingDrain.send]
      split
      · rename_i hnone
        rw [drainRequests_cons_none (hreq.trans hnone)]
      · rename_i req hsome
        rw [drainRequests_cons_some (hreq.trans hsome)]
        exact rbTryPush_append_take d.txQueue req _

/-! ### Hops -/

/-- How a message leaves for the next hop. -/
inductive SendPath
  | direct | drained
  deriving DecidableEq, Repr

/-- `hop` is what a node offers to its transmit queue for the chat or data message with the header
`pkt`, after `k` other requests, in a step that leaves the node as `node'`. -/
inductive UnicastHop (node : RadioNode cfg) (nowMs : UInt32) :
    SendPath → RivrPktHdr → UInt32 → List UInt8 → ℕ → RadioNode cfg → Prop
  /-- `rf_tx_sink_cb` has a route. -/
  | direct {value payload : List UInt8} {pkt : RivrPktHdr} {route : RivrRoute}
      (hframe : IsFrame (sinkData value) pkt payload)
      (htype : pkt.pktType = pktChat ∨ pkt.pktType = pktData) (hdst : pkt.dstId ≠ 0)
      (hroute : node.chosenRoute pkt.dstId nowMs = some route) :
    UnicastHop node nowMs .direct pkt route.nextHopId
      ((node.routed pkt.dstId nowMs).toNextHop pkt payload (sinkData value) route.nextHopId nowMs).1
      0 (rfTxSinkCb node value nowMs)
  /-- A route reply for the destination drains the slot of the message. -/
  | drained {frame : RfRxFrame} {hdr pkt : RivrPktHdr} {pl : Option (List UInt8)} {rpl : RouteRpl}
      {i : ℕ} {e : PendingEntry} {payload : List UInt8} {req : RfTxRequest}
      (hrpl : parseRouteRpl hdr pl = some rpl)
      (hknown : rpl.targetId ≠ 0 ∧ effectiveNextHop frame hdr ≠ 0)
      (he : node.pendingQueue.entries[i]? = some e) (hframe : IsFrame e.data pkt payload)
      (htype : pkt.pktType = pktChat ∨ pkt.pktType = pktData)
      (hreq : e.request rpl.targetId (effectiveNextHop frame hdr) nowMs = some req) :
    UnicastHop node nowMs .drained pkt (effectiveNextHop frame hdr) req.data
      (drainRequests rpl.targetId (effectiveNextHop frame hdr) nowMs
        (node.pendingQueue.entries.take i)).length
      (node.handleRouteRpl frame hdr pl nowMs)

/-- The queue took the bytes, which it was offered after `k` other requests. -/
def TxQueue.Takes (q q' : TxQueue) (k : ℕ) (data : List UInt8) : Prop :=
  ∃ req, q'.items[q.items.length + k]? = some req ∧ req.data = data

/-- The bytes are a frame that requests an acknowledgement. -/
def RequestsAck (data : List UInt8) : Prop :=
  ∃ hdr payload, IsFrame data hdr payload ∧ hdr.flags &&& pktFlagAckReq ≠ 0

/-- A free slot of the retry table now holds an entry for the hop. -/
def RegistersHop {retryTableSize : ℕ} (rt rt' : RetryTable retryTableSize) (myNodeId : UInt32)
    (pkt : RivrPktHdr) (nextHop : UInt32) (data : List UInt8) : Prop :=
  ∃ (i : ℕ) (e e' : RetryEntry), rt.entries[i]? = some e ∧ e.valid = false ∧
    rt'.entries[i]? = some e' ∧ e'.valid = true ∧ e'.ackSrcId = myNodeId ∧
    e'.curPktId = pkt.pktId ∧ e'.dstId = pkt.dstId ∧ e'.nextHop = nextHop ∧ e'.data = data

/-- The hop requests an acknowledgement and has a retry entry exactly when the queue took it. -/
def HopAgrees (node node' : RadioNode cfg) (pkt : RivrPktHdr) (nextHop : UInt32)
    (hop : List UInt8) (k : ℕ) : Prop :=
  RequestsAck hop ∧ RegistersHop node.retryTable node'.retryTable node.myNodeId pkt nextHop hop ↔
    node.txQueue.Takes node'.txQueue k hop

/-! ### The sink -/

/-- A table with a free slot registers a frame. -/
theorem registersHop_retryTableEnqueue {retryTableSize : ℕ} {rt : RetryTable retryTableSize}
    (hfree : ∃ e ∈ rt.entries, e.valid = false) {data : List UInt8} (hdata : data ≠ [])
    (myNodeId : UInt32) (pkt : RivrPktHdr) (nextHop toaUs nowMs : UInt32) :
    RegistersHop rt (retryTableEnqueue rt myNodeId pkt.pktId pkt.dstId nextHop data toaUs nowMs).2
      myNodeId pkt nextHop data := by
  obtain ⟨e, he, hinvalid⟩ := hfree
  have hnotEmpty : ¬data.isEmpty = true := by
    rw [List.isEmpty_iff]
    exact hdata
  rw [retryTableEnqueue, if_neg hnotEmpty]
  split
  · -- a full table has no free slot
    rename_i hfull
    have hvalid := List.findIdx?_eq_none_iff.mp hfull e he
    rw [hinvalid] at hvalid
    cases hvalid
  · rename_i i hi
    obtain ⟨hlt, hslot, -⟩ := List.findIdx?_eq_some_iff_getElem.mp hi
    refine ⟨i, rt.entries[i], _, List.getElem?_eq_getElem hlt, by simpa using hslot,
      List.getElem?_set_self hlt, rfl, rfl, rfl, rfl, rfl, rfl⟩

/-- What the queue holds after a push. -/
theorem takes_rbTryPush_iff (q : TxQueue) (req : RfTxRequest) :
    q.Takes (rbTryPush q req).2 0 req.data ↔ q.RoomFor 0 := by
  have hitems := rbTryPush_append_take q req []
  rw [List.take_nil, List.append_nil] at hitems
  rw [TxQueue.Takes, hitems, TxQueue.roomFor_iff, Nat.add_zero, List.getElem?_append_right le_rfl,
    Nat.sub_self]
  rcases Nat.eq_zero_or_pos q.room with hzero | hpos
  · rw [hzero]
    simp
  · obtain ⟨n, hn⟩ : ∃ n, q.room = n + 1 := ⟨q.room - 1, by omega⟩
    rw [hn]
    simp

theorem needsAck_of_type {pktType : UInt8} (h : pktType = pktChat ∨ pktType = pktData) :
    needsAck pktType = true := by
  rcases h with rfl | rfl <;> rfl

/-- The copy of the sink requests an acknowledgement and is registered, whatever the queue does. -/
theorem direct_covered {node : RadioNode cfg} {nowMs : UInt32} {value payload : List UInt8}
    {pkt : RivrPktHdr} {route : RivrRoute} (hframe : IsFrame (sinkData value) pkt payload)
    (htype : pkt.pktType = pktChat ∨ pkt.pktType = pktData) (hdst : pkt.dstId ≠ 0)
    (hroute : node.chosenRoute pkt.dstId nowMs = some route)
    (hfree : ∃ e ∈ node.retryTable.entries, e.valid = false) :
    RequestsAck (wireFrame (unicastHdr pkt route.nextHopId) payload) ∧
      RegistersHop node.retryTable (rfTxSinkCb node value nowMs).retryTable node.myNodeId pkt
        route.nextHopId (wireFrame (unicastHdr pkt route.nextHopId) payload) := by
  have hack := needsAck_of_type htype
  constructor
  · refine ⟨_, payload, isFrame_wireFrame (unicastHdr pkt route.nextHopId) hframe.type
      hframe.length_le, ?_⟩
    change (if needsAck pkt.pktType then _ else _) &&& pktFlagAckReq ≠ 0
    rw [if_pos hack]
    exact flags_or_ackReq pkt.flags
  · obtain ⟨toaUs, ctrlSeq, fwdBudget, heq⟩ := rfTxSinkCb_unicast_eq hframe hdst hroute
    rw [heq]
    dsimp only
    rw [if_pos hack]
    refine registersHop_retryTableEnqueue hfree ?_ _ _ _ _ _
    exact List.ne_nil_of_length_pos (by rw [wireFrame_length]; omega)

/-- The queue takes the copy of the sink if it has room. -/
theorem takes_direct_iff {node : RadioNode cfg} {nowMs : UInt32} {value payload : List UInt8}
    {pkt : RivrPktHdr} {route : RivrRoute} (hframe : IsFrame (sinkData value) pkt payload)
    (hdst : pkt.dstId ≠ 0) (hroute : node.chosenRoute pkt.dstId nowMs = some route) :
    node.txQueue.Takes (rfTxSinkCb node value nowMs).txQueue 0
      (wireFrame (unicastHdr pkt route.nextHopId) payload) ↔ node.txQueue.RoomFor 0 := by
  obtain ⟨toaUs, ctrlSeq, fwdBudget, heq⟩ := rfTxSinkCb_unicast_eq hframe hdst hroute
  rw [heq]
  exact takes_rbTryPush_iff node.txQueue _

/-! ### The drain -/

/-- A table that stays as it is registers nothing. -/
theorem not_registersHop_self {retryTableSize : ℕ} (rt : RetryTable retryTableSize)
    (myNodeId : UInt32) (pkt : RivrPktHdr) (nextHop : UInt32) (data : List UInt8) :
    ¬RegistersHop rt rt myNodeId pkt nextHop data := by
  rintro ⟨i, e, e', he, hinvalid, he', hvalid, -⟩
  obtain rfl := Option.some.inj (he.symm.trans he')
  exact absurd (hinvalid.symm.trans hvalid) Bool.false_ne_true

/-- A route reply leaves the retry table alone. -/
theorem handleRouteRpl_retryTable (node : RadioNode cfg) (frame : RfRxFrame) (hdr : RivrPktHdr)
    (pl : Option (List UInt8)) (nowMs : UInt32) :
    (node.handleRouteRpl frame hdr pl nowMs).retryTable = node.retryTable := by
  rw [RadioNode.handleRouteRpl]
  split <;> rfl

/-- The queue takes what the drain offers for a slot if it has room after what came before. -/
theorem takes_drained_iff {node : RadioNode cfg} {nowMs : UInt32} {frame : RfRxFrame}
    {hdr : RivrPktHdr} {pl : Option (List UInt8)} {rpl : RouteRpl} {i : ℕ} {e : PendingEntry}
    {req : RfTxRequest} (hrpl : parseRouteRpl hdr pl = some rpl)
    (hknown : rpl.targetId ≠ 0 ∧ effectiveNextHop frame hdr ≠ 0)
    (he : node.pendingQueue.entries[i]? = some e)
    (hreq : e.request rpl.targetId (effectiveNextHop frame hdr) nowMs = some req) :
    node.txQueue.Takes (node.handleRouteRpl frame hdr pl nowMs).txQueue
        (drainRequests rpl.targetId (effectiveNextHop frame hdr) nowMs
          (node.pendingQueue.entries.take i)).length req.data ↔
      node.txQueue.RoomFor (drainRequests rpl.targetId (effectiveNextHop frame hdr) nowMs
        (node.pendingQueue.entries.take i)).length := by
  have hqueue : (node.handleRouteRpl frame hdr pl nowMs).txQueue.items = node.txQueue.items ++
      (drainRequests rpl.targetId (effectiveNextHop frame hdr) nowMs
        node.pendingQueue.entries).take node.txQueue.room := by
    rw [RadioNode.handleRouteRpl, hrpl]
    dsimp only
    rw [pendingQueueDrainForDst, if_neg (not_or.mpr hknown)]
    exact drainScan_txQueue _ _ _ _ _
  rw [TxQueue.Takes, hqueue, TxQueue.roomFor_iff, List.getElem?_append_right (Nat.le_add_right _ _),
    Nat.add_sub_cancel_left, List.getElem?_take]
  split_ifs with hroom
  · refine iff_of_true ⟨req, ?_, rfl⟩ hroom
    rw [drainRequests_split he hreq, List.getElem?_append_right le_rfl, Nat.sub_self]
    rfl
  · refine iff_of_false ?_ hroom
    rintro ⟨_, hnone, -⟩
    cases hnone

/-! ### Both -/

/-- **The two ways to the next hop.** The hop is covered exactly when it was accepted if the sink
sends it and the queue has room, or the drain offers it and the queue has none. -/
theorem hopAgrees_iff {node node' : RadioNode cfg} {nowMs nextHop : UInt32} {path : SendPath}
    {pkt : RivrPktHdr} {hop : List UInt8} {k : ℕ}
    (h : UnicastHop node nowMs path pkt nextHop hop k node')
    (hfree : ∃ e ∈ node.retryTable.entries, e.valid = false) :
    HopAgrees node node' pkt nextHop hop k ↔ (path = .direct ↔ node.txQueue.RoomFor k) := by
  rcases h with ⟨hframe, htype, hdst, hroute⟩ | ⟨hrpl, hknown, he, hframe, htype, hreq⟩
  · have hcovered := direct_covered hframe htype hdst hroute hfree
    rw [toNextHop_of_isFrame _ hframe, HopAgrees, takes_direct_iff hframe hdst hroute]
    exact iff_congr (iff_of_true hcovered rfl) Iff.rfl
  · rw [HopAgrees, takes_drained_iff hrpl hknown he hreq, handleRouteRpl_retryTable]
    refine iff_congr (iff_of_false ?_ (nomatch ·)) Iff.rfl
    rintro ⟨-, hregisters⟩
    exact not_registersHop_self _ _ _ _ _ hregisters

/-- The copy of a client with a route and an empty queue is covered, and accepted. -/
theorem hopAgrees_iff_routed : HopAgrees (routedClient 0xB 2)
    (rfTxSinkCb (routedClient 0xB 2) outgoingChat 0) outgoingChatHdr 0xB
    (wireFrame (unicastHdr outgoingChatHdr 0xB) [72, 105]) 0 := by
  have hroute : ((routedClient 0xB 2).chosenRoute 0xD 0).map RivrRoute.nextHopId = some 0xB := by
    decide +kernel
  obtain ⟨route, hchosen, hhop⟩ := Option.map_eq_some_iff.mp hroute
  have hdirect : UnicastHop (routedClient 0xB 2) 0 .direct _ _ _ _ _ :=
    .direct isFrame_outgoingChat (.inl rfl) (by decide) hchosen
  rw [toNextHop_of_isFrame _ isFrame_outgoingChat, hhop] at hdirect
  exact (hopAgrees_iff hdirect ⟨.empty, by decide, rfl⟩).mpr (by decide)

/-! ### Where they do not agree -/

/-- Every hop of a client that leaves this way is covered exactly when it was accepted. -/
def HopsAgree (path : SendPath) : Prop :=
  ∀ (node node' : RadioNode clientBuild) (nowMs nextHop : UInt32) (pkt : RivrPktHdr)
    (hop : List UInt8) (k : ℕ), UnicastHop node nowMs path pkt nextHop hop k node' →
      (∃ e ∈ node.retryTable.entries, e.valid = false) → HopAgrees node node' pkt nextHop hop k

/-- The client after its message found no route. -/
def waitingClient : RadioNode clientBuild := rfTxSinkCb freshClient outgoingChat 0

/-- **Two messages that are not covered as they should be.** The sink registers a message that the
full queue refuses, and the drain sends one that no entry stands for. -/
theorem not_hopsAgree : ¬HopsAgree .direct ∧ ¬HopsAgree .drained := by
  constructor
  · intro hall
    -- the queue is full, so the frame that was registered is never sent
    let node : RadioNode clientBuild := { routedClient 0xB 2 with txQueue := fullTxQueue }
    have hsome : (node.chosenRoute 0xD 0).isSome = true := by decide +kernel
    obtain ⟨route, hroute⟩ := Option.isSome_iff_exists.mp hsome
    have hfree : ∃ e ∈ node.retryTable.entries, e.valid = false := ⟨.empty, by decide, rfl⟩
    have hagrees := hall node _ 0 _ _ _ _
      (.direct isFrame_outgoingChat (.inl rfl) (by decide) hroute) hfree
    rw [toNextHop_of_isFrame _ isFrame_outgoingChat] at hagrees
    have htaken := hagrees.mp
      (direct_covered isFrame_outgoingChat (.inl rfl) (by decide) hroute hfree)
    rw [takes_direct_iff isFrame_outgoingChat (by decide) hroute] at htaken
    exact absurd htaken (by decide)
  · intro hall
    have hsome : ((waitingClient.pendingQueue.entries.getD 0 .empty).request 0xD 0xB 1000).isSome =
        true := by decide +kernel
    obtain ⟨req, hreq⟩ := Option.isSome_iff_exists.mp hsome
    have he : waitingClient.pendingQueue.entries[0]? =
        some (waitingClient.pendingQueue.entries.getD 0 .empty) := by decide +kernel
    have hframe : IsFrame (waitingClient.pendingQueue.entries.getD 0 .empty).data outgoingChatHdr
        [72, 105] := ⟨by decide +kernel, by decide, by decide, rfl⟩
    have hrpl : parseRouteRpl sampleRplHdr (some (sampleRpl 1).bytes) = some (sampleRpl 1) :=
      parseRouteRpl_bytes _ rfl
    have hknown : (sampleRpl 1).targetId ≠ 0 ∧
        effectiveNextHop (sampleRplFrame 1) sampleRplHdr ≠ 0 := by decide
    have hfree : ∃ e ∈ waitingClient.retryTable.entries, e.valid = false :=
      ⟨.empty, by decide +kernel, rfl⟩
    have hagrees := hall waitingClient _ 1000 _ _ _ _
      (.drained hrpl hknown he hframe (.inl rfl) hreq) hfree
    obtain ⟨-, hregisters⟩ := hagrees.mpr ((takes_drained_iff hrpl hknown he hreq).mpr
      (by decide +kernel))
    rw [handleRouteRpl_retryTable] at hregisters
    exact not_registersHop_self _ _ _ _ _ hregisters

end Rivr
