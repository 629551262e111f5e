import Rivr.Firmware.Mesh
import Rivr.Firmware.RouteLearning

/-!
# Routing loops of two nodes

Two nodes can come to hold live routes to the same destination through each other: there are no
sequence numbers, a node that asks for a route may be answered with one through itself, and
nothing stops it from storing the answer (`not_route_loop_free`). It takes a route reply for this.
As long as no node stores a reply about itself, or one from a node that routes to the target
through it, every mesh a run reaches is free of such loops (`route_loop_free`).
-/

namespace Rivr

open SlotTable

variable {rcacheSize : ℕ} {cfg : BuildConfig}

/-! ### Routes -/

/-- The cache has a slot with a route to the destination through the next hop, live or not. -/
def RouteCache.Routes (cache : RouteCache rcacheSize) (dstId nextHop : UInt32) : Prop :=
  ∃ e ∈ cache.entries, e.Valid ∧ e.dstId = dstId ∧ e.nextHop = nextHop

instance RouteCache.decidableRoutes (cache : RouteCache rcacheSize) (dstId nextHop : UInt32) :
    Decidable (cache.Routes dstId nextHop) := inferInstanceAs (Decidable (∃ e ∈ _, _))

theorem routes_of_shrinks {cache cache' : RouteCache rcacheSize}
    (h : Shrinks RouteCacheEntry.Valid cache.entries cache'.entries) {dstId nextHop : UInt32}
    (hroute : cache'.Routes dstId nextHop) : cache.Routes dstId nextHop := by
  obtain ⟨e, he, hvalid, heq⟩ := hroute
  exact ⟨e, h.mem he hvalid, hvalid, heq⟩

/-- A route after an update was there before, or is the one reported. -/
theorem routes_routeCacheUpdate {cache : RouteCache rcacheSize} {r : RouteReport}
    {nowMs dstId nextHop : UInt32} (h : (routeCacheUpdate cache r nowMs).Routes dstId nextHop) :
    cache.Routes dstId nextHop ∨
      (cache.Takes r nowMs ∧ dstId = r.dstId ∧ nextHop = r.nextHop) := by
  by_cases hr : r.Usable
  · obtain ⟨k, x, hwrites, hx, -⟩ := routeCacheUpdate_writes cache hr nowMs
    obtain ⟨e, he, hvalid, rfl, rfl⟩ := h
    rcases hwrites.mem he hvalid with rfl | hold
    · rcases hx with htakes | ⟨hmem, hlive, -⟩
      · exact Or.inr ⟨htakes, rfl, rfl⟩
      · exact Or.inl ⟨_, hmem, hlive.2.1, rfl, rfl⟩
    · exact Or.inl ⟨e, hold, hvalid, rfl, rfl⟩
  · rw [routeCacheUpdate_of_not_usable hr] at h
    exact Or.inl h

/-- The node has the id it had, and no new routes. -/
structure KeepsRoutes (node node' : RadioNode cfg) : Prop where
  id : node'.myNodeId = node.myNodeId
  routes : ∀ {dstId nextHop}, node'.routeCache.Routes dstId nextHop →
    node.routeCache.Routes dstId nextHop

/-! ### What a node does to its routes -/

theorem keepsRoutes_routed (node : RadioNode cfg) (dstId nowMs : UInt32) :
    KeepsRoutes node (node.routed dstId nowMs) :=
  ⟨rfl, routes_of_shrinks (routeCacheBestHop_shrinks _ _ _ _ _)⟩

/-- The sink uses routes only. -/
theorem keepsRoutes_rfTxSinkCb (node : RadioNode cfg) (value : List UInt8) (nowMs : UInt32) :
    KeepsRoutes node (rfTxSinkCb node value nowMs) := by
  rcases hdec : protocolDecode (sinkData value) (UInt8.ofNat (sinkData value).length) with
    _ | ⟨pkt, pl⟩
  · rw [rfTxSinkCb_raw hdec]
    exact ⟨rfl, id⟩
  have hrouted := keepsRoutes_routed node pkt.dstId nowMs
  by_cases hdst : pkt.dstId = 0
  · obtain ⟨ctrlSeq, fwdBudget, hpush⟩ := pushOriginated_eq node pkt (pl.getD [])
      (sinkData value)
    rw [rfTxSinkCb_flood hdec hdst, hpush]
    exact ⟨rfl, id⟩
  rcases hroute : node.chosenRoute pkt.dstId nowMs with _ | route
  · obtain ⟨pendingQueue, txQueue, hawait⟩ := awaitRoute_eq (node.routed pkt.dstId nowMs) pkt
      (sinkData value) nowMs
    rw [rfTxSinkCb_miss hdec hdst hroute, hawait]
    exact ⟨hrouted.id, hrouted.routes⟩
  · obtain ⟨retryTable, hhop⟩ := toNextHop_eq (node.routed pkt.dstId nowMs) pkt (pl.getD [])
      (sinkData value) route.nextHopId nowMs
    obtain ⟨ctrlSeq, fwdBudget, hpush⟩ := pushOriginated_eq
      ((node.routed pkt.dstId nowMs).toNextHop pkt (pl.getD []) (sinkData value) route.nextHopId
        nowMs).2 pkt (pl.getD [])
      ((node.routed pkt.dstId nowMs).toNextHop pkt (pl.getD []) (sinkData value) route.nextHopId
        nowMs).1
    rw [rfTxSinkCb_unicast hdec hdst hroute, hpush, hhop]
    exact ⟨hrouted.id, hrouted.routes⟩

/-- So does a frame that comes over BLE. -/
theorem keepsRoutes_sourceHandleBleOrigination (node : RadioNode cfg) (data : List UInt8)
    (allowed : Bool) (nowMs : UInt32) :
    KeepsRoutes node (sourceHandleBleOrigination node data allowed nowMs) := by
  obtain ⟨ctrlSeq, hdrop⟩ | ⟨hdr, pl, normalized, -, -, -, hsink⟩ :=
    sourceHandleBleOrigination_cases node data allowed nowMs
  · rw [hdrop]
    exact ⟨rfl, id⟩
  · obtain ⟨ctrlSeq, hnumbered⟩ := numbered_eq node hdr
    obtain ⟨hid, hroutes⟩ := keepsRoutes_rfTxSinkCb (node.numbered hdr) normalized nowMs
    rw [hsink]
    rw [hnumbered] at hid hroutes ⊢
    exact ⟨hid, hroutes⟩

/-- Reverse learning adds the route it reports. -/
theorem routes_learn {node : RadioNode cfg} {frame : RfRxFrame} {hdr : RivrPktHdr}
    {nowMs dstId nextHop : UInt32}
    (h : (node.learn frame hdr nowMs).routeCache.Routes dstId nextHop) :
    node.routeCache.Routes dstId nextHop ∨
      ∃ r, learnRxReport hdr.srcId (immediateSender frame hdr) hdr.hop frame.rssiDbm frame.snrDb =
        some r ∧ dstId = r.dstId ∧ nextHop = r.nextHop := by
  rw [RadioNode.learn] at h
  dsimp only at h
  have hlearn : (routeCacheLearnRx node.routeCache hdr.srcId (immediateSender frame hdr) hdr.hop
      frame.rssiDbm frame.snrDb nowMs).Routes dstId nextHop := by
    split_ifs at h
    · refine routes_of_shrinks ?_ h
      exact (routeCacheTxDecide_shrinks _ _ _).trans (routeCacheLookup_shrinks _ _ _)
    · exact h
  rw [routeCacheLearnRx] at hlearn
  split at hlearn
  · exact Or.inl hlearn
  · rename_i r hr
    exact (routes_routeCacheUpdate hlearn).imp_right fun hnew => ⟨r, hr, hnew.2⟩

/-- Without the name of the transmitter, reverse learning reports direct routes only. -/
theorem learnRxReport_driver {frame : RfRxFrame} (hfrom : frame.fromId = 0) {hdr : RivrPktHdr}
    {r : RouteReport}
    (h : learnRxReport hdr.srcId (immediateSender frame hdr) hdr.hop frame.rssiDbm frame.snrDb =
      some r) : r.dstId = hdr.srcId ∧ r.nextHop = hdr.srcId := by
  rw [learnRxReport] at h
  split_ifs at h with hsrc hhop hrelay
  · obtain rfl := Option.some.inj h
    exact ⟨rfl, rfl⟩
  · rw [immediateSender, if_neg fun hdirect => hhop hdirect.2] at hrelay
    exact absurd hfrom hrelay.1

/-- Nor is a route reply learned behind another node than its source. -/
theorem effectiveNextHop_driver {frame : RfRxFrame} (hfrom : frame.fromId = 0)
    (hdr : RivrPktHdr) : effectiveNextHop frame hdr = hdr.srcId := by
  rw [effectiveNextHop]
  split_ifs with hknown
  · rw [immediateSender] at hknown ⊢
    split_ifs at hknown ⊢
    · rfl
    · exact absurd hfrom hknown
  · rfl

/-- The handlers add routes on a route reply only. -/
theorem routes_handle {node : RadioNode cfg} {frame : RfRxFrame} {hdr : RivrPktHdr}
    {pl : Option (List UInt8)} {nowMs dstId nextHop : UInt32}
    (h : (node.handle frame hdr pl nowMs).node.routeCache.Routes dstId nextHop) :
    node.routeCache.Routes dstId nextHop ∨
      ∃ rpl, hdr.pktType = pktRouteRpl ∧ parseRouteRpl hdr pl = some rpl ∧
        node.routeCache.Takes (node.learnedReport frame hdr rpl nowMs) nowMs ∧
        dstId = rpl.targetId ∧ nextHop = effectiveNextHop frame hdr := by
  obtain ⟨retryTable, hack⟩ := handleAck_eq node hdr pl
  obtain ⟨ctrlSeq, txQueue, hsend⟩ := sendAck_eq node hdr
  rw [RadioNode.handle, hack, hsend] at h
  dsimp only at h
  split_ifs at h with htype₁ htype₂ htype₃ htype₄ htype₅
  · exact Or.inl h
  · exact Or.inl h
  · exact Or.inl h
  · obtain ⟨routeCache, ctrlSeq', txQueue', hreq, hshrinks⟩ :=
      handleRouteReq_eq { node with ctrlSeq := ctrlSeq, txQueue := txQueue } hdr nowMs
    rw [hreq] at h
    exact Or.inl (routes_of_shrinks hshrinks h)
  · rw [RadioNode.handleRouteRpl] at h
    split at h
    · exact Or.inl h
    · rename_i rpl hrpl
      refine (routes_routeCacheUpdate h).imp_right fun hnew => ?_
      exact ⟨rpl, htype₅, hrpl, hnew⟩
  · exact Or.inl h

/-- The routes a node learns when it receives a frame: to its source, heard directly, and to the
target of a route reply, through its source. -/
inductive LearnsRoute (node : RadioNode cfg) (env : RxVerdicts) (frame : RfRxFrame)
    (nowMs : UInt32) : UInt32 → UInt32 → Prop
  | direct (srcId : UInt32) : LearnsRoute node env frame nowMs srcId srcId
  | reply {hdr : RivrPktHdr} {pl : Option (List UInt8)} {rpl : RouteRpl} :
      node.ReceivesRpl env frame hdr pl rpl nowMs →
      (node.received frame hdr nowMs).routeCache.Takes
        ((node.received frame hdr nowMs).learnedReport frame hdr rpl nowMs) nowMs →
      LearnsRoute node env frame nowMs rpl.targetId hdr.srcId

/-- **What receiving does to the routes.** -/
theorem routes_rfRxFrame {node : RadioNode cfg} {env : RxVerdicts} {frame : RfRxFrame}
    (hfrom : frame.fromId = 0) {nowMs dstId nextHop : UInt32}
    (h : (rfRxFrame node env frame nowMs).1.routeCache.Routes dstId nextHop) :
    node.routeCache.Routes dstId nextHop ∨ LearnsRoute node env frame nowMs dstId nextHop := by
  by_cases hacc : ∃ hdr pl, node.Accepts env frame hdr pl nowMs
  · obtain ⟨hdr, pl, hacc⟩ := hacc
    obtain ⟨policy, txQueue, hrelay⟩ := relayed_eq
      ((node.received frame hdr nowMs).handle frame hdr pl nowMs) env frame
      (node.floodDecision frame hdr nowMs) pl nowMs
    rw [rfRxFrame_of_accepts hacc, hrelay] at h
    rcases routes_handle h with hold | ⟨rpl, htype, hrpl, htakes, rfl, rfl⟩
    · rcases routes_learn hold with hold | ⟨r, hr, rfl, rfl⟩
      · exact Or.inl hold
      · obtain ⟨hdst, hhop⟩ := learnRxReport_driver hfrom hr
        rw [hdst, hhop]
        exact Or.inr (.direct _)
    · rw [effectiveNextHop_driver hfrom]
      exact Or.inr (.reply ⟨hacc, htype, hrpl⟩ htakes)
  · obtain ⟨dedupe, fwdBudget, hdrop⟩ :=
      rfRxFrame_of_not_accepts fun hdr pl h => hacc ⟨hdr, pl, h⟩
    rw [hdrop] at h
    exact Or.inl h

/-! ### The mesh -/

variable {ι : Type*} {build : ι → BuildConfig}

/-- The two nodes hold live routes to the destination through each other. -/
def Mesh.MutualPair (s : Mesh build) (i j : ι) (dstId : UInt32) : Prop :=
  (∃ e ∈ (s.node i).routeCache.entries, e.LiveFor dstId (s.clock i) ∧
    e.nextHop = (s.node j).myNodeId) ∧
  ∃ e ∈ (s.node j).routeCache.entries, e.LiveFor dstId (s.clock j) ∧
    e.nextHop = (s.node i).myNodeId

instance Mesh.decidableMutualPair (s : Mesh build) (i j : ι) (dstId : UInt32) :
    Decidable (s.MutualPair i j dstId) := inferInstanceAs (Decidable (_ ∧ _))

/-- If a node stores a route reply, then the reply is about another node, and the node that sent
the reply has no route to the target through the node that stores it. -/
def LoopSafe (s : Mesh build) (a : MeshAction ι) : Prop :=
  ∀ ⦃i number rssiDbm snrDb env data hdr pl rpl⦄, a = .receive i number rssiDbm snrDb env →
    s.air[number]? = some data →
    (s.node i).ReceivesRpl env (driverFrame data rssiDbm snrDb) hdr pl rpl (s.clock i) →
    ((s.node i).received (driverFrame data rssiDbm snrDb) hdr (s.clock i)).routeCache.Takes
      (((s.node i).received (driverFrame data rssiDbm snrDb) hdr (s.clock i)).learnedReport
        (driverFrame data rssiDbm snrDb) hdr rpl (s.clock i)) (s.clock i) →
    rpl.targetId ≠ (s.node i).myNodeId ∧
      ∀ j, (s.node j).myNodeId = hdr.srcId →
        ¬(s.node j).routeCache.Routes rpl.targetId (s.node i).myNodeId

/-- An action that receives nothing is safe. -/
theorem loopSafe_of_ne {s : Mesh build} {a : MeshAction ι}
    (h : ∀ i number rssiDbm snrDb env, a ≠ .receive i number rssiDbm snrDb env) : LoopSafe s a :=
  fun _ _ _ _ _ _ _ _ _ ha => absurd ha (h _ _ _ _ _)

/-- A node has no route to itself but through itself, and no two nodes have routes to the same
destination through each other, live or not. -/
structure LoopInv (node : ∀ i, RadioNode (build i)) : Prop where
  id_injective : Function.Injective fun i => (node i).myNodeId
  selfRoute : ∀ {i nextHop}, (node i).routeCache.Routes (node i).myNodeId nextHop →
    nextHop = (node i).myNodeId
  noPair : ∀ {i j dstId}, i ≠ j → (node i).routeCache.Routes dstId (node j).myNodeId →
    ¬(node j).routeCache.Routes dstId (node i).myNodeId

/-- A new route of a node that closes no loop: a direct one, or one to another node through a
node that has no route to it back through this one. -/
def Harmless (node : ∀ i, RadioNode (build i)) (i : ι) (dstId nextHop : UInt32) : Prop :=
  dstId = nextHop ∨
    (dstId ≠ (node i).myNodeId ∧ ∀ j, (node j).myNodeId = nextHop →
      ¬(node j).routeCache.Routes dstId (node i).myNodeId)

/-- A harmless route through a node does not meet one back. -/
theorem LoopInv.not_routes_of_harmless {node : ∀ i, RadioNode (build i)} (h : LoopInv node)
    {i j : ι} (hij : i ≠ j) {dstId : UInt32} (hnew : Harmless node i dstId (node j).myNodeId) :
    ¬(node j).routeCache.Routes dstId (node i).myNodeId := by
  rcases hnew with rfl | ⟨-, hback⟩
  · -- the destination is the other node itself, which has no route to itself through this one
    intro hroute
    exact hij (h.id_injective (h.selfRoute hroute))
  · exact hback j rfl

/-- Nodes that have just been switched on have no routes. -/
theorem loopInv_booted {s : Mesh build} (h : s.Booted) : LoopInv s.node := by
  have hempty : ∀ i dstId nextHop, ¬(s.node i).routeCache.Routes dstId nextHop := by
    rintro i dstId nextHop ⟨e, he, hvalid, -⟩
    obtain ⟨role, id, netId, hinit⟩ := h.init i
    rw [hinit] at he
    obtain rfl : e = .empty := List.eq_of_mem_replicate he
    exact not_valid_empty hvalid
  exact ⟨h.id_injective, fun hroute => absurd hroute (hempty _ _ _),
    fun _ hroute => absurd hroute (hempty _ _ _)⟩

variable [DecidableEq ι]

/-- **Step lemma.** A change of one node that adds harmless routes at most keeps the invariant. -/
theorem LoopInv.update {node : ∀ i, RadioNode (build i)} (h : LoopInv node) {i : ι}
    {node' : RadioNode (build i)} (hid : node'.myNodeId = (node i).myNodeId)
    (hroutes : ∀ {dstId nextHop}, node'.routeCache.Routes dstId nextHop →
      (node i).routeCache.Routes dstId nextHop ∨ Harmless node i dstId nextHop) :
    LoopInv (Function.update node i node') := by
  have hself : Function.update node i node' i = node' := Function.update_self i node' node
  have hother : ∀ {j}, j ≠ i → Function.update node i node' j = node j :=
    fun hj => Function.update_of_ne hj node' node
  have hids : ∀ j, (Function.update node i node' j).myNodeId = (node j).myNodeId := by
    intro j
    by_cases hj : j = i
    · rw [hj, hself, hid]
    · rw [hother hj]
  have hnew : ∀ {j dstId}, i ≠ j → node'.routeCache.Routes dstId (node j).myNodeId →
      ¬(node j).routeCache.Routes dstId (node i).myNodeId := by
    intro j dstId hij hroute
    rcases hroutes hroute with hold | hnew
    · exact h.noPair hij hold
    · exact h.not_routes_of_harmless hij hnew
  constructor
  · intro j k hjk
    simp only [hids] at hjk
    exact h.id_injective hjk
  · intro j nextHop hroute
    rw [hids] at hroute ⊢
    by_cases hj : j = i
    · rw [hj] at hroute ⊢
      rw [hself] at hroute
      rcases hroutes hroute with hold | heq | hne
      · exact h.selfRoute hold
      · exact heq.symm
      · exact absurd rfl hne.1
    · rw [hother hj] at hroute
      exact h.selfRoute hroute
  · intro j k dstId hjk hroute hback
    rw [hids] at hroute hback
    by_cases hj : j = i
    · rw [hj, hself] at hroute
      rw [hother fun hk => hjk (hj.trans hk.symm), hj] at hback
      exact hnew (fun hik => hjk (hj.trans hik)) hroute hback
    · rw [hother hj] at hroute
      by_cases hk : k = i
      · rw [hk, hself] at hback
        rw [hk] at hroute
        exact hnew (Ne.symm hj) hback hroute
      · rw [hother hk] at hback
        exact h.noPair hjk hroute hback

theorem LoopInv.update_of_keepsRoutes {node : ∀ i, RadioNode (build i)} (h : LoopInv node) {i : ι}
    {node' : RadioNode (build i)} (hkeeps : KeepsRoutes (node i) node') :
    LoopInv (Function.update node i node') :=
  h.update hkeeps.id fun hroute => Or.inl (hkeeps.routes hroute)

/-- **Every action keeps the invariant**, if it stores no reply that closes a loop. -/
theorem LoopInv.act {s : Mesh build} (h : LoopInv s.node) {a : MeshAction ι} (ha : LoopSafe s a) :
    LoopInv (s.act a).node := by
  cases a with
  | originate i value => exact h.update_of_keepsRoutes (keepsRoutes_rfTxSinkCb _ _ _)
  | bleFrame i data allowed =>
    exact h.update_of_keepsRoutes (keepsRoutes_sourceHandleBleOrigination _ _ _ _)
  | retryTick i => exact h.update_of_keepsRoutes ⟨rfl, id⟩
  | transmit i =>
    rw [Mesh.act, Mesh.transmit]
    split
    · exact h
    · exact h.update_of_keepsRoutes ⟨rfl, id⟩
  | receive i number rssiDbm snrDb env =>
    rw [Mesh.act]
    split
    · exact h
    · rename_i data hdata
      refine h.update (rfRxFrame_myNodeId _ _ _ _) fun hroute => ?_
      refine (routes_rfRxFrame rfl hroute).imp_right fun hlearns => ?_
      rcases hlearns with _ | ⟨hrpl, htakes⟩
      · exact Or.inl rfl
      · exact Or.inr (ha rfl hdata hrpl htakes)
  | wait i ms => exact h

/-- **Freedom from loops of two nodes.** In a run in which no node stores a route reply about
itself, or from a node that routes to the target through it, no two nodes ever hold live routes
to the same destination through each other. -/
theorem route_loop_free {s₀ s : Mesh build} (hboot : s₀.Booted) (run : MeshRun LoopSafe s₀ s)
    {i j : ι} (hij : i ≠ j) (dstId : UInt32) : ¬s.MutualPair i j dstId := by
  have hinv : LoopInv s.node :=
    run.invariant (loopInv_booted hboot) fun _ _ h ha => LoopInv.act h ha
  rintro ⟨⟨e, he, hlive, hhop⟩, e', he', hlive', hhop'⟩
  exact hinv.noPair hij ⟨e, he, hlive.2.1, hlive.1, hhop⟩ ⟨e', he', hlive'.2.1, hlive'.1, hhop'⟩

/-! ### Three nodes -/

/-- Three nodes, named as in the routing documents. -/
inductive Trio
  | a | b | d
  deriving DecidableEq, Repr

/-- Their ids. -/
def Trio.nodeId : Trio → UInt32
  | .a => 0xA
  | .b => 0xB
  | .d => 0xD

/-- Three clients that have just been switched on. -/
def trioStart : Mesh fun _ : Trio => clientBuild where
  node i := .init clientBuild .client i.nodeId 0
  nowMs _ := 0
  air := []
  received _ := []

theorem booted_trioStart : trioStart.Booted where
  init i := ⟨.client, i.nodeId, 0, rfl⟩
  id_injective i j h := by
    have hid : i.nodeId = j.nodeId := h
    cases i <;> cases j <;> first | rfl | exact absurd hid (by decide)
  id_ne_zero i := by cases i <;> decide
  air := rfl
  received _ := rfl

/-- A frame is received well. -/
def hears (i : Trio) (number : ℕ) : MeshAction Trio := .receive i number (-60) 10 ⟨true, true, 0⟩

/-- `0xB` hears `0xD` and answers `0xA`, which asks for a route there. -/
def askNeighbor : List (MeshAction Trio) :=
  [.originate .d (chatFrame 0xD 0 77), .transmit .d, hears .b 0,
    .wait .a 1000, .wait .b 1000,
    .originate .a (chatFrame 0xA 0xD 78), .transmit .a, hears .b 1, .transmit .b, hears .a 2]

/-- After two minutes `0xB` has forgotten its route, asks `0xA`, and is sent back to itself. -/
def askBack : List (MeshAction Trio) :=
  [.wait .a 119500, .wait .b 119500,
    .originate .b (chatFrame 0xB 0xD 79), .transmit .b, .transmit .b, hears .a 4,
    .transmit .a, .transmit .a, .transmit .a, hears .b 7]

/-- The frame with a number on the air, decoded. -/
def Mesh.decodedAir (s : Mesh build) (number : ℕ) : Option (RivrPktHdr × Option (List UInt8)) :=
  s.air[number]?.bind fun data => protocolDecode data (UInt8.ofNat data.length)

/-- Receiving a frame is safe when a route reply in it is. -/
theorem loopSafe_hears {s : Mesh fun _ : Trio => clientBuild} {i : Trio} {number : ℕ}
    (hsafe : ∀ x ∈ s.decodedAir number, x.1.pktType = pktRouteRpl →
      ∀ rpl ∈ parseRouteRpl x.1 x.2, rpl.targetId ≠ (s.node i).myNodeId ∧
        ∀ j ∈ [Trio.a, .b, .d], (s.node j).myNodeId = x.1.srcId →
          ¬(s.node j).routeCache.Routes rpl.targetId (s.node i).myNodeId) :
    LoopSafe s (hears i number) := by
  intro i' number' rssiDbm snrDb env data hdr pl rpl ha hdata hrpl _
  obtain ⟨rfl, rfl, rfl, rfl, rfl⟩ : i = i' ∧ number = number' ∧ _ ∧ _ ∧ _ := by
    simpa [hears] using ha
  have hdecoded : s.decodedAir number = some (hdr, pl) := by
    rw [Mesh.decodedAir, hdata]
    exact hrpl.accepts.decoded
  obtain ⟨htarget, hback⟩ := hsafe (hdr, pl) hdecoded hrpl.type rpl hrpl.parsed
  exact ⟨htarget, fun j => hback j (by cases j <;> decide)⟩

theorem allows_askNeighbor : trioStart.Allows LoopSafe askNeighbor := by
  refine ⟨loopSafe_of_ne nofun, loopSafe_of_ne nofun, ?_, loopSafe_of_ne nofun,
    loopSafe_of_ne nofun, loopSafe_of_ne nofun, loopSafe_of_ne nofun, ?_, loopSafe_of_ne nofun, ?_,
    trivial⟩
  · exact loopSafe_hears (by decide +kernel)
  · exact loopSafe_hears (by decide +kernel)
  · exact loopSafe_hears (by decide +kernel)

/-- No loop when a neighbour of the destination answers. -/
theorem route_loop_free_askNeighbor : ¬(trioStart.run askNeighbor).MutualPair .a .b 0xD :=
  route_loop_free booted_trioStart (MeshRun.start.run allows_askNeighbor) (by decide) 0xD

/-- **A loop of two nodes.** Each of `0xA` and `0xB` has a live route to `0xD` through the
other. -/
theorem not_route_loop_free :
    ¬∀ s₀ s : Mesh fun _ : Trio => clientBuild, s₀.Booted → MeshRun (fun _ _ => True) s₀ s →
      ∀ (i j : Trio) (dstId : UInt32), i ≠ j → ¬s.MutualPair i j dstId := by
  intro hfree
  have hpair : (trioStart.run (askNeighbor ++ askBack)).MutualPair .a .b 0xD := by decide +kernel
  exact hfree _ _ booted_trioStart (meshRun_run _ _) .a .b 0xD (by decide) hpair

end Rivr
