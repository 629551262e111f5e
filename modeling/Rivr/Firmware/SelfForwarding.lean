import Rivr.Firmware.RelayMesh

/-!
# A node's own frames, heard again

`docs/en/protocol.md` says that a node never forwards its own packets. No check of the receive loop
says so: the ways out of a node (the sink, the retry table, the queue) enter nothing into the bus
cache or the dedupe cache, and the flood decision does not look at the source. So the first copy of
an own frame that a neighbour relays back is received like the frame of any other node: mirrored,
handed to the application and relayed once more.

`self_forwarding_iff` says in which runs this does not happen: those in which every own frame that
the bus lets through is of a control type that no transport is told of and cannot be relayed
(`RelayNode.Spares`).
-/

namespace Rivr

open Runs

/-! ### Frames of which nothing comes -/

/-- The frame was mirrored nowhere, the application saw nothing of it, and no copy was relayed. -/
structure Receipt.Withheld (r : Receipt) : Prop where
  mirrored : r.mirrored = []
  events : r.events = []
  relayed : r.relayed = none

instance Receipt.decidableWithheld (r : Receipt) : Decidable r.Withheld :=
  decidable_of_iff (r.mirrored = [] ∧ r.events = [] ∧ r.relayed = none)
    ⟨fun h => ⟨h.1, h.2.1, h.2.2⟩, fun h => ⟨h.mirrored, h.events, h.relayed⟩⟩

variable {build : RelayBuild}

/-- No self-forwarding: nothing came of any received frame with the node's own id. -/
def PeerLog.EchoFree (l : PeerLog build) : Prop :=
  ∀ r ∈ l.receipts, r.hdr.srcId = l.node.myNodeId → r.Withheld

instance PeerLog.decidableEchoFree (l : PeerLog build) : Decidable l.EchoFree :=
  inferInstanceAs (Decidable (∀ r ∈ l.receipts, _))

/-- The types that the receive loop deals with itself, without the application. -/
def HandledBelow (pktType : UInt8) : Prop :=
  pktType = pktAck ∨ pktType = pktBeacon ∨ pktType = pktProgPush ∨ pktType = pktRouteReq ∨
    pktType = pktRouteRpl

/-- A frame that the receive loop deals with can be relayed: it has hops left in both counters, the
budget has room for it, and the forward set, with the frame's own observation, does not hold it
back. -/
structure RelayNode.CanRelay (node : RelayNode build) (frame : RfRxFrame) (hdr : RivrPktHdr)
    (nowMs : UInt32) : Prop where
  ttl : hdr.ttl ≠ 0
  hop : hdr.hop < rivrPktDefaultTtl
  budget : (floodBudget (some node.fwdBudget) hdr.pktType (build.toaApproxUs frame.data) nowMs).1 =
    true
  forwardSet : fwdsetSuppressRelay (fwdsetBuild build.airtimeRouting
    (neighborUpdate node.ntbl (observation frame hdr) nowMs) nowMs) = false

/-- Nothing can come of the frame if it is the node's own: the bus rejects it, or it is of a type
that the receive loop deals with, no transport is told of it, and it is a program push, which is
never relayed, or cannot be relayed. -/
def RelayNode.Spares (node : RelayNode build) (frame : RfRxFrame) (iface : RivrIface)
    (nowMs : UInt32) : Prop :=
  ∀ hdr pl, node.decoded frame = some (hdr, pl) → hdr.srcId = node.myNodeId →
    (rivrBusReceive node.bus frame.data iface).1.passes = false ∨
      (rivrDispatchSelect hdr.pktType iface = [] ∧ HandledBelow hdr.pktType ∧
        (hdr.pktType = pktProgPush ∨ ¬node.CanRelay frame hdr nowMs))

variable {node : RelayNode build} {frame : RfRxFrame} {iface : RivrIface} {hdr : RivrPktHdr}
  {pl : Option (List UInt8)} {nowMs : UInt32}

/-! ### The handlers -/

/-- The application sees nothing of exactly the frames that the receive loop deals with. -/
theorem handle_events_eq_nil_iff {cfg : BuildConfig} (node : RadioNode cfg) :
    (node.handle frame hdr pl nowMs).events = [] ↔ HandledBelow hdr.pktType := by
  -- the frame is injected at least
  have happ : appEvents frame hdr pl ≠ [] :=
    List.append_ne_nil_of_right_ne_nil _ (List.cons_ne_nil _ _)
  rw [RadioNode.handle, HandledBelow]
  dsimp only
  split_ifs with hack hbeacon hpush hreq hrpl
  · exact iff_of_true rfl (.inl hack)
  · exact iff_of_true rfl (.inr (.inl hbeacon))
  · exact iff_of_true rfl (.inr (.inr (.inl hpush)))
  · exact iff_of_true rfl (.inr (.inr (.inr (.inl hreq))))
  · exact iff_of_true rfl (.inr (.inr (.inr (.inr hrpl))))
  · refine iff_of_false happ ?_
    rintro (h | h | h | h | h)
    exacts [hack h, hbeacon h, hpush h, hreq h, hrpl h]

/-- Only program pushes are never relayed. -/
theorem handle_mayRelay {cfg : BuildConfig} (node : RadioNode cfg) :
    (node.handle frame hdr pl nowMs).mayRelay = true ↔ hdr.pktType ≠ pktProgPush := by
  rw [RadioNode.handle]
  dsimp only
  split_ifs with hack hbeacon hpush hreq hrpl
  · exact iff_of_true rfl (by rw [hack]; decide)
  · exact iff_of_true rfl (by rw [hbeacon]; decide)
  · exact iff_of_false id (not_not_intro hpush)
  · exact iff_of_true rfl hpush
  · exact iff_of_true rfl hpush
  · exact iff_of_true rfl hpush

/-- The handlers leave the forward set as it is. -/
theorem fwdsetBuild_handle {cfg : BuildConfig} (node : RadioNode cfg) (airtimeRouting : Bool) :
    fwdsetBuild airtimeRouting (node.handle frame hdr pl nowMs).node.ntbl nowMs =
      fwdsetBuild airtimeRouting node.ntbl nowMs := by
  have hsend : (node.sendAck hdr).ntbl = node.ntbl := by
    obtain ⟨ctrlSeq, txQueue, heq⟩ := sendAck_eq node hdr
    rw [heq]
  rw [RadioNode.handle]
  dsimp only
  split_ifs
  · obtain ⟨retryTable, heq⟩ := handleAck_eq node hdr pl
    rw [heq]
  · rw [hsend]
  · rw [hsend]
  · obtain ⟨routeCache, ctrlSeq, txQueue, heq, -⟩ := handleRouteReq_eq (node.sendAck hdr) hdr nowMs
    rw [heq, hsend]
  · rw [RadioNode.handleRouteRpl]
    split
    · rw [hsend]
    · dsimp only
      rw [fwdsetBuild_neighborFind, hsend]
  · rw [hsend]

/-! ### The relay -/

theorem HandledBelow.ne_app (h : HandledBelow hdr.pktType) :
    hdr.pktType ≠ pktChat ∧ hdr.pktType ≠ pktData := by
  rcases h with h | h | h | h | h <;> rw [h] <;> decide

/-- The policy lets frames pass that the receive loop deals with. -/
theorem HandledBelow.policyCheck (h : HandledBelow hdr.pktType) (ps : PolicyState) :
    (policyCheck ps (relayHdr hdr) nowMs).1 = .pass := by
  obtain ⟨hchat, hdata⟩ := h.ne_app
  have hclass : policyClassify (relayHdr hdr).pktType = .control := by
    rw [policyClassify, if_neg (show (relayHdr hdr).pktType ≠ pktChat from hchat),
      if_neg (show (relayHdr hdr).pktType ≠ pktData from hdata)]
  rw [Rivr.policyCheck, policyTtl, hclass]
  rfl

/-- Of such a frame the relay step offers a copy exactly when the gates are open. -/
theorem relayOffer_eq_none_iff {cfg : BuildConfig} (node : RadioNode cfg) (env : RxVerdicts)
    {payload : List UInt8} (hframe : IsFrame frame.data hdr payload)
    (htype : HandledBelow hdr.pktType) :
    node.relayOffer env frame (relayHdr hdr) (payloadPtr payload) nowMs = none ↔
      env.relayGates = false := by
  obtain ⟨hchat, hdata⟩ := htype.ne_app
  have hclient : ¬(cfg.isClient = true ∧
      ((relayHdr hdr).pktType = pktChat ∨ (relayHdr hdr).pktType = pktData)) :=
    fun h => h.2.elim hchat hdata
  rw [RadioNode.relayOffer, htype.policyCheck, relayRequest_of_isFrame hframe, if_neg hclient]
  rcases env.relayGates <;> simp

/-- **The relay of a frame that the receive loop deals with.** A copy goes to the transmit queue
unless the frame is a program push or cannot be relayed. -/
theorem turnOffer_eq_none_iff (h : Lockstep node.bus node.dedupe)
    (hdec : node.decoded frame = some (hdr, pl))
    (hpass : (rivrBusReceive node.bus frame.data iface).1.passes = true)
    (htype : HandledBelow hdr.pktType) :
    (node.counted nowMs).turnOffer frame hdr pl nowMs = none ↔
      hdr.pktType = pktProgPush ∨ ¬node.CanRelay frame hdr nowMs := by
  obtain ⟨hchat, hdata⟩ := htype.ne_app
  obtain ⟨hdecode, -⟩ := Option.filter_eq_some_iff.mp hdec
  obtain ⟨payload, rfl, hframe⟩ := isFrame_of_protocolDecode hdecode
  have hacc : node.toRadioNode.Accepts ⟨true, true, 0⟩ frame hdr (payloadPtr payload) nowMs :=
    accepts_of_passes h hdec hpass rfl
  have hforward : (node.toRadioNode.floodDecision frame hdr nowMs).result = .forward ↔
      hdr.ttl ≠ 0 ∧ hdr.hop < rivrPktDefaultTtl ∧
        (floodBudget (some node.fwdBudget) hdr.pktType (build.toaApproxUs frame.data) nowMs).1 =
          true := by
    rw [RadioNode.floodDecision, routingFloodForward_eq_forward_iff, hacc.fresh]
    exact and_iff_right rfl
  have hgates : ((node.counted nowMs).verdicts frame hdr (payloadPtr payload) nowMs).relayGates =
      !fwdsetSuppressRelay (fwdsetBuild build.airtimeRouting
        (neighborUpdate node.ntbl (observation frame hdr) nowMs) nowMs) := by
    rw [verdicts_counted, relayVerdicts_relayGates _ _ _ _ hchat hdata, RelayNode.handled,
      fwdsetBuild_handle]
    rfl
  rw [RelayNode.turnOffer, counted_handled, counted_toRadioNode]
  by_cases hpush : hdr.pktType = pktProgPush
  · have hstays : ¬(node.handled frame hdr (payloadPtr payload) nowMs).mayRelay = true :=
      fun hrelay => (handle_mayRelay _).mp hrelay hpush
    exact iff_of_true (if_neg fun hboth => hstays hboth.1) (.inl hpush)
  -- every other frame may be relayed, if the flood and the gates let it
  have hmay : (node.handled frame hdr (payloadPtr payload) nowMs).mayRelay = true :=
    (handle_mayRelay _).mpr hpush
  by_cases hfwd : (node.toRadioNode.floodDecision frame hdr nowMs).result = .forward
  · obtain ⟨-, -, -, hpkt⟩ := of_routingFloodForward_forward hfwd
    obtain ⟨httl, hhop, hbudget⟩ := hforward.mp hfwd
    rw [if_pos ⟨hmay, hfwd⟩, RadioNode.floodDecision, hpkt, relayOffer_eq_none_iff _ _ hframe htype,
      hgates, Bool.not_eq_false']
    constructor
    · exact fun hclosed => .inr fun hcan => Bool.false_ne_true (hcan.forwardSet.symm.trans hclosed)
    · rintro (h | hcannot)
      · exact absurd h hpush
      · exact Bool.eq_true_of_not_eq_false fun hopen => hcannot ⟨httl, hhop, hbudget, hopen⟩
  · refine iff_of_true (if_neg fun hboth => hfwd hboth.2) (.inr fun hcan => hfwd ?_)
    exact hforward.mpr ⟨hcan.ttl, hcan.hop, hcan.budget⟩

/-! ### Receiving -/

/-- **Receiving one frame.** Nothing comes of an own frame exactly when the node spares it. -/
theorem receipt_withheld_iff (h : Lockstep node.bus node.dedupe) (frame : RfRxFrame)
    (iface : RivrIface) (nowMs : UInt32) :
    (∀ r ∈ node.receipt frame iface nowMs, r.hdr.srcId = node.myNodeId → r.Withheld) ↔
      node.Spares frame iface nowMs := by
  rcases hdec : node.decoded frame with _ | ⟨hdr, pl⟩
  · have hnone : node.receipt frame iface nowMs = none := by
      rw [RelayNode.receipt, hdec]
    rw [hnone, RelayNode.Spares, hdec]
    exact iff_of_true (fun r hr => by cases hr) fun hdr pl hsome => by cases hsome
  by_cases hpass : (rivrBusReceive node.bus frame.data iface).1.passes = true
  · have hkeeps : node.Spares frame iface nowMs ↔ (hdr.srcId = node.myNodeId →
        rivrDispatchSelect hdr.pktType iface = [] ∧ HandledBelow hdr.pktType ∧
          (hdr.pktType = pktProgPush ∨ ¬node.CanRelay frame hdr nowMs)) := by
      rw [RelayNode.Spares, hdec]
      constructor
      · exact fun hspares hown => (hspares hdr pl rfl hown).resolve_left fun hreject =>
          Bool.false_ne_true (hreject.symm.trans hpass)
      · rintro hown _ _ ⟨rfl, rfl⟩ hsrc
        exact .inr (hown hsrc)
    rw [receipt_of_passes h hdec hpass, hkeeps]
    constructor
    · intro hall hown
      obtain ⟨hmirrored, hevents, hrelayed⟩ := hall _ rfl hown
      have htype : HandledBelow hdr.pktType := (handle_events_eq_nil_iff _).mp hevents
      exact ⟨hmirrored, htype, (turnOffer_eq_none_iff h hdec hpass htype).mp hrelayed⟩
    · rintro hspares r hr hown
      obtain rfl := Option.mem_some_iff.mp hr
      obtain ⟨hmirrored, htype, hrelay⟩ := hspares hown
      exact ⟨hmirrored, (handle_events_eq_nil_iff _).mpr htype,
        (turnOffer_eq_none_iff h hdec hpass htype).mpr hrelay⟩
  · -- a frame that the bus keeps back has no receipt
    rw [Bool.not_eq_true] at hpass
    have hnone : node.receipt frame iface nowMs = none := by
      rw [RelayNode.receipt, hdec]
      rcases hbus : (rivrBusReceive node.bus frame.data iface).1 with _ | _ | targets
      · rfl
      · rfl
      · rw [hbus] at hpass
        cases hpass
    rw [hnone]
    exact iff_of_true (fun r hr => by cases hr) fun _ _ _ _ => .inl hpass

/-! ### Runs -/

/-- Nothing can come of an own frame that the action receives. -/
def SuppressLog.Spares (l : SuppressLog build) : RelayAction → Prop
  | .receive frame iface _ => iface ≠ .ble → l.node.Spares frame iface l.clock
  | _ => True

/-- **One action of a node** keeps it free of echoes exactly when it spares what it receives. -/
theorem PeerLog.echoFree_act_iff (l : PeerLog build) (h : l.Inert) (a : RelayAction) :
    (l.act a).EchoFree ↔ l.EchoFree ∧ l.Spares a := by
  have hid : (l.act a).node.myNodeId = l.node.myNodeId := l.toSuppressLog.act_myNodeId a
  have hreceipts : (l.act a).receipts = (l.receiptOf a).toList ++ l.receipts := rfl
  have hspares : (∀ r ∈ l.receiptOf a, r.hdr.srcId = l.node.myNodeId → r.Withheld) ↔ l.Spares a := by
    cases a with
    | receive frame iface allowed =>
      rw [SuppressLog.receiptOf, SuppressLog.Spares]
      split_ifs with hble
      · exact iff_of_true (fun r hr => by cases hr) fun hother => absurd hble hother
      · rw [receipt_withheld_iff h.lockstep]
        exact (imp_iff_right hble).symm
    | originate value => exact iff_of_true (fun r hr => by cases hr) trivial
    | retryTick => exact iff_of_true (fun r hr => by cases hr) trivial
    | enqueue req => exact iff_of_true (fun r hr => by cases hr) trivial
    | drain radio => exact iff_of_true (fun r hr => by cases hr) trivial
    | wait ms => exact iff_of_true (fun r hr => by cases hr) trivial
  rw [PeerLog.EchoFree, hid, hreceipts, ← hspares, PeerLog.EchoFree]
  constructor
  · intro hall
    exact ⟨fun r hr => hall r (List.mem_append_right _ hr),
      fun r hr => hall r (List.mem_append_left _ (Option.mem_toList.mpr hr))⟩
  · rintro ⟨hold, hnew⟩ r hr
    rcases List.mem_append.mp hr with hr | hr
    · exact hnew r (Option.mem_toList.mp hr)
    · exact hold r hr

variable {ι : Type*} [DecidableEq ι] {build : ι → RelayBuild}

/-- The action, if it is one of the node, spares what it receives. -/
def RelayMesh.Spares (i : ι) (s : RelayMesh build) (action : RelayMeshAction ι) : Prop :=
  ∀ a, s.turnOf action = some (i, a) → (s.peer i).Spares a

theorem RelayMesh.inert_act {s : RelayMesh build} (h : ∀ i, (s.peer i).Inert)
    (action : RelayMeshAction ι) (j : ι) : ((s.act action).peer j).Inert := by
  rw [RelayMesh.act]
  rcases s.turnOf action with _ | ⟨i, a⟩
  · exact h j
  · dsimp only
    by_cases hj : j = i
    · subst hj
      rw [Function.update_self]
      exact (h j).act a
    · rw [Function.update_of_ne hj]
      exact h j

/-- **One action of the mesh.** -/
theorem RelayMesh.echoFree_act_iff {s : RelayMesh build} (h : ∀ i, (s.peer i).Inert) (i : ι)
    (action : RelayMeshAction ι) :
    ((s.act action).peer i).EchoFree ↔ (s.peer i).EchoFree ∧ s.Spares i action := by
  rw [RelayMesh.act, RelayMesh.Spares]
  rcases hturn : s.turnOf action with _ | ⟨j, a⟩
  · exact ⟨fun hfree => ⟨hfree, fun a ha => nomatch ha⟩, And.left⟩
  · dsimp only
    by_cases hj : i = j
    · subst hj
      rw [Function.update_self, PeerLog.echoFree_act_iff _ (h i)]
      refine and_congr_right fun _ => ⟨?_, fun hall => hall a rfl⟩
      rintro hspares _ ⟨rfl, rfl⟩
      exact hspares
    · rw [Function.update_of_ne hj]
      refine (and_iff_left fun a' ha => ?_).symm
      exact absurd (Prod.mk.inj (Option.some.inj ha)).1.symm hj

/-- **No self-forwarding.** In every run of every mesh, nothing comes of the own frames that a node
hears again if and only if the node spares every frame that it receives. -/
theorem self_forwarding_iff (role : ι → NodeRole) (myNodeId : ι → UInt32) (netId : ι → UInt16)
    (actions : List (RelayMeshAction ι)) (i : ι) :
    (((RelayMesh.init build role myNodeId netId).run actions).peer i).EchoFree ↔
      Allows RelayMesh.act (RelayMesh.Spares i) (RelayMesh.init build role myNodeId netId) actions :=
  foldl_iff_allows (fun s : RelayMesh build => ∀ i, (s.peer i).Inert)
    (fun s : RelayMesh build => (s.peer i).EchoFree)
    (fun _ action h => RelayMesh.inert_act h action)
    (fun _ action h => RelayMesh.echoFree_act_iff h i action)
    (fun i => inert_init (role i) (myNodeId i) (netId i)) (fun _ hr => absurd hr List.not_mem_nil)
    actions

/-! ### A message that comes back -/

omit [DecidableEq ι] in
/-- The nodes originate frames with their own ids, and hear nothing but each other. -/
def RelayMesh.OwnTraffic (s : RelayMesh build) : RelayMeshAction ι → Prop
  | .turn i (.originate value) =>
    (protocolDecode (sinkData value) (UInt8.ofNat (sinkData value).length)).any
      (fun x => x.1.srcId = (s.peer i).node.myNodeId) = true
  | .turn _ (.receive ..) => False
  | .turn _ (.enqueue _) => False
  | _ => True

instance RelayMesh.decidableOwnTraffic (s : RelayMesh build) :
    ∀ action, Decidable (s.OwnTraffic action)
  | .turn _ (.originate _) => inferInstanceAs (Decidable (_ = true))
  | .turn _ (.receive ..) => .isFalse id
  | .turn _ (.enqueue _) => .isFalse id
  | .turn _ .retryTick => .isTrue trivial
  | .turn _ (.drain _) => .isTrue trivial
  | .turn _ (.wait _) => .isTrue trivial
  | .hear .. => .isTrue trivial

/-- Two repeaters, with the ids `0xA1` and `0xB2`. -/
def twoRepeaters : RelayMesh fun _ : Bool => repeaterBuild :=
  .init _ (fun _ => .repeater) (fun i => if i then 0xB2 else 0xA1) (fun _ => 0)

/-- The radio of a node sends what is due. -/
def sends (i : Bool) : RelayMeshAction Bool := .turn i (.drain fun _ => ⟨true, 300⟩)

/-- `0xA1` knows `0xB2` from a message of it. Then it sends a message of its own, which `0xB2`
relays and `0xA1` hears. -/
def echoedChat : List (RelayMeshAction Bool) :=
  [.turn true (.originate (chatFrame 0xB2 0 5)), sends true, .hear false 0 (-80) 5,
    .turn false (.originate (chatFrame 0xA1 0 77)), sends false, .hear true 1 (-80) 5,
    .turn true (.wait 500), sends true, .turn false (.wait 700), .hear false 2 (-80) 5,
    .turn false (.wait 500), sends false]

/-- **An own message.** `0xA1` hands its own message to the application and relays it. -/
theorem not_self_forwarding :
    ¬∀ actions : List (RelayMeshAction Bool),
      Allows RelayMesh.act RelayMesh.OwnTraffic twoRepeaters actions →
        ∀ i, ((twoRepeaters.run actions).peer i).EchoFree := by
  intro hall
  exact absurd (hall echoedChat (by decide +kernel) false) (by decide +kernel)

/-- The last frame on the air is the message of `0xA1`, two hops from it. -/
example : ((twoRepeaters.run echoedChat).air.getLast?.bind fun data =>
    (protocolDecode data (UInt8.ofNat data.length)).map fun x => (x.1.srcId, x.1.hop)) =
      some (0xA1, 2) := by decide +kernel

end Rivr
