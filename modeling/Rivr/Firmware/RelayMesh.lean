import Rivr.Firmware.FrameFlow
import Rivr.Firmware.RelaySuppression

/-!
# A mesh of relay nodes

Any number of nodes that hear each other: each of them a `RelayNode` with its own build and clock,
its packet bus, its caches and its transmit gates, and between them the frames that went on the air.
A frame on the air is heard by any node, at any later time, any number of times or never, so
neighbours relay it with any delay and in any order. What other transmitters send reaches a node as
a reception of its own.

As an observer, each node notes what every frame that its bus let through came to (`Receipt`): where
it was mirrored, what the application saw of it, and whether a copy went to the transmit queue.
-/

namespace Rivr

open Runs

/-! ### What a received frame comes to -/

/-- What becomes of a frame that the bus lets through: the transports it is mirrored to, what the
application sees of it, and the copy that the relay step hands to the transmit queue. -/
structure Receipt where
  hdr : RivrPktHdr
  mirrored : RivrIfaceMask
  events : List AppEvent
  relayed : Option RfTxRequest

variable {build : RelayBuild}

/-- The frame as the handlers leave it. -/
def RelayNode.handled (node : RelayNode build) (frame : RfRxFrame) (hdr : RivrPktHdr)
    (pl : Option (List UInt8)) (nowMs : UInt32) : RxHandled build.toBuildConfig :=
  (node.toRadioNode.received frame hdr nowMs).handle frame hdr pl nowMs

/-- The copy that a turn of the receive loop hands to the transmit queue. -/
def RelayNode.turnOffer (node : RelayNode build) (frame : RfRxFrame) (hdr : RivrPktHdr)
    (pl : Option (List UInt8)) (nowMs : UInt32) : Option RfTxRequest :=
  let fwd := node.toRadioNode.floodDecision frame hdr nowMs
  let handled := node.handled frame hdr pl nowMs
  if handled.mayRelay ∧ fwd.result = .forward then
    handled.node.relayOffer (node.verdicts frame hdr pl nowMs) frame fwd.pkt pl nowMs
  else none

/-- The node when the bus has let a frame through. -/
def RelayNode.counted (node : RelayNode build) (nowMs : UInt32) : RelayNode build :=
  node.onFabric (rivrFabricOnRx · nowMs)

/-- What becomes of a frame, if the bus lets it through. -/
def RelayNode.receipt (node : RelayNode build) (frame : RfRxFrame) (iface : RivrIface)
    (nowMs : UInt32) : Option Receipt :=
  match node.decoded frame, (rivrBusReceive node.bus frame.data iface).1 with
  | some (hdr, pl), .accept targets =>
    some ⟨hdr, targets, (node.receive frame iface nowMs).2,
      (node.counted nowMs).turnOffer frame hdr pl nowMs⟩
  | _, _ => none

variable {node : RelayNode build} {frame : RfRxFrame} {iface : RivrIface} {hdr : RivrPktHdr}
  {pl : Option (List UInt8)} {nowMs : UInt32}

@[simp]
theorem counted_toRadioNode : (node.counted nowMs).toRadioNode = node.toRadioNode :=
  onFabric_toRadioNode _ _

@[simp]
theorem counted_handled :
    (node.counted nowMs).handled frame hdr pl nowMs = node.handled frame hdr pl nowMs := by
  rw [RelayNode.handled, counted_toRadioNode, RelayNode.handled]

/-- The gates look at the fabric and at the node that the handlers leave. -/
theorem verdicts_counted : (node.counted nowMs).verdicts frame hdr pl nowMs =
    relayVerdicts build (node.counted nowMs).fabric (node.handled frame hdr pl nowMs).node hdr
      nowMs := by
  rw [RelayNode.verdicts, counted_toRadioNode, RelayNode.handled]

/-- What the bus stops leaves no receipt; the application sees nothing of it, and nothing of it goes
to the transmit queue. -/
theorem receive_of_receipt_eq_none (h : node.receipt frame iface nowMs = none) :
    (node.receive frame iface nowMs).1.toRadioNode = node.toRadioNode ∧
      (node.receive frame iface nowMs).2 = [] := by
  rw [RelayNode.receipt] at h
  rw [RelayNode.receive]
  rcases hdec : node.decoded frame with _ | ⟨hdr, pl⟩
  · exact ⟨rfl, rfl⟩
  · rw [hdec] at h
    dsimp only
    rw [onFabric_bus]
    rcases hbus : (rivrBusReceive node.bus frame.data iface).1 with _ | _ | targets
    · exact ⟨onFabric_toRadioNode _ _, rfl⟩
    · exact ⟨onFabric_toRadioNode _ _, rfl⟩
    · rw [hbus] at h
      cases h

/-- What the bus lets through is new to the dedupe cache, and reaches the handlers. -/
theorem accepts_of_passes (h : Lockstep node.bus node.dedupe)
    (hdec : node.decoded frame = some (hdr, pl))
    (hpass : (rivrBusReceive node.bus frame.data iface).1.passes = true) {env : RxVerdicts}
    (henv : env.busAccepts = true) : node.toRadioNode.Accepts env frame hdr pl nowMs := by
  obtain ⟨hdecode, hnet⟩ := Option.filter_eq_some_iff.mp hdec
  refine ⟨hdecode, of_decide_eq_true hnet, henv, ?_⟩
  rcases rivrBusReceive_cases node.bus iface hdecode with ⟨hreject, -⟩ | ⟨hnew, -, -⟩
  · exact nomatch hpass.symm.trans hreject
  · exact (h.check hnew nowMs).1

/-- The turn of a frame that the bus lets through. -/
theorem receive_of_passes (h : Lockstep node.bus node.dedupe)
    (hdec : node.decoded frame = some (hdr, pl))
    (hpass : (rivrBusReceive node.bus frame.data iface).1.passes = true) :
    (node.receive frame iface nowMs).2 = (node.handled frame hdr pl nowMs).events ∧
      (node.receive frame iface nowMs).1.toRadioNode =
        (node.handled frame hdr pl nowMs).relayed ((node.counted nowMs).verdicts frame hdr pl nowMs)
          frame (node.toRadioNode.floodDecision frame hdr nowMs) pl nowMs := by
  have hturn : ∀ env : RxVerdicts, env.busAccepts = true →
      rfRxFrame node.toRadioNode env frame nowMs =
        ((node.handled frame hdr pl nowMs).relayed env frame
          (node.toRadioNode.floodDecision frame hdr nowMs) pl nowMs,
          (node.handled frame hdr pl nowMs).events) :=
    fun env henv => rfRxFrame_of_accepts (accepts_of_passes h hdec hpass henv)
  rw [RelayNode.receive, hdec]
  dsimp only
  rw [onFabric_bus, hpass]
  simp only [Bool.not_true, Bool.false_eq_true, if_false, onFabric_toRadioNode]
  rw [hturn _ rfl, verdicts_counted]
  exact ⟨rfl, rfl⟩

theorem receipt_of_passes (h : Lockstep node.bus node.dedupe)
    (hdec : node.decoded frame = some (hdr, pl))
    (hpass : (rivrBusReceive node.bus frame.data iface).1.passes = true) :
    node.receipt frame iface nowMs = some ⟨hdr, rivrDispatchSelect hdr.pktType iface,
      (node.handled frame hdr pl nowMs).events, (node.counted nowMs).turnOffer frame hdr pl nowMs⟩ := by
  have hbus : (rivrBusReceive node.bus frame.data iface).1 =
      .accept (rivrDispatchSelect hdr.pktType iface) := by
    obtain ⟨hdecode, -⟩ := Option.filter_eq_some_iff.mp hdec
    rw [rivrBusReceive, busKey, hdecode] at hpass ⊢
    split_ifs at hpass ⊢ with hlen
    · cases hpass
    · dsimp only [Option.map_some] at hpass ⊢
      split_ifs at hpass ⊢
      · cases hpass
      · rfl
  rw [RelayNode.receipt, hdec, hbus]
  dsimp only
  rw [(receive_of_passes h hdec hpass).1]

/-- Receiving does not touch the id. -/
theorem receive_myNodeId (node : RelayNode build) (frame : RfRxFrame) (iface : RivrIface)
    (nowMs : UInt32) : (node.receive frame iface nowMs).1.myNodeId = node.myNodeId := by
  rw [RelayNode.receive]
  split
  · rfl
  · rename_i hdr pl _
    have hcounted : (node.onFabric (rivrFabricOnRx · nowMs)).toRadioNode.myNodeId =
        node.myNodeId := congrArg RadioNode.myNodeId (onFabric_toRadioNode _ _)
    dsimp only
    split
    · exact hcounted
    · exact (rfRxFrame_myNodeId _ _ _ _).trans hcounted

/-- **A receipt is what happens.** On the queue that the handlers leave, the copy is pushed. -/
theorem receive_txQueue (h : Lockstep node.bus node.dedupe)
    (hdec : node.decoded frame = some (hdr, pl))
    (hpass : (rivrBusReceive node.bus frame.data iface).1.passes = true) :
    (node.receive frame iface nowMs).1.txQueue =
      match (node.counted nowMs).turnOffer frame hdr pl nowMs with
      | none => (node.handled frame hdr pl nowMs).node.txQueue
      | some req => (rbTryPush (node.handled frame hdr pl nowMs).node.txQueue req).2 := by
  rw [(receive_of_passes h hdec hpass).2, RelayNode.turnOffer, counted_handled,
    counted_toRadioNode, RxHandled.relayed]
  split_ifs
  · exact congrArg RadioNode.txQueue (relay_eq _ _ _ _ _ _)
  · rfl

/-! ### Nodes that note their receipts -/

/-- A node with, as an observer, its receipts, newest first. -/
structure PeerLog (build : RelayBuild) extends SuppressLog build where
  receipts : List Receipt

/-- A node that has just been switched on. -/
def PeerLog.init (build : RelayBuild) (role : NodeRole) (myNodeId : UInt32) (netId : UInt16) :
    PeerLog build := ⟨.init build role myNodeId netId, []⟩

/-- The receipt of an action. The frames of a BLE application are not received but originated. -/
def SuppressLog.receiptOf (l : SuppressLog build) : RelayAction → Option Receipt
  | .receive frame iface _ => if iface = .ble then none else l.node.receipt frame iface l.clock
  | _ => none

/-- The frames that the radio sends in an action, oldest first. -/
def SuppressLog.transmits (l : SuppressLog build) : RelayAction → List (List UInt8)
  | .drain radio =>
    ((txDrainLoop l.clock radio txDrainLimit l.node).1.filter (·.sent)).map (·.req.data)
  | _ => []

/-- One action. -/
def PeerLog.act (l : PeerLog build) (a : RelayAction) : PeerLog build where
  toSuppressLog := l.toSuppressLog.act a
  receipts := (l.receiptOf a).toList ++ l.receipts

/-- A drain does not touch the id. -/
theorem txDrainLoop_myNodeId (nowMs : UInt32) (radio : ℕ → RadioOutcome) (n : ℕ)
    (node : RelayNode build) : (txDrainLoop nowMs radio n node).2.myNodeId = node.myNodeId := by
  have hsend : ∀ (node : RelayNode build) (req : RfTxRequest) (radio : RadioOutcome),
      (node.send req nowMs radio).2.myNodeId = node.myNodeId := by
    intro node req radio
    rw [RelayNode.send]
    dsimp only
    split_ifs <;> simp
  induction n generalizing node with
  | zero => rfl
  | succ n ih =>
    rw [txDrainLoop]
    split
    · rfl
    · dsimp only
      split_ifs
      · exact ih _
      · exact (ih _).trans (hsend _ _ _)

/-- **No action changes the id of the node.** -/
theorem SuppressLog.act_myNodeId (l : SuppressLog build) (a : RelayAction) :
    (l.act a).node.myNodeId = l.node.myNodeId := by
  cases a with
  | receive frame iface allowed =>
    rw [SuppressLog.act]
    split_ifs
    · exact sourceHandleBleOrigination_myNodeId l.node.toRadioNode frame.data allowed l.clock
    · exact receive_myNodeId l.node frame iface l.clock
  | originate value => exact (sinkEffect_rfTxSinkCb l.node.toRadioNode value l.clock).id
  | retryTick => rfl
  | enqueue req => rfl
  | drain radio => exact txDrainLoop_myNodeId l.clock radio txDrainLimit l.node
  | wait ms => rfl

/-! ### The mesh -/

variable {ι : Type*}

/-- The nodes, and the frames that went on the air so far, oldest first. -/
structure RelayMesh (build : ι → RelayBuild) where
  peer : ∀ i, PeerLog (build i)
  air : List (List UInt8)

variable {build : ι → RelayBuild}

/-- Nodes that have just been switched on, and nothing on the air. -/
def RelayMesh.init (build : ι → RelayBuild) (role : ι → NodeRole) (myNodeId : ι → UInt32)
    (netId : ι → UInt16) : RelayMesh build :=
  ⟨fun i => .init (build i) (role i) (myNodeId i) (netId i), []⟩

/-- What can happen in the mesh. -/
inductive RelayMeshAction (ι : Type*)
  /-- An action of a node. -/
  | turn (i : ι) (a : RelayAction)
  /-- The frame with a number on the air is heard. -/
  | hear (i : ι) (number : ℕ) (rssiDbm : Int16) (snrDb : Int8)

/-- The node whose turn it is, and its action; a frame that is heard comes over LoRa. -/
def RelayMesh.turnOf (s : RelayMesh build) : RelayMeshAction ι → Option (ι × RelayAction)
  | .turn i a => some (i, a)
  | .hear i number rssiDbm snrDb =>
    s.air[number]?.map fun data => (i, .receive (driverFrame data rssiDbm snrDb) .lora true)

variable [DecidableEq ι]

/-- One action. -/
def RelayMesh.act (s : RelayMesh build) (action : RelayMeshAction ι) : RelayMesh build :=
  match s.turnOf action with
  | none => s
  | some (i, a) =>
    { peer := Function.update s.peer i ((s.peer i).act a)
      air := s.air ++ (s.peer i).transmits a }

/-- The mesh after a list of actions. -/
def RelayMesh.run (s : RelayMesh build) (actions : List (RelayMeshAction ι)) : RelayMesh build :=
  actions.foldl RelayMesh.act s

end Rivr
