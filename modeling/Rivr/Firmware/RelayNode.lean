import Rivr.Firmware.AirtimeSched
import Rivr.Firmware.DutyCycle
import Rivr.Firmware.FwdSet
import Rivr.Firmware.OpfwdSuppress
import Rivr.Firmware.PacketBus

/-!
# A node between its receiver and its transmitter

What stands around `rfRxFrame` on a node: the packet bus and the fabric in front of it, the gates
that decide how long a relay waits, the suppression ring that notes what neighbours relay, and
behind the transmit queue the drain loop of `firmware_core/main.c`, which holds a request back until
its time has come, skips a relay that is in the ring, and asks the airtime scheduler and the duty
cycle before it hands the frame to the radio.
-/

namespace Rivr

open SlotTable

/-- The globals of a node, with those of the bus, the ring, the fabric and the transmit gates. -/
structure RelayNode (build : RelayBuild) extends RadioNode build.toBuildConfig where
  bus : RivrBusDupCache
  opfwd : OpfwdSuppress
  fabric : FabricState
  airtimeCtx : AirtimeCtx
  dc : DcCtx

/-- The globals of a node that has been switched on. -/
def RelayNode.init (build : RelayBuild) (role : NodeRole) (myNodeId : UInt32) (netId : UInt16) :
    RelayNode build where
  toRadioNode := .init build.toBuildConfig role myNodeId netId
  bus := rivrBusInit
  opfwd := .init
  fabric := rivrFabricInit
  airtimeCtx := airtimeSchedInit
  dc := dutycycleInit

variable {build : RelayBuild}

/-- A hook of the fabric, which only a repeater has. -/
def RelayNode.onFabric (node : RelayNode build) (hook : FabricState → FabricState) :
    RelayNode build :=
  if build.fabricRepeater then { node with fabric := hook node.fabric } else node

/-! ### Receiving -/

/-- The header and the payload of a frame that decodes and belongs to the network. -/
def RelayNode.decoded (node : RelayNode build) (frame : RfRxFrame) :
    Option (RivrPktHdr × Option (List UInt8)) :=
  (protocolDecode frame.data (UInt8.ofNat frame.data.length)).filter fun x =>
    x.1.netId = 0 ∨ x.1.netId = node.netId

/-- The gates of the relay of a frame that reaches the handlers. -/
def RelayNode.verdicts (node : RelayNode build) (frame : RfRxFrame) (hdr : RivrPktHdr)
    (pl : Option (List UInt8)) (nowMs : UInt32) : RxVerdicts :=
  relayVerdicts build node.fabric
    ((node.toRadioNode.received frame hdr nowMs).handle frame hdr pl nowMs).node hdr nowMs

/-- One frame of `sources_rf_rx_drain` that does not come from a BLE application. -/
def RelayNode.receive (node : RelayNode build) (frame : RfRxFrame) (iface : RivrIface)
    (nowMs : UInt32) : RelayNode build × List AppEvent :=
  match node.decoded frame with
  | none => (node, [])
  | some (hdr, pl) =>
    let node := node.onFabric (rivrFabricOnRx · nowMs)
    let (verdict, bus) := rivrBusReceive node.bus frame.data iface
    let node := { node with bus := bus }
    -- the fabric has counted the frame, although the bus keeps it back
    if !verdict.passes then (node, [])
    else
      let fwd := node.toRadioNode.floodDecision frame hdr nowMs
      let (radioNode, events) := rfRxFrame node.toRadioNode (node.verdicts frame hdr pl nowMs) frame
        nowMs
      let opfwd := if fwd.result = .dropDedupe ∧ hdr.flags &&& pktFlagRelay ≠ 0 then
          opfwdSuppressAdd node.opfwd hdr.srcId hdr.pktId nowMs
        else node.opfwd
      ({ node with toRadioNode := radioNode, opfwd := opfwd }, events)

/-! ### Transmitting -/

def txDrainLimit : ℕ := 2

/-- What `radio_transmit` returns, and what the clock shows after it. -/
structure RadioOutcome where
  ok : Bool
  atMs : UInt32

/-- The jitter gate: the request waits for its time. -/
def RfTxRequest.Waits (req : RfTxRequest) (nowMs : UInt32) : Prop :=
  req.dueMs ≠ 0 ∧ req.dueMs > nowMs

instance RfTxRequest.decidableWaits (req : RfTxRequest) (nowMs : UInt32) :
    Decidable (req.Waits nowMs) := inferInstanceAs (Decidable (_ ∧ _))

/-- The packet of a request that is a relay. -/
def RfTxRequest.relayKey (req : RfTxRequest) : Option WireKey :=
  match protocolDecode req.data (UInt8.ofNat req.data.length) with
  | none => none
  | some (hdr, _) =>
    if hdr.flags &&& pktFlagRelay ≠ 0 then some (hdr.srcId, hdr.pktId) else none

/-- The suppression gate: the request is a relay of a packet in the ring. -/
def RelayNode.suppresses (node : RelayNode build) (req : RfTxRequest) (nowMs : UInt32) : Bool :=
  match req.relayKey with
  | none => false
  | some key => opfwdSuppressCheck node.opfwd key.1 key.2 nowMs

/-- The airtime scheduler and the duty cycle let the request pass. -/
def RelayNode.admits (node : RelayNode build) (req : RfTxRequest) (nowMs : UInt32) : Bool :=
  (airtimeSchedCheckConsume node.airtimeCtx ⟨some req.data, UInt8.ofNat req.data.length⟩ req.toaUs
    nowMs).1 && (dutycycleCheck node.dc nowMs req.toaUs).1

/-- What happens to a request whose time has come: whether the radio gets it, and the node it
leaves. -/
def RelayNode.send (node : RelayNode build) (req : RfTxRequest) (nowMs : UInt32)
    (radio : RadioOutcome) : Bool × RelayNode build :=
  -- another node relayed the frame while it waited
  if node.suppresses req nowMs then (false, node)
  else
    let (admitted, airtimeCtx) := airtimeSchedCheckConsume node.airtimeCtx
      ⟨some req.data, UInt8.ofNat req.data.length⟩ req.toaUs nowMs
    let node := { node with airtimeCtx := airtimeCtx }
    -- a request that is refused here is lost, with nothing charged to the duty cycle
    if !admitted then (false, node)
    else
      let (fits, dc) := dutycycleCheck node.dc nowMs req.toaUs
      let node := { node with dc := dc }
      if !fits then (false, node.onFabric (rivrFabricOnTxBlockedDc · nowMs))
      else if radio.ok then
        -- only what the radio has sent counts against the duty cycle
        (true, { node with dc := dutycycleRecord node.dc radio.atMs req.toaUs })
      else (true, node.onFabric (rivrFabricOnTxFail · radio.atMs))

/-- A request that a drain took out of the queue for good: what the airtime scheduler and the duty
cycle say about it when its turn comes, and whether the radio gets it. -/
structure TxTurn where
  req : RfTxRequest
  admitted : Bool
  sent : Bool

/-- `tx_drain_loop`, with the iterations that are left: the requests it takes out of the queue,
oldest first, and the node it leaves. -/
def txDrainLoop (nowMs : UInt32) (radio : ℕ → RadioOutcome) :
    ℕ → RelayNode build → List TxTurn × RelayNode build
  | 0, node => ([], node)
  | n + 1, node =>
    match rbPop node.txQueue with
    | (none, _) => ([], node)
    | (some req, txQueue) =>
      let node := { node with txQueue := txQueue }
      if req.Waits nowMs then
        -- a request that is not due goes to the end, and costs one iteration
        txDrainLoop nowMs radio n { node with txQueue := (rbTryPush txQueue req).2 }
      else
        let (sent, node') := node.send req nowMs (radio n)
        let (turns, node'') := txDrainLoop nowMs radio n node'
        (⟨req, node.admits req nowMs, sent⟩ :: turns, node'')

/-! ### What the steps leave alone -/

@[simp]
theorem onFabric_opfwd (node : RelayNode build) (hook : FabricState → FabricState) :
    (node.onFabric hook).opfwd = node.opfwd := by
  rw [RelayNode.onFabric]
  split_ifs <;> rfl

@[simp]
theorem onFabric_bus (node : RelayNode build) (hook : FabricState → FabricState) :
    (node.onFabric hook).bus = node.bus := by
  rw [RelayNode.onFabric]
  split_ifs <;> rfl

@[simp]
theorem onFabric_toRadioNode (node : RelayNode build) (hook : FabricState → FabricState) :
    (node.onFabric hook).toRadioNode = node.toRadioNode := by
  rw [RelayNode.onFabric]
  split_ifs <;> rfl

/-- What a node knows of the packets it has met: the bus cache, the dedupe cache and the ring. -/
structure RelayNode.SameCaches (node node' : RelayNode build) : Prop where
  bus : node'.bus = node.bus
  dedupe : node'.dedupe = node.dedupe
  opfwd : node'.opfwd = node.opfwd

theorem RelayNode.SameCaches.trans {node node' node'' : RelayNode build}
    (h : node.SameCaches node') (h' : node'.SameCaches node'') : node.SameCaches node'' :=
  ⟨h'.bus.trans h.bus, h'.dedupe.trans h.dedupe, h'.opfwd.trans h.opfwd⟩

theorem sameCaches_send (node : RelayNode build) (req : RfTxRequest) (nowMs : UInt32)
    (radio : RadioOutcome) : node.SameCaches (node.send req nowMs radio).2 := by
  rw [RelayNode.send]
  dsimp only
  split_ifs <;> constructor <;> simp

/-- A drain changes neither the caches nor the ring. -/
theorem sameCaches_txDrainLoop (nowMs : UInt32) (radio : ℕ → RadioOutcome) (n : ℕ)
    (node : RelayNode build) : node.SameCaches (txDrainLoop nowMs radio n node).2 := by
  induction n generalizing node with
  | zero => exact ⟨rfl, rfl, rfl⟩
  | succ n ih =>
    rw [txDrainLoop]
    split
    · exact ⟨rfl, rfl, rfl⟩
    · rename_i req txQueue _
      dsimp only
      split_ifs
      · obtain ⟨hbus, hdedupe, hopfwd⟩ := ih { node with txQueue := (rbTryPush txQueue req).2 }
        exact ⟨hbus, hdedupe, hopfwd⟩
      · obtain ⟨hbus, hdedupe, hopfwd⟩ :=
          (sameCaches_send { node with txQueue := txQueue } req nowMs (radio n)).trans (ih _)
        exact ⟨hbus, hdedupe, hopfwd⟩

/-! ### What the ring stops -/

/-- The radio gets a request unless the ring suppresses it, or one of the gates refuses it. -/
theorem send_fst (node : RelayNode build) (req : RfTxRequest) (nowMs : UInt32)
    (radio : RadioOutcome) :
    (node.send req nowMs radio).1 = (!node.suppresses req nowMs && node.admits req nowMs) := by
  rw [RelayNode.send, RelayNode.admits]
  dsimp only
  split_ifs with hsup hair hduty <;> simp_all

/-- **A drain without suppression.** While the ring finds no packet, the radio gets every request
that the gates admit. -/
theorem sent_eq_admitted {nowMs : UInt32} {radio : ℕ → RadioOutcome} {n : ℕ}
    {node : RelayNode build} (hring : ∀ key : WireKey,
      opfwdSuppressCheck node.opfwd key.1 key.2 nowMs = false) {turn : TxTurn}
    (h : turn ∈ (txDrainLoop nowMs radio n node).1) : turn.sent = turn.admitted := by
  induction n generalizing node with
  | zero => exact absurd h List.not_mem_nil
  | succ n ih =>
    rw [txDrainLoop] at h
    split at h
    · exact absurd h List.not_mem_nil
    · rename_i req txQueue _
      dsimp only at h
      split_ifs at h
      · have hsame : ∀ key : WireKey, opfwdSuppressCheck
            ({ node with txQueue := (rbTryPush txQueue req).2 } : RelayNode build).opfwd key.1 key.2
              nowMs = false := hring
        exact ih hsame h
      · rcases List.mem_cons.mp h with rfl | hrest
        · have hsup : RelayNode.suppresses { node with txQueue := txQueue } req nowMs = false := by
            rw [RelayNode.suppresses]
            split
            · rfl
            · exact hring _
          rw [send_fst, hsup]
          rfl
        · -- sending leaves the ring as it is, so the rest of the drain is not suppressed either
          refine ih (fun key => ?_) hrest
          rw [(sameCaches_send _ _ _ _).opfwd]
          exact hring key

/-! ### What a reception overhears -/

/-- The packet that a received frame is a relay of. -/
def RelayNode.overhears (node : RelayNode build) (frame : RfRxFrame) : Option WireKey :=
  (node.decoded frame).bind fun x =>
    if x.1.flags &&& pktFlagRelay ≠ 0 then some (x.1.srcId, x.1.pktId) else none

end Rivr
