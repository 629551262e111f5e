import Mathlib.Logic.Function.Basic
import Rivr.Firmware.Reception

/-!
# A mesh of nodes

Any number of nodes, each with its own build and its own clock, and the frames that were
transmitted so far. A transmitted frame can be received by any node, at any later time, any
number of times or never: this covers loss, reordering, duplication and every change of links.
The radio drivers do not know which node transmitted a frame they receive, so `fromId` is 0.

A run is a list of actions (`MeshRun`), each of them one call of an entry point of the firmware,
a transmission, or the passing of time.
-/

namespace Rivr

/-! ### The mesh -/

/-- A frame that reached the handlers of a node, and what the application saw of it. -/
structure Reception where
  hdr : RivrPktHdr
  payload : Option (List UInt8)
  atMs : ℕ
  events : List AppEvent

variable {ι : Type*}

/-- The nodes with their clocks, the frames transmitted so far, oldest first, and, as an observer,
what each node received, newest first. -/
structure Mesh (build : ι → BuildConfig) where
  node : ∀ i, RadioNode (build i)
  nowMs : ι → ℕ
  air : List (List UInt8)
  received : ι → List Reception

variable {build : ι → BuildConfig}

/-- The clock of a node as its code reads it. -/
def Mesh.clock (s : Mesh build) (i : ι) : UInt32 := UInt32.ofNat (s.nowMs i)

/-- What can happen in a mesh. -/
inductive MeshAction (ι : Type*)
  /-- A frame of the node's own program or console goes to the sink. -/
  | originate (i : ι) (value : List UInt8)
  /-- A frame of an application comes over BLE. -/
  | bleFrame (i : ι) (data : List UInt8) (allowed : Bool)
  /-- The retry table is looked through. -/
  | retryTick (i : ι)
  /-- The oldest request of the transmit queue goes on the air. -/
  | transmit (i : ι)
  /-- The frame with a number on the air is received. -/
  | receive (i : ι) (number : ℕ) (rssiDbm : Int16) (snrDb : Int8) (env : RxVerdicts)
  /-- Time passes at a node. -/
  | wait (i : ι) (ms : ℕ)

/-- A tick of the retry table of a node. -/
def RadioNode.retryTick {cfg : BuildConfig} (node : RadioNode cfg) (nowMs : UInt32) :
    RadioNode cfg :=
  let tick := retryTableTick node.retryTable node.txQueue node.ctrlSeq nowMs
  { node with
    retryTable := tick.rt
    txQueue := tick.txQueue
    ctrlSeq := tick.pktIdCounter }

variable [DecidableEq ι]

/-- The mesh with another node at one place. -/
def Mesh.setNode (s : Mesh build) (i : ι) (node : RadioNode (build i)) : Mesh build :=
  { s with node := Function.update s.node i node }

/-- A node transmits the oldest request of its queue. -/
def Mesh.transmit (s : Mesh build) (i : ι) : Mesh build :=
  match rbPop (s.node i).txQueue with
  | (none, _) => s
  | (some req, txQueue) =>
    { s.setNode i { s.node i with txQueue := txQueue } with air := s.air ++ [req.data] }

/-- A frame as a radio driver hands it over. -/
def driverFrame (data : List UInt8) (rssiDbm : Int16) (snrDb : Int8) : RfRxFrame :=
  ⟨data, rssiDbm, snrDb, 0⟩

/-- What a node receives, with the reception if the frame reaches the handlers. -/
def Mesh.receive (s : Mesh build) (i : ι) (frame : RfRxFrame) (env : RxVerdicts) : Mesh build :=
  let (node, events) := rfRxFrame (s.node i) env frame (s.clock i)
  { s.setNode i node with
    received := match (s.node i).accepted env frame (s.clock i) with
      | none => s.received
      | some (hdr, pl) =>
        Function.update s.received i (⟨hdr, pl, s.nowMs i, events⟩ :: s.received i) }

/-- One action. -/
def Mesh.act (s : Mesh build) : MeshAction ι → Mesh build
  | .originate i value => s.setNode i (rfTxSinkCb (s.node i) value (s.clock i))
  | .bleFrame i data allowed =>
    s.setNode i (sourceHandleBleOrigination (s.node i) data allowed (s.clock i))
  | .retryTick i => s.setNode i ((s.node i).retryTick (s.clock i))
  | .transmit i => s.transmit i
  | .receive i number rssiDbm snrDb env =>
    match s.air[number]? with
    | none => s
    | some data => s.receive i (driverFrame data rssiDbm snrDb) env
  | .wait i ms => { s with nowMs := Function.update s.nowMs i (s.nowMs i + ms) }

/-- A run in which every action, in the mesh where it happens, is one of the given kind. -/
inductive MeshRun (kind : Mesh build → MeshAction ι → Prop) (s₀ : Mesh build) :
    Mesh build → Prop
  | start : MeshRun kind s₀ s₀
  | act {s : Mesh build} {a : MeshAction ι} (run : MeshRun kind s₀ s) (ha : kind s a) :
    MeshRun kind s₀ (s.act a)

/-- The mesh after a list of actions. -/
def Mesh.run (s : Mesh build) (actions : List (MeshAction ι)) : Mesh build :=
  actions.foldl Mesh.act s

/-- Every action of the list is of the given kind in the mesh where it happens. -/
def Mesh.Allows (kind : Mesh build → MeshAction ι → Prop) :
    Mesh build → List (MeshAction ι) → Prop
  | _, [] => True
  | s, a :: actions => kind s a ∧ (s.act a).Allows kind actions

instance Mesh.decidableAllows (kind : Mesh build → MeshAction ι → Prop)
    [∀ s a, Decidable (kind s a)] : ∀ s actions, Decidable (Mesh.Allows kind s actions)
  | _, [] => inferInstanceAs (Decidable True)
  | s, a :: actions =>
    haveI := Mesh.decidableAllows kind (s.act a) actions
    inferInstanceAs (Decidable (_ ∧ _))

theorem MeshRun.run {kind : Mesh build → MeshAction ι → Prop} {s₀ s : Mesh build}
    (run : MeshRun kind s₀ s) {actions : List (MeshAction ι)} (h : s.Allows kind actions) :
    MeshRun kind s₀ (s.run actions) := by
  induction actions generalizing s with
  | nil => exact run
  | cons a actions ih => exact ih (run.act h.1) h.2

/-- Any list of actions makes a run. -/
theorem meshRun_run (s : Mesh build) (actions : List (MeshAction ι)) :
    MeshRun (fun _ _ => True) s (s.run actions) := by
  have hallows : ∀ (s : Mesh build) (as : List (MeshAction ι)), s.Allows (fun _ _ => True) as := by
    intro s as
    induction as generalizing s with
    | nil => trivial
    | cons a as ih => exact ⟨trivial, ih _⟩
  exact MeshRun.start.run (hallows s actions)

/-- What holds at the start and is kept by every action of the kind holds in every mesh that a
run reaches. -/
theorem MeshRun.invariant {kind : Mesh build → MeshAction ι → Prop} {s₀ s : Mesh build}
    {Inv : Mesh build → Prop} (run : MeshRun kind s₀ s) (hstart : Inv s₀)
    (hact : ∀ s a, Inv s → kind s a → Inv (s.act a)) : Inv s := by
  induction run with
  | start => exact hstart
  | act _ ha ih => exact hact _ _ ih ha

/-- Nodes with different ids that have just been switched on, and nothing on the air. -/
structure Mesh.Booted (s : Mesh build) : Prop where
  init : ∀ i, ∃ role id netId, s.node i = .init (build i) role id netId
  id_injective : Function.Injective fun i => (s.node i).myNodeId
  id_ne_zero : ∀ i, (s.node i).myNodeId ≠ 0
  air : s.air = []
  received : ∀ i, s.received i = []

end Rivr
