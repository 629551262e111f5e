import Rivr.Core.Node
import Rivr.Core.Scheduler

/-!
# The engine

`rivr_core/src/runtime/engine.rs`: the node table, injection and clock ticks, and the run
loop. A run ends by itself or in the panic of a node; an index outside the node table is a
panic as well.

The maps from names to nodes are association lists, a new binding in front. The `debug` flag
only prints and is left out; the 64-bit counters that are only reported wrap in every build.
-/

namespace Rivr.Core

/-- `EffectRecord`. -/
structure EffectRecord where
  stamp : Stamp
  sink : SinkKind
  valueStr : String
  deriving DecidableEq, Repr

/-- `TraceRecord`. -/
structure TraceRecord where
  label : String
  stamp : Stamp
  nodeName : String
  valueStr : String
  deriving DecidableEq, Repr

/-- `SourceMetrics`. -/
structure SourceMetrics where
  injected : UInt64
  lastTick : UInt64
  lastClock : UInt8
  deriving DecidableEq, Repr

/-- A map from names to node ids. -/
abbrev NameMap := List (String × ℕ)

/-- `insert`. -/
def NameMap.insert (m : NameMap) (name : String) (id : ℕ) : NameMap :=
  (name, id) :: m.filter fun e => e.1 ≠ name

/-- `Engine`. -/
structure Engine where
  nodes : List Node
  sourceIds : NameMap
  streamIds : NameMap
  scheduler : Scheduler
  clockNow : Vector UInt64 8
  seqCounter : UInt32
  eventsProcessed : UInt64
  effectLog : Option (List EffectRecord)
  traceLog : Option (List TraceRecord)
  sourceMetrics : List (String × SourceMetrics)
  deriving DecidableEq

/-- `Engine::new`. -/
def Engine.new : Engine where
  nodes := []
  sourceIds := []
  streamIds := []
  scheduler := .new
  clockNow := Vector.replicate 8 0
  seqCounter := 0
  eventsProcessed := 0
  effectLog := none
  traceLog := none
  sourceMetrics := []

/-! ### Graph construction -/

/-- `Engine::add_node`: the engine, and the id the node got. -/
def Engine.addNode (e : Engine) (node : Node) : ℕ × Engine :=
  (e.nodes.length, { e with nodes := e.nodes ++ [{ node with id := e.nodes.length }] })

/-- `Engine::connect`, for two nodes of the table. -/
def Engine.connect (e : Engine) (up down : ℕ) : Engine :=
  { e with
    nodes := (e.nodes.modify up fun n => { n with outputs := n.outputs ++ [down] }).modify down
      fun n => { n with inputs := n.inputs ++ [up] } }

/-- `Engine::register_source`. -/
def Engine.registerSource (e : Engine) (name : String) (id : ℕ) : Engine :=
  { e with sourceIds := e.sourceIds.insert name id, streamIds := e.streamIds.insert name id }

/-- `Engine::register_stream`. -/
def Engine.registerStream (e : Engine) (name : String) (id : ℕ) : Engine :=
  { e with streamIds := e.streamIds.insert name id }

/-! ### Injection and ticks -/

/-- The metrics update of `inject`. -/
def bumpMetrics (name : String) (stamp : Stamp) :
    List (String × SourceMetrics) → List (String × SourceMetrics)
  | [] => [(name, ⟨1, stamp.tick, stamp.clock⟩)]
  | (k, m) :: rest =>
    if k = name then (k, ⟨m.injected + 1, stamp.tick, stamp.clock⟩) :: rest
    else (k, m) :: bumpMetrics name stamp rest

/-- `Engine::inject`. -/
def Engine.inject (e : Engine) (sourceName : String) (ev : Event) : Except String Engine :=
  match e.sourceIds.lookup sourceName with
  | none => .error ("unknown source `" ++ sourceName ++ "`")
  | some id =>
    let clk := ev.stamp.clock.toNat
    let clockNow :=
      if clk < 8 ∧ ev.stamp.tick > e.clockNow.getD clk 0 then
        e.clockNow.setIfInBounds clk ev.stamp.tick
      else e.clockNow
    .ok { e with
      clockNow := clockNow
      sourceMetrics := bumpMetrics sourceName ev.stamp e.sourceMetrics
      seqCounter := e.seqCounter + 1
      scheduler := e.scheduler.push id { ev with seq := e.seqCounter } }

/-- The node is a source on the given clock. -/
def NodeKind.isSourceOn (clockId : UInt8) : NodeKind → Bool
  | .source _ clock _ => clock == clockId
  | _ => false

/-- The injection loop of `tick_clock`: one unit event for each matching source. -/
def pushTicks (stamp : Stamp) : List ℕ → Scheduler → UInt32 → Scheduler × UInt32
  | [], s, seq => (s, seq)
  | id :: ids, s, seq =>
    pushTicks stamp ids (s.push id { Event.new stamp .unit with seq := seq }) (seq + 1)

/-- The part of `tick_clock` after the clock was moved. -/
def Engine.tickSources (e : Engine) (clockId : UInt8) (tick : UInt64) : Engine :=
  let ids := (e.nodes.filter fun n => n.kind.isSourceOn clockId).map Node.id
  let (scheduler, seq) := pushTicks ⟨clockId, tick⟩ ids e.scheduler e.seqCounter
  { e with scheduler := scheduler, seqCounter := seq }

/-- `Engine::tick_clock`. -/
def Engine.tickClock (e : Engine) (clockId : UInt8) (tick : UInt64) : Engine :=
  if clockId.toNat < 8 then
    if tick ≤ e.clockNow.getD clockId.toNat 0 then e
    else { e with clockNow := e.clockNow.setIfInBounds clockId.toNat tick }.tickSources clockId tick
  else e.tickSources clockId tick

/-! ### Running -/

/-- Sending a node's output: each event gets the next sequence number and goes to every
downstream node. -/
def sendOut (downstream : List ℕ) : List Event → Scheduler → UInt32 → Scheduler × UInt32
  | [], s, seq => (s, seq)
  | ev :: evs, s, seq =>
    sendOut downstream evs
      (downstream.foldl (fun s id => s.push id { ev with seq := seq }) s) (seq + 1)

/-- The effect record of an event that reaches a sink. -/
def effectOf (kind : NodeKind) (ev : Event) : List EffectRecord :=
  match kind with
  | .emit sink => [⟨ev.stamp, sink, ev.v.display⟩]
  | _ => []

/-- The trace records of the events that leave a tag node. -/
def tracesOf (node : Node) (out : List Event) : List TraceRecord :=
  match node.kind with
  | .tag label => out.map fun ev => ⟨label, ev.stamp, node.name, ev.v.display⟩
  | _ => []

/-- One turn of the loop of `run`, on the item it popped. -/
def Engine.step (checks : Bool) (e : Engine) (item : WorkItem) : Except Panic Engine :=
  match e.nodes[item.nodeId]? with
  | none => .error .indexOutOfBounds
  | some node =>
    match node.process checks item.event with
    | .error p => .error p
    | .ok (out, node') =>
      let (scheduler, seq) := sendOut node'.outputs out e.scheduler e.seqCounter
      .ok { e with
        nodes := e.nodes.set item.nodeId node'
        scheduler := scheduler
        seqCounter := seq
        eventsProcessed := e.eventsProcessed + 1
        effectLog := e.effectLog.map (· ++ effectOf node.kind item.event)
        traceLog := e.traceLog.map (· ++ tracesOf node out) }

/-- `Engine::run`: the number of items processed, and the engine left. -/
def Engine.run (checks : Bool) : ℕ → Engine → Except Panic (ℕ × Engine)
  | 0, e => .ok (0, e)
  | maxSteps + 1, e =>
    match e.scheduler.pop with
    | (none, scheduler) => .ok (0, { e with scheduler := scheduler })
    | (some item, scheduler) =>
      match Engine.step checks { e with scheduler := scheduler } item with
      | .error p => .error p
      | .ok e' => (Engine.run checks maxSteps e').map fun r => (r.1 + 1, r.2)

/-- `Engine::run_to_idle`, with a bound on the turns of its loop: `none` when they do not
suffice. -/
def Engine.runToIdle (checks : Bool) : ℕ → Engine → Option (Except Panic Engine)
  | 0, _ => none
  | fuel + 1, e =>
    if e.scheduler.isIdle then some (.ok e)
    else
      match e.run checks 4096 with
      | .error p => some (.error p)
      | .ok (_, e') => Engine.runToIdle checks fuel e'

end Rivr.Core
