import Rivr.Core.Engine

/-!
# The end of the stream

`Node::flush` and `Engine::flush_all`: what the nodes still hold is sent on, node by node, and the
engine runs until it is idle.
-/

namespace Rivr.Core

/-- The flush of a `WindowTicks`: the buffer as one window, on the monotonic clock. -/
def WindowTicks.flush (w : WindowTicks) : List Event × WindowTicks :=
  (flushed ⟨0, w.windowStart⟩ w.buffer.drainAll.1, { w with buffer := w.buffer.drainAll.2 })

/-- The flush of a `DelayTicks`: the pending event. -/
def DelayTicks.flush (d : DelayTicks) : List Event × DelayTicks :=
  match d.pending with
  | some (_, ev) => ([ev], { d with pending := none })
  | none => ([], d)

/-- `NodeKind::flush_inner`. -/
def NodeKind.flushInner : NodeKind → List Event × NodeKind
  | .windowTicks w => (w.flush.1, .windowTicks w.flush.2)
  | .delayTicks d => (d.flush.1, .delayTicks d.flush.2)
  | other => ([], other)

/-- `Node::flush` on the node's kind. -/
def NodeKind.flush : NodeKind → List Event × NodeKind
  | .windowTicks w => (w.flush.1, .windowTicks w.flush.2)
  | .windowMs inner => (inner.flushInner.1, .windowMs inner.flushInner.2)
  | .debounceMs inner => (inner.flushInner.1, .debounceMs inner.flushInner.2)
  | .delayTicks d => (d.flush.1, .delayTicks d.flush.2)
  | other => ([], other)

/-- `Node::flush`. -/
def Node.flush (n : Node) : List Event × Node := (n.kind.flush.1, { n with kind := n.kind.flush.2 })

/-- One turn of the loop of `flush_all`: the node at an index is flushed, and what it gives goes to
the nodes behind it. -/
def Engine.flushNode (e : Engine) (i : ℕ) : Engine :=
  match e.nodes[i]? with
  | none => e
  | some node =>
    let (scheduler, seq) := sendOut node.outputs node.flush.1 e.scheduler e.seqCounter
    { e with nodes := e.nodes.set i node.flush.2, scheduler := scheduler, seqCounter := seq }

/-- The loop of `flush_all`. -/
def Engine.flushNodes (e : Engine) : Engine := (List.range e.nodes.length).foldl Engine.flushNode e

/-- `Engine::flush_all`, with a bound on the turns of `run_to_idle`. -/
def Engine.flushAll (checks : Bool) (fuel : ℕ) (e : Engine) : Option (Except Panic Engine) :=
  e.flushNodes.runToIdle checks fuel

end Rivr.Core
