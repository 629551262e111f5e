import Rivr.Core.Event

/-!
# Stream graph nodes

`rivr_core/src/runtime/node.rs`: what each operator does with one event. Processing returns
the events to send on and the node's next state, or a panic.

The call of the C emit hook, and the host's printing, are effects outside the engine and are
not modelled; the engine's own effect log is.
-/

namespace Rivr.Core

/-- `SinkKind`. -/
inductive SinkKind where
  | usbPrint | loraTx | loraBeacon | debugDump
  deriving DecidableEq, Repr

/-- `NodeKind::WindowTicks`. -/
structure WindowTicks where
  duration : UInt64
  cap : ℕ
  buffer : BoundedVec
  windowStart : UInt64
  bufferPolicy : DropPolicy
  deriving DecidableEq

/-- `NodeKind::ThrottleTicks`; `lastEmit` is the largest value before the first emission. -/
structure ThrottleTicks where
  interval : UInt64
  lastEmit : UInt64
  deriving DecidableEq

/-- `NodeKind::DelayTicks`: the pending event with its deadline. -/
structure DelayTicks where
  delay : UInt64
  pending : Option (UInt64 × Event)
  deriving DecidableEq

/-- `NodeKind::Budget`. -/
structure Budget where
  ratePerTick : Float
  burst : UInt64
  tokens : Float
  lastRefill : UInt64
  deriving DecidableEq

/-- `NodeKind::AirtimeBudget`. -/
structure AirtimeBudget where
  windowTicks : UInt64
  budgetPerWindow : UInt64
  used : UInt64
  windowStart : UInt64
  totalDropped : UInt64
  deriving DecidableEq

/-- `NodeKind::ToaBudget`. -/
structure ToaBudget where
  windowMs : UInt64
  budgetUs : UInt64
  usedUs : UInt64
  windowStart : UInt64
  toaUsPerEvent : UInt64
  totalDropped : UInt64
  deriving DecidableEq

/-- `NodeKind`. -/
inductive NodeKind where
  | source (name : String) (clock : UInt8) (intervalMs : Option UInt64)
  | mapUpper
  | mapLower
  | mapTrim
  | filterNonempty
  | filterKind (kind : String)
  | filterPktType (pktType : UInt8)
  | foldCount (count : UInt64)
  | foldSum (sum : Int64)
  | foldLast (last : Option Value)
  | windowTicks (w : WindowTicks)
  | throttleTicks (t : ThrottleTicks)
  | delayTicks (d : DelayTicks)
  | windowMs (inner : NodeKind)
  | throttleMs (inner : NodeKind)
  | debounceMs (inner : NodeKind)
  | budget (b : Budget)
  | airtimeBudget (b : AirtimeBudget)
  | toaBudget (b : ToaBudget)
  | merge
  | tag (label : String)
  | emit (sink : SinkKind)
  deriving DecidableEq

/-- `Node`; the count of queue drops is never touched and is left out. -/
structure Node where
  id : ℕ
  name : String
  kind : NodeKind
  inputs : List ℕ
  outputs : List ℕ
  deriving DecidableEq

/-- `Node::new`. -/
def Node.new (id : ℕ) (name : String) (kind : NodeKind) : Node := ⟨id, name, kind, [], []⟩

/-! ### The operators with their own clockwork -/

/-- The events a drained buffer is flushed as: one window, or nothing. -/
def flushed (stamp : Stamp) (items : List Event) : List Event :=
  if items.isEmpty then [] else [Event.new stamp (.window (items.map fun e => e.v.display))]

/-- The first half of a window's processing: past the boundary the buffer is flushed and a
new window starts. -/
def WindowTicks.boundary (checks : Bool) (w : WindowTicks) (ev : Event) :
    Except Panic (List Event × WindowTicks) := do
  let deadline ← addU64 checks w.windowStart w.duration
  if deadline ≤ ev.stamp.tick then
    let q ← divU64 ev.stamp.tick w.duration
    let start ← mulU64 checks q w.duration
    .ok (flushed ev.stamp w.buffer.drainAll.1,
      { w with buffer := w.buffer.drainAll.2, windowStart := start })
  else .ok ([], w)

/-- The second half: a full buffer is flushed early under that policy, then the event is
stored. -/
def WindowTicks.store (checks : Bool) (w : WindowTicks) (ev : Event) :
    Except Panic (List Event × WindowTicks) :=
  if w.bufferPolicy = .flushEarly ∧ w.buffer.isFullCapped w.cap then do
    let buffer ← w.buffer.drainAll.2.pushCapped checks ev w.bufferPolicy w.cap
    .ok (flushed ev.stamp w.buffer.drainAll.1, { w with buffer := buffer })
  else do
    let buffer ← w.buffer.pushCapped checks ev w.bufferPolicy w.cap
    .ok ([], { w with buffer := buffer })

/-- The `WindowTicks` arm of `process`. -/
def WindowTicks.process (checks : Bool) (w : WindowTicks) (ev : Event) :
    Except Panic (List Event × WindowTicks) := do
  let (out, w) ← w.boundary checks ev
  let (early, w) ← w.store checks ev
  .ok (out ++ early, w)

/-- The `ThrottleTicks` arm of `process`. -/
def ThrottleTicks.process (t : ThrottleTicks) (ev : Event) : List Event × ThrottleTicks :=
  if t.lastEmit = UInt64.ofNat (2 ^ 64 - 1) ∨ satAddU64 t.lastEmit t.interval ≤ ev.stamp.tick then
    ([ev], { t with lastEmit := ev.stamp.tick })
  else ([], t)

/-- The `DelayTicks` arm of `process`: the pending event leaves when its deadline has passed,
and the new event takes its place. -/
def DelayTicks.process (checks : Bool) (d : DelayTicks) (ev : Event) :
    Except Panic (List Event × DelayTicks) := do
  let out := match d.pending with
    | some (deadline, settled) => if deadline ≤ ev.stamp.tick then [settled] else []
    | none => []
  let deadline ← addU64 checks ev.stamp.tick d.delay
  .ok (out, { d with pending := some (deadline, ev) })

/-- The `Budget` arm of `process`. -/
def Budget.process (b : Budget) (ev : Event) : List Event × Budget :=
  let elapsed := (satSubU64 ev.stamp.tick b.lastRefill).toFloat
  let tokens := minF64 (b.tokens + elapsed * b.ratePerTick) b.burst.toFloat
  let b := { b with lastRefill := ev.stamp.tick }
  if 1.0 ≤ tokens then ([ev], { b with tokens := tokens - 1.0 })
  else ([], { b with tokens := tokens })

/-- The window roll that both airtime budgets make: the start of the window the tick lies in,
or `none` when the current window still runs. -/
def rollWindow (checks : Bool) (tick windowStart width : UInt64) :
    Except Panic (Option UInt64) := do
  let deadline ← addU64 checks windowStart width
  if deadline ≤ tick then
    let elapsed ← subU64 checks tick windowStart
    let advance ← divU64 elapsed width
    let jump ← mulU64 checks advance width
    let start ← addU64 checks windowStart jump
    .ok (some start)
  else .ok none

/-- The `AirtimeBudget` arm of `process`. -/
def AirtimeBudget.process (checks : Bool) (b : AirtimeBudget) (ev : Event) :
    Except Panic (List Event × AirtimeBudget) := do
  let rolled ← rollWindow checks ev.stamp.tick b.windowStart b.windowTicks
  let b := match rolled with
    | some start => { b with windowStart := start, used := 0 }
    | none => b
  if b.used < b.budgetPerWindow then
    let used ← addU64 checks b.used 1
    .ok ([ev], { b with used := used })
  else
    let dropped ← addU64 checks b.totalDropped 1
    .ok ([], { b with totalDropped := dropped })

/-- The `ToaBudget` arm of `process`. -/
def ToaBudget.process (checks : Bool) (b : ToaBudget) (ev : Event) :
    Except Panic (List Event × ToaBudget) := do
  let rolled ← rollWindow checks ev.stamp.tick b.windowStart b.windowMs
  let b := match rolled with
    | some start => { b with windowStart := start, usedUs := 0 }
    | none => b
  let sum ← addU64 checks b.usedUs b.toaUsPerEvent
  if sum ≤ b.budgetUs then .ok ([ev], { b with usedUs := sum })
  else
    let dropped ← addU64 checks b.totalDropped 1
    .ok ([], { b with totalDropped := dropped })

/-! ### Processing one event -/

/-- A kind's answer to one event: the events to send on and the next state. -/
abbrev ProcessResult := Except Panic (List Event × NodeKind)

/-- `NodeKind::process_inner`: the three kinds that the millisecond operators wrap. -/
def NodeKind.processInner (checks : Bool) (kind : NodeKind) (ev : Event) : ProcessResult :=
  match kind with
  | .windowTicks w => (w.process checks ev).map fun r => (r.1, .windowTicks r.2)
  | .throttleTicks t => .ok ((t.process ev).1, .throttleTicks (t.process ev).2)
  | .delayTicks d => (d.process checks ev).map fun r => (r.1, .delayTicks r.2)
  | other => .ok ([], other)

/-- A text operator maps the payload of `Str` events and passes every other event. -/
def mapStr (f : String → String) (ev : Event) : List Event :=
  match ev.v with
  | .str s => [{ ev with v := .str (f s) }]
  | _ => [ev]

/-- The test of `filter.nonempty`. -/
def keepsNonempty : Value → Bool
  | .str s => !(trim s).isEmpty
  | .unit => false
  | _ => true

/-- The test of `filter.pkt_type`: byte 3 of a binary frame. -/
def hasPktType (pktType : UInt8) : Value → Bool
  | .bytes b => b[3]? == some pktType
  | _ => false

/-- The sum after one event: only integers count. -/
def addValue (checks : Bool) (sum : Int64) : Value → Except Panic Int64
  | .int n => addI64 checks sum n
  | _ => .ok sum

/-- A filter passes an event or drops it. -/
def passIf (keep : Bool) (ev : Event) : List Event := if keep then [ev] else []

/-- `Node::process` on the node's kind. -/
def NodeKind.process (checks : Bool) (kind : NodeKind) (ev : Event) : ProcessResult :=
  match kind with
  | .source name clock intervalMs => .ok ([ev], .source name clock intervalMs)
  | .mapUpper => .ok (mapStr (fun s => s.map Char.toUpper) ev, .mapUpper)
  | .mapLower => .ok (mapStr (fun s => s.map Char.toLower) ev, .mapLower)
  | .mapTrim => .ok (mapStr trim ev, .mapTrim)
  | .filterNonempty => .ok (passIf (keepsNonempty ev.v) ev, .filterNonempty)
  | .filterKind k => .ok (passIf (k == "*" || ev.v.kindTag == k) ev, .filterKind k)
  | .filterPktType t => .ok (passIf (hasPktType t ev.v) ev, .filterPktType t)
  | .foldCount count =>
    (addU64 checks count 1).map fun n =>
      ([Event.new ev.stamp (.int n.toInt64)], .foldCount n)
  | .foldSum sum =>
    (addValue checks sum ev.v).map fun s => ([Event.new ev.stamp (.int s)], .foldSum s)
  | .foldLast last => .ok ([Event.new ev.stamp (last.getD .unit)], .foldLast (some ev.v))
  | .windowTicks w => NodeKind.processInner checks (.windowTicks w) ev
  | .throttleTicks t => NodeKind.processInner checks (.throttleTicks t) ev
  | .delayTicks d => NodeKind.processInner checks (.delayTicks d) ev
  | .windowMs inner => (inner.processInner checks ev).map fun r => (r.1, .windowMs r.2)
  | .throttleMs inner => (inner.processInner checks ev).map fun r => (r.1, .throttleMs r.2)
  | .debounceMs inner => (inner.processInner checks ev).map fun r => (r.1, .debounceMs r.2)
  | .budget b => .ok ((b.process ev).1, .budget (b.process ev).2)
  | .airtimeBudget b => (b.process checks ev).map fun r => (r.1, .airtimeBudget r.2)
  | .toaBudget b => (b.process checks ev).map fun r => (r.1, .toaBudget r.2)
  | .merge => .ok ([ev], .merge)
  | .tag label => .ok ([ev.withTag label], .tag label)
  | .emit sink => .ok ([Event.new ev.stamp .unit], .emit sink)

/-- `Node::process`: only the kind changes. -/
def Node.process (checks : Bool) (n : Node) (ev : Event) : Except Panic (List Event × Node) :=
  (n.kind.process checks ev).map fun r => (r.1, { n with kind := r.2 })

end Rivr.Core
