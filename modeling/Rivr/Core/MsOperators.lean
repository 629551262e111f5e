import Rivr.Core.Compiler
import Rivr.Core.Debounce
import Rivr.Core.Flush

/-!
# The millisecond operators

`window.ms`, `throttle.ms` and `debounce.ms` wrap the kinds of `window.ticks`, `throttle.ticks` and
`delay.ticks`, and hand their events to `process_inner` and `flush_inner`, in which the source
writes the three operators a second time. Both times are the same operators: a node of a
millisecond operator and a node of its sibling that have been given the same parameters send the
same events at every input, the advances of the clock and the flush included, and stay in
corresponding states.
-/

namespace Rivr.Core

variable {checks : Bool}

/-! ### The second time -/

/-- The `WindowTicks` arm of `process_inner`, statement by statement. -/
def WindowTicks.processInner (checks : Bool) (w : WindowTicks) (ev : Event) :
    Except Panic (List Event × WindowTicks) := do
  let tick := ev.stamp.tick
  let dur := w.duration
  let ws := w.windowStart
  let mut w := w
  let mut out : List Event := []
  let deadline ← addU64 checks ws dur
  if deadline ≤ tick then
    let items := w.buffer.drainAll.1.map fun e => e.v.display
    w := { w with buffer := w.buffer.drainAll.2 }
    let q ← divU64 tick dur
    let start ← mulU64 checks q dur
    w := { w with windowStart := start }
    if !items.isEmpty then out := out ++ [Event.new ev.stamp (.window items)]
  if w.bufferPolicy = .flushEarly ∧ w.buffer.isFullCapped w.cap then
    let items := w.buffer.drainAll.1.map fun e => e.v.display
    w := { w with buffer := w.buffer.drainAll.2 }
    if !items.isEmpty then out := out ++ [Event.new ev.stamp (.window items)]
  let buffer ← w.buffer.pushCapped checks ev w.bufferPolicy w.cap
  return (out, { w with buffer := buffer })

/-- The `ThrottleTicks` arm of `process_inner`. -/
def ThrottleTicks.processInner (t : ThrottleTicks) (ev : Event) : List Event × ThrottleTicks :=
  let tick := ev.stamp.tick
  let ready := t.lastEmit == UInt64.ofNat (2 ^ 64 - 1) || satAddU64 t.lastEmit t.interval ≤ tick
  if ready then ([ev], { t with lastEmit := tick }) else ([], t)

/-- The `DelayTicks` arm of `process_inner`. -/
def DelayTicks.processInner (checks : Bool) (d : DelayTicks) (ev : Event) :
    Except Panic (List Event × DelayTicks) := do
  let tick := ev.stamp.tick
  let mut out : List Event := []
  if let some (deadline, settled) := d.pending then
    if deadline ≤ tick then out := out ++ [settled]
  let deadline ← addU64 checks tick d.delay
  return (out, { d with pending := some (deadline, ev) })

/-- The `WindowTicks` arm of `flush_inner`. -/
def WindowTicks.flushInner (w : WindowTicks) : List Event × WindowTicks :=
  let ws := w.windowStart
  let items := w.buffer.drainAll.1.map fun e => e.v.display
  let w := { w with buffer := w.buffer.drainAll.2 }
  if items.isEmpty then ([], w) else ([Event.new ⟨0, ws⟩ (.window items)], w)

/-- The `DelayTicks` arm of `flush_inner`. -/
def DelayTicks.flushInner (d : DelayTicks) : List Event × DelayTicks :=
  if let some (_, ev) := d.pending then ([ev], { d with pending := none }) else ([], d)

theorem flushed_eq (stamp : Stamp) (items : List Event) :
    flushed stamp items =
      if (items.map fun e => e.v.display).isEmpty then []
      else [Event.new stamp (.window (items.map fun e => e.v.display))] := by
  cases items <;> rfl

/-- The second half of the arm, after what the first half sent and left. -/
private theorem early_eq (checks : Bool) (w : WindowTicks) (ev : Event) (out : List Event) :
    (do
      let mut w := w
      let mut out := out
      if w.bufferPolicy = .flushEarly ∧ w.buffer.isFullCapped w.cap then
        let items := w.buffer.drainAll.1.map fun e => e.v.display
        w := { w with buffer := w.buffer.drainAll.2 }
        if !items.isEmpty then out := out ++ [Event.new ev.stamp (.window items)]
      let buffer ← w.buffer.pushCapped checks ev w.bufferPolicy w.cap
      return (out, { w with buffer := buffer })) =
      (w.store checks ev).map fun r => (out ++ r.1, r.2) := by
  rw [WindowTicks.store]
  by_cases hearly : w.bufferPolicy = .flushEarly ∧ w.buffer.isFullCapped w.cap
  · simp only [if_pos hearly, flushed_eq]
    cases hitems : w.buffer.drainAll.1 <;>
      rcases w.buffer.drainAll.2.pushCapped checks ev w.bufferPolicy w.cap with p | buffer <;>
        simp [bind, Except.bind, Except.map, pure, Except.pure]
  · simp only [if_neg hearly]
    rcases w.buffer.pushCapped checks ev w.bufferPolicy w.cap with p | buffer <;>
      simp [bind, Except.bind, Except.map, pure, Except.pure]

theorem WindowTicks.process_eq (w : WindowTicks) (ev : Event) :
    w.process checks ev = (w.boundary checks ev).bind fun r =>
      (r.2.store checks ev).map fun s => (r.1 ++ s.1, s.2) := by
  rw [WindowTicks.process]
  rcases w.boundary checks ev with p | ⟨out, w₁⟩
  · rfl
  · dsimp only [Except.bind]
    rcases hstore : w₁.store checks ev with p | r <;> simp [bind, Except.bind, Except.map, hstore]

theorem WindowTicks.processInner_eq (w : WindowTicks) (ev : Event) :
    w.processInner checks ev = w.process checks ev := by
  rw [WindowTicks.process_eq, WindowTicks.processInner, WindowTicks.boundary]
  rcases addU64 checks w.windowStart w.duration with p | deadline
  · rfl
  by_cases hdeadline : deadline ≤ ev.stamp.tick
  · simp only [Except.bind, bind, if_pos hdeadline]
    rcases divU64 ev.stamp.tick w.duration with p | q
    · rfl
    dsimp only
    rcases mulU64 checks q w.duration with p | start
    · rfl
    rw [flushed_eq]
    have hearly : ∀ out, _ := early_eq checks
      { w with buffer := w.buffer.drainAll.2, windowStart := start } ev
    cases hitems : w.buffer.drainAll.1 with
    | nil => exact hearly []
    | cons item items => exact hearly _
  · simp only [Except.bind, bind, if_neg hdeadline]
    exact early_eq checks w ev []

theorem ThrottleTicks.processInner_eq (t : ThrottleTicks) (ev : Event) :
    t.processInner ev = t.process ev := by
  simp only [ThrottleTicks.processInner, ThrottleTicks.process, Bool.or_eq_true, beq_iff_eq,
    decide_eq_true_eq]

theorem DelayTicks.processInner_eq (d : DelayTicks) (ev : Event) :
    d.processInner checks ev = d.process checks ev := by
  rw [DelayTicks.processInner, DelayTicks.process]
  rcases d.pending with _ | ⟨deadline, settled⟩
  · rfl
  · by_cases hdue : deadline ≤ ev.stamp.tick
    · simp only [if_pos hdue]
      rfl
    · simp only [if_neg hdue]
      rfl

theorem WindowTicks.flushInner_eq (w : WindowTicks) : w.flushInner = w.flush := by
  rw [WindowTicks.flushInner, WindowTicks.flush, flushed_eq]
  split_ifs <;> rfl

theorem DelayTicks.flushInner_eq (d : DelayTicks) : d.flushInner = d.flush := by
  rw [DelayTicks.flushInner, DelayTicks.flush]
  rcases d.pending with _ | ⟨deadline, ev⟩ <;> rfl

/-! ### The two siblings -/

/-- An operator that there is with ticks and with milliseconds, in its state. -/
inductive TickOperator where
  | window (w : WindowTicks)
  | throttle (t : ThrottleTicks)
  | debounce (d : DelayTicks)
  deriving DecidableEq

/-- The node of the tick operator. -/
def TickOperator.tickKind : TickOperator → NodeKind
  | .window w => .windowTicks w
  | .throttle t => .throttleTicks t
  | .debounce d => .delayTicks d

/-- The node of the millisecond operator. -/
def TickOperator.msKind : TickOperator → NodeKind
  | .window w => .windowMs (.windowTicks w)
  | .throttle t => .throttleMs (.throttleTicks t)
  | .debounce d => .debounceMs (.delayTicks d)

/-- What reaches a node: an event, an advance of its clock by `tick_clock`, or the flush. -/
inductive NodeInput where
  | event (ev : Event)
  | advance (stamp : Stamp) (seq : UInt32)
  | flush

/-- What a node does at an input. -/
def NodeKind.accept (checks : Bool) (kind : NodeKind) : NodeInput → ProcessResult
  | .event ev => kind.process checks ev
  | .advance stamp seq => kind.process checks (unitEvent stamp seq)
  | .flush => .ok kind.flush

/-- What it sends at each of a sequence of inputs, and its state after them. -/
def NodeKind.acceptAll (checks : Bool) : NodeKind → List NodeInput →
    Except Panic (List (List Event) × NodeKind)
  | kind, [] => .ok ([], kind)
  | kind, input :: inputs => do
    let (out, kind) ← kind.accept checks input
    let (outs, kind) ← kind.acceptAll checks inputs
    .ok (out :: outs, kind)

/-- One event at the operator of `process`. -/
def TickOperator.process (checks : Bool) (ev : Event) :
    TickOperator → Except Panic (List Event × TickOperator)
  | .window w => (w.process checks ev).map fun r => (r.1, .window r.2)
  | .throttle t => .ok ((t.process ev).1, .throttle (t.process ev).2)
  | .debounce d => (d.process checks ev).map fun r => (r.1, .debounce r.2)

/-- One event at the operator of `process_inner`. -/
def TickOperator.processInner (checks : Bool) (ev : Event) :
    TickOperator → Except Panic (List Event × TickOperator)
  | .window w => (w.processInner checks ev).map fun r => (r.1, .window r.2)
  | .throttle t => .ok ((t.processInner ev).1, .throttle (t.processInner ev).2)
  | .debounce d => (d.processInner checks ev).map fun r => (r.1, .debounce r.2)

/-- The flush of the operator in `flush`. -/
def TickOperator.flush : TickOperator → List Event × TickOperator
  | .window w => (w.flush.1, .window w.flush.2)
  | .throttle t => ([], .throttle t)
  | .debounce d => (d.flush.1, .debounce d.flush.2)

/-- The flush of the operator in `flush_inner`, as far as a millisecond node calls it. -/
def TickOperator.flushInner : TickOperator → List Event × TickOperator
  | .window w => (w.flushInner.1, .window w.flushInner.2)
  | .throttle t => ([], .throttle t)
  | .debounce d => (d.flushInner.1, .debounce d.flushInner.2)

theorem TickOperator.processInner_eq (op : TickOperator) (ev : Event) :
    op.processInner checks ev = op.process checks ev := by
  cases op with
  | window w => rw [TickOperator.processInner, WindowTicks.processInner_eq]; rfl
  | throttle t => rw [TickOperator.processInner, ThrottleTicks.processInner_eq]; rfl
  | debounce d => rw [TickOperator.processInner, DelayTicks.processInner_eq]; rfl

theorem TickOperator.flushInner_eq (op : TickOperator) : op.flushInner = op.flush := by
  cases op with
  | window w => rw [TickOperator.flushInner, WindowTicks.flushInner_eq]; rfl
  | throttle t => rfl
  | debounce d => rw [TickOperator.flushInner, DelayTicks.flushInner_eq]; rfl

/-- The node of the tick operator runs the operator of `process`. -/
theorem TickOperator.process_tickKind (op : TickOperator) (ev : Event) :
    op.tickKind.process checks ev = (op.process checks ev).map fun r => (r.1, r.2.tickKind) := by
  cases op with
  | window w =>
    change (w.process checks ev).map _ = ((w.process checks ev).map _).map _
    cases w.process checks ev <;> rfl
  | throttle t => rfl
  | debounce d =>
    change (d.process checks ev).map _ = ((d.process checks ev).map _).map _
    cases d.process checks ev <;> rfl

/-- The node of the millisecond operator runs the operator of `process_inner`. -/
theorem TickOperator.process_msKind (op : TickOperator) (ev : Event) :
    op.msKind.process checks ev = (op.processInner checks ev).map fun r => (r.1, r.2.msKind) := by
  cases op with
  | window w =>
    change ((w.process checks ev).map _).map _ = ((w.processInner checks ev).map _).map _
    rw [WindowTicks.processInner_eq]
    cases w.process checks ev <;> rfl
  | throttle t =>
    rw [TickOperator.processInner, ThrottleTicks.processInner_eq]
    rfl
  | debounce d =>
    change ((d.process checks ev).map _).map _ = ((d.processInner checks ev).map _).map _
    rw [DelayTicks.processInner_eq]
    cases d.process checks ev <;> rfl

theorem TickOperator.flush_tickKind (op : TickOperator) :
    op.tickKind.flush = (op.flush.1, op.flush.2.tickKind) := by
  cases op <;> rfl

theorem TickOperator.flush_msKind (op : TickOperator) :
    op.msKind.flush = (op.flushInner.1, op.flushInner.2.msKind) := by
  cases op with
  | window w => rw [TickOperator.flushInner, WindowTicks.flushInner_eq]; rfl
  | throttle t => rfl
  | debounce d => rw [TickOperator.flushInner, DelayTicks.flushInner_eq]; rfl

/-! ### Sequences of inputs -/

/-- What the operator does at an input. -/
def TickOperator.accept (checks : Bool) (op : TickOperator) :
    NodeInput → Except Panic (List Event × TickOperator)
  | .event ev => op.process checks ev
  | .advance stamp seq => op.process checks (unitEvent stamp seq)
  | .flush => .ok op.flush

/-- **One input**: both siblings do what the operator does. -/
theorem TickOperator.accept_kinds (checks : Bool) (op : TickOperator) (input : NodeInput) :
    op.tickKind.accept checks input =
        (op.accept checks input).map (fun r => (r.1, r.2.tickKind)) ∧
      op.msKind.accept checks input =
        (op.accept checks input).map (fun r => (r.1, r.2.msKind)) := by
  have hprocess : ∀ ev, op.msKind.process checks ev =
      (op.process checks ev).map fun r => (r.1, r.2.msKind) := fun ev => by
    rw [op.process_msKind, op.processInner_eq]
  cases input with
  | event ev => exact ⟨op.process_tickKind ev, hprocess ev⟩
  | advance stamp seq => exact ⟨op.process_tickKind _, hprocess _⟩
  | flush =>
    constructor
    · exact congrArg Except.ok op.flush_tickKind
    · rw [NodeKind.accept, op.flush_msKind, op.flushInner_eq]
      rfl

/-- The siblings come to the same: the same panic, or the same events at every input and
corresponding states. -/
def SameAnswers (ms tick : Except Panic (List (List Event) × NodeKind)) : Prop :=
  (∃ outs op, ms = .ok (outs, TickOperator.msKind op) ∧ tick = .ok (outs, TickOperator.tickKind op)) ∨
    ∃ p, ms = .error p ∧ tick = .error p

/-- **A sequence of inputs**: both siblings come to the same. -/
theorem TickOperator.sameAnswers_acceptAll (op : TickOperator) (inputs : List NodeInput) :
    SameAnswers (op.msKind.acceptAll checks inputs) (op.tickKind.acceptAll checks inputs) := by
  induction inputs generalizing op with
  | nil => exact Or.inl ⟨[], op, rfl, rfl⟩
  | cons input inputs ih =>
    obtain ⟨htick, hms⟩ := op.accept_kinds checks input
    rw [NodeKind.acceptAll, NodeKind.acceptAll, htick, hms]
    rcases op.accept checks input with p | ⟨out, op'⟩
    · exact Or.inr ⟨p, rfl, rfl⟩
    · obtain ⟨outs, op'', hms', htick'⟩ | ⟨p, hms', htick'⟩ := ih op'
      · refine Or.inl ⟨out :: outs, op'', ?_, ?_⟩
        · simp only [Except.map, bind, Except.bind, hms']
        · simp only [Except.map, bind, Except.bind, htick']
      · refine Or.inr ⟨p, ?_, ?_⟩
        · simp only [Except.map, bind, Except.bind, hms']
        · simp only [Except.map, bind, Except.bind, htick']

end Rivr.Core
