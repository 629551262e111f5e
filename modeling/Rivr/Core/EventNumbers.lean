import Rivr.Core.Feed

/-!
# Events without their numbers

The sequence number of an event is the scheduler's affair: an operator copies it with the event and
never reads it. So feeding an operator and taking the numbers away can be done in either order
(`NodeKind.feed_unnumbered`).
-/

namespace Rivr.Core

variable {checks : Bool}

/-- The event without its sequence number. -/
def Event.unnumbered (ev : Event) : Event := { ev with seq := 0 }

@[simp] theorem unnumbered_v (ev : Event) : ev.unnumbered.v = ev.v := rfl

@[simp] theorem unnumbered_stamp (ev : Event) : ev.unnumbered.stamp = ev.stamp := rfl

@[simp]
theorem unnumbered_unnumbered (ev : Event) : ev.unnumbered.unnumbered = ev.unnumbered := rfl

/-- A buffer without the numbers of its events. -/
def BoundedVec.unnumbered (b : BoundedVec) : BoundedVec :=
  { b with inner := b.inner.map Event.unnumbered }

/-- An operator without the numbers of the events it holds. -/
def NodeKind.unnumbered : NodeKind → NodeKind
  | .windowTicks w => .windowTicks { w with buffer := w.buffer.unnumbered }
  | .delayTicks d => .delayTicks { d with pending := d.pending.map (Prod.map id Event.unnumbered) }
  | .windowMs inner => .windowMs inner.unnumbered
  | .throttleMs inner => .throttleMs inner.unnumbered
  | .debounceMs inner => .debounceMs inner.unnumbered
  | kind => kind

/-- An answer without the numbers. -/
def unnumberedAnswer (r : List Event × NodeKind) : List Event × NodeKind :=
  (r.1.map Event.unnumbered, r.2.unnumbered)

/-! ### One event -/

theorem flushed_unnumbered (stamp : Stamp) (items : List Event) :
    flushed stamp (items.map Event.unnumbered) = flushed stamp items := by
  rw [flushed, flushed, List.isEmpty_map, List.map_map]
  rfl

theorem map_unnumbered_flushed (stamp : Stamp) (items : List Event) :
    (flushed stamp items).map Event.unnumbered = flushed stamp items := by
  rw [flushed]
  split_ifs <;> rfl

theorem BoundedVec.pushCapped_unnumbered (b : BoundedVec) (ev : Event) (policy : DropPolicy)
    (cap : ℕ) : b.unnumbered.pushCapped checks ev.unnumbered policy cap =
      (b.pushCapped checks ev policy cap).map BoundedVec.unnumbered := by
  obtain ⟨inner, drops⟩ := b
  simp only [BoundedVec.pushCapped, BoundedVec.unnumbered, List.length_map]
  split_ifs
  · cases addU64 checks drops 1 with
    | error p => rfl
    | ok drops =>
      cases policy <;> cases inner <;>
        simp [bind, Except.bind, Except.map, BoundedVec.unnumbered]
  · simp [Except.map, BoundedVec.unnumbered]

/-- A window without the numbers of the events it holds. -/
def WindowTicks.unnumbered (w : WindowTicks) : WindowTicks :=
  { w with buffer := w.buffer.unnumbered }

theorem WindowTicks.boundary_unnumbered (w : WindowTicks) (ev : Event) :
    w.unnumbered.boundary checks ev.unnumbered =
      (w.boundary checks ev).map (Prod.map (List.map Event.unnumbered) unnumbered) := by
  simp only [WindowTicks.boundary, WindowTicks.unnumbered]
  cases addU64 checks w.windowStart w.duration with
  | error p => rfl
  | ok deadline =>
    simp only [bind, Except.bind]
    by_cases hle : deadline ≤ ev.stamp.tick
    · have hle' : deadline ≤ ev.unnumbered.stamp.tick := hle
      rw [if_pos hle, if_pos hle', unnumbered_stamp]
      cases divU64 ev.stamp.tick w.duration with
      | error p => rfl
      | ok q =>
        dsimp only
        cases mulU64 checks q w.duration with
        | error p => rfl
        | ok start =>
          simp only [Except.map, BoundedVec.drainAll, BoundedVec.unnumbered, List.map_nil,
            flushed_unnumbered, Prod.map, map_unnumbered_flushed, WindowTicks.unnumbered]
    · have hle' : ¬deadline ≤ ev.unnumbered.stamp.tick := hle
      rw [if_neg hle, if_neg hle']
      rfl

theorem WindowTicks.store_unnumbered (w : WindowTicks) (ev : Event) :
    w.unnumbered.store checks ev.unnumbered =
      (w.store checks ev).map (Prod.map (List.map Event.unnumbered) unnumbered) := by
  have hfull : w.buffer.unnumbered.isFullCapped w.cap = w.buffer.isFullCapped w.cap := by
    simp only [BoundedVec.isFullCapped, BoundedVec.unnumbered, List.length_map]
  have hdrain : w.buffer.unnumbered.drainAll.2 = w.buffer.drainAll.2.unnumbered := rfl
  simp only [WindowTicks.store, WindowTicks.unnumbered, hfull, hdrain, unnumbered_stamp,
    BoundedVec.pushCapped_unnumbered]
  split_ifs
  · cases w.buffer.drainAll.2.pushCapped checks ev w.bufferPolicy w.cap with
    | error p => rfl
    | ok buffer =>
      simp only [bind, Except.bind, Except.map, BoundedVec.drainAll, BoundedVec.unnumbered,
        flushed_unnumbered, Prod.map, map_unnumbered_flushed, WindowTicks.unnumbered]
  · cases w.buffer.pushCapped checks ev w.bufferPolicy w.cap <;> rfl

theorem WindowTicks.process_unnumbered (w : WindowTicks) (ev : Event) :
    w.unnumbered.process checks ev.unnumbered =
      (w.process checks ev).map (Prod.map (List.map Event.unnumbered) unnumbered) := by
  rw [WindowTicks.process, WindowTicks.process, w.boundary_unnumbered]
  cases w.boundary checks ev with
  | error p => rfl
  | ok r =>
    obtain ⟨out, w₁⟩ := r
    simp only [bind, Except.bind, Except.map, Prod.map, w₁.store_unnumbered]
    cases w₁.store checks ev with
    | error p => rfl
    | ok r => simp only [List.map_append]

theorem DelayTicks.process_unnumbered (d : DelayTicks) (ev : Event) :
    DelayTicks.process checks { d with pending := d.pending.map (Prod.map id Event.unnumbered) }
        ev.unnumbered =
      (d.process checks ev).map fun r => (r.1.map Event.unnumbered,
        { r.2 with pending := r.2.pending.map (Prod.map id Event.unnumbered) }) := by
  rw [DelayTicks.process, DelayTicks.process, unnumbered_stamp]
  cases addU64 checks ev.stamp.tick d.delay with
  | error p => rfl
  | ok deadline =>
    cases hpending : d.pending with
    | none => rfl
    | some p =>
      simp only [bind, Except.bind, Except.map, Option.map_some, Prod.map, id]
      by_cases hle : p.1 ≤ ev.stamp.tick <;> simp [hle]

private theorem ThrottleTicks.process_unnumbered (t : ThrottleTicks) (ev : Event) :
    t.process ev.unnumbered = Prod.map (List.map Event.unnumbered) id (t.process ev) := by
  by_cases hopen : t.lastEmit = UInt64.ofNat (2 ^ 64 - 1) ∨
      satAddU64 t.lastEmit t.interval ≤ ev.stamp.tick
  · simp only [ThrottleTicks.process, unnumbered_stamp, hopen, ↓reduceIte]
    rfl
  · simp only [ThrottleTicks.process, unnumbered_stamp, hopen, ↓reduceIte]
    rfl

private theorem Budget.process_unnumbered (b : Budget) (ev : Event) :
    b.process ev.unnumbered = Prod.map (List.map Event.unnumbered) id (b.process ev) := by
  by_cases htokens : 1.0 ≤ minF64 (b.tokens +
      (satSubU64 ev.stamp.tick b.lastRefill).toFloat * b.ratePerTick) b.burst.toFloat
  · simp only [Budget.process, unnumbered_stamp, htokens, ↓reduceIte]
    rfl
  · simp only [Budget.process, unnumbered_stamp, htokens, ↓reduceIte]
    rfl

private theorem AirtimeBudget.process_unnumbered (b : AirtimeBudget) (ev : Event) :
    b.process checks ev.unnumbered =
      (b.process checks ev).map (Prod.map (List.map Event.unnumbered) id) := by
  rw [b.process_eq, b.process_eq, unnumbered_stamp]
  cases rollWindow checks ev.stamp.tick b.windowStart b.windowTicks with
  | error p => rfl
  | ok roll =>
    simp only [bind, Except.bind]
    split_ifs
    · cases addU64 checks (b.rolled roll).used 1 <;> rfl
    · cases addU64 checks b.totalDropped 1 <;> rfl

private theorem ToaBudget.process_unnumbered (b : ToaBudget) (ev : Event) :
    b.process checks ev.unnumbered =
      (b.process checks ev).map (Prod.map (List.map Event.unnumbered) id) := by
  rw [b.process_eq, b.process_eq, unnumbered_stamp]
  cases rollWindow checks ev.stamp.tick b.windowStart b.windowMs with
  | error p => rfl
  | ok roll =>
    simp only [bind, Except.bind]
    cases addU64 checks (b.rolled roll).usedUs b.toaUsPerEvent with
    | error p => rfl
    | ok sum =>
      dsimp only
      split_ifs
      · rfl
      · cases addU64 checks b.totalDropped 1 <;> rfl

theorem NodeKind.processInner_unnumbered (kind : NodeKind) (ev : Event) :
    kind.unnumbered.processInner checks ev.unnumbered =
      (kind.processInner checks ev).map unnumberedAnswer := by
  cases kind with
  | windowTicks w =>
    have hw := @WindowTicks.process_unnumbered checks w ev
    rw [WindowTicks.unnumbered] at hw
    simp only [NodeKind.processInner, NodeKind.unnumbered, hw]
    cases w.process checks ev <;> rfl
  | throttleTicks t =>
    simp only [NodeKind.processInner, NodeKind.unnumbered, t.process_unnumbered]
    rfl
  | delayTicks d =>
    simp only [NodeKind.processInner, NodeKind.unnumbered, d.process_unnumbered]
    cases d.process checks ev <;> rfl
  | _ => rfl

/-- **One event** without its number. -/
theorem NodeKind.process_unnumbered (kind : NodeKind) (ev : Event) :
    kind.unnumbered.process checks ev.unnumbered =
      (kind.process checks ev).map unnumberedAnswer := by
  have hstr : ∀ f, mapStr f ev.unnumbered = (mapStr f ev).map Event.unnumbered := by
    intro f
    rw [mapStr, mapStr, unnumbered_v]
    cases ev.v <;> rfl
  have hpass : ∀ keep, passIf keep ev.unnumbered = (passIf keep ev).map Event.unnumbered := by
    intro keep
    cases keep <;> rfl
  cases kind with
  | windowTicks w => exact (NodeKind.windowTicks w).processInner_unnumbered ev
  | throttleTicks t =>
    simp only [NodeKind.process, NodeKind.unnumbered, ← NodeKind.processInner_unnumbered]
  | delayTicks d => exact (NodeKind.delayTicks d).processInner_unnumbered ev
  | windowMs inner | throttleMs inner | debounceMs inner =>
    simp only [NodeKind.process, NodeKind.unnumbered, inner.processInner_unnumbered]
    cases inner.processInner checks ev <;> rfl
  | mapUpper | mapLower | mapTrim =>
    simp only [NodeKind.process, NodeKind.unnumbered, hstr]
    rfl
  | filterNonempty | filterKind k | filterPktType t =>
    simp only [NodeKind.process, NodeKind.unnumbered, unnumbered_v, hpass]
    rfl
  | foldCount count =>
    simp only [NodeKind.process, NodeKind.unnumbered, unnumbered_stamp]
    cases addU64 checks count 1 <;> rfl
  | foldSum sum =>
    simp only [NodeKind.process, NodeKind.unnumbered, unnumbered_stamp, unnumbered_v]
    cases addValue checks sum ev.v <;> rfl
  | budget b =>
    simp only [NodeKind.process, NodeKind.unnumbered, b.process_unnumbered]
    rfl
  | airtimeBudget b =>
    simp only [NodeKind.process, NodeKind.unnumbered, b.process_unnumbered]
    cases b.process checks ev <;> rfl
  | toaBudget b =>
    simp only [NodeKind.process, NodeKind.unnumbered, b.process_unnumbered]
    cases b.process checks ev <;> rfl
  | _ => rfl

/-! ### Many events -/

theorem NodeKind.feed_append {kind kind' : NodeKind} {evs evs' out : List Event}
    (h : kind.feed checks evs = .ok (out, kind')) :
    kind.feed checks (evs ++ evs') =
      (kind'.feed checks evs').map fun r => (out ++ r.1, r.2) := by
  induction evs generalizing kind out with
  | nil =>
    cases h
    cases hrest : kind'.feed checks evs' <;> simp [Except.map, hrest]
  | cons ev evs ih =>
    obtain ⟨out₁, kind₁, out₂, h₁, h₂, rfl⟩ := NodeKind.feed_cons_eq_ok h
    rw [List.cons_append, NodeKind.feed, h₁]
    simp only [bind, Except.bind, ih h₂]
    cases kind'.feed checks evs' <;> simp [Except.map]

/-- **Many events** without their numbers. -/
theorem NodeKind.feed_unnumbered (kind : NodeKind) (evs : List Event) :
    kind.unnumbered.feed checks (evs.map Event.unnumbered) =
      (kind.feed checks evs).map unnumberedAnswer := by
  induction evs generalizing kind with
  | nil => rfl
  | cons ev evs ih =>
    rw [List.map_cons, NodeKind.feed, NodeKind.feed, kind.process_unnumbered]
    cases kind.process checks ev with
    | error p => rfl
    | ok r =>
      simp only [bind, Except.bind, Except.map, unnumberedAnswer, ih]
      cases r.2.feed checks evs with
      | error p => rfl
      | ok r' => simp only [List.map_append]

end Rivr.Core
