import Rivr.Core.Feed
import Rivr.Core.Flush
import Rivr.Core.Unnumbered

/-!
# What flush_all leaves behind

`Engine::flush_all` flushes the nodes one after the other and then runs the engine until it is idle.
What the run brings to a window, a debounce or a delay after its flush is buffered there again, and
a window is flushed on the monotonic clock whatever clock its events are on. So nothing is left
behind when no event can come to such a node any more, neither one that is queued nor one that is
flushed in front of it; and the clocks are kept when the windows hold events of the monotonic clock
only.
-/

namespace Rivr.Core

open Worklist

variable {checks : Bool}

/-! ### What nodes hold -/

/-- The events that an inner operator holds. -/
def NodeKind.heldInner : NodeKind → List Event
  | .windowTicks w => w.buffer.inner
  | .delayTicks d => d.pending.toList.map Prod.snd
  | _ => []

/-- The events that a window, a debounce or a delay holds. -/
def NodeKind.held : NodeKind → List Event
  | .windowMs inner => inner.heldInner
  | .debounceMs inner => inner.heldInner
  | .throttleMs _ => []
  | kind => kind.heldInner

/-- The node is a window, a debounce or a delay. -/
def NodeKind.buffers : NodeKind → Bool
  | .windowTicks _ => true
  | .delayTicks _ => true
  | .windowMs _ => true
  | .debounceMs _ => true
  | _ => false

theorem held_eq_nil_of_not_buffers {kind : NodeKind} (h : kind.buffers = false) : kind.held = [] := by
  cases kind with
  | windowTicks w => cases h
  | delayTicks d => cases h
  | windowMs inner => cases h
  | debounceMs inner => cases h
  | _ => rfl

theorem DelayTicks.flush_spec (d : DelayTicks) : d.flush.2.pending = none ∧
    d.flush.1 = d.pending.toList.map Prod.snd := by
  rw [DelayTicks.flush]
  cases hpending : d.pending with
  | none => exact ⟨hpending, rfl⟩
  | some p => exact ⟨rfl, rfl⟩

theorem heldInner_flushInner (kind : NodeKind) : kind.flushInner.2.heldInner = [] := by
  cases kind with
  | delayTicks d => simp [NodeKind.flushInner, NodeKind.heldInner, d.flush_spec.1]
  | _ => rfl

/-- A flushed node holds nothing. -/
theorem held_flush (kind : NodeKind) : kind.flush.2.held = [] := by
  cases kind with
  | delayTicks d => exact heldInner_flushInner (.delayTicks d)
  | windowMs inner => exact heldInner_flushInner inner
  | debounceMs inner => exact heldInner_flushInner inner
  | _ => rfl

/-! ### What an operator can do in any of its states -/

/-- The operator without what it remembers of the events it has seen. -/
def NodeKind.operator : NodeKind → NodeKind
  | .foldCount _ => .foldCount 0
  | .foldSum _ => .foldSum 0
  | .foldLast _ => .foldLast none
  | .windowTicks w => .windowTicks { w with buffer := .new, windowStart := 0 }
  | .throttleTicks t => .throttleTicks { t with lastEmit := 0 }
  | .delayTicks d => .delayTicks { d with pending := none }
  | .windowMs inner => .windowMs inner.operator
  | .throttleMs inner => .throttleMs inner.operator
  | .debounceMs inner => .debounceMs inner.operator
  | .budget b => .budget { b with tokens := 0, lastRefill := 0 }
  | .airtimeBudget b => .airtimeBudget { b with used := 0, windowStart := 0, totalDropped := 0 }
  | .toaBudget b => .toaBudget { b with usedUs := 0, windowStart := 0, totalDropped := 0 }
  | kind => kind

theorem buffers_operator (kind : NodeKind) : kind.operator.buffers = kind.buffers := by
  cases kind <;> rfl

theorem WindowTicks.boundary_params {w w' : WindowTicks} {ev : Event} {out : List Event}
    (h : w.boundary checks ev = .ok (out, w')) :
    w'.duration = w.duration ∧ w'.cap = w.cap ∧ w'.bufferPolicy = w.bufferPolicy := by
  obtain ⟨deadline, -, h⟩ := Except.of_bind_eq_ok h
  split_ifs at h
  · obtain ⟨q, -, h⟩ := Except.of_bind_eq_ok h
    obtain ⟨start, -, h⟩ := Except.of_bind_eq_ok h
    cases h
    exact ⟨rfl, rfl, rfl⟩
  · cases h
    exact ⟨rfl, rfl, rfl⟩

theorem WindowTicks.store_params {w w' : WindowTicks} {ev : Event} {out : List Event}
    (h : w.store checks ev = .ok (out, w')) :
    w'.duration = w.duration ∧ w'.cap = w.cap ∧ w'.bufferPolicy = w.bufferPolicy := by
  simp only [WindowTicks.store] at h
  split_ifs at h <;> obtain ⟨buffer, -, h⟩ := Except.of_bind_eq_ok h <;> cases h <;>
    exact ⟨rfl, rfl, rfl⟩

theorem operator_windowTicks {w w' : WindowTicks} {ev : Event} {out : List Event}
    (h : w.process checks ev = .ok (out, w')) :
    (NodeKind.windowTicks w').operator = (NodeKind.windowTicks w).operator := by
  obtain ⟨⟨out₁, w₁⟩, h₁, h⟩ := Except.of_bind_eq_ok h
  obtain ⟨⟨out₂, w₂⟩, h₂, h⟩ := Except.of_bind_eq_ok h
  cases h
  obtain ⟨hduration, hcap, hpolicy⟩ := WindowTicks.boundary_params h₁
  obtain ⟨hduration', hcap', hpolicy'⟩ := WindowTicks.store_params h₂
  simp only [NodeKind.operator, hduration', hcap', hpolicy', hduration, hcap, hpolicy]

theorem operator_delayTicks {d d' : DelayTicks} {ev : Event} {out : List Event}
    (h : d.process checks ev = .ok (out, d')) :
    (NodeKind.delayTicks d').operator = (NodeKind.delayTicks d).operator := by
  obtain ⟨deadline, -, h⟩ := Except.of_bind_eq_ok h
  cases h
  rfl

theorem operator_throttleTicks (t : ThrottleTicks) (ev : Event) :
    (NodeKind.throttleTicks (t.process ev).2).operator = (NodeKind.throttleTicks t).operator := by
  simp only [ThrottleTicks.process]
  split_ifs <;> rfl

theorem operator_budget (b : Budget) (ev : Event) :
    (NodeKind.budget (b.process ev).2).operator = (NodeKind.budget b).operator := by
  simp only [Budget.process]
  split_ifs <;> rfl

theorem operator_airtimeBudget {b b' : AirtimeBudget} {ev : Event} {out : List Event}
    (h : b.process checks ev = .ok (out, b')) :
    (NodeKind.airtimeBudget b').operator = (NodeKind.airtimeBudget b).operator := by
  rw [AirtimeBudget.process_eq] at h
  obtain ⟨roll, -, h⟩ := Except.of_bind_eq_ok h
  split_ifs at h <;> obtain ⟨n, -, h⟩ := Except.of_bind_eq_ok h <;> cases h <;> rfl

theorem operator_toaBudget {b b' : ToaBudget} {ev : Event} {out : List Event}
    (h : b.process checks ev = .ok (out, b')) :
    (NodeKind.toaBudget b').operator = (NodeKind.toaBudget b).operator := by
  rw [ToaBudget.process_eq] at h
  obtain ⟨roll, -, h⟩ := Except.of_bind_eq_ok h
  obtain ⟨sum, -, h⟩ := Except.of_bind_eq_ok h
  split_ifs at h
  · cases h
    rfl
  · obtain ⟨dropped, -, h⟩ := Except.of_bind_eq_ok h
    cases h
    rfl

theorem operator_processInner {kind kind' : NodeKind} {ev : Event} {out : List Event}
    (h : kind.processInner checks ev = .ok (out, kind')) : kind'.operator = kind.operator := by
  simp only [NodeKind.processInner] at h
  split at h
  · obtain ⟨⟨out₁, w⟩, hw, heq⟩ := Except.of_map_eq_ok h
    cases heq
    exact operator_windowTicks hw
  · cases h
    exact operator_throttleTicks _ _
  · obtain ⟨⟨out₁, d⟩, hd, heq⟩ := Except.of_map_eq_ok h
    cases heq
    exact operator_delayTicks hd
  · cases h
    rfl

/-- Processing an event changes nothing but what the operator remembers. -/
theorem operator_process {kind kind' : NodeKind} {ev : Event} {out : List Event}
    (h : kind.process checks ev = .ok (out, kind')) : kind'.operator = kind.operator := by
  cases kind with
  | windowTicks w =>
    exact operator_processInner (show (NodeKind.windowTicks w).processInner checks ev = _ from h)
  | throttleTicks t =>
    exact operator_processInner (show (NodeKind.throttleTicks t).processInner checks ev = _ from h)
  | delayTicks d =>
    exact operator_processInner (show (NodeKind.delayTicks d).processInner checks ev = _ from h)
  | windowMs inner | throttleMs inner | debounceMs inner =>
    obtain ⟨⟨out₁, k⟩, hk, heq⟩ := Except.of_map_eq_ok h
    cases heq
    simp only [NodeKind.operator, operator_processInner hk]
  | airtimeBudget b =>
    obtain ⟨⟨out₁, b₁⟩, hb, heq⟩ := Except.of_map_eq_ok h
    cases heq
    exact operator_airtimeBudget hb
  | toaBudget b =>
    obtain ⟨⟨out₁, b₁⟩, hb, heq⟩ := Except.of_map_eq_ok h
    cases heq
    exact operator_toaBudget hb
  | foldCount count | foldSum sum =>
    obtain ⟨n, -, heq⟩ := Except.of_map_eq_ok h
    cases heq
    rfl
  | budget b =>
    cases h
    exact operator_budget b ev
  | foldLast last =>
    cases h
    rfl
  | _ =>
    cases h
    rfl

theorem operator_flushInner (kind : NodeKind) : kind.flushInner.2.operator = kind.operator := by
  cases kind with
  | delayTicks d =>
    simp only [NodeKind.flushInner, NodeKind.operator, DelayTicks.flush]
    cases d.pending <;> rfl
  | _ => rfl

/-- Nor does flushing. -/
theorem operator_flush (kind : NodeKind) : kind.flush.2.operator = kind.operator := by
  cases kind with
  | delayTicks d => exact operator_flushInner (.delayTicks d)
  | windowMs inner => exact congrArg NodeKind.windowMs (operator_flushInner inner)
  | debounceMs inner => exact congrArg NodeKind.debounceMs (operator_flushInner inner)
  | _ => rfl

/-! ### Where events can come -/

/-- The events that can come to the nodes when an engine is flushed: the queued ones, the flushed
ones, and those that an operator sends on in whatever state it is then. -/
inductive MayReach (checks : Bool) (e : Engine) : ℕ → Event → Prop
  | queued {item : WorkItem} (h : item ∈ e.scheduler.pending) : MayReach checks e item.nodeId item.event
  | flushed {u v : ℕ} {node : Node} {ev : Event} (seq : UInt32) (hnode : e.nodes[u]? = some node)
      (hev : ev ∈ node.flush.1) (hv : v ∈ node.outputs) : MayReach checks e v { ev with seq := seq }
  | sent {u v : ℕ} {node : Node} {kind kind' : NodeKind} {ev : Event} {out : List Event}
      {o : Event} (seq : UInt32) (h : MayReach checks e u ev) (hnode : e.nodes[u]? = some node)
      (hoperator : kind.operator = node.kind.operator)
      (hprocess : kind.process checks ev = .ok (out, kind')) (ho : o ∈ out)
      (hv : v ∈ node.outputs) : MayReach checks e v { o with seq := seq }

/-- **Nothing can come.** No event can come to a window, a debounce or a delay. -/
def Engine.NoneBehind (checks : Bool) (e : Engine) : Prop :=
  ∀ v ev, MayReach checks e v ev → ∀ node, e.nodes[v]? = some node → node.kind.buffers = false

theorem mem_stampOut {seq : UInt32} {out : List Event} {ev : Event} (h : ev ∈ stampOut seq out) :
    ∃ o ∈ out, ∃ seq', ev = { o with seq := seq' } := by
  induction out generalizing seq with
  | nil => exact absurd h List.not_mem_nil
  | cons o out ih =>
    rcases List.mem_cons.mp h with rfl | h
    · exact ⟨o, List.mem_cons_self, seq, rfl⟩
    · obtain ⟨o', ho', hseq⟩ := ih h
      exact ⟨o', List.mem_cons_of_mem _ ho', hseq⟩

theorem exists_mem_stampOut (seq : UInt32) {out : List Event} {o : Event} (h : o ∈ out) :
    ∃ seq', { o with seq := seq' } ∈ stampOut seq out := by
  induction out generalizing seq with
  | nil => exact absurd h List.not_mem_nil
  | cons x out ih =>
    rcases List.mem_cons.mp h with rfl | h
    · exact ⟨seq, List.mem_cons_self⟩
    · obtain ⟨seq', hseq⟩ := ih (seq + 1) h
      exact ⟨seq', List.mem_cons_of_mem _ hseq⟩

/-- What was queued stays queued, and what is sent is. -/
theorem sendOut_mem_pending {s : Scheduler} (h : s.Wf) (ids : List ℕ) (out : List Event)
    (seq : UInt32) : (∀ item ∈ s.pending, item ∈ (sendOut ids out s seq).1.pending) ∧
      ∀ v ∈ ids, ∀ o ∈ out, ∃ seq', ⟨v, { o with seq := seq' }⟩ ∈ (sendOut ids out s seq).1.pending := by
  rw [(sendOut_spec h ids out seq).2]
  refine ⟨fun item hitem => Multiset.mem_add.mpr (Or.inl hitem), fun v hv o ho => ?_⟩
  obtain ⟨seq', hseq⟩ := exists_mem_stampOut seq ho
  refine ⟨seq', Multiset.mem_add.mpr (Or.inr (Multiset.mem_coe.mpr ?_))⟩
  exact List.mem_flatMap.mpr ⟨_, hseq, List.mem_map.mpr ⟨v, hv, rfl⟩⟩

/-- What a scheduler holds after events were sent downstream. -/
theorem mem_pending_sendOut {s : Scheduler} (h : s.Wf) {ids : List ℕ} {out : List Event}
    {seq : UInt32} {item : WorkItem} (hitem : item ∈ (sendOut ids out s seq).1.pending) :
    item ∈ s.pending ∨ ∃ v ∈ ids, ∃ o ∈ out, ∃ seq', item = ⟨v, { o with seq := seq' }⟩ := by
  rw [(sendOut_spec h ids out seq).2, Multiset.mem_add] at hitem
  rcases hitem with hitem | hitem
  · exact Or.inl hitem
  · obtain ⟨ev, hev, hitem⟩ := List.mem_flatMap.mp (Multiset.mem_coe.mp hitem)
    obtain ⟨v, hv, rfl⟩ := List.mem_map.mp hitem
    obtain ⟨o, ho, seq', rfl⟩ := mem_stampOut hev
    exact Or.inr ⟨v, hv, o, ho, seq', rfl⟩

/-! ### The flush of the nodes -/

/-- The engine after the first `k` nodes have been flushed. -/
structure Flushed (checks : Bool) (e : Engine) (k : ℕ) (e' : Engine) : Prop where
  nodes : ∀ j, e'.nodes[j]? = e.nodes[j]?.map fun n => if j < k then n.flush.2 else n
  wf : e'.scheduler.Wf
  reach : ∀ item ∈ e'.scheduler.pending, MayReach checks e item.nodeId item.event
  queued : ∀ item ∈ e.scheduler.pending, item ∈ e'.scheduler.pending
  sent : ∀ (u : ℕ) (node : Node), u < k → e.nodes[u]? = some node → ∀ ev ∈ node.flush.1,
    ∀ v ∈ node.outputs, ∃ seq, ⟨v, { ev with seq := seq }⟩ ∈ e'.scheduler.pending
  names : e'.sourceIds = e.sourceIds ∧ e'.streamIds = e.streamIds

theorem Flushed.step {e e' : Engine} {k : ℕ} (h : Flushed checks e k e') :
    Flushed checks e (k + 1) (e'.flushNode k) := by
  rw [Engine.flushNode]
  cases hnode : e'.nodes[k]? with
  | none =>
    -- past the last node there is nothing to flush
    have habsent : e.nodes[k]? = none := by
      rw [h.nodes, Option.map_eq_none_iff] at hnode
      exact hnode
    refine ⟨fun j => ?_, h.wf, h.reach, h.queued, fun u n hu hn => ?_, h.names⟩
    swap
    · rcases Nat.lt_succ_iff_lt_or_eq.mp hu with hu | rfl
      · exact h.sent u n hu hn
      · rw [habsent] at hn
        cases hn
    rw [h.nodes]
    rcases Nat.lt_trichotomy j k with hj | rfl | hj
    · simp [hj, hj.trans (Nat.lt_succ_self k)]
    · rw [habsent]
      rfl
    · simp [Nat.not_lt.mpr hj.le, Nat.not_lt.mpr (Nat.succ_le_of_lt hj)]
  | some node =>
    have hkeep : e.nodes[k]? = some node := by
      rw [h.nodes] at hnode
      obtain ⟨n, hn, rfl⟩ := Option.map_eq_some_iff.mp hnode
      rw [hn, if_neg (Nat.lt_irrefl k)]
    obtain ⟨hqueued, hsent⟩ := sendOut_mem_pending h.wf node.outputs node.flush.1 e'.seqCounter
    refine ⟨fun j => ?_, (sendOut_spec h.wf _ _ _).1, fun item hitem => ?_,
      fun item hitem => hqueued _ (h.queued _ hitem), fun u n hu hn ev hev v hv => ?_, h.names⟩
    · obtain ⟨hlt, -⟩ := List.getElem?_eq_some_iff.mp hnode
      rw [List.getElem?_set]
      rcases Nat.lt_trichotomy j k with hj | rfl | hj
      · rw [if_neg hj.ne', h.nodes]
        simp [hj, hj.trans (Nat.lt_succ_self k)]
      · rw [if_pos rfl, if_pos hlt, hkeep]
        simp
      · rw [if_neg hj.ne, h.nodes]
        simp [Nat.not_lt.mpr hj.le, Nat.not_lt.mpr (Nat.succ_le_of_lt hj)]
    · rcases mem_pending_sendOut h.wf hitem with hitem | ⟨v, hv, o, ho, seq, rfl⟩
      · exact h.reach item hitem
      · exact .flushed seq hkeep ho hv
    · rcases Nat.lt_succ_iff_lt_or_eq.mp hu with hu | rfl
      · obtain ⟨seq, hseq⟩ := h.sent u n hu hn ev hev v hv
        exact ⟨seq, hqueued _ hseq⟩
      · obtain rfl : node = n := Option.some.inj (hkeep.symm.trans hn)
        exact hsent v hv ev hev

theorem Engine.flushed_range (checks : Bool) {e : Engine} (h : e.scheduler.Wf) (k : ℕ) :
    Flushed checks e k ((List.range k).foldl Engine.flushNode e) := by
  induction k with
  | zero =>
    exact ⟨fun j => by simp, h, fun item hitem => .queued hitem, fun _ => id,
      fun u _ hu => absurd hu (Nat.not_lt_zero u), rfl, rfl⟩
  | succ k ih =>
    rw [List.range_succ, List.foldl_append]
    exact ih.step

theorem Engine.flushed_flushNodes (checks : Bool) {e : Engine} (h : e.scheduler.Wf) :
    Flushed checks e e.nodes.length e.flushNodes := Engine.flushed_range checks h _

/-- Every node is flushed. -/
theorem Engine.getElem?_flushNodes {e : Engine} (h : e.scheduler.Wf) (j : ℕ) :
    e.flushNodes.nodes[j]? = e.nodes[j]?.map fun n => n.flush.2 := by
  rw [(Engine.flushed_flushNodes true h).nodes]
  cases hnode : e.nodes[j]? with
  | none => rfl
  | some node =>
    obtain ⟨hlt, -⟩ := List.getElem?_eq_some_iff.mp hnode
    simp [hlt]

theorem MayReach.lt {e : Engine} (h : e.Wf) {v : ℕ} {ev : Event} (hreach : MayReach checks e v ev) :
    v < e.nodes.length := by
  cases hreach with
  | queued hitem => exact h.inRange _ hitem
  | flushed seq hnode _ hv => exact (h.ordered.wired.outputs _ _ hnode _ hv).2
  | sent seq _ hnode _ _ _ hv => exact (h.ordered.wired.outputs _ _ hnode _ hv).2

theorem Engine.Wf.flushNodes {e : Engine} (h : e.Wf) : e.flushNodes.Wf := by
  have hflushed := Engine.flushed_flushNodes true h.scheduler
  have hwiring : e.flushNodes.nodes.map Node.wiring = e.nodes.map Node.wiring := by
    refine List.ext_getElem? fun j => ?_
    rw [List.getElem?_map, List.getElem?_map, Engine.getElem?_flushNodes h.scheduler, Option.map_map]
    rfl
  have hlength : e.flushNodes.nodes.length = e.nodes.length := by
    simpa using congrArg List.length hwiring
  refine ⟨⟨h.ordered.wired.congr hwiring, ?_, ?_⟩, hflushed.wf, fun item hitem => ?_⟩
  · rw [hflushed.names.1, hlength]
    exact h.ordered.sourceIds
  · rw [hflushed.names.2, hlength]
    exact h.ordered.streamIds
  · rw [hlength]
    exact (hflushed.reach item hitem).lt h

/-! ### The run after the flush -/

/-- Running to idle takes turns until nothing is left. -/
theorem Engine.Wf.runToIdle_steps {e e' : Engine} {fuel : ℕ} (h : e.Wf)
    (hrun : e.runToIdle checks fuel = some (.ok e')) :
    (∃ k, Steps (EngineTurn checks) k e e') ∧ e'.scheduler.isIdle = true := by
  induction fuel generalizing e with
  | zero => cases hrun
  | succ fuel ih =>
    rw [Engine.runToIdle] at hrun
    split_ifs at hrun with hidle
    · obtain rfl := Except.ok.inj (Option.some.inj hrun)
      exact ⟨⟨0, .refl e⟩, hidle⟩
    · cases hturns : e.run checks 4096 with
      | error p =>
        rw [hturns] at hrun
        cases hrun
      | ok r =>
        obtain ⟨n, e₁⟩ := r
        rw [hturns] at hrun
        obtain ⟨hwf, hsteps, -⟩ := h.run_ok hturns
        obtain ⟨⟨k, hsteps'⟩, hidle'⟩ := ih hwf hrun
        exact ⟨⟨_, hsteps.trans hsteps'⟩, hidle'⟩

/-- The part of a node that stays as it is: where it sends to, and its operator. -/
def Node.role (n : Node) : List ℕ × NodeKind := (n.outputs, n.kind.operator)

theorem exists_of_map_role {nodes nodes' : List Node}
    (h : nodes'.map Node.role = nodes.map Node.role) {i : ℕ} {n' : Node}
    (hn : nodes'[i]? = some n') :
    ∃ n, nodes[i]? = some n ∧ n'.outputs = n.outputs ∧ n'.kind.operator = n.kind.operator := by
  have hi : (nodes.map Node.role)[i]? = some n'.role := by
    rw [← h, List.getElem?_map, hn]
    rfl
  rw [List.getElem?_map] at hi
  obtain ⟨n, hn, hrole⟩ := Option.map_eq_some_iff.mp hi
  obtain ⟨houtputs, hoperator⟩ := Prod.mk.inj hrole
  exact ⟨n, hn, houtputs.symm, hoperator.symm⟩

theorem Engine.map_role_flushNodes {e : Engine} (h : e.scheduler.Wf) :
    e.flushNodes.nodes.map Node.role = e.nodes.map Node.role := by
  refine List.ext_getElem? fun j => ?_
  rw [List.getElem?_map, List.getElem?_map, Engine.getElem?_flushNodes h, Option.map_map]
  congr 1
  funext n
  exact congrArg (Prod.mk n.outputs) (operator_flush n.kind)

/-- What a turn that does not panic does. -/
theorem Engine.step_eq_ok {e e' : Engine} {item : WorkItem} (h : e.step checks item = .ok e') :
    ∃ node node' out, e.nodes[item.nodeId]? = some node ∧
      node.process checks item.event = .ok (out, node') ∧ e' = e.stepped item node node' out := by
  cases hnode : e.nodes[item.nodeId]? with
  | none => simp [Engine.step, hnode] at h
  | some node =>
    cases hprocess : node.process checks item.event with
    | error p => simp [step_of_panic hnode hprocess] at h
    | ok r =>
      obtain ⟨out, node'⟩ := r
      rw [step_of_process hnode hprocess] at h
      exact ⟨node, node', out, rfl, hprocess, (Except.ok.inj h).symm⟩

/-- **A turn**: the item that the scheduler gives is processed by the operator of its node. -/
theorem EngineTurn.spec {e e' : Engine} (h : EngineTurn checks e e') (hwf : e.scheduler.Wf) :
    ∃ item scheduler node kind out, scheduler.Wf ∧
      e.scheduler.pending = item ::ₘ scheduler.pending ∧ e.nodes[item.nodeId]? = some node ∧
      node.kind.process checks item.event = .ok (out, kind) ∧
      e'.nodes = e.nodes.set item.nodeId { node with kind := kind } ∧
      e'.scheduler = (sendOut node.outputs out scheduler e.seqCounter).1 := by
  obtain ⟨item, scheduler, hpop, hstep⟩ := h
  obtain ⟨hwf', hpending⟩ := hwf.of_pop hpop
  obtain ⟨node, node', out, hnode, hprocess, rfl⟩ := Engine.step_eq_ok hstep
  obtain ⟨⟨out, kind⟩, hkind, heq⟩ := Except.of_map_eq_ok hprocess
  cases heq
  exact ⟨item, scheduler, node, kind, out, hwf', hpending, hnode, hkind, rfl, rfl⟩

theorem map_role_set {nodes : List Node} {i : ℕ} {node : Node} {kind : NodeKind}
    (hnode : nodes[i]? = some node) (h : kind.operator = node.kind.operator) :
    (nodes.set i { node with kind := kind }).map Node.role = nodes.map Node.role := by
  obtain ⟨hi, rfl⟩ := List.getElem?_eq_some_iff.mp hnode
  have hrole : Node.role { nodes[i] with kind := kind } = nodes[i].role := congrArg (Prod.mk _) h
  rw [List.map_set, hrole, ← List.getElem_map Node.role (h := by simpa using hi),
    List.set_getElem_self]

/-- The engine on its way to idle after the flush: its operators are those it had, what is queued is
what can come, and nothing is held. -/
structure Quiet (checks : Bool) (e₀ e : Engine) : Prop where
  wf : e.scheduler.Wf
  roles : e.nodes.map Node.role = e₀.nodes.map Node.role
  reach : ∀ item ∈ e.scheduler.pending, MayReach checks e₀ item.nodeId item.event
  empty : ∀ node ∈ e.nodes, node.kind.held = []

theorem Engine.quiet_flushNodes (checks : Bool) {e : Engine} (h : e.scheduler.Wf) :
    Quiet checks e e.flushNodes := by
  have hflushed := Engine.flushed_flushNodes checks h
  refine ⟨hflushed.wf, Engine.map_role_flushNodes h, hflushed.reach, fun node hnode => ?_⟩
  obtain ⟨j, hj⟩ := List.mem_iff_getElem?.mp hnode
  rw [Engine.getElem?_flushNodes h] at hj
  obtain ⟨n, -, rfl⟩ := Option.map_eq_some_iff.mp hj
  exact held_flush n.kind

/-- **Step lemma.** A turn stays quiet when nothing can come to a buffer. -/
theorem Quiet.turn {e₀ e e' : Engine} (h : Quiet checks e₀ e) (hnone : e₀.NoneBehind checks)
    (hturn : EngineTurn checks e e') : Quiet checks e₀ e' := by
  obtain ⟨item, scheduler, node, kind, out, hwf, hpending, hnode, hkind, hnodes, hscheduler⟩ :=
    hturn.spec h.wf
  have hreach := h.reach item (by rw [hpending]; exact Multiset.mem_cons_self _ _)
  obtain ⟨node₀, hnode₀, houtputs, hoperator⟩ := exists_of_map_role h.roles hnode
  have hbuffers : kind.buffers = false := by
    rw [← buffers_operator, operator_process hkind, hoperator, buffers_operator]
    exact hnone _ _ hreach _ hnode₀
  refine ⟨hturn.scheduler_wf h.wf, ?_, fun item' hitem' => ?_, fun node' hnode' => ?_⟩
  · rw [hnodes, map_role_set hnode (operator_process hkind), h.roles]
  · rw [hscheduler] at hitem'
    rcases mem_pending_sendOut hwf hitem' with hold | ⟨v, hv, o, ho, seq, rfl⟩
    · exact h.reach item' (by rw [hpending]; exact Multiset.mem_cons_of_mem hold)
    · exact .sent seq hreach hnode₀ hoperator hkind ho (houtputs ▸ hv)
  · rw [hnodes] at hnode'
    rcases List.mem_or_eq_of_mem_set hnode' with hold | rfl
    · exact h.empty node' hold
    · exact held_eq_nil_of_not_buffers hbuffers

/-- **Run lemma.** -/
theorem Quiet.steps {e₀ e e' : Engine} {k : ℕ} (h : Quiet checks e₀ e)
    (hnone : e₀.NoneBehind checks) (hsteps : Steps (EngineTurn checks) k e e') :
    Quiet checks e₀ e' :=
  hsteps.invariant h fun _ _ hquiet hturn => hquiet.turn hnone hturn

/-! ### The clocks -/

/-- The events that the windows among the operators hold. -/
def NodeKind.windowed : NodeKind → List Event
  | .windowTicks w => w.buffer.inner
  | .windowMs (.windowTicks w) => w.buffer.inner
  | .debounceMs (.windowTicks w) => w.buffer.inner
  | _ => []

/-- **Windows are on the monotonic clock**: what they hold is. -/
def Engine.WindowsOnMono (e : Engine) : Prop :=
  ∀ node ∈ e.nodes, ∀ b ∈ node.kind.windowed, b.stamp.clock = 0

/-- What a node emits when it is flushed is on the clock of the events it was built from. -/
def Node.KeepsClock (node : Node) : Prop :=
  ∀ ev ∈ node.flush.1, ∀ b ∈ node.kind.held, ev.stamp.clock = b.stamp.clock

theorem flushed_keepsClock_iff (start : UInt64) (items : List Event) :
    (∀ ev ∈ flushed ⟨0, start⟩ items, ∀ b ∈ items, ev.stamp.clock = b.stamp.clock) ↔
      ∀ b ∈ items, b.stamp.clock = 0 := by
  cases items with
  | nil => simp
  | cons x xs =>
    rw [flushed, if_neg (by simp)]
    constructor
    · intro h b hb
      exact (h _ (List.mem_singleton_self _) b hb).symm
    · intro h ev hev b hb
      rw [List.mem_singleton.mp hev, h b hb]
      rfl

theorem DelayTicks.keepsClock (d : DelayTicks) : ∀ ev ∈ d.flush.1,
    ∀ b ∈ d.pending.toList.map Prod.snd, ev.stamp.clock = b.stamp.clock := by
  rw [d.flush_spec.2]
  intro ev hev b hb
  cases hpending : d.pending with
  | none => simp [hpending] at hev
  | some p =>
    simp only [hpending, Option.toList_some, List.map_cons, List.map_nil, List.mem_singleton] at hev hb
    rw [hev, hb]

/-- A node keeps the clock exactly when the window in it, if it is one, is on the monotonic
clock. -/
theorem Node.keepsClock_iff (node : Node) :
    node.KeepsClock ↔ ∀ b ∈ node.kind.windowed, b.stamp.clock = 0 := by
  obtain ⟨id, name, kind, inputs, outputs⟩ := node
  cases kind with
  | windowTicks w => exact flushed_keepsClock_iff _ _
  | delayTicks d => exact iff_of_true d.keepsClock (by simp [NodeKind.windowed])
  | windowMs inner | debounceMs inner =>
    cases inner with
    | windowTicks w => exact flushed_keepsClock_iff _ _
    | delayTicks d => exact iff_of_true d.keepsClock (by simp [NodeKind.windowed])
    | _ => exact iff_of_true (fun ev hev => absurd hev List.not_mem_nil) (by simp [NodeKind.windowed])
  | _ => exact iff_of_true (fun ev hev => absurd hev List.not_mem_nil) (by simp [NodeKind.windowed])

/-! ### What is left behind -/

/-- An inner operator that keeps the event it processes. -/
def NodeKind.keepsInner : NodeKind → Bool
  | .windowTicks w => 0 < w.cap
  | .delayTicks _ => true
  | _ => false

/-- A debounce or a delay, or a window with room for an event. -/
def NodeKind.keeps : NodeKind → Bool
  | .windowMs inner => inner.keepsInner
  | .debounceMs inner => inner.keepsInner
  | .throttleMs _ => false
  | kind => kind.keepsInner

theorem keepsInner_operator (kind : NodeKind) : kind.operator.keepsInner = kind.keepsInner := by
  cases kind <;> rfl

theorem keeps_operator (kind : NodeKind) : kind.operator.keeps = kind.keeps := by
  cases kind with
  | windowMs inner => exact keepsInner_operator inner
  | debounceMs inner => exact keepsInner_operator inner
  | _ => rfl

theorem BoundedVec.pushCapped_ne_nil {b b' : BoundedVec} {ev : Event} {policy : DropPolicy} {cap : ℕ}
    (hcap : 0 < cap) (h : b.pushCapped checks ev policy cap = .ok b') : b'.inner ≠ [] := by
  rw [BoundedVec.pushCapped] at h
  split_ifs at h with hfull
  · obtain ⟨drops, -, h⟩ := Except.of_bind_eq_ok h
    split at h
    · cases h
      rw [← List.length_pos_iff]
      rw [windowCap] at hfull
      dsimp only
      omega
    · cases h
    · cases h
      simp
  · cases h
    simp

theorem WindowTicks.process_ne_nil {w w' : WindowTicks} {ev : Event} {out : List Event}
    (hcap : 0 < w.cap) (h : w.process checks ev = .ok (out, w')) : w'.buffer.inner ≠ [] := by
  obtain ⟨⟨out₁, w₁⟩, h₁, h⟩ := Except.of_bind_eq_ok h
  obtain ⟨⟨out₂, w₂⟩, h₂, h⟩ := Except.of_bind_eq_ok h
  cases h
  rw [← (WindowTicks.boundary_params h₁).2.1] at hcap
  simp only [WindowTicks.store] at h₂
  split_ifs at h₂ <;> obtain ⟨buffer, hpush, h₂⟩ := Except.of_bind_eq_ok h₂ <;> cases h₂ <;>
    exact BoundedVec.pushCapped_ne_nil hcap hpush

theorem DelayTicks.process_ne_nil {d d' : DelayTicks} {ev : Event} {out : List Event}
    (h : d.process checks ev = .ok (out, d')) : d'.pending.toList.map Prod.snd ≠ [] := by
  obtain ⟨deadline, -, h⟩ := Except.of_bind_eq_ok h
  cases h
  simp

theorem processInner_heldInner_ne_nil {kind kind' : NodeKind} {ev : Event} {out : List Event}
    (hkeeps : kind.keepsInner = true) (h : kind.processInner checks ev = .ok (out, kind')) :
    kind'.heldInner ≠ [] := by
  cases kind with
  | windowTicks w =>
    obtain ⟨⟨out₁, w'⟩, hw, heq⟩ := Except.of_map_eq_ok h
    cases heq
    exact WindowTicks.process_ne_nil (by simpa [NodeKind.keepsInner] using hkeeps) hw
  | delayTicks d =>
    obtain ⟨⟨out₁, d'⟩, hd, heq⟩ := Except.of_map_eq_ok h
    cases heq
    exact DelayTicks.process_ne_nil hd
  | _ => cases hkeeps

/-- Such a node holds something after every event. -/
theorem process_held_ne_nil {kind kind' : NodeKind} {ev : Event} {out : List Event}
    (hkeeps : kind.keeps = true) (h : kind.process checks ev = .ok (out, kind')) :
    kind'.held ≠ [] := by
  cases kind with
  | windowTicks w =>
    obtain ⟨⟨out₁, w'⟩, hw, heq⟩ := Except.of_map_eq_ok h
    cases heq
    exact WindowTicks.process_ne_nil (by simpa [NodeKind.keeps, NodeKind.keepsInner] using hkeeps) hw
  | delayTicks d =>
    obtain ⟨⟨out₁, d'⟩, hd, heq⟩ := Except.of_map_eq_ok h
    cases heq
    exact DelayTicks.process_ne_nil hd
  | windowMs inner | debounceMs inner =>
    obtain ⟨⟨out₁, k⟩, hk, heq⟩ := Except.of_map_eq_ok h
    cases heq
    exact processInner_heldInner_ne_nil hkeeps hk
  | _ => cases hkeeps

/-- An event with a property is bound to come to a node: by `base`, or because the operator in front
of it, in whatever state it is, makes one of any event that is bound to come there. -/
inductive MustReach (checks : Bool) (nodes : List Node) (base : ℕ → (Event → Prop) → Prop) :
    ℕ → (Event → Prop) → Prop
  | base {v : ℕ} {P : Event → Prop} (h : base v P) : MustReach checks nodes base v P
  | sent {u v : ℕ} {node : Node} {P Q : Event → Prop} (h : MustReach checks nodes base u P)
      (hnode : nodes[u]? = some node) (hv : v ∈ node.outputs)
      (hsends : ∀ (kind kind' : NodeKind) (ev : Event) (out : List Event),
        kind.operator = node.kind.operator → P ev →
        kind.process checks ev = .ok (out, kind') → ∃ o ∈ out, ∀ seq, Q { o with seq := seq }) :
      MustReach checks nodes base v Q

/-- An event with a property is queued for the node. -/
def Engine.Queued (e : Engine) (v : ℕ) (P : Event → Prop) : Prop :=
  ∃ item ∈ e.scheduler.pending, item.nodeId = v ∧ P item.event

/-- An event with a property is queued for the node, or flushed in front of it. -/
def Engine.Coming (e : Engine) (v : ℕ) (P : Event → Prop) : Prop :=
  e.Queued v P ∨ ∃ (u : ℕ) (node : Node) (ev : Event), e.nodes[u]? = some node ∧ ev ∈ node.flush.1 ∧
    v ∈ node.outputs ∧ ∀ seq, P { ev with seq := seq }

/-- **Nothing must come.** No event is bound to come to a debounce, a delay or a window with room
for it. -/
def Engine.NoneBound (checks : Bool) (e : Engine) : Prop :=
  ∀ v P, MustReach checks e.nodes e.Coming v P → ∀ node : Node, e.nodes[v]? = some node →
    node.kind.keeps = false

theorem MustReach.mono {nodes : List Node} {base base' : ℕ → (Event → Prop) → Prop} {v : ℕ}
    {P : Event → Prop} (h : MustReach checks nodes base v P) (hbase : ∀ v P, base v P → base' v P) :
    MustReach checks nodes base' v P := by
  induction h with
  | base h => exact .base (hbase _ _ h)
  | sent _ hnode hv hsends ih => exact .sent ih hnode hv hsends

theorem MustReach.exists_base {nodes : List Node} {base : ℕ → (Event → Prop) → Prop} {v : ℕ}
    {P : Event → Prop} (h : MustReach checks nodes base v P) : ∃ u Q, base u Q := by
  induction h with
  | base h => exact ⟨_, _, h⟩
  | sent _ _ _ _ ih => exact ih

theorem Engine.queued_flushNodes {e : Engine} (h : e.scheduler.Wf) {v : ℕ} {P : Event → Prop}
    (hcoming : e.Coming v P) : e.flushNodes.Queued v P := by
  have hflushed := Engine.flushed_flushNodes true h
  rcases hcoming with ⟨item, hitem, rfl, hP⟩ | ⟨u, node, ev, hnode, hev, hv, hP⟩
  · exact ⟨item, hflushed.queued item hitem, rfl, hP⟩
  · obtain ⟨hlt, -⟩ := List.getElem?_eq_some_iff.mp hnode
    obtain ⟨seq, hseq⟩ := hflushed.sent u node hlt hnode ev hev v hv
    exact ⟨_, hseq, rfl, hP seq⟩

/-- **Step lemma.** After a turn, what was bound to come still is, or it has just come. -/
theorem MustReach.turn {nodes : List Node} {e e' : Engine} (hwf : e.scheduler.Wf)
    (hroles : e.nodes.map Node.role = nodes.map Node.role) (hturn : EngineTurn checks e e') {v : ℕ}
    {P : Event → Prop} (h : MustReach checks nodes e.Queued v P) :
    MustReach checks nodes e'.Queued v P ∨ ∃ (node : Node) (kind : NodeKind) (ev : Event)
      (out : List Event), e.nodes[v]? = some node ∧
      node.kind.process checks ev = .ok (out, kind) ∧
      e'.nodes[v]? = some { node with kind := kind } ∧ P ev ∧
      ∀ o ∈ out, ∀ w ∈ node.outputs, ∃ seq, ⟨w, { o with seq := seq }⟩ ∈ e'.scheduler.pending := by
  obtain ⟨item, scheduler, node, kind, out, hwf', hpending, hnode, hkind, hnodes, hscheduler⟩ :=
    hturn.spec hwf
  obtain ⟨hqueued, hsent⟩ := sendOut_mem_pending hwf' node.outputs out e.seqCounter
  rw [← hscheduler] at hqueued hsent
  induction h with
  | base h =>
    obtain ⟨item', hitem', rfl, hP⟩ := h
    -- an item that was queued is the one that the turn took, or it is still queued
    rw [hpending, Multiset.mem_cons] at hitem'
    rcases hitem' with rfl | hitem'
    · obtain ⟨hlt, -⟩ := List.getElem?_eq_some_iff.mp hnode
      refine Or.inr ⟨node, kind, item'.event, out, hnode, hkind, ?_, hP, fun o ho w hw => hsent w hw o ho⟩
      rw [hnodes, List.getElem?_set_self hlt]
    · exact Or.inl (.base ⟨item', hqueued item' hitem', rfl, hP⟩)
  | @sent u v node₀ P Q _ hnode₀ hv hsends ih =>
    rcases ih with hstill | ⟨node₁, kind₁, ev, out₁, hnode₁, hprocess, -, hP, hout⟩
    · exact Or.inl (.sent hstill hnode₀ hv hsends)
    · -- the event came to the operator in front, which has sent one on
      obtain ⟨n, hn, houtputs, hoperator⟩ := exists_of_map_role hroles hnode₁
      obtain rfl : node₀ = n := Option.some.inj (hnode₀.symm.trans hn)
      obtain ⟨o, ho, hQ⟩ := hsends _ _ _ _ hoperator hP hprocess
      obtain ⟨seq, hseq⟩ := hout o ho v (houtputs ▸ hv)
      exact Or.inl (.base ⟨_, hseq, rfl, hQ seq⟩)

/-- An event that is bound to come to a node is still to come, or the node holds something. -/
structure Bound (checks : Bool) (nodes : List Node) (v : ℕ) (P : Event → Prop) (e : Engine) :
    Prop where
  wf : e.scheduler.Wf
  roles : e.nodes.map Node.role = nodes.map Node.role
  pending : MustReach checks nodes e.Queued v P ∨
    ∃ node : Node, e.nodes[v]? = some node ∧ node.kind.held ≠ []

theorem Bound.turn {nodes : List Node} {v : ℕ} {P : Event → Prop} {e e' : Engine}
    (h : Bound checks nodes v P e) {node : Node} (hnode : nodes[v]? = some node)
    (hkeeps : node.kind.keeps = true) (hturn : EngineTurn checks e e') :
    Bound checks nodes v P e' := by
  obtain ⟨item, scheduler, n, kind, out, -, -, hn, hkind, hnodes, -⟩ := hturn.spec h.wf
  have hkeeps' : ∀ n' : Node, e.nodes[v]? = some n' → n'.kind.keeps = true := by
    intro n' hn'
    obtain ⟨node', hnode', -, hoperator⟩ := exists_of_map_role h.roles hn'
    obtain rfl : node = node' := Option.some.inj (hnode.symm.trans hnode')
    rw [← keeps_operator, hoperator, keeps_operator, hkeeps]
  refine ⟨hturn.scheduler_wf h.wf, ?_, ?_⟩
  · rw [hnodes, map_role_set hn (operator_process hkind), h.roles]
  · rcases h.pending with hmust | ⟨n', hn', hheld⟩
    · rcases hmust.turn h.wf h.roles hturn with hmust | ⟨n', kind', ev, out', hn', hprocess, hset, -⟩
      · exact Or.inl hmust
      · exact Or.inr ⟨_, hset, process_held_ne_nil (hkeeps' n' hn') hprocess⟩
    · -- what the node holds is only ever replaced by what it holds after another event
      right
      rw [hnodes]
      by_cases hsame : item.nodeId = v
      · subst hsame
        obtain ⟨hlt, -⟩ := List.getElem?_eq_some_iff.mp hn
        exact ⟨_, List.getElem?_set_self hlt, process_held_ne_nil (hkeeps' n hn) hkind⟩
      · exact ⟨n', by rw [List.getElem?_set_ne hsame, hn'], hheld⟩

theorem Bound.steps {nodes : List Node} {v : ℕ} {P : Event → Prop} {e e' : Engine} {k : ℕ}
    (h : Bound checks nodes v P e) {node : Node} (hnode : nodes[v]? = some node)
    (hkeeps : node.kind.keeps = true) (hsteps : Steps (EngineTurn checks) k e e') :
    Bound checks nodes v P e' :=
  hsteps.invariant h fun _ _ hbound hturn => hbound.turn hnode hkeeps hturn

/-- **Run lemma.** When the run is over, the node holds something. -/
theorem Bound.held_of_isIdle {nodes : List Node} {v : ℕ} {P : Event → Prop} {e e' : Engine} {k : ℕ}
    (h : Bound checks nodes v P e) {node : Node} (hnode : nodes[v]? = some node)
    (hkeeps : node.kind.keeps = true) (hsteps : Steps (EngineTurn checks) k e e')
    (hidle : e'.scheduler.isIdle = true) : ∃ node' ∈ e'.nodes, node'.kind.held ≠ [] := by
  have hbound := h.steps hnode hkeeps hsteps
  rcases hbound.pending with hmust | ⟨n, hn, hheld⟩
  · obtain ⟨u, Q, item, hitem, -⟩ := hmust.exists_base
    rw [hbound.wf.isIdle_iff.mp hidle] at hitem
    exact absurd hitem (Multiset.notMem_zero item)
  · exact ⟨n, List.mem_of_getElem? hn, hheld⟩

/-! ### The end of the stream -/

/-- **Drained**: from one engine to another, the flush left nothing queued and nothing held, and
kept the clocks. -/
structure Engine.Drained (e e' : Engine) : Prop where
  idle : e'.scheduler.isIdle = true
  empty : ∀ node ∈ e'.nodes, node.kind.held = []
  clocks : ∀ node ∈ e.nodes, node.KeepsClock

/-- **End of the stream.** `flush_all` on an engine reached from a compiled program ends. When it
returns, the engine is drained if nothing can come to a buffer any more and the windows are on the
monotonic clock; and it is drained only if nothing is bound to come to a buffer and the windows are
on the monotonic clock. -/
theorem flushAll_drained {program : Program} {engine e : Engine} {warnings : List CompileError}
    (hcompile : compile program = .ok (engine, warnings)) (hreach : EngineReach checks engine e) :
    (∃ fuel r, e.flushAll checks fuel = some r ∧ r ≠ .error .indexOutOfBounds) ∧
    ∀ fuel e', e.flushAll checks fuel = some (.ok e') →
      (e.NoneBehind checks ∧ e.WindowsOnMono → e.Drained e') ∧
      (e.Drained e' → e.NoneBound checks ∧ e.WindowsOnMono) := by
  obtain ⟨hordered, hfresh⟩ := compile_wf hcompile
  have hwf := hreach.wf (Engine.wf_of_ordered hordered hfresh)
  have hclocks : (∀ node ∈ e.nodes, node.KeepsClock) ↔ e.WindowsOnMono :=
    forall₂_congr fun node _ => node.keepsClock_iff
  constructor
  · obtain ⟨r, hr, hindex, -⟩ := hwf.flushNodes.runToIdle (Nat.lt_succ_self _)
    exact ⟨_, r, hr, hindex⟩
  · intro fuel e' h
    obtain ⟨⟨k, hsteps⟩, hidle⟩ := hwf.flushNodes.runToIdle_steps h
    constructor
    · rintro ⟨hnone, hmono⟩
      have hquiet := (Engine.quiet_flushNodes checks hwf.scheduler).steps hnone hsteps
      exact ⟨hidle, hquiet.empty, hclocks.mpr hmono⟩
    · intro hdrained
      refine ⟨fun v P hmust node hnode => ?_, hclocks.mp hdrained.clocks⟩
      -- what is bound to come cannot be there when the engine is idle, so it is in a buffer
      by_contra hkeeps
      have hbound : Bound checks e.nodes v P e.flushNodes :=
        ⟨(Engine.flushed_flushNodes checks hwf.scheduler).wf,
          Engine.map_role_flushNodes hwf.scheduler,
          Or.inl (hmust.mono fun _ _ => Engine.queued_flushNodes hwf.scheduler)⟩
      obtain ⟨n, hn, hheld⟩ :=
        hbound.held_of_isIdle hnode (Bool.not_eq_false _ ▸ hkeeps) hsteps hidle
      exact hheld (hdrained.empty n hn)

/-- Two windows in a row: `source rf = rf; let x = rf |> window.ticks(10) |> window.ticks(20);
emit { io.usb.print(x); }`. -/
def chainedWindows : Program :=
  ⟨[.source "rf" none .rf,
    .letStmt "x" (.pipe (.pipe (.ident "rf") (.windowTicks 10)) (.windowTicks 20)),
    .emit [.usbPrint "x"]]⟩

/-- A window on another clock: `source rf @lmp = rf; let x = rf |> window.ticks(10);
emit { io.usb.print(x); }`. -/
def clockedWindow : Program :=
  ⟨[.source "rf" (some ⟨"lmp"⟩) .rf, .letStmt "x" (.pipe (.ident "rf") (.windowTicks 10)),
    .emit [.usbPrint "x"]]⟩

/-- What the first window flushes is left in the second, and a window on another clock is flushed on
the monotonic one. -/
theorem not_flushAll_drained :
    (¬∀ (program : Program) (engine e e' : Engine) (fuel : ℕ), compile program = .ok (engine, []) →
      EngineReach true engine e → e.flushAll true fuel = some (.ok e') → e.Drained e') ∧
    ∃ engine e e' fuel, compile clockedWindow = .ok (engine, []) ∧ EngineReach true engine e ∧
      e.flushAll true fuel = some (.ok e') ∧ ¬∀ node ∈ e.nodes, node.KeepsClock := by
  constructor
  · intro h
    obtain ⟨engine, e₁, e₂, n, e', hcompile, hinject, hrun, hflush, hleft⟩ :
        ∃ engine e₁ e₂ n e', compile chainedWindows = .ok (engine, []) ∧
          engine.inject "rf" (.new ⟨0, 5⟩ (.int 7)) = .ok e₁ ∧ e₁.run true 9 = .ok (n, e₂) ∧
          e₂.flushAll true 9 = some (.ok e') ∧ ¬∀ node ∈ e'.nodes, node.kind.held = [] :=
      ⟨_, _, _, _, _, rfl, rfl, rfl, rfl, by decide⟩
    have hreach : EngineReach true engine e₂ := .run _ _ (.inject _ _ .start hinject) hrun
    exact hleft (h _ _ _ _ _ hcompile hreach hflush).empty
  · obtain ⟨engine, e₁, e₂, n, e', hcompile, hinject, hrun, hflush, hclock⟩ :
        ∃ engine e₁ e₂ n e', compile clockedWindow = .ok (engine, []) ∧
          engine.inject "rf" (.new ⟨1, 5⟩ (.int 7)) = .ok e₁ ∧ e₁.run true 9 = .ok (n, e₂) ∧
          e₂.flushAll true 9 = some (.ok e') ∧
          ¬∀ node ∈ e₂.nodes, ∀ ev ∈ node.flush.1, ∀ b ∈ node.kind.held,
            ev.stamp.clock = b.stamp.clock :=
      ⟨_, _, _, _, _, rfl, rfl, rfl, rfl, by decide⟩
    exact ⟨engine, e₂, e', 9, hcompile, .run _ _ (.inject _ _ .start hinject) hrun, hflush, hclock⟩

/-- After one window, idle, with an event on the monotonic clock. -/
theorem flushAll_drained_sample : ∃ engine e e' : Engine, compile sampleProgram = .ok (engine, []) ∧
    e.flushAll true 9 = some (.ok e') ∧ (∃ node ∈ e.nodes, node.kind.held ≠ []) ∧
    (e.NoneBehind true ∧ e.WindowsOnMono → e.Drained e') ∧
    (e.Drained e' → e.NoneBound true ∧ e.WindowsOnMono) := by
  obtain ⟨engine, e₁, e₂, n, e', hcompile, hinject, hrun, hflush, hheld⟩ :
      ∃ engine e₁ e₂ n e', compile sampleProgram = .ok (engine, []) ∧
        engine.inject "rf" (.new ⟨0, 5⟩ (.bytes [0, 0, 0, 1])) = .ok e₁ ∧
        e₁.run true 9 = .ok (n, e₂) ∧ e₂.flushAll true 9 = some (.ok e') ∧
        ∃ node ∈ e₂.nodes, node.kind.held ≠ [] :=
    ⟨_, _, _, _, _, rfl, rfl, rfl, rfl, by decide⟩
  have hreach : EngineReach true engine e₂ := .run _ _ (.inject _ _ .start hinject) hrun
  have hdrained := (flushAll_drained hcompile hreach).2 9 e' hflush
  exact ⟨engine, e₂, e', hcompile, hflush, hheld, hdrained.1, hdrained.2⟩

end Rivr.Core
