import Rivr.Core.GraphTable
import Rivr.Core.SchedulerRuns
import Rivr.ForMathlib.ProcessNetwork

/-!
# Traces of the engine

The engine as a network of its nodes. A trace of it lists the events that were injected and the
turns it took, each with the node, the event and what the node sent. Whatever is injected, ticked
and run in whatever order: a node is in the state its operator is in after the events it took, what
it was given is a shuffle of what its inputs sent, and of that it has taken one part while the other
part waits (`trace_conserves`).
-/

namespace Rivr.Core

open ProcessNetwork Worklist

variable {checks : Bool}

/-! ### Traces -/

/-- The unit events of a clock tick. -/
def tickActs (stamp : Stamp) : List ℕ → UInt32 → List (Act Event)
  | [], _ => []
  | id :: ids, seq =>
    .input id { Event.new stamp .unit with seq := seq } :: tickActs stamp ids (seq + 1)

/-- The sources on a clock. -/
def Engine.sourcesOn (e : Engine) (clockId : UInt8) : List ℕ :=
  (e.nodes.filter fun n => n.kind.isSourceOn clockId).map Node.id

/-- What a clock tick injects: nothing when the clock is not moved on. -/
def Engine.tickInputs (e : Engine) (clockId : UInt8) (tick : UInt64) : List (Act Event) :=
  if clockId.toNat < 8 ∧ tick ≤ e.clockNow.getD clockId.toNat 0 then []
  else tickActs ⟨clockId, tick⟩ (e.sourcesOn clockId) e.seqCounter

/-- The engine that injections, clock ticks and turns lead to, with the trace of them. -/
inductive EngineTrace (checks : Bool) (e₀ : Engine) : Engine → List (Act Event) → Prop
  | start : EngineTrace checks e₀ e₀ []
  | inject {e e' : Engine} {tr : List (Act Event)} {name : String} {ev : Event} {id : ℕ}
      (h : EngineTrace checks e₀ e tr) (hid : e.sourceIds.lookup name = some id)
      (hok : e.inject name ev = .ok e') :
      EngineTrace checks e₀ e' (tr ++ [.input id { ev with seq := e.seqCounter }])
  | tick {e : Engine} {tr : List (Act Event)} (clockId : UInt8) (tick : UInt64)
      (h : EngineTrace checks e₀ e tr) :
      EngineTrace checks e₀ (e.tickClock clockId tick) (tr ++ e.tickInputs clockId tick)
  | turn {e e' : Engine} {tr : List (Act Event)} {item : WorkItem} {scheduler : Scheduler}
      {node : Node} {out : List Event} {kind : NodeKind} (h : EngineTrace checks e₀ e tr)
      (hpop : e.scheduler.pop = (some item, scheduler))
      (hnode : e.nodes[item.nodeId]? = some node)
      (hprocess : node.kind.process checks item.event = .ok (out, kind))
      (hstep : Engine.step checks { e with scheduler := scheduler } item = .ok e') :
      EngineTrace checks e₀ e' (tr ++ [.fire item.nodeId item.event (stampOut e.seqCounter out)])

/-- A turn can be added to a trace. -/
theorem EngineTrace.exists_turn {e₀ e e' : Engine} {tr : List (Act Event)}
    (h : EngineTrace checks e₀ e tr) (hturn : EngineTurn checks e e') :
    ∃ v x out, EngineTrace checks e₀ e' (tr ++ [.fire v x out]) := by
  obtain ⟨item, scheduler, hpop, hstep⟩ := hturn
  obtain ⟨node, node', out, hnode, hprocess, -⟩ := Engine.step_eq_ok hstep
  obtain ⟨⟨out, kind⟩, hkind, heq⟩ := Except.of_map_eq_ok hprocess
  exact ⟨_, _, _, h.turn hpop hnode hkind hstep⟩

/-- What happens in a run of turns is that nodes fire. -/
theorem EngineTrace.exists_steps {e₀ e e' : Engine} {tr : List (Act Event)} {k : ℕ}
    (h : EngineTrace checks e₀ e tr) (hsteps : Steps (EngineTurn checks) k e e') :
    ∃ fires, EngineTrace checks e₀ e' (tr ++ fires) ∧ fires.length = k ∧
      ∀ v, inputs v fires = [] := by
  induction hsteps with
  | refl e => exact ⟨[], by rwa [List.append_nil], rfl, fun _ => rfl⟩
  | tail _ hlast ih =>
    obtain ⟨fires, htr, hlen, hinputs⟩ := ih h
    obtain ⟨v, x, out, hturn⟩ := htr.exists_turn hlast
    refine ⟨fires ++ [.fire v x out], by rwa [← List.append_assoc], by simp [hlen], fun u => ?_⟩
    rw [inputs_append, hinputs u]
    rfl

/-- A run adds the turns it takes to the trace. -/
theorem EngineTrace.of_run {e₀ e e' : Engine} {tr : List (Act Event)} {maxSteps n : ℕ}
    (h : EngineTrace checks e₀ e tr) (hwf : e.scheduler.Wf)
    (hrun : e.run checks maxSteps = .ok (n, e')) :
    ∃ fires, EngineTrace checks e₀ e' (tr ++ fires) ∧ ∀ v, inputs v fires = [] := by
  obtain ⟨fires, htr, -, hinputs⟩ := h.exists_steps (Engine.run_turns hwf hrun).1
  exact ⟨fires, htr, hinputs⟩

/-! ### Moves -/

/-- One event put into the engine. -/
def Engine.put (e : Engine) (id : ℕ) (ev : Event) : Engine :=
  { e with
    scheduler := e.scheduler.push id { ev with seq := e.seqCounter }
    seqCounter := e.seqCounter + 1 }

/-- The sources of the engine. -/
def Engine.IsSource (e : Engine) (v : ℕ) : Prop :=
  ∃ node, e.nodes[v]? = some node ∧ node.kind.isSource = true

/-- An engine as the compiler leaves it. -/
structure Engine.Initial (e : Engine) : Prop where
  ordered : e.Ordered
  fresh : e.Fresh
  seqCounter : e.seqCounter = 0
  sourcesNamed : e.SourcesNamed
  made : ∀ row ∈ tableOf e.nodes, row.Made

/-- What of a node stays. -/
def Node.frame (n : Node) : ℕ × String × List ℕ × List ℕ × NodeKind :=
  (n.id, n.name, n.inputs, n.outputs, n.kind.operator)

/-- Nothing but what the operators remember has changed in the graph. -/
structure Engine.SameGraph (e₀ e : Engine) : Prop where
  frames : e.nodes.map Node.frame = e₀.nodes.map Node.frame
  sourceIds : e.sourceIds = e₀.sourceIds

theorem Engine.SameGraph.getElem? {e₀ e : Engine} (h : e₀.SameGraph e) {v : ℕ} {node : Node}
    (hnode : e.nodes[v]? = some node) : ∃ kind, e₀.nodes[v]? = some { node with kind := kind } ∧
      kind.operator = node.kind.operator := by
  have hv : (e₀.nodes.map Node.frame)[v]? = some node.frame := by
    rw [← h.frames, List.getElem?_map, hnode]
    rfl
  rw [List.getElem?_map] at hv
  obtain ⟨⟨id, name, kind, ins, outs⟩, hnode₀, hframe⟩ := Option.map_eq_some_iff.mp hv
  simp only [Node.frame, Prod.mk.injEq] at hframe
  obtain ⟨rfl, rfl, rfl, rfl, hkind⟩ := hframe
  exact ⟨kind, hnode₀, hkind⟩

theorem isSource_operator (kind : NodeKind) : kind.operator.isSource = kind.isSource := by
  cases kind <;> rfl

theorem Engine.SameGraph.isSource {e₀ e : Engine} (h : e₀.SameGraph e) {v : ℕ} (hv : e.IsSource v) :
    e₀.IsSource v := by
  obtain ⟨node, hnode, hsource⟩ := hv
  obtain ⟨kind, hnode₀, hoperator⟩ := h.getElem? hnode
  exact ⟨_, hnode₀, by rw [← isSource_operator, hoperator, isSource_operator, hsource]⟩

theorem nodes_tickClock (e : Engine) (clockId : UInt8) (tick : UInt64) :
    (e.tickClock clockId tick).nodes = e.nodes ∧
      (e.tickClock clockId tick).sourceIds = e.sourceIds := by
  simp only [Engine.tickClock]
  split_ifs <;> exact ⟨rfl, rfl⟩

theorem inject_ok {e e' : Engine} {name : String} {ev : Event} {id : ℕ}
    (hid : e.sourceIds.lookup name = some id) (hok : e.inject name ev = .ok e') :
    ∃ clockNow metrics,
      e' = { e.put id ev with clockNow := clockNow, sourceMetrics := metrics } := by
  rw [Engine.inject, hid] at hok
  exact ⟨_, _, (Except.ok.inj hok).symm⟩

theorem map_frame_set {nodes : List Node} {i : ℕ} {node : Node} {kind : NodeKind}
    (hnode : nodes[i]? = some node) (h : kind.operator = node.kind.operator) :
    (nodes.set i { node with kind := kind }).map Node.frame = nodes.map Node.frame := by
  obtain ⟨hi, rfl⟩ := List.getElem?_eq_some_iff.mp hnode
  have hframe : Node.frame { nodes[i] with kind := kind } = nodes[i].frame := by
    simp only [Node.frame, h]
  rw [List.map_set, hframe, ← List.getElem_map Node.frame (h := by simpa using hi),
    List.set_getElem_self]

/-- The graph stays. -/
theorem EngineTrace.sameGraph {e₀ e : Engine} {tr : List (Act Event)}
    (h : EngineTrace checks e₀ e tr) : e₀.SameGraph e := by
  induction h with
  | start => exact ⟨rfl, rfl⟩
  | inject _ hid hok ih =>
    obtain ⟨clockNow, metrics, rfl⟩ := inject_ok hid hok
    exact ⟨ih.frames, ih.sourceIds⟩
  | tick clockId tick _ ih =>
    obtain ⟨hnodes, hids⟩ := nodes_tickClock _ clockId tick
    exact ⟨by rw [hnodes, ih.frames], by rw [hids, ih.sourceIds]⟩
  | turn _ hpop hnode hprocess hstep ih =>
    obtain ⟨node', node'', out', hnode', hprocess', rfl⟩ := Engine.step_eq_ok hstep
    obtain rfl := Option.some.inj (hnode.symm.trans hnode')
    obtain ⟨⟨out₁, kind₁⟩, hkind, heq⟩ := Except.of_map_eq_ok hprocess'
    cases heq
    exact ⟨(map_frame_set hnode (operator_process hkind)).trans ih.frames, ih.sourceIds⟩

/-! ### Induction on traces -/

theorem put_tickActs {e₀ : Engine} {P : Engine → List (Act Event) → Prop}
    (put : ∀ (e : Engine) (tr : List (Act Event)) (id : ℕ) (ev : Event), e₀.IsSource id → P e tr →
      P (e.put id ev) (tr ++ [.input id { ev with seq := e.seqCounter }]))
    (stamp : Stamp) {ids : List ℕ} (hids : ∀ id ∈ ids, e₀.IsSource id) {e : Engine}
    {tr : List (Act Event)} (h : P e tr) :
    P { e with
        scheduler := (pushTicks stamp ids e.scheduler e.seqCounter).1
        seqCounter := (pushTicks stamp ids e.scheduler e.seqCounter).2 }
      (tr ++ tickActs stamp ids e.seqCounter) := by
  induction ids generalizing e tr with
  | nil =>
    rw [tickActs, List.append_nil]
    exact h
  | cons id ids ih =>
    have hfirst := put e tr id (Event.new stamp .unit) (hids id List.mem_cons_self) h
    have hrest := ih (fun i hi => hids i (List.mem_cons_of_mem _ hi)) hfirst
    rw [List.append_assoc] at hrest
    exact hrest

/-- **Induction on a trace**: over the events put in at sources and the turns, for what does not
look at the clocks and the metrics. -/
theorem EngineTrace.induct {e₀ : Engine} (h₀ : e₀.Initial) {P : Engine → List (Act Event) → Prop}
    (start : P e₀ [])
    (observed : ∀ (e : Engine) (tr : List (Act Event)) (clockNow : Vector UInt64 8)
      (metrics : List (String × SourceMetrics)), P e tr →
      P { e with clockNow := clockNow, sourceMetrics := metrics } tr)
    (put : ∀ (e : Engine) (tr : List (Act Event)) (id : ℕ) (ev : Event), e₀.IsSource id → P e tr →
      P (e.put id ev) (tr ++ [.input id { ev with seq := e.seqCounter }]))
    (turn : ∀ (e : Engine) (tr : List (Act Event)) (item : WorkItem) (scheduler : Scheduler)
      (node : Node) (out : List Event) (kind : NodeKind), P e tr →
      e.scheduler.pop = (some item, scheduler) → e.nodes[item.nodeId]? = some node →
      node.kind.process checks item.event = .ok (out, kind) →
      P ({ e with scheduler := scheduler }.stepped item node { node with kind := kind } out)
        (tr ++ [.fire item.nodeId item.event (stampOut e.seqCounter out)]))
    {e : Engine} {tr : List (Act Event)} (h : EngineTrace checks e₀ e tr) : P e tr := by
  induction h with
  | start => exact start
  | @inject e e' tr name ev id htr hid hok ih =>
    obtain ⟨clockNow, metrics, rfl⟩ := inject_ok hid hok
    refine observed _ _ _ _ (put e tr id ev ?_ ih)
    -- a source name stands for a source
    rw [htr.sameGraph.sourceIds] at hid
    obtain ⟨l₁, l₂, hlist, -⟩ := List.lookup_eq_some_iff.mp hid
    obtain ⟨kind, hkind, hsource⟩ := h₀.sourcesNamed (name, id) (by rw [hlist]; simp)
    rw [List.getElem?_map] at hkind
    obtain ⟨node, hnode, rfl⟩ := Option.map_eq_some_iff.mp hkind
    exact ⟨node, hnode, hsource⟩
  | @tick e tr clockId tick htr ih =>
    have hids : ∀ id ∈ e.sourcesOn clockId, e₀.IsSource id := by
      intro id hid
      obtain ⟨n, hn, rfl⟩ := List.mem_map.mp hid
      obtain ⟨hmem, hon⟩ := List.mem_filter.mp hn
      obtain ⟨i, hi⟩ := List.mem_iff_getElem?.mp hmem
      obtain ⟨kind, hnode₀, hoperator⟩ := htr.sameGraph.getElem? hi
      have hindex : n.id = i := h₀.ordered.wired.ids i { n with kind := kind } hnode₀
      rw [hindex]
      refine htr.sameGraph.isSource ⟨n, hi, ?_⟩
      cases hk : n.kind with
      | source name clock interval => rfl
      | _ => simp [NodeKind.isSourceOn, hk] at hon
    rw [Engine.tickInputs, Engine.tickClock]
    by_cases hclk : clockId.toNat < 8
    · by_cases hle : tick ≤ e.clockNow.getD clockId.toNat 0
      · rw [if_pos hclk, if_pos hle, if_pos ⟨hclk, hle⟩, List.append_nil]
        exact ih
      · rw [if_pos hclk, if_neg hle, if_neg fun h => hle h.2]
        have hclock :=
          observed e tr (e.clockNow.setIfInBounds clockId.toNat tick) e.sourceMetrics ih
        exact put_tickActs put ⟨clockId, tick⟩ hids hclock
    · rw [if_neg hclk, if_neg fun h => hclk h.1]
      exact put_tickActs put ⟨clockId, tick⟩ hids ih
  | turn _ hpop hnode hprocess hstep ih =>
    obtain ⟨node', node'', out', hnode', hprocess', rfl⟩ := Engine.step_eq_ok hstep
    obtain rfl := Option.some.inj (hnode.symm.trans hnode')
    obtain ⟨⟨out₁, kind₁⟩, hkind, heq⟩ := Except.of_map_eq_ok hprocess'
    cases heq
    obtain ⟨rfl, rfl⟩ := Prod.mk.inj (Except.ok.inj (hprocess.symm.trans hkind))
    exact turn _ _ _ _ _ _ _ ih hpop hnode hprocess

/-! ### What a trace accounts for -/

/-- The events that wait at a node. -/
def Scheduler.waiting (s : Scheduler) (v : ℕ) : Multiset Event :=
  (s.pending.filter fun w => w.nodeId = v).map WorkItem.event

/-- The effects of an event that reaches a node: those of an event that reaches a sink. -/
def Engine.effectAt (e₀ : Engine) (v : ℕ) (ev : Event) : List EffectRecord :=
  (e₀.nodes[v]?.map fun node => effectOf node.kind ev).getD []

/-- The effects along a trace. -/
def effectsOf (e₀ : Engine) (tr : List (Act Event)) : List EffectRecord :=
  tr.flatMap (Act.answer e₀.effectAt)

/-- The trace accounts for the state of the engine. -/
structure Engine.Accounts (checks : Bool) (e₀ e : Engine) (tr : List (Act Event)) : Prop where
  scheduler : e.scheduler.Sorted
  nodes : ∀ v node, e₀.nodes[v]? = some node → ∃ out kind,
    e.nodes[v]? = some { node with kind := kind } ∧
      node.kind.feed checks (fired v tr) = .ok (out, kind) ∧
      out.map Event.unnumbered = (sent v tr).map Event.unnumbered
  waiting : ∀ v, (↑(received (succOf e₀.nodes) v tr) : Multiset Event) =
    ↑(fired v tr) + e.scheduler.waiting v
  inputs : ∀ v, ¬e₀.IsSource v → inputs v tr = []
  numbers : (issued tr).map Event.seq = (List.range (issued tr).length).map UInt32.ofNat
  seqCounter : e.seqCounter = UInt32.ofNat (issued tr).length
  effects : e.effectLog = e₀.effectLog.map (· ++ effectsOf e₀ tr)

theorem waiting_push (s : Scheduler) (id : ℕ) (ev : Event) (v : ℕ) :
    (s.push id ev).waiting v = ((if id = v then [ev] else []) : List Event) + s.waiting v := by
  rw [Scheduler.waiting, Scheduler.pending_push]
  split_ifs with h
  · rw [Multiset.filter_cons_of_pos (p := fun w : WorkItem => w.nodeId = v) _ h, Multiset.map_cons]
    rfl
  · rw [Multiset.filter_cons_of_neg (p := fun w : WorkItem => w.nodeId = v) _ h]
    exact (zero_add _).symm

/-- What a node sends waits at each successor, once for each edge. -/
theorem waiting_sendOut {s : Scheduler} (h : s.Wf) (ids : List ℕ) (out : List Event) (seq : UInt32)
    (v : ℕ) : (sendOut ids out s seq).1.waiting v =
      s.waiting v + ↑((stampOut seq out).flatMap (List.replicate (ids.count v))) := by
  have hids : ∀ ev : Event, (Multiset.filter (fun w : WorkItem => w.nodeId = v)
      ↑(ids.map (WorkItem.mk · ev))).map WorkItem.event = ↑(List.replicate (ids.count v) ev) := by
    intro ev
    rw [Multiset.filter_coe, Multiset.map_coe, List.filter_map, List.map_map]
    congr 1
    induction ids with
    | nil => rfl
    | cons id ids ih =>
      rw [List.filter_cons, List.count_cons]
      by_cases hid : id = v
      · simp [hid, List.replicate_succ, ih]
      · simp [hid, ih]
  rw [Scheduler.waiting, (sendOut_spec h ids out seq).2, Multiset.filter_add, Multiset.map_add,
    Scheduler.waiting]
  congr 1
  induction stampOut seq out with
  | nil => rfl
  | cons ev evs ih =>
    rw [List.flatMap_cons, List.flatMap_cons, ← Multiset.coe_add, ← Multiset.coe_add,
      Multiset.filter_add, Multiset.map_add, ih, hids]

theorem Engine.Initial.accounts {e₀ : Engine} (h : e₀.Initial) : e₀.Accounts checks e₀ [] := by
  refine ⟨?_, fun v node hnode => ⟨[], node.kind, hnode, rfl, rfl⟩, fun v => ?_, fun _ _ => rfl,
    rfl, h.seqCounter, ?_⟩
  · rw [h.fresh]
    exact Scheduler.sorted_new
  · rw [h.fresh]
    rfl
  · cases e₀.effectLog with
    | none => rfl
    | some log => exact congrArg some (List.append_nil log).symm

theorem Engine.Accounts.put {e₀ e : Engine} {tr : List (Act Event)}
    (h : Engine.Accounts checks e₀ e tr) {id : ℕ} (ev : Event) (hid : e₀.IsSource id) :
    Engine.Accounts checks e₀ (e.put id ev)
      (tr ++ [.input id { ev with seq := e.seqCounter }]) := by
  refine ⟨h.scheduler.push _ _, fun v node hnode => ?_, fun v => ?_, fun v hv => ?_, ?_, ?_, ?_⟩
  · obtain ⟨out, kind, hkind, hfeed, hsent⟩ := h.nodes v node hnode
    refine ⟨out, kind, hkind, ?_, ?_⟩
    · rwa [fired_append, fired_singleton, Act.fired, List.append_nil]
    · rwa [sent_append, sent_singleton, Act.sent, List.append_nil]
  · rw [received_append, received_singleton, Act.received, fired_append, fired_singleton, Act.fired,
      List.append_nil, ← Multiset.coe_add, h.waiting, Engine.put, waiting_push, add_assoc]
    congr 1
    exact add_comm _ _
  · have hne : id ≠ v := fun heq => hv (heq ▸ hid)
    rw [inputs_append, inputs_singleton, Act.inputs, if_neg hne, h.inputs v hv]
    rfl
  · rw [issued_append, issued_singleton, Act.issued, List.map_append, h.numbers, List.length_append,
      List.length_singleton, List.range_succ, List.map_append, List.map_singleton,
      List.map_singleton, h.seqCounter]
  · rw [issued_append, issued_singleton, Act.issued, List.length_append, List.length_singleton,
      UInt32.ofNat_add, ← h.seqCounter]
    rfl
  · have heffects : effectsOf e₀ (tr ++ [.input id { ev with seq := e.seqCounter }]) =
        effectsOf e₀ tr := by
      rw [effectsOf, List.flatMap_append, effectsOf]
      exact List.append_nil _
    rw [heffects]
    exact h.effects

theorem Scheduler.Sorted.sendOut {s : Scheduler} (h : s.Sorted) (ids : List ℕ) (out : List Event)
    (seq : UInt32) : (sendOut ids out s seq).1.Sorted := by
  induction out generalizing s seq with
  | nil => exact h
  | cons ev out ih =>
    exact ih (List.foldlRecOn ids _ h fun s hs id _ => hs.push id { ev with seq := seq }) (seq + 1)

theorem Scheduler.Sorted.of_pop {s s' : Scheduler} {item : WorkItem} (h : s.Sorted)
    (hpop : s.pop = (some item, s')) : s'.Sorted := by
  have hact := h.act .pop
  rwa [Scheduler.act, hpop] at hact

theorem waiting_of_pop {s s' : Scheduler} {item : WorkItem} (h : s.Wf)
    (hpop : s.pop = (some item, s')) (v : ℕ) :
    s.waiting v = ((if item.nodeId = v then [item.event] else []) : List Event) + s'.waiting v := by
  rw [Scheduler.waiting, (h.of_pop hpop).2]
  split_ifs with hv
  · rw [Multiset.filter_cons_of_pos (p := fun w : WorkItem => w.nodeId = v) _ hv,
      Multiset.map_cons]
    rfl
  · rw [Multiset.filter_cons_of_neg (p := fun w : WorkItem => w.nodeId = v) _ hv]
    exact (zero_add _).symm

theorem map_unnumbered_stampOut (seq : UInt32) (out : List Event) :
    (stampOut seq out).map Event.unnumbered = out.map Event.unnumbered := by
  induction out generalizing seq with
  | nil => rfl
  | cons ev out ih =>
    rw [stampOut, List.map_cons, List.map_cons, ih]
    rfl

theorem map_seq_stampOut (k : ℕ) (out : List Event) :
    (stampOut (UInt32.ofNat k) out).map Event.seq =
      (List.range' k out.length).map UInt32.ofNat := by
  induction out generalizing k with
  | nil => rfl
  | cons ev out ih =>
    have hnext : UInt32.ofNat k + 1 = UInt32.ofNat (k + 1) := (UInt32.ofNat_add k 1).symm
    rw [stampOut, List.map_cons, List.length_cons, List.range'_succ, List.map_cons, hnext, ih]

/-- The effects of an operator do not depend on what it remembers. -/
theorem effectOf_of_operator {kind kind' : NodeKind} (h : kind'.operator = kind.operator)
    (ev : Event) : effectOf kind' ev = effectOf kind ev := by
  cases kind <;> cases kind' <;> simp_all [NodeKind.operator, effectOf]

/-- **A turn** is accounted for. -/
theorem Engine.Accounts.turn {e₀ e : Engine} {tr : List (Act Event)}
    (h : Engine.Accounts checks e₀ e tr) (hgraph : e₀.SameGraph e) {item : WorkItem}
    {scheduler : Scheduler} {node : Node} {out : List Event} {kind : NodeKind}
    (hpop : e.scheduler.pop = (some item, scheduler)) (hnode : e.nodes[item.nodeId]? = some node)
    (hprocess : node.kind.process checks item.event = .ok (out, kind)) :
    Engine.Accounts checks e₀
      ({ e with scheduler := scheduler }.stepped item node { node with kind := kind } out)
      (tr ++ [.fire item.nodeId item.event (stampOut e.seqCounter out)]) := by
  have hsorted := h.scheduler.of_pop hpop
  obtain ⟨kind₀, hnode₀, hoperator⟩ := hgraph.getElem? hnode
  refine ⟨hsorted.sendOut _ _ _, fun v node₀ hv => ?_, fun v => ?_, fun v hv => ?_, ?_, ?_, ?_⟩
  · obtain ⟨out₀, kind₁, hkind, hfeed, hsent⟩ := h.nodes v node₀ hv
    rw [fired_append, fired_singleton, Act.fired, sent_append, sent_singleton, Act.sent,
      Engine.stepped, List.getElem?_set]
    by_cases heq : item.nodeId = v
    · subst heq
      obtain rfl := Option.some.inj (hkind.symm.trans hnode)
      have hlt := (List.getElem?_eq_some_iff.mp hnode).1
      refine ⟨out₀ ++ out, kind, ?_, ?_, ?_⟩
      · rw [if_pos rfl, if_pos hlt]
      · rw [if_pos rfl, NodeKind.feed_append hfeed, NodeKind.feed, hprocess]
        simp [bind, Except.bind, Except.map, NodeKind.feed]
      · rw [if_pos rfl, List.map_append, List.map_append, hsent, map_unnumbered_stampOut]
    · rw [if_neg heq, if_neg heq, if_neg heq, List.append_nil, List.append_nil]
      exact ⟨out₀, kind₁, hkind, hfeed, hsent⟩
  · have hsucc : succOf e₀.nodes item.nodeId = node.outputs := by
      rw [succOf, hnode₀]
      rfl
    rw [received_append, received_singleton, Act.received, fired_append, fired_singleton,
      Act.fired, ← Multiset.coe_add, ← Multiset.coe_add, h.waiting,
      waiting_of_pop h.scheduler.toWf hpop, hsucc, Engine.stepped, waiting_sendOut hsorted.toWf]
    simp only [add_assoc]
  · rw [inputs_append, inputs_singleton, Act.inputs, h.inputs v hv]
    rfl
  · rw [issued_append, issued_singleton, Act.issued, List.map_append, h.numbers, h.seqCounter,
      map_seq_stampOut, List.length_append, stampOut_length, List.range_add, List.map_append,
      List.range'_eq_map_range]
  · rw [stepped_seqCounter, issued_append, issued_singleton, Act.issued, List.length_append,
      stampOut_length, UInt32.ofNat_add, ← h.seqCounter]
  · have heffects :
        effectsOf e₀ (tr ++ [.fire item.nodeId item.event (stampOut e.seqCounter out)]) =
          effectsOf e₀ tr ++ effectOf node.kind item.event := by
      rw [effectsOf, List.flatMap_append, List.flatMap_singleton, Act.answer, Engine.effectAt,
        hnode₀, effectsOf]
      exact congrArg _ (effectOf_of_operator hoperator _)
    rw [heffects, Engine.stepped, h.effects]
    cases e₀.effectLog with
    | none => rfl
    | some log => simp

/-- **Run lemma.** Every trace accounts for the state it leads to. -/
theorem EngineTrace.accounts {e₀ e : Engine} (h₀ : e₀.Initial) {tr : List (Act Event)}
    (h : EngineTrace checks e₀ e tr) : Engine.Accounts checks e₀ e tr := by
  refine (h.induct h₀ (P := fun e tr => e₀.SameGraph e ∧ Engine.Accounts checks e₀ e tr)
    ⟨⟨rfl, rfl⟩, h₀.accounts⟩ ?_ ?_ ?_).2
  · rintro e tr clockNow metrics ⟨hgraph, hacc⟩
    exact ⟨⟨hgraph.frames, hgraph.sourceIds⟩, hacc.scheduler, hacc.nodes, hacc.waiting, hacc.inputs,
      hacc.numbers, hacc.seqCounter, hacc.effects⟩
  · rintro e tr id ev hid ⟨hgraph, hacc⟩
    exact ⟨⟨hgraph.frames, hgraph.sourceIds⟩, hacc.put ev hid⟩
  · rintro e tr item scheduler node out kind ⟨hgraph, hacc⟩ hpop hnode hprocess
    exact ⟨⟨(map_frame_set hnode (operator_process hprocess)).trans hgraph.frames,
      hgraph.sourceIds⟩, hacc.turn hgraph hpop hnode hprocess⟩

/-! ### Compiled engines -/

/-- The compiler leaves an initial engine, and switching the logs on keeps it one. -/
theorem compile_initial {program : Program} {engine : Engine} {warnings : List CompileError}
    (h : compile program = .ok (engine, warnings)) (effectLog : Option (List EffectRecord))
    (traceLog : Option (List TraceRecord)) :
    Engine.Initial { engine with effectLog := effectLog, traceLog := traceLog } := by
  obtain ⟨hordered, hfresh⟩ := compile_wf h
  obtain ⟨hmade, hshell⟩ := compile_rows h
  have hsources : engine.SourcesNamed := compile_sources h
  refine ⟨⟨hordered.wired, hordered.sourceIds, hordered.streamIds⟩, hfresh,
    congrArg Engine.seqCounter hshell, hsources, hmade⟩

/-- The nodes that feed a node. -/
def upsOf (nodes : List Node) (v : ℕ) : List ℕ := (nodes[v]?.map Node.inputs).getD []

/-- Every edge is in both of its records. -/
theorem Wired.count_succOf {nodes : List Node} (h : Wired nodes) (u v : ℕ) :
    (Core.succOf nodes u).count v = (upsOf nodes v).count u := by
  rw [Core.succOf, upsOf]
  cases hu : nodes[u]? with
  | none =>
    refine (List.count_eq_zero.mpr fun hmem => ?_).symm
    cases hv : nodes[v]? with
    | none => simp [hv] at hmem
    | some node =>
      have hlt := (h.inputs v node hv u (by simpa [hv] using hmem)).trans
        (List.getElem?_eq_some_iff.mp hv).1
      rw [List.getElem?_eq_getElem hlt] at hu
      cases hu
  | some nodeU =>
    cases hv : nodes[v]? with
    | none =>
      refine List.count_eq_zero.mpr fun hmem => ?_
      rw [List.getElem?_eq_getElem (h.outputs u nodeU hu v hmem).2] at hv
      cases hv
    | some node => exact h.mirror u v nodeU node hu hv

/-- **The engine is a network of its nodes.** Whatever is injected, ticked and run in whatever
order, for every node of a compiled graph: it is in the state its operator is in after the events it
took, and has sent what the operator answers; and what it was given, a shuffle of what was injected
at it and of what its inputs sent, is what it took together with what waits for it. The effects are
those of the events that the sinks took, in their order. -/
theorem trace_conserves {program : Program} {engine : Engine} {warnings : List CompileError}
    (h : compile program = .ok (engine, warnings)) (effectLog : Option (List EffectRecord))
    (traceLog : Option (List TraceRecord)) {e : Engine} {tr : List (Act Event)}
    (htr : EngineTrace checks { engine with effectLog := effectLog, traceLog := traceLog } e tr) :
    (∀ v node, engine.nodes[v]? = some node →
      (∃ out kind, e.nodes[v]? = some { node with kind := kind } ∧
        node.kind.feed checks (fired v tr) = .ok (out, kind) ∧
        (sent v tr).map Event.unnumbered = out.map Event.unnumbered) ∧
      ∃ given, Shuffles (inputs v tr :: node.inputs.map fun u => sent u tr) given ∧
        (↑given : Multiset Event) = ↑(fired v tr) + e.scheduler.waiting v) ∧
      e.effectLog = effectLog.map (· ++ effectsOf engine tr) := by
  have h₀ := compile_initial h effectLog traceLog
  have hacc := htr.accounts h₀
  refine ⟨fun v node hnode => ⟨?_, ?_⟩, hacc.effects⟩
  · obtain ⟨out, kind, hkind, hfeed, hsent⟩ := hacc.nodes v node hnode
    exact ⟨out, kind, hkind, hfeed, hsent.symm⟩
  · have hgiven := shuffles_received (h₀.ordered.wired.count_succOf · v) tr
    rw [upsOf, hnode] at hgiven
    exact ⟨_, hgiven, hacc.waiting v⟩

/-- Two sources into one counter. -/
def countBoth : Program :=
  ⟨[.source "rf" none .rf, .source "usb" none .usb, .letStmt "both" (.merge "rf" "usb"),
    .letStmt "n" (.pipe (.ident "both") .foldCount), .emit [.usbPrint "n"]]⟩

theorem countBoth_trace : ∃ engine e tr, compile countBoth = .ok (engine, []) ∧
    EngineTrace true engine e tr ∧ e.scheduler.isIdle = true ∧
    injected tr = [.new ⟨0, 5⟩ .unit, { Event.new ⟨1, 3⟩ .unit with seq := 1 }] ∧
    (issued tr).length = 10 := by
  have h₀ := @EngineTrace.start true (countBoth.stmts.foldl compileStmt .new).typeCheck.engine
  have h₁ := @EngineTrace.inject _ _ _ _ _ "rf" (.new ⟨0, 5⟩ .unit) _ h₀ rfl rfl
  have h₂ := @EngineTrace.inject _ _ _ _ _ "usb" (.new ⟨1, 3⟩ .unit) _ h₁ rfl rfl
  have h₃ := ((h₂.turn rfl rfl rfl rfl).turn rfl rfl rfl rfl).turn rfl rfl rfl rfl
  have h₄ := ((h₃.turn rfl rfl rfl rfl).turn rfl rfl rfl rfl).turn rfl rfl rfl rfl
  exact ⟨_, _, _, rfl, (h₄.turn rfl rfl rfl rfl).turn rfl rfl rfl rfl, rfl, rfl, rfl⟩

/-- Both events come through the counter, and nothing waits in front of it. -/
theorem trace_conserves_countBoth : ∃ engine e tr, compile countBoth = .ok (engine, []) ∧
    EngineTrace true engine e tr ∧ e.scheduler.isIdle = true ∧
    ∃ given, Shuffles (inputs 3 tr :: [sent 2 tr]) given ∧
      (↑given : Multiset Event) = ↑(fired 3 tr) + e.scheduler.waiting 3 := by
  obtain ⟨engine, e, tr, hcompile, htr, hidle, -⟩ := countBoth_trace
  obtain ⟨node, hnode, hinputs⟩ : ∃ node, engine.nodes[3]? = some node ∧ node.inputs = [2] := by
    obtain rfl := (Prod.mk.inj (Except.ok.inj hcompile)).1
    exact ⟨_, rfl, rfl⟩
  obtain ⟨-, given, hgiven, hwaiting⟩ :=
    (trace_conserves hcompile engine.effectLog engine.traceLog htr).1 3 node hnode
  rw [hinputs] at hgiven
  exact ⟨engine, e, tr, hcompile, htr, hidle, given, hgiven, hwaiting⟩

end Rivr.Core
