import Rivr.Core.Graph
import Rivr.Core.Process
import Rivr.ForMathlib.Worklist

/-!
# Runs end

An event at a node gives rise to at most two events, and each of these goes only to nodes
with higher ids. So the pending items, weighed by `Worklist.topoWeight`, lose weight with
every item that is processed, and `Engine.runToIdle` ends from every engine that a compiled
program can get to by injections, clock ticks and runs.
-/

namespace Rivr.Core

open Worklist

variable {checks : Bool}

/-! ### One item -/

/-- Processing changes neither the id nor the edges of a node. -/
theorem Node.process_ok {n n' : Node} {ev : Event} {out : List Event}
    (h : n.process checks ev = .ok (out, n')) : out.length ≤ 2 ∧ n'.wiring = n.wiring := by
  obtain ⟨⟨out₁, kind⟩, hk, heq⟩ := Except.of_map_eq_ok h
  cases heq
  exact ⟨NodeKind.process_length_le hk, rfl⟩

/-- The successors of a node in a node table. -/
def succOf (nodes : List Node) (u : ℕ) : List ℕ := (nodes[u]?.map Node.outputs).getD []

theorem Wired.succOf {nodes : List Node} (h : Wired nodes) {u v : ℕ} (hv : v ∈ succOf nodes u) :
    u < v ∧ v < nodes.length := by
  simp only [Core.succOf] at hv
  cases hn : nodes[u]? with
  | none => simp [hn] at hv
  | some n => exact h.outputs u n hn v (by simpa [hn] using hv)

theorem succOf_congr {nodes nodes' : List Node}
    (h : nodes'.map Node.wiring = nodes.map Node.wiring) : succOf nodes' = succOf nodes := by
  funext u
  have hu : (nodes'.map Node.wiring)[u]? = (nodes.map Node.wiring)[u]? := by rw [h]
  rw [List.getElem?_map, List.getElem?_map] at hu
  simp only [succOf]
  cases hn : nodes[u]? <;> cases hn' : nodes'[u]? <;> simp_all [Node.wiring]

/-- The weight of an item. -/
def itemWeight (nodes : List Node) (item : WorkItem) : ℕ :=
  topoWeight 2 (succOf nodes) nodes.length item.nodeId

/-- The weight of all pending items. -/
def Engine.weight (e : Engine) : ℕ := potential (itemWeight e.nodes) e.scheduler.pending

/-- The output events with the sequence numbers they are sent with. -/
def stampOut : UInt32 → List Event → List Event
  | _, [] => []
  | seq, ev :: evs => { ev with seq := seq } :: stampOut (seq + 1) evs

@[simp]
theorem stampOut_length (seq : UInt32) (out : List Event) :
    (stampOut seq out).length = out.length := by
  induction out generalizing seq with
  | nil => rfl
  | cons ev evs ih => simp [stampOut, ih]

/-- One event sent downstream. -/
theorem foldl_push {s : Scheduler} (h : s.Wf) (ids : List ℕ) (ev : Event) :
    (ids.foldl (fun s id => s.push id ev) s).Wf ∧
      (ids.foldl (fun s id => s.push id ev) s).pending =
        s.pending + ↑(ids.map fun id => (⟨id, ev⟩ : WorkItem)) := by
  induction ids generalizing s with
  | nil => exact ⟨h, by simp⟩
  | cons id ids ih =>
    obtain ⟨hwf, hpending⟩ := ih (h.push id ev)
    refine ⟨hwf, hpending.trans ?_⟩
    rw [Scheduler.pending_push, List.map_cons, ← Multiset.cons_coe, Multiset.cons_add,
      Multiset.add_cons]

/-- All output events sent downstream. -/
theorem sendOut_spec {s : Scheduler} (h : s.Wf) (ids : List ℕ) (out : List Event)
    (seq : UInt32) :
    (sendOut ids out s seq).1.Wf ∧ (sendOut ids out s seq).1.pending =
      s.pending + ↑((stampOut seq out).flatMap fun ev => ids.map (WorkItem.mk · ev)) := by
  induction out generalizing s seq with
  | nil => exact ⟨h, by simp [sendOut, stampOut]⟩
  | cons ev evs ih =>
    obtain ⟨hwf, hpush⟩ := foldl_push h ids { ev with seq := seq }
    obtain ⟨hwf', hpending⟩ := ih hwf (seq + 1)
    refine ⟨hwf', hpending.trans ?_⟩
    rw [hpush, stampOut, List.flatMap_cons, ← Multiset.coe_add, add_assoc]

/-! ### The engine's invariant -/

/-- The invariant of a running engine. -/
structure Engine.Wf (e : Engine) : Prop where
  ordered : e.Ordered
  scheduler : e.scheduler.Wf
  inRange : ∀ item ∈ e.scheduler.pending, item.nodeId < e.nodes.length

/-- The engine takes the next item and processes it. -/
def EngineTurn (checks : Bool) (e e' : Engine) : Prop :=
  ∃ item scheduler, e.scheduler.pop = (some item, scheduler) ∧
    Engine.step checks { e with scheduler := scheduler } item = .ok e'

/-- What a successful step does to the nodes and the scheduler. -/
theorem Engine.step_ok {e e' : Engine} {item : WorkItem} (h : e.step checks item = .ok e') :
    ∃ (node node' : Node) (out : List Event), e.nodes[item.nodeId]? = some node ∧
      out.length ≤ 2 ∧ node'.wiring = node.wiring ∧
      e'.nodes = e.nodes.set item.nodeId node' ∧
      e'.scheduler = (sendOut node'.outputs out e.scheduler e.seqCounter).1 ∧
      e'.sourceIds = e.sourceIds ∧ e'.streamIds = e.streamIds := by
  simp only [Engine.step] at h
  cases hnode : e.nodes[item.nodeId]? with
  | none => simp [hnode] at h
  | some node =>
    rw [hnode] at h
    dsimp only at h
    cases hproc : node.process checks item.event with
    | error p => simp [hproc] at h
    | ok r =>
      obtain ⟨out, node'⟩ := r
      rw [hproc] at h
      obtain ⟨hlen, hwiring⟩ := Node.process_ok hproc
      cases h
      exact ⟨node, node', out, rfl, hlen, hwiring, rfl, rfl, rfl, rfl⟩

theorem map_wiring_set {nodes : List Node} {i : ℕ} {node node' : Node}
    (hnode : nodes[i]? = some node) (h : node'.wiring = node.wiring) :
    (nodes.set i node').map Node.wiring = nodes.map Node.wiring := by
  obtain ⟨hi, rfl⟩ := List.getElem?_eq_some_iff.mp hnode
  rw [List.map_set, h, ← List.getElem_map Node.wiring (h := by simpa using hi),
    List.set_getElem_self]

/-- **Turn lemma.** Processing an item keeps the invariant and takes weight off. -/
theorem Engine.Wf.turn {e e' : Engine} (h : e.Wf) (hturn : EngineTurn checks e e') :
    e'.Wf ∧ e'.weight < e.weight := by
  obtain ⟨item, scheduler, hpop, hstep⟩ := hturn
  obtain ⟨hsched, hpending⟩ := h.scheduler.of_pop hpop
  obtain ⟨node, node', out, hnode, hlen, hwiring, hnodes, hsched', hsrc, hstr⟩ :=
    Engine.step_ok hstep
  dsimp only at hnode hnodes hsched' hsrc hstr
  obtain ⟨hwf', hpending'⟩ := sendOut_spec hsched node'.outputs out e.seqCounter
  have hmap : e'.nodes.map Node.wiring = e.nodes.map Node.wiring := by
    rw [hnodes]
    exact map_wiring_set hnode hwiring
  have hlength : e'.nodes.length = e.nodes.length := by simpa using congrArg List.length hmap
  have hout : node'.outputs = succOf e.nodes item.nodeId := by
    have houtputs : node'.outputs = node.outputs := congrArg (fun w => w.2.2) hwiring
    simp [succOf, hnode, houtputs]
  have hsucc : ∀ v ∈ succOf e.nodes item.nodeId, item.nodeId < v ∧ v < e.nodes.length :=
    fun v hv => h.ordered.wired.succOf hv
  rw [hout] at hpending'
  refine ⟨⟨⟨h.ordered.wired.congr hmap, ?_, ?_⟩, ?_, ?_⟩, ?_⟩
  · rw [hsrc, hlength]
    exact h.ordered.sourceIds
  · rw [hstr, hlength]
    exact h.ordered.streamIds
  · rw [hsched', hout]
    rwa [hout] at hwf'
  · intro item' hmem
    rw [hsched', hout, hpending', Multiset.mem_add] at hmem
    rw [hlength]
    rcases hmem with hmem | hmem
    · exact h.inRange item' (by rw [hpending]; exact Multiset.mem_cons_of_mem hmem)
    · obtain ⟨ev, -, hev⟩ := List.mem_flatMap.mp (Multiset.mem_coe.mp hmem)
      obtain ⟨v, hv, rfl⟩ := List.mem_map.mp hev
      exact (hsucc v hv).2
  · -- the two events that are sent at most weigh less at later nodes than the item weighed here
    have hlt := potential_lt_topoWeight hsucc
      (show (stampOut e.seqCounter out).length ≤ 2 by simpa using hlen) WorkItem.nodeId
      (fun ev v => ⟨v, ev⟩) fun _ _ => rfl
    have hweight : itemWeight e'.nodes = itemWeight e.nodes := by
      funext item
      simp only [itemWeight, succOf_congr hmap, hlength]
    rw [Engine.weight, Engine.weight, hweight, hsched', hout, hpending', hpending, potential_add,
      potential_cons]
    have hle : potential (itemWeight e.nodes) ↑((stampOut e.seqCounter out).flatMap fun ev =>
        (succOf e.nodes item.nodeId).map (WorkItem.mk · ev)) < itemWeight e.nodes item := hlt
    omega

/-- A step on an item in range does not leave the node table. -/
theorem Engine.step_noIndexPanic {e : Engine} {item : WorkItem}
    (h : item.nodeId < e.nodes.length) : NoIndexPanic (e.step checks item) := by
  simp only [Engine.step, List.getElem?_eq_getElem h]
  intro herr
  have hnode : NoIndexPanic (e.nodes[item.nodeId].kind.process checks item.event) :=
    NodeKind.process_noIndexPanic _ _
  have hproc := hnode.map fun r => (r.1, { e.nodes[item.nodeId] with kind := r.2 })
  split at herr
  · next p hp => exact hproc (hp.trans (by simpa using herr))
  · cases herr

/-! ### Runs -/

/-- A turn keeps the scheduler well-formed. -/
theorem EngineTurn.scheduler_wf {e e' : Engine} (hturn : EngineTurn checks e e')
    (h : e.scheduler.Wf) : e'.scheduler.Wf := by
  obtain ⟨item, scheduler, hpop, hstep⟩ := hturn
  obtain ⟨node, node', out, -, -, -, -, hscheduler, -⟩ := Engine.step_ok hstep
  rw [hscheduler]
  exact (sendOut_spec (h.of_pop hpop).1 node'.outputs out e.seqCounter).1

/-- A run makes turns, and stops before its end only when nothing is pending. By induction on the
steps it may make, from the first turn. -/
theorem Engine.run_turns {maxSteps n : ℕ} {e e' : Engine} (h : e.scheduler.Wf)
    (hrun : e.run checks maxSteps = .ok (n, e')) :
    Steps (EngineTurn checks) n e e' ∧ (n < maxSteps → e'.scheduler.pending = 0) := by
  induction maxSteps generalizing e n with
  | zero =>
    obtain ⟨rfl, rfl⟩ := Prod.mk.inj (Except.ok.inj hrun)
    exact ⟨.refl e, fun hlt => absurd hlt (Nat.not_lt_zero _)⟩
  | succ maxSteps ih =>
    rw [Engine.run] at hrun
    rcases h.pop_cases with ⟨hidle, hpop⟩ | ⟨-, item, scheduler, hpop, -, -⟩
    · rw [hpop] at hrun
      obtain ⟨rfl, rfl⟩ := Prod.mk.inj (Except.ok.inj hrun)
      exact ⟨.refl e, fun _ => h.isIdle_iff.mp hidle⟩
    · rw [hpop] at hrun
      dsimp only at hrun
      rcases hstep : Engine.step checks { e with scheduler := scheduler } item with p | e₁
      · rw [hstep] at hrun
        exact nomatch hrun
      · rw [hstep] at hrun
        obtain ⟨⟨m, e₂⟩, hrest, heq⟩ := Except.of_map_eq_ok hrun
        obtain ⟨rfl, rfl⟩ := Prod.mk.inj heq
        have hturn : EngineTurn checks e e₁ := ⟨item, scheduler, hpop, hstep⟩
        obtain ⟨hsteps, hidle⟩ := ih (hturn.scheduler_wf h) hrest
        exact ⟨hsteps.head hturn, fun hlt => hidle (Nat.lt_of_succ_lt_succ hlt)⟩

/-- **Run lemma.** A run that does not panic is a sequence of turns; it stops early only when
nothing is left. -/
theorem Engine.Wf.run_ok {maxSteps n : ℕ} {e e' : Engine} (h : e.Wf)
    (hrun : e.run checks maxSteps = .ok (n, e')) :
    e'.Wf ∧ Steps (EngineTurn checks) n e e' ∧ (n < maxSteps → e'.scheduler.isIdle = true) := by
  obtain ⟨hsteps, hidle⟩ := Engine.run_turns h.scheduler hrun
  have hwf : e'.Wf := hsteps.invariant h fun _ _ hwf hturn => (hwf.turn hturn).1
  exact ⟨hwf, hsteps, fun hlt => hwf.scheduler.isIdle_iff.mpr (hidle hlt)⟩

/-- Nor does a run leave the node table. -/
theorem Engine.Wf.run_noIndexPanic {maxSteps : ℕ} {e : Engine} (h : e.Wf) :
    NoIndexPanic (e.run checks maxSteps) := by
  induction maxSteps generalizing e with
  | zero => exact NoIndexPanic.ok _
  | succ maxSteps ih =>
    rcases h.scheduler.pop_cases with ⟨-, hpop⟩ | ⟨-, item, scheduler, hpop, -, hpending⟩
    · simp only [Engine.run, hpop]
      exact NoIndexPanic.ok _
    · simp only [Engine.run, hpop]
      have hrange : item.nodeId < e.nodes.length :=
        h.inRange item (by rw [hpending]; exact Multiset.mem_cons_self _ _)
      cases hstep : Engine.step checks { e with scheduler := scheduler } item with
      | error p =>
        have hno : NoIndexPanic (Engine.step checks { e with scheduler := scheduler } item) :=
          Engine.step_noIndexPanic hrange
        rw [hstep] at hno
        simpa [NoIndexPanic] using hno
      | ok e₁ => exact (ih (h.turn ⟨item, scheduler, hpop, hstep⟩).1).map _

/-- Every run of turns is bounded by the weight it starts with. -/
theorem Engine.Wf.steps {k : ℕ} {e e' : Engine} (h : e.Wf)
    (hsteps : Steps (EngineTurn checks) k e e') : e'.Wf ∧ k + e'.weight ≤ e.weight :=
  hsteps.add_potential_le h fun _ _ hwf hturn => hwf.turn hturn

/-- **`run_to_idle` ends**: idle, or in a panic that is not an index error. -/
theorem Engine.Wf.runToIdle {fuel : ℕ} {e : Engine} (h : e.Wf) (hfuel : e.weight < fuel) :
    ∃ r, e.runToIdle checks fuel = some r ∧ NoIndexPanic r ∧
      ∀ e', r = .ok e' → e'.scheduler.isIdle = true := by
  induction fuel generalizing e with
  | zero => omega
  | succ fuel ih =>
    cases hidle : e.scheduler.isIdle with
    | true => exact ⟨.ok e, by simp [Engine.runToIdle, hidle], NoIndexPanic.ok e, by simp [hidle]⟩
    | false =>
      simp only [Engine.runToIdle, hidle, Bool.false_eq_true, if_false]
      have hno : NoIndexPanic (e.run checks 4096) := h.run_noIndexPanic
      cases hrun : e.run checks 4096 with
      | error p =>
        rw [hrun] at hno
        exact ⟨.error p, rfl, by simpa [NoIndexPanic] using hno, by simp⟩
      | ok r =>
        obtain ⟨n, e₁⟩ := r
        obtain ⟨hwf, hsteps, hstop⟩ := h.run_ok hrun
        have hle := (h.steps hsteps).2
        -- the run processed something, since an idle engine was excluded
        have hn : n ≠ 0 := by
          rintro rfl
          cases hsteps
          rw [hstop (by decide)] at hidle
          cases hidle
        exact ih hwf (by omega)

/-! ### Reachable engines -/

/-- The engines that injections, clock ticks and runs lead to. Switching the two logs on or
off in between changes nothing else. -/
inductive EngineReach (checks : Bool) (e₀ : Engine) : Engine → Prop
  | start : EngineReach checks e₀ e₀
  | inject {e e' : Engine} (name : String) (ev : Event) (h : EngineReach checks e₀ e)
      (hok : e.inject name ev = .ok e') : EngineReach checks e₀ e'
  | tick {e : Engine} (clockId : UInt8) (tick : UInt64) (h : EngineReach checks e₀ e) :
      EngineReach checks e₀ (e.tickClock clockId tick)
  | run {e e' : Engine} (maxSteps n : ℕ) (h : EngineReach checks e₀ e)
      (hok : e.run checks maxSteps = .ok (n, e')) : EngineReach checks e₀ e'
  | logs {e : Engine} (effectLog : Option (List EffectRecord))
      (traceLog : Option (List TraceRecord)) (h : EngineReach checks e₀ e) :
      EngineReach checks e₀ { e with effectLog := effectLog, traceLog := traceLog }

private theorem wf_pushItem {e : Engine} (h : e.Wf) {id : ℕ} (hid : id < e.nodes.length)
    (ev : Event) : (e.scheduler.push id ev).Wf ∧
      ∀ item ∈ (e.scheduler.push id ev).pending, item.nodeId < e.nodes.length := by
  refine ⟨h.scheduler.push id ev, fun item hitem => ?_⟩
  rw [Scheduler.pending_push, Multiset.mem_cons] at hitem
  rcases hitem with rfl | hitem
  · exact hid
  · exact h.inRange item hitem

theorem Engine.Wf.inject {e e' : Engine} (h : e.Wf) {name : String} {ev : Event}
    (hok : e.inject name ev = .ok e') : e'.Wf := by
  simp only [Engine.inject] at hok
  cases hlookup : e.sourceIds.lookup name with
  | none => simp [hlookup] at hok
  | some id =>
    rw [hlookup] at hok
    cases hok
    obtain ⟨hwf, hrange⟩ := wf_pushItem h (h.ordered.sourceIds.lookup hlookup)
      { ev with seq := e.seqCounter }
    exact ⟨⟨h.ordered.wired, h.ordered.sourceIds, h.ordered.streamIds⟩, hwf, hrange⟩

theorem pushTicks_spec {n : ℕ} {ids : List ℕ} (hids : ∀ id ∈ ids, id < n) (stamp : Stamp)
    {s : Scheduler} (h : s.Wf) (hs : ∀ item ∈ s.pending, item.nodeId < n) (seq : UInt32) :
    (pushTicks stamp ids s seq).1.Wf ∧
      ∀ item ∈ (pushTicks stamp ids s seq).1.pending, item.nodeId < n := by
  induction ids generalizing s seq with
  | nil => exact ⟨h, hs⟩
  | cons id ids ih =>
    refine ih (fun i hi => hids i (List.mem_cons_of_mem _ hi)) (h.push _ _) (fun item hitem => ?_) _
    rw [Scheduler.pending_push, Multiset.mem_cons] at hitem
    rcases hitem with rfl | hitem
    · exact hids id List.mem_cons_self
    · exact hs item hitem

theorem Engine.Wf.tickSources {e : Engine} (h : e.Wf) (clockId : UInt8) (tick : UInt64) :
    (e.tickSources clockId tick).Wf := by
  have hids : ∀ id ∈ (e.nodes.filter fun n => n.kind.isSourceOn clockId).map Node.id,
      id < e.nodes.length := by
    intro id hid
    obtain ⟨n, hn, rfl⟩ := List.mem_map.mp hid
    obtain ⟨i, hi⟩ := List.mem_iff_getElem?.mp (List.mem_of_mem_filter hn)
    rw [h.ordered.wired.ids i n hi]
    exact (List.getElem?_eq_some_iff.mp hi).1
  obtain ⟨hwf, hrange⟩ := pushTicks_spec hids ⟨clockId, tick⟩ h.scheduler h.inRange e.seqCounter
  exact ⟨⟨h.ordered.wired, h.ordered.sourceIds, h.ordered.streamIds⟩, hwf, hrange⟩

theorem Engine.Wf.tickClock {e : Engine} (h : e.Wf) (clockId : UInt8) (tick : UInt64) :
    (e.tickClock clockId tick).Wf := by
  have hclock : ∀ clockNow, { e with clockNow := clockNow }.Wf := fun _ =>
    ⟨⟨h.ordered.wired, h.ordered.sourceIds, h.ordered.streamIds⟩, h.scheduler, h.inRange⟩
  simp only [Engine.tickClock]
  split_ifs
  · exact h
  · exact (hclock _).tickSources clockId tick
  · exact h.tickSources clockId tick

/-- Every reachable engine satisfies the invariant. -/
theorem EngineReach.wf {e₀ e : Engine} (h₀ : e₀.Wf) (h : EngineReach checks e₀ e) : e.Wf := by
  induction h with
  | start => exact h₀
  | inject name ev _ hok ih => exact ih.inject hok
  | tick clockId tick _ ih => exact ih.tickClock clockId tick
  | run maxSteps n _ hok ih => exact (ih.run_ok hok).1
  | logs effectLog traceLog _ ih =>
    exact ⟨⟨ih.ordered.wired, ih.ordered.sourceIds, ih.ordered.streamIds⟩, ih.scheduler, ih.inRange⟩

/-- The engine of a program that compiles satisfies the invariant. -/
theorem Engine.wf_of_ordered {e : Engine} (h : e.Ordered) (hfresh : e.Fresh) : e.Wf := by
  refine ⟨h, ?_, ?_⟩
  · rw [hfresh]
    exact Scheduler.wf_new
  · rw [hfresh]
    intro item hitem
    exact absurd hitem (Multiset.notMem_zero item)

/-- **Compiled graphs are acyclic in id order, and processing ends.** The engine of a program
that compiles is ordered: every edge goes to a higher id inside the table, the two records of
an edge agree, and the name tables stay inside. From every engine reached from it the number
of turns of any run is bounded, and `run_to_idle` ends, idle or in a panic of a node that is no
index error. -/
theorem compile_ordered_and_terminates {program : Program} {engine : Engine}
    {warnings : List CompileError} (h : compile program = .ok (engine, warnings))
    (checks : Bool) :
    engine.Ordered ∧ ∀ e, EngineReach checks engine e →
      (∃ bound, ∀ k e', Steps (EngineTurn checks) k e e' → k ≤ bound) ∧
      ∃ fuel r, e.runToIdle checks fuel = some r ∧ r ≠ .error .indexOutOfBounds ∧
        ∀ e', r = .ok e' → e'.scheduler.isIdle = true := by
  obtain ⟨hordered, hfresh⟩ := compile_wf h
  refine ⟨hordered, fun e he => ?_⟩
  have hwf := he.wf (Engine.wf_of_ordered hordered hfresh)
  refine ⟨⟨e.weight, fun k e' hsteps => ?_⟩, e.weight + 1, ?_⟩
  · have hle := (hwf.steps hsteps).2
    omega
  · exact hwf.runToIdle (Nat.lt_succ_self _)

/-- A chat pipeline: `source rf = rf; let chat = rf |> filter.pkt_type(1) |> window.ticks(10);
emit { io.lora.tx(chat); }`. -/
def sampleProgram : Program :=
  ⟨[.source "rf" none .rf,
    .letStmt "chat" (.pipe (.pipe (.ident "rf") (.filterPktType 1)) (.windowTicks 10)),
    .emit [.loraTx "chat"]]⟩

theorem compile_ordered_and_terminates_sample : ∃ engine,
    compile sampleProgram = .ok (engine, []) ∧ engine.nodes.length = 4 ∧ engine.Ordered ∧
      ∃ fuel r, engine.runToIdle true fuel = some r ∧
      r ≠ .error .indexOutOfBounds ∧ ∀ e', r = .ok e' → e'.scheduler.isIdle = true := by
  obtain ⟨engine, hcompile, hlen⟩ : ∃ engine, compile sampleProgram = .ok (engine, []) ∧
      engine.nodes.length = 4 := ⟨_, rfl, rfl⟩
  obtain ⟨hordered, hreach⟩ := compile_ordered_and_terminates hcompile true
  exact ⟨engine, hcompile, hlen, hordered, (hreach engine .start).2⟩

end Rivr.Core
