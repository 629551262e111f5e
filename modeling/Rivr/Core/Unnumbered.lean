import Rivr.Core.Compiler
import Rivr.Core.Termination

/-!
# Engines without the numbers of the injected events

The sequence numbers of injected events depend on the order of their injection. `unnumber` takes
the numbers below a bound away and keeps the others. Whatever is sent while the engine runs has a
number from the bound on, so it sorts behind an item of its tick with or without its number, and a
source gives its output a new number in any case. So taking the numbers away and running the engine
can be done in either order (`Engine.Numbered.runToIdle`): what an engine does depends on its
unnumbered form alone.
-/

namespace Rivr.Core

open Worklist

variable {bound : ℕ}

/-! ### Items and queues -/

/-- The item without its sequence number, if that is below the bound. -/
def WorkItem.unnumber (bound : ℕ) (w : WorkItem) : WorkItem :=
  if w.event.seq.toNat < bound then { w with event := { w.event with seq := 0 } } else w

@[simp]
theorem unnumber_nodeId (w : WorkItem) : (w.unnumber bound).nodeId = w.nodeId := by
  rw [WorkItem.unnumber]
  split_ifs <;> rfl

@[simp]
theorem unnumber_stamp (w : WorkItem) : (w.unnumber bound).event.stamp = w.event.stamp := by
  rw [WorkItem.unnumber]
  split_ifs <;> rfl

@[simp]
theorem unnumber_v (w : WorkItem) : (w.unnumber bound).event.v = w.event.v := by
  rw [WorkItem.unnumber]
  split_ifs <;> rfl

theorem unnumber_of_le {w : WorkItem} (h : bound ≤ w.event.seq.toNat) : w.unnumber bound = w :=
  if_neg (Nat.not_lt.mpr h)

theorem unnumber_of_lt {w : WorkItem} (h : w.event.seq.toNat < bound) :
    w.unnumber bound = ⟨w.nodeId, { w.event with seq := 0 }⟩ := if_pos h

/-- The queues with unnumbered items. -/
def unnumberQueues (bound : ℕ) (queues : Queues) : Queues :=
  queues.map fun e => (e.1, e.2.map (WorkItem.unnumber bound))

/-- An item that keeps its number sorts before an item exactly when it sorts before its unnumbered
form. -/
theorem keyLt_unnumber {item x : WorkItem} (h : bound ≤ item.event.seq.toNat) :
    item.keyLt (x.unnumber bound) = item.keyLt x := by
  by_cases hx : x.event.seq.toNat < bound
  · -- both numbers are below that of the item
    have hne : item.event.seq ≠ x.event.seq := fun heq => by
      rw [heq] at h
      omega
    have hne₀ : item.event.seq ≠ 0 := fun heq => by
      rw [heq] at h
      change bound ≤ 0 at h
      omega
    have hlt : ¬item.event.seq < x.event.seq := by
      rw [UInt32.lt_iff_toNat_lt]
      omega
    have hlt₀ : ¬item.event.seq < 0 := UInt32.not_lt_zero
    rw [unnumber_of_lt hx, WorkItem.keyLt, WorkItem.keyLt]
    simp [hne, hne₀, hlt, hlt₀]
  · rw [unnumber_of_le (Nat.not_lt.mp hx)]

theorem map_insertItem {item : WorkItem} {f : WorkItem → WorkItem} {q : List WorkItem}
    (h : ∀ x ∈ q, (f item).keyLt (f x) = item.keyLt x) :
    (insertItem item q).map f = insertItem (f item) (q.map f) := by
  induction q with
  | nil => rfl
  | cons x xs ih =>
    rw [insertItem, List.map_cons, insertItem, h x List.mem_cons_self]
    split_ifs
    · rfl
    · rw [List.map_cons, ih fun y hy => h y (List.mem_cons_of_mem _ hy)]

theorem unnumberQueues_pushQueue {clk : UInt8} {item : WorkItem} {queues : Queues}
    (h : ∀ e ∈ queues, e.1 = clk →
      ∀ x ∈ e.2, (item.unnumber bound).keyLt (x.unnumber bound) = item.keyLt x) :
    unnumberQueues bound (pushQueue clk item queues) =
      pushQueue clk (item.unnumber bound) (unnumberQueues bound queues) := by
  induction queues with
  | nil => rfl
  | cons e rest ih =>
    obtain ⟨c, q⟩ := e
    have ih := ih fun e he => h e (List.mem_cons_of_mem _ he)
    rw [unnumberQueues] at ih ⊢
    rw [pushQueue, unnumberQueues, List.map_cons, pushQueue]
    split_ifs with hlt heq
    · rfl
    · rw [List.map_cons, map_insertItem (h (c, q) List.mem_cons_self heq.symm)]
    · rw [List.map_cons, ih]
      rfl

theorem popQueue_unnumberQueues (clk : UInt8) (queues : Queues) :
    popQueue clk (unnumberQueues bound queues) = (popQueue clk queues).map fun r =>
      (r.1.unnumber bound, r.2.1, unnumberQueues bound r.2.2) := by
  induction queues with
  | nil => rfl
  | cons e rest ih =>
    obtain ⟨c, q⟩ := e
    rw [unnumberQueues] at ih ⊢
    rw [List.map_cons]
    simp only [popQueue]
    split_ifs
    · cases q with
      | nil => rfl
      | cons x xs => simp [unnumberQueues]
    · rw [ih, Option.map_map, Option.map_map]
      rfl

theorem activeOf_unnumberQueues (queues : Queues) :
    activeOf (unnumberQueues bound queues) = activeOf queues := by
  have hfilter : ((unnumberQueues bound queues).filter fun e => !e.2.isEmpty).map Prod.fst =
      (queues.filter fun e => !e.2.isEmpty).map Prod.fst := by
    rw [unnumberQueues, List.filter_map, List.map_map]
    have hsame : ((fun e : UInt8 × List WorkItem => !e.2.isEmpty) ∘
        fun e : UInt8 × List WorkItem => (e.1, e.2.map (WorkItem.unnumber bound))) =
        fun e => !e.2.isEmpty := by
      funext e
      simp
    rw [hsame]
    rfl
  rw [activeOf, activeOf, hfilter]

/-! ### The scheduler -/

/-- The scheduler with unnumbered items. -/
def Scheduler.unnumber (bound : ℕ) (s : Scheduler) : Scheduler :=
  { s with queues := unnumberQueues bound s.queues }

theorem rebuildOrder_unnumber (s : Scheduler) :
    (s.unnumber bound).rebuildOrder = s.rebuildOrder.unnumber bound := by
  simp only [Scheduler.rebuildOrder, Scheduler.unnumber, activeOf_unnumberQueues]

theorem push_unnumber {s : Scheduler} {nodeId : ℕ} {event : Event}
    (h : ∀ e ∈ s.queues, e.1 = event.stamp.clock → ∀ x ∈ e.2,
      ((⟨nodeId, event⟩ : WorkItem).unnumber bound).keyLt (x.unnumber bound) =
        (⟨nodeId, event⟩ : WorkItem).keyLt x) :
    (s.push nodeId event).unnumber bound = (s.unnumber bound).push nodeId
      ((⟨nodeId, event⟩ : WorkItem).unnumber bound).event := by
  have hitem : (⟨nodeId, ((⟨nodeId, event⟩ : WorkItem).unnumber bound).event⟩ : WorkItem) =
      (⟨nodeId, event⟩ : WorkItem).unnumber bound := by
    rw [WorkItem.unnumber]
    split_ifs <;> rfl
  rw [Scheduler.push, Scheduler.push, ← rebuildOrder_unnumber, unnumber_stamp, hitem,
    Scheduler.unnumber, Scheduler.unnumber]
  dsimp only
  rw [unnumberQueues_pushQueue h]

/-- What keeps its number can be pushed before or after the numbers are taken away. -/
theorem push_unnumber_of_le {s : Scheduler} {event : Event} (h : bound ≤ event.seq.toNat)
    (nodeId : ℕ) :
    (s.push nodeId event).unnumber bound = (s.unnumber bound).push nodeId event := by
  rw [push_unnumber fun e _ _ x _ => ?_, unnumber_of_le h]
  rw [unnumber_of_le (w := ⟨nodeId, event⟩) h]
  exact keyLt_unnumber h

theorem popLoop_unnumber (n k : ℕ) (s : Scheduler) :
    (s.unnumber bound).popLoop n k =
      ((s.popLoop n k).1.map (WorkItem.unnumber bound), (s.popLoop n k).2.unnumber bound) := by
  induction k generalizing s with
  | zero => rfl
  | succ k ih =>
    rw [Scheduler.popLoop, Scheduler.popLoop]
    dsimp only
    rw [Scheduler.unnumber]
    dsimp only
    rw [popQueue_unnumberQueues]
    rcases popQueue (s.clockOrder.getD (s.rrPos % n) 0) s.queues with _ | ⟨item, emptied, queues⟩
    · exact ih { s with rrPos := (s.rrPos + 1) % n }
    · dsimp only [Option.map_some]
      refine Prod.ext rfl ?_
      split_ifs
      · exact rebuildOrder_unnumber ⟨queues, _, _, _, _⟩
      · rfl

/-- **Pop** takes the same turn. -/
theorem pop_unnumber (s : Scheduler) :
    (s.unnumber bound).pop =
      (s.pop.1.map (WorkItem.unnumber bound), s.pop.2.unnumber bound) := by
  rw [Scheduler.pop, Scheduler.pop]
  change (if s.clockOrder.length = 0 then _ else (s.unnumber bound).popLoop _ _) = _
  split_ifs
  · rfl
  · exact popLoop_unnumber _ _ s

/-! ### Sending -/

theorem foldl_push_unnumber {ev : Event} (h : bound ≤ ev.seq.toNat) (ids : List ℕ)
    (s : Scheduler) :
    ids.foldl (fun s id => s.push id ev) (s.unnumber bound) =
      (ids.foldl (fun s id => s.push id ev) s).unnumber bound := by
  induction ids generalizing s with
  | nil => rfl
  | cons id ids ih => rw [List.foldl_cons, List.foldl_cons, ← push_unnumber_of_le h, ih]

theorem sendOut_snd (ids : List ℕ) (out : List Event) (s : Scheduler) (seq : UInt32) :
    (sendOut ids out s seq).2 = seq + UInt32.ofNat out.length := by
  induction out generalizing s seq with
  | nil => simp [sendOut]
  | cons ev evs ih =>
    rw [sendOut, ih, List.length_cons, UInt32.ofNat_add, UInt32.add_assoc,
      UInt32.add_comm 1 (UInt32.ofNat evs.length)]
    rfl

/-- What a node sends on keeps its numbers, as long as the counter does not wrap. -/
theorem sendOut_unnumber {seq : UInt32} (h : bound ≤ seq.toNat) (ids : List ℕ) {out : List Event}
    (hwrap : seq.toNat + out.length < 2 ^ 32) (s : Scheduler) :
    sendOut ids out (s.unnumber bound) seq =
      ((sendOut ids out s seq).1.unnumber bound, (sendOut ids out s seq).2) := by
  induction out generalizing s seq with
  | nil => rfl
  | cons ev evs ih =>
    rw [List.length_cons] at hwrap
    have hnext : (seq + 1).toNat = seq.toNat + 1 := by
      rw [UInt32.toNat_add]
      exact Nat.mod_eq_of_lt (by change seq.toNat + 1 < 2 ^ 32; omega)
    rw [sendOut, sendOut, foldl_push_unnumber (show bound ≤ ({ ev with seq := seq } : Event).seq.toNat
      from h), ih (by omega) (by omega)]

/-! ### One turn -/

/-- The engine with unnumbered items; what is only reported about the injections is left out. -/
def Engine.unnumber (bound : ℕ) (e : Engine) : Engine :=
  { e with
    scheduler := e.scheduler.unnumber bound
    clockNow := Vector.replicate 8 0
    sourceMetrics := [] }

/-- The item is for a source. -/
def Engine.ForSource (e : Engine) (w : WorkItem) : Prop :=
  ∃ node, e.nodes[w.nodeId]? = some node ∧ node.kind.isSource = true

/-- A source sends on what it gets. -/
theorem process_of_isSource {checks : Bool} {node : Node} (h : node.kind.isSource = true)
    (ev : Event) : node.process checks ev = .ok ([ev], node) := by
  obtain ⟨id, name, kind, inputs, outputs⟩ := node
  cases kind with
  | source name clock intervalMs => rfl
  | _ => exact absurd h Bool.false_ne_true

theorem effectOf_of_isSource {kind : NodeKind} (h : kind.isSource = true) (ev : Event) :
    effectOf kind ev = [] := by
  cases kind with
  | emit sink => exact absurd h Bool.false_ne_true
  | _ => rfl

theorem tracesOf_of_isSource {node : Node} (h : node.kind.isSource = true) (out : List Event) :
    tracesOf node out = [] := by
  obtain ⟨id, name, kind, inputs, outputs⟩ := node
  cases kind with
  | tag label => exact absurd h Bool.false_ne_true
  | _ => rfl

variable {checks : Bool}

/-- The engine after a node has processed an item. -/
def Engine.stepped (e : Engine) (item : WorkItem) (node node' : Node) (out : List Event) : Engine :=
  { e with
    nodes := e.nodes.set item.nodeId node'
    scheduler := (sendOut node'.outputs out e.scheduler e.seqCounter).1
    seqCounter := (sendOut node'.outputs out e.scheduler e.seqCounter).2
    eventsProcessed := e.eventsProcessed + 1
    effectLog := e.effectLog.map (· ++ effectOf node.kind item.event)
    traceLog := e.traceLog.map (· ++ tracesOf node out) }

theorem stepped_seqCounter (e : Engine) (item : WorkItem) (node node' : Node) (out : List Event) :
    (e.stepped item node node' out).seqCounter = e.seqCounter + UInt32.ofNat out.length :=
  sendOut_snd _ _ _ _

theorem step_of_process {e : Engine} {item : WorkItem} {node node' : Node} {out : List Event}
    (hnode : e.nodes[item.nodeId]? = some node)
    (hproc : node.process checks item.event = .ok (out, node')) :
    e.step checks item = .ok (e.stepped item node node' out) := by
  rw [Engine.step, hnode]
  dsimp only
  rw [hproc]
  rfl

theorem step_of_panic {e : Engine} {item : WorkItem} {node : Node} {p : Panic}
    (hnode : e.nodes[item.nodeId]? = some node)
    (hproc : node.process checks item.event = .error p) : e.step checks item = .error p := by
  rw [Engine.step, hnode]
  dsimp only
  rw [hproc]

/-- The counter does not wrap while the outputs of a node are numbered. -/
theorem length_lt_of_le {seq : UInt32} {n : ℕ} (hn : n ≤ 2) (h : seq ≤ seq + UInt32.ofNat n) :
    seq.toNat + n < 2 ^ 32 := by
  have hlt := seq.toNat_lt
  rw [UInt32.le_iff_toNat_le, UInt32.toNat_add, UInt32.toNat_ofNat'] at h
  omega

/-- **A turn** does not depend on the numbers that are taken away: they are those of items for
sources. -/
theorem step_unnumber {e : Engine} {item : WorkItem} (hseq : bound ≤ e.seqCounter.toNat)
    (hsource : item.event.seq.toNat < bound → e.ForSource item)
    (hwrap : ∀ e', e.step checks item = .ok e' → e.seqCounter ≤ e'.seqCounter) :
    (e.unnumber bound).step checks (item.unnumber bound) =
      (e.step checks item).map (Engine.unnumber bound) := by
  -- what a node sends, in an engine that numbers it the same way
  have hsent : ∀ (node' : Node) (out : List Event), out.length ≤ 2 →
      e.seqCounter ≤ (sendOut node'.outputs out e.scheduler e.seqCounter).2 →
      sendOut node'.outputs out (e.scheduler.unnumber bound) e.seqCounter =
        ((sendOut node'.outputs out e.scheduler e.seqCounter).1.unnumber bound,
          (sendOut node'.outputs out e.scheduler e.seqCounter).2) := by
    intro node' out hlen hle
    rw [sendOut_snd] at hle
    exact sendOut_unnumber hseq _ (length_lt_of_le hlen hle) _
  by_cases hitem : item.event.seq.toNat < bound
  · obtain ⟨node, hnode, hkind⟩ := hsource hitem
    have hproc : node.process checks item.event = .ok ([item.event], node) :=
      process_of_isSource hkind item.event
    have hstep := step_of_process hnode hproc
    have hsend := hsent node [item.event] (by simp) (hwrap _ hstep)
    -- the output gets a new number in any case
    have hsame : sendOut node.outputs [{ item.event with seq := 0 }] (e.scheduler.unnumber bound)
        e.seqCounter = sendOut node.outputs [item.event] (e.scheduler.unnumber bound)
          e.seqCounter := rfl
    have hnode' : (e.unnumber bound).nodes[(item.unnumber bound).nodeId]? = some node := by
      rw [unnumber_nodeId]
      exact hnode
    rw [hstep, step_of_process hnode' (process_of_isSource hkind _), unnumber_of_lt hitem]
    refine congrArg Except.ok ?_
    simp only [Engine.stepped, Engine.unnumber, effectOf_of_isSource hkind,
      tracesOf_of_isSource hkind]
    rw [hsame, hsend]
  · rw [unnumber_of_le (Nat.not_lt.mp hitem)]
    rcases hnode : e.nodes[item.nodeId]? with _ | node
    · have hnode' : (e.unnumber bound).nodes[item.nodeId]? = none := hnode
      rw [Engine.step, Engine.step, hnode', hnode]
      rfl
    · rcases hproc : node.process checks item.event with p | ⟨out, node'⟩
      · rw [step_of_panic hnode hproc, step_of_panic (e := e.unnumber bound) hnode hproc]
        rfl
      · have hstep := step_of_process hnode hproc
        have hsend := hsent node' out (Node.process_ok hproc).1 (hwrap _ hstep)
        rw [hstep, step_of_process (e := e.unnumber bound) hnode hproc]
        refine congrArg Except.ok ?_
        simp only [Engine.stepped, Engine.unnumber]
        rw [hsend]

/-- The counter moves as far without the numbers, even if it wraps. -/
theorem step_unnumber_seqCounter {e : Engine} {item : WorkItem}
    (hsource : item.event.seq.toNat < bound → e.ForSource item) :
    ((e.unnumber bound).step checks (item.unnumber bound)).map Engine.seqCounter =
      (e.step checks item).map Engine.seqCounter := by
  have hnode' : (e.unnumber bound).nodes[(item.unnumber bound).nodeId]? = e.nodes[item.nodeId]? := by
    rw [unnumber_nodeId]
    rfl
  rcases hnode : e.nodes[item.nodeId]? with _ | node
  · rw [Engine.step, Engine.step, hnode', hnode]
  · rw [hnode] at hnode'
    by_cases hitem : item.event.seq.toNat < bound
    · obtain ⟨source, hat, hkind⟩ := hsource hitem
      obtain rfl : node = source := Option.some.inj (hnode.symm.trans hat)
      rw [step_of_process hnode (process_of_isSource hkind _),
        step_of_process hnode' (process_of_isSource hkind _), Except.map, Except.map,
        stepped_seqCounter, stepped_seqCounter]
      rfl
    · rw [unnumber_of_le (Nat.not_lt.mp hitem)] at hnode' ⊢
      rcases hproc : node.process checks item.event with p | ⟨out, node'⟩
      · rw [step_of_panic hnode hproc, step_of_panic hnode' hproc]
      · rw [step_of_process hnode hproc, step_of_process hnode' hproc, Except.map, Except.map,
          stepped_seqCounter, stepped_seqCounter]
        rfl

/-! ### Runs -/

/-- What a run shows of an item it processes. -/
def WorkItem.shown (w : WorkItem) : ℕ × Stamp × Value := (w.nodeId, w.event.stamp, w.event.v)

/-- What the first turns of a run process. -/
def Engine.processed (checks : Bool) : ℕ → Engine → List (ℕ × Stamp × Value)
  | 0, _ => []
  | n + 1, e =>
    match e.scheduler.pop with
    | (none, _) => []
    | (some item, scheduler) =>
      item.shown :: match Engine.step checks { e with scheduler := scheduler } item with
        | .error _ => []
        | .ok e' => Engine.processed checks n e'

/-- A run shows as many items as it counts. -/
theorem Engine.length_processed {e e' : Engine} {n m : ℕ} (h : e.run checks n = .ok (m, e')) :
    (e.processed checks n).length = m := by
  induction n generalizing e m with
  | zero => exact (Prod.mk.inj (Except.ok.inj h)).1
  | succ n ih =>
    rw [Engine.run] at h
    rw [Engine.processed]
    rcases hpop : e.scheduler.pop with ⟨_ | item, scheduler⟩
    · rw [hpop] at h
      exact (Prod.mk.inj (Except.ok.inj h)).1
    · rw [hpop] at h
      dsimp only at h ⊢
      rcases hstep : Engine.step checks { e with scheduler := scheduler } item with p | e₁
      · rw [hstep] at h
        cases h
      · rw [hstep] at h
        obtain ⟨⟨m', e₂⟩, hrun, heq⟩ := Except.of_map_eq_ok h
        obtain ⟨rfl, rfl⟩ := Prod.mk.inj heq
        exact congrArg (· + 1) (ih hrun)

/-- In no turn of the run that starts here does the sequence counter wrap. -/
def Engine.NoWrap (checks : Bool) (e : Engine) : Prop :=
  ∀ k e₁ e₂, Steps (EngineTurn checks) k e e₁ → EngineTurn checks e₁ e₂ →
    e₁.seqCounter ≤ e₂.seqCounter

theorem Engine.NoWrap.turn {e e' : Engine} (h : e.NoWrap checks) (hturn : EngineTurn checks e e') :
    e'.NoWrap checks :=
  fun k _ _ hrun hlast => h (k + 1) _ _ (hrun.head hturn) hlast

/-- The items with numbers below the bound are for sources, and no number below it is given any
more. -/
structure Engine.Numbered (bound : ℕ) (e : Engine) : Prop where
  seq : bound ≤ e.seqCounter.toNat
  sources : ∀ w ∈ e.scheduler.pending, w.event.seq.toNat < bound → e.ForSource w
  scheduler : e.scheduler.Wf

theorem le_of_mem_stampOut {seq : UInt32} {out : List Event} (h : seq.toNat + out.length < 2 ^ 32)
    {ev : Event} (hev : ev ∈ stampOut seq out) : seq.toNat ≤ ev.seq.toNat := by
  induction out generalizing seq with
  | nil => exact absurd hev List.not_mem_nil
  | cons first rest ih =>
    rw [List.length_cons] at h
    rcases List.mem_cons.mp hev with rfl | hev
    · exact le_refl _
    · have hnext : (seq + 1).toNat = seq.toNat + 1 := by
        rw [UInt32.toNat_add]
        exact Nat.mod_eq_of_lt (by change seq.toNat + 1 < 2 ^ 32; omega)
      have hle := ih (by omega) hev
      omega

/-- A turn keeps the sources what they are. -/
theorem forSource_step {e e' : Engine} {item w : WorkItem} (h : e.step checks item = .ok e')
    (hw : e.ForSource w) : e'.ForSource w := by
  obtain ⟨node, hnode, hkind⟩ := hw
  rcases hat : e.nodes[item.nodeId]? with _ | m
  · rw [Engine.step, hat] at h
    cases h
  rcases hproc : m.process checks item.event with p | ⟨out, m'⟩
  · rw [step_of_panic hat hproc] at h
    cases h
  rw [step_of_process hat hproc] at h
  obtain rfl := Except.ok.inj h
  by_cases hid : w.nodeId = item.nodeId
  · rw [hid, hat] at hnode
    obtain rfl := Option.some.inj hnode
    rw [process_of_isSource hkind] at hproc
    obtain ⟨-, rfl⟩ := Prod.mk.inj (Except.ok.inj hproc)
    refine ⟨m, ?_, hkind⟩
    rw [hid]
    exact List.getElem?_set_self (List.getElem?_eq_some_iff.mp hat).1
  · refine ⟨node, ?_, hkind⟩
    exact (List.getElem?_set_ne (Ne.symm hid)).trans hnode

/-- **A turn keeps the numbers apart.** -/
theorem Engine.Numbered.turn {e e' : Engine} {item : WorkItem} {scheduler : Scheduler}
    (h : e.Numbered bound) (hpop : e.scheduler.pop = (some item, scheduler))
    (hstep : Engine.step checks { e with scheduler := scheduler } item = .ok e')
    (hle : e.seqCounter ≤ e'.seqCounter) : e'.Numbered bound := by
  obtain ⟨hwf, hpending⟩ := h.scheduler.of_pop hpop
  rcases hnode : e.nodes[item.nodeId]? with _ | node
  · rw [Engine.step, hnode] at hstep
    cases hstep
  rcases hproc : node.process checks item.event with p | ⟨out, node'⟩
  · rw [step_of_panic (e := { e with scheduler := scheduler }) hnode hproc] at hstep
    cases hstep
  have hstep' := step_of_process (e := { e with scheduler := scheduler }) hnode hproc
  have heq : e' = Engine.stepped { e with scheduler := scheduler } item node node' out :=
    (Except.ok.inj (hstep'.symm.trans hstep)).symm
  have hsched : e'.scheduler = (sendOut node'.outputs out scheduler e.seqCounter).1 := by
    rw [heq]
    rfl
  have hseq : e'.seqCounter = e.seqCounter + UInt32.ofNat out.length := by
    rw [heq]
    exact stepped_seqCounter _ _ _ _ _
  -- the counter did not wrap in this turn, so what is sent has larger numbers
  have hlt : e.seqCounter.toNat + out.length < 2 ^ 32 :=
    length_lt_of_le (Node.process_ok hproc).1 (hseq ▸ hle)
  obtain ⟨hwf', hsent⟩ := sendOut_spec hwf node'.outputs out e.seqCounter
  refine ⟨h.seq.trans (UInt32.le_iff_toNat_le.mp hle), fun w hw hnum => ?_, hsched ▸ hwf'⟩
  refine forSource_step hstep ?_
  rw [hsched, hsent, Multiset.mem_add] at hw
  rcases hw with hold | hnew
  · refine h.sources w ?_ hnum
    rw [hpending]
    exact Multiset.mem_cons_of_mem hold
  · -- what is sent has a number from the counter on
    obtain ⟨ev, hev, hmem⟩ := List.mem_flatMap.mp (Multiset.mem_coe.mp hnew)
    obtain ⟨id, -, rfl⟩ := List.mem_map.mp hmem
    have hge := le_of_mem_stampOut hlt hev
    have hbound := h.seq
    change ev.seq.toNat < bound at hnum
    omega

theorem Engine.Numbered.forSource_of_pop {e : Engine} {item : WorkItem} {scheduler : Scheduler}
    (h : e.Numbered bound) (hpop : e.scheduler.pop = (some item, scheduler))
    (hlt : item.event.seq.toNat < bound) : e.ForSource item := by
  refine h.sources item ?_ hlt
  rw [(h.scheduler.of_pop hpop).2]
  exact Multiset.mem_cons_self _ _

/-- The step after a pop, with and without the numbers. -/
theorem Engine.Numbered.step {e : Engine} {item : WorkItem} {scheduler : Scheduler}
    (h : e.Numbered bound) (hw : e.NoWrap checks) (hpop : e.scheduler.pop = (some item, scheduler)) :
    Engine.step checks { e.unnumber bound with scheduler := scheduler.unnumber bound }
        (item.unnumber bound) =
      (Engine.step checks { e with scheduler := scheduler } item).map (Engine.unnumber bound) := by
  refine step_unnumber (e := { e with scheduler := scheduler }) h.seq
    (h.forSource_of_pop hpop) fun e' hstep => ?_
  exact hw 0 e e' (.refl e) ⟨item, scheduler, hpop, hstep⟩

/-- The pop of the engine without the numbers. -/
theorem pop_unnumber_of_eq {e : Engine} {item : Option WorkItem} {scheduler : Scheduler}
    (hpop : e.scheduler.pop = (item, scheduler)) :
    (e.unnumber bound).scheduler.pop =
      (item.map (WorkItem.unnumber bound), scheduler.unnumber bound) := by
  rw [Engine.unnumber]
  dsimp only
  rw [pop_unnumber, hpop]

@[simp]
theorem shown_unnumber (w : WorkItem) : (w.unnumber bound).shown = w.shown := by
  rw [WorkItem.shown, unnumber_nodeId, unnumber_stamp, unnumber_v, WorkItem.shown]

/-- **The turns of a run** show the same. -/
theorem Engine.Numbered.processed {e : Engine} (h : e.Numbered bound) (hw : e.NoWrap checks)
    (n : ℕ) : (e.unnumber bound).processed checks n = e.processed checks n := by
  induction n generalizing e with
  | zero => rfl
  | succ n ih =>
    rw [Engine.processed, Engine.processed]
    rcases hpop : e.scheduler.pop with ⟨_ | item, scheduler⟩
    · rw [pop_unnumber_of_eq hpop, Option.map_none]
    · rw [pop_unnumber_of_eq hpop, Option.map_some]
      dsimp only
      rw [shown_unnumber, h.step hw hpop]
      rcases hstep : Engine.step checks { e with scheduler := scheduler } item with p | e'
      · rfl
      · have hturn : EngineTurn checks e e' := ⟨item, scheduler, hpop, hstep⟩
        have hle := hw 0 e e' (.refl e) hturn
        exact congrArg _ (ih (h.turn hpop hstep hle) (hw.turn hturn))

/-- **A run** leaves the same engine up to the numbers, and keeps the numbers apart. -/
theorem Engine.Numbered.run {e : Engine} (h : e.Numbered bound) (hw : e.NoWrap checks) (n : ℕ) :
    (e.unnumber bound).run checks n =
        (e.run checks n).map (fun r => (r.1, r.2.unnumber bound)) ∧
      ∀ r, e.run checks n = .ok r → r.2.Numbered bound ∧ r.2.NoWrap checks := by
  induction n generalizing e with
  | zero => exact ⟨rfl, fun r hr => Except.ok.inj hr ▸ ⟨h, hw⟩⟩
  | succ n ih =>
    rw [Engine.run, Engine.run]
    rcases hpop : e.scheduler.pop with ⟨_ | item, scheduler⟩
    · rw [pop_unnumber_of_eq hpop, Option.map_none]
      obtain ⟨-, heq⟩ | ⟨-, item', s', heq, -⟩ := h.scheduler.pop_cases
      · rw [hpop] at heq
        obtain rfl : scheduler = e.scheduler := (Prod.mk.inj heq).2
        exact ⟨rfl, fun r hr => Except.ok.inj hr ▸ ⟨h, hw⟩⟩
      · rw [hpop] at heq
        cases (Prod.mk.inj heq).1
    · rw [pop_unnumber_of_eq hpop, Option.map_some]
      dsimp only
      -- the turn commutes with forgetting the numbers, and so does the rest of the run
      rw [h.step hw hpop]
      rcases hstep : Engine.step checks { e with scheduler := scheduler } item with p | e'
      · exact ⟨rfl, fun r hr => by cases hr⟩
      · have hturn : EngineTurn checks e e' := ⟨item, scheduler, hpop, hstep⟩
        have hle := hw 0 e e' (.refl e) hturn
        obtain ⟨hrun, hkeep⟩ := ih (h.turn hpop hstep hle) (hw.turn hturn)
        refine ⟨?_, fun r hr => ?_⟩
        · change ((e'.unnumber bound).run checks n).map (fun r => (r.1 + 1, r.2)) =
            ((e'.run checks n).map fun r => (r.1 + 1, r.2)).map fun r => (r.1, r.2.unnumber bound)
          rw [hrun]
          rcases e'.run checks n with p | r <;> rfl
        · obtain ⟨r', hr', rfl⟩ := Except.of_map_eq_ok hr
          exact hkeep r' hr'

/-- A turn of the unnumbered engine is one of the engine. -/
theorem Engine.Numbered.turn_unnumber {e f : Engine} (h : e.Numbered bound) (hw : e.NoWrap checks)
    (hturn : EngineTurn checks (e.unnumber bound) f) :
    ∃ e', EngineTurn checks e e' ∧ e'.Numbered bound ∧ e'.NoWrap checks ∧ f = e'.unnumber bound := by
  obtain ⟨item, scheduler, hpop, hstep⟩ := hturn
  rcases hpop' : e.scheduler.pop with ⟨_ | item', scheduler'⟩
  · rw [pop_unnumber_of_eq hpop'] at hpop
    exact nomatch (Prod.mk.inj hpop).1
  · rw [pop_unnumber_of_eq hpop'] at hpop
    obtain ⟨hitem, rfl⟩ := Prod.mk.inj hpop
    obtain rfl := Option.some.inj hitem
    rw [h.step hw hpop'] at hstep
    obtain ⟨e', hstep', rfl⟩ := Except.of_map_eq_ok hstep
    have hturn : EngineTurn checks e e' := ⟨item', scheduler', hpop', hstep'⟩
    exact ⟨e', hturn, h.turn hpop' hstep' (hw 0 e e' (.refl e) hturn), hw.turn hturn, rfl⟩

/-- **Running to idle** leaves the same engine up to the numbers. -/
theorem Engine.Numbered.runToIdle {e : Engine} (h : e.Numbered bound) (hw : e.NoWrap checks)
    (fuel : ℕ) :
    (e.unnumber bound).runToIdle checks fuel =
      (e.runToIdle checks fuel).map (Except.map (Engine.unnumber bound)) := by
  induction fuel generalizing e with
  | zero => rfl
  | succ fuel ih =>
    obtain ⟨hrun, hkeep⟩ := h.run hw 4096
    have hidle : (e.unnumber bound).scheduler.isIdle = e.scheduler.isIdle := rfl
    rw [Engine.runToIdle, Engine.runToIdle, hidle, hrun]
    split_ifs
    · rfl
    · rcases hr : e.run checks 4096 with p | ⟨n, e'⟩
      · rfl
      · obtain ⟨h', hw'⟩ := hkeep _ hr
        exact ih h' hw'

theorem Engine.Numbered.nodes_runToIdle {e : Engine} (h : e.Numbered bound) (hw : e.NoWrap checks)
    (fuel : ℕ) :
    ((e.unnumber bound).runToIdle checks fuel).map (Except.map Engine.nodes) =
      (e.runToIdle checks fuel).map (Except.map Engine.nodes) := by
  have hnodes : Except.map (ε := Panic) Engine.nodes ∘ Except.map (Engine.unnumber bound) =
      Except.map Engine.nodes := by
    funext r
    rcases r with p | e' <;> rfl
  rw [h.runToIdle hw, Option.map_map, hnodes]

/-! ### Wrapping -/

theorem Engine.Numbered.noWrap_unnumber {e : Engine} (h : e.Numbered bound)
    (hw : e.NoWrap checks) : (e.unnumber bound).NoWrap checks := by
  -- every run of the unnumbered engine is one of the engine
  have hruns : ∀ k f, Steps (EngineTurn checks) k (e.unnumber bound) f →
      ∃ e₁ : Engine, e₁.Numbered bound ∧ e₁.NoWrap checks ∧ f = e₁.unnumber bound := by
    intro k f hsteps
    apply hsteps.invariant
    · exact ⟨e, h, hw, rfl⟩
    · rintro _ f₂ ⟨e₁, h₁, hw₁, rfl⟩ hturn
      obtain ⟨e₂, -, h₂, hw₂, rfl⟩ := h₁.turn_unnumber hw₁ hturn
      exact ⟨e₂, h₂, hw₂, rfl⟩
  intro k f₁ f₂ hsteps hturn
  obtain ⟨e₁, h₁, hw₁, rfl⟩ := hruns k f₁ hsteps
  obtain ⟨e₂, hturn₂, -, -, rfl⟩ := h₁.turn_unnumber hw₁ hturn
  exact hw₁ 0 e₁ e₂ (.refl e₁) hturn₂

/-- A turn of an engine whose unnumbered form does not wrap. -/
theorem Engine.Numbered.turn_of_unnumber {e e' : Engine} (h : e.Numbered bound)
    (hw : (e.unnumber bound).NoWrap checks) (hturn : EngineTurn checks e e') :
    e.seqCounter ≤ e'.seqCounter ∧ e'.Numbered bound ∧ (e'.unnumber bound).NoWrap checks := by
  obtain ⟨item, scheduler, hpop, hstep⟩ := hturn
  have hpop' : (e.unnumber bound).scheduler.pop =
      (some (item.unnumber bound), scheduler.unnumber bound) := pop_unnumber_of_eq hpop
  have hsource := h.forSource_of_pop hpop
  have hseq : (Engine.step checks { e.unnumber bound with scheduler := scheduler.unnumber bound }
      (item.unnumber bound)).map Engine.seqCounter =
        (Engine.step checks { e with scheduler := scheduler } item).map Engine.seqCounter :=
    step_unnumber_seqCounter (e := { e with scheduler := scheduler }) hsource
  rw [hstep] at hseq
  obtain ⟨f, hf, hfseq⟩ := Except.of_map_eq_ok hseq
  have hturn' : EngineTurn checks (e.unnumber bound) f := ⟨_, _, hpop', hf⟩
  have hle : e.seqCounter ≤ e'.seqCounter := by
    have hle : (e.unnumber bound).seqCounter ≤ f.seqCounter := hw 0 _ f (.refl _) hturn'
    rwa [hfseq] at hle
  have hmap : Engine.step checks { e.unnumber bound with scheduler := scheduler.unnumber bound }
      (item.unnumber bound) =
        (Engine.step checks { e with scheduler := scheduler } item).map (Engine.unnumber bound) :=
    step_unnumber (e := { e with scheduler := scheduler }) h.seq hsource fun e'' hstep' => by
      obtain rfl : e' = e'' := Except.ok.inj (hstep.symm.trans hstep')
      exact hle
  rw [hstep] at hmap
  obtain rfl : f = e'.unnumber bound := Except.ok.inj (hf.symm.trans hmap)
  exact ⟨hle, h.turn hpop hstep hle, hw.turn hturn'⟩

/-- **Wrapping** does not depend on the numbers that are taken away. -/
theorem Engine.Numbered.noWrap_iff {e : Engine} (h : e.Numbered bound) :
    (e.unnumber bound).NoWrap checks ↔ e.NoWrap checks := by
  refine ⟨fun hw => ?_, h.noWrap_unnumber⟩
  have hruns : ∀ k e₁, Steps (EngineTurn checks) k e e₁ →
      e₁.Numbered bound ∧ (e₁.unnumber bound).NoWrap checks := by
    intro k e₁ hsteps
    apply hsteps.invariant
    · exact ⟨h, hw⟩
    · rintro _ _ ⟨h₁, hw₁⟩ hturn
      exact (h₁.turn_of_unnumber hw₁ hturn).2
  intro k e₁ e₂ hsteps hturn
  obtain ⟨h₁, hw₁⟩ := hruns k e₁ hsteps
  exact (h₁.turn_of_unnumber hw₁ hturn).1

theorem seqCounter_of_turn {e e' : Engine} (h : EngineTurn checks e e') :
    ∃ n ≤ 2, e'.seqCounter = e.seqCounter + UInt32.ofNat n := by
  obtain ⟨item, scheduler, -, hstep⟩ := h
  rcases hnode : e.nodes[item.nodeId]? with _ | node
  · rw [Engine.step, hnode] at hstep
    cases hstep
  rcases hproc : node.process checks item.event with p | ⟨out, node'⟩
  · rw [step_of_panic (e := { e with scheduler := scheduler }) hnode hproc] at hstep
    cases hstep
  rw [step_of_process (e := { e with scheduler := scheduler }) hnode hproc] at hstep
  refine ⟨out.length, (Node.process_ok hproc).1, ?_⟩
  rw [← Except.ok.inj hstep]
  exact stepped_seqCounter _ _ _ _ _

/-- The counter does not wrap when there are numbers left for two events of every turn. -/
theorem Engine.Wf.noWrap {e : Engine} (h : e.Wf)
    (hlt : e.seqCounter.toNat + 2 * e.weight < 2 ^ 32) : e.NoWrap checks := by
  -- each turn uses up at most two numbers and takes weight off
  have hturn : ∀ e₁ e₂ : Engine, e₁.Wf → e₁.seqCounter.toNat + 2 * e₁.weight < 2 ^ 32 →
      EngineTurn checks e₁ e₂ → e₁.seqCounter ≤ e₂.seqCounter ∧ e₂.Wf ∧
        e₂.seqCounter.toNat + 2 * e₂.weight < 2 ^ 32 := by
    intro e₁ e₂ hwf hnum hturn
    obtain ⟨hwf', hweight⟩ := hwf.turn hturn
    obtain ⟨n, hn, hseq⟩ := seqCounter_of_turn hturn
    have hnat : e₂.seqCounter.toNat = e₁.seqCounter.toNat + n := by
      rw [hseq, UInt32.toNat_add, UInt32.toNat_ofNat']
      omega
    refine ⟨UInt32.le_iff_toNat_le.mpr (by omega), hwf', by omega⟩
  have hruns : ∀ k e₁, Steps (EngineTurn checks) k e e₁ →
      e₁.Wf ∧ e₁.seqCounter.toNat + 2 * e₁.weight < 2 ^ 32 := by
    intro k e₁ hsteps
    apply hsteps.invariant
    · exact ⟨h, hlt⟩
    · rintro _ _ ⟨hwf, hnum⟩ hlast
      exact (hturn _ _ hwf hnum hlast).2
  intro k e₁ e₂ hsteps hlast
  obtain ⟨hwf, hnum⟩ := hruns k e₁ hsteps
  exact (hturn _ _ hwf hnum hlast).1

end Rivr.Core
