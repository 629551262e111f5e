import Rivr.Core.FlushAll
import Rivr.Core.InjectionOrder

/-!
# The order of the assignment

The sequence numbers order the events of a tick, but they have 32 bits only. A `Ledger` follows an
engine and counts the assignments of numbers without a bound: it has a ticket for every pending
item, with the count at which the item's number was assigned (`Ledger.Wf`). The scheduler takes the
first item in the order of the keys, so it takes the events of a tick in the order of their tickets
as long as the numbers on 32 bits are in that order, and in the opposite order where they are not
(`fifo_of_inStep`). Every run of an engine has its ledger (`EngineReach.exists_ledger`).
-/

namespace Rivr.Core

open Worklist

/-! ### What is sent -/

/-- The items of some events, each with the nodes it is sent to, numbered from `seq` on. -/
def itemsFrom : UInt32 → List (Event × List ℕ) → List WorkItem
  | _, [] => []
  | seq, (ev, ids) :: sends =>
    (ids.map fun id => ⟨id, { ev with seq := seq }⟩) ++ itemsFrom (seq + 1) sends

theorem add_ofNat_succ (seq : UInt32) (n : ℕ) :
    seq + 1 + UInt32.ofNat n = seq + UInt32.ofNat (n + 1) := by
  rw [UInt32.ofNat_add, UInt32.add_assoc, UInt32.add_comm 1]
  rfl

theorem itemsFrom_append (seq : UInt32) (sends sends' : List (Event × List ℕ)) :
    itemsFrom seq (sends ++ sends') =
      itemsFrom seq sends ++ itemsFrom (seq + UInt32.ofNat sends.length) sends' := by
  induction sends generalizing seq with
  | nil => simp [itemsFrom]
  | cons send sends ih =>
    rw [List.cons_append, itemsFrom, itemsFrom, ih, add_ofNat_succ, List.append_assoc,
      List.length_cons]

theorem pushAll_append (s : Scheduler) (items items' : List WorkItem) :
    s.pushAll (items ++ items') = (s.pushAll items).pushAll items' := List.foldl_append

theorem foldl_push_eq (s : Scheduler) (ids : List ℕ) (ev : Event) :
    ids.foldl (fun s id => s.push id ev) s = s.pushAll (ids.map fun id => ⟨id, ev⟩) := by
  rw [Scheduler.pushAll, List.foldl_map]

/-- The output of a node is sent. -/
theorem sendOut_eq (ids : List ℕ) (out : List Event) (s : Scheduler) (seq : UInt32) :
    sendOut ids out s seq =
      (s.pushAll (itemsFrom seq (out.map (·, ids))), seq + UInt32.ofNat out.length) := by
  refine Prod.ext ?_ (sendOut_snd ids out s seq)
  induction out generalizing s seq with
  | nil => rfl
  | cons ev evs ih =>
    rw [sendOut, List.map_cons, itemsFrom, pushAll_append, foldl_push_eq]
    exact ih _ _

/-- A tick is sent to the sources of its clock. -/
theorem pushTicks_eq (stamp : Stamp) (ids : List ℕ) (s : Scheduler) (seq : UInt32) :
    pushTicks stamp ids s seq =
      (s.pushAll (itemsFrom seq (ids.map fun id => (Event.new stamp .unit, [id]))),
        seq + UInt32.ofNat ids.length) := by
  induction ids generalizing s seq with
  | nil => simp [pushTicks, itemsFrom, Scheduler.pushAll]
  | cons id ids ih =>
    rw [pushTicks, ih, List.map_cons, itemsFrom, pushAll_append, List.length_cons, add_ofNat_succ]
    rfl

/-- What a tick sends. -/
def Engine.tickSends (e : Engine) (clockId : UInt8) (tick : UInt64) : List (Event × List ℕ) :=
  if clockId.toNat < 8 ∧ tick ≤ e.clockNow.getD clockId.toNat 0 then []
  else (e.nodes.filter fun n => n.kind.isSourceOn clockId).map fun n =>
    (Event.new ⟨clockId, tick⟩ .unit, [n.id])

/-- What a node sends when it is flushed. -/
def Node.flushSends (n : Node) : List (Event × List ℕ) := n.flush.1.map (·, n.outputs)

/-- What a flush sends, node by node. -/
def Engine.flushSends (e : Engine) : List (Event × List ℕ) := e.nodes.flatMap Node.flushSends

/-- The later engine is the earlier one once these events have been sent. -/
structure Engine.Sent (e : Engine) (sends : List (Event × List ℕ)) (e' : Engine) : Prop where
  scheduler : e'.scheduler = e.scheduler.pushAll (itemsFrom e.seqCounter sends)
  seqCounter : e'.seqCounter = e.seqCounter + UInt32.ofNat sends.length

theorem Engine.sent_inject {e e' : Engine} {name : String} {ev : Event} {id : ℕ}
    (hid : e.sourceIds.lookup name = some id) (hok : e.inject name ev = .ok e') :
    e.Sent [(ev, [id])] e' := by
  rw [Engine.inject, hid] at hok
  obtain rfl := Except.ok.inj hok
  exact ⟨rfl, rfl⟩

theorem Engine.sent_tickClock (e : Engine) (clockId : UInt8) (tick : UInt64) :
    e.Sent (e.tickSends clockId tick) (e.tickClock clockId tick) := by
  have hsent : ∀ e₁ : Engine, e₁.nodes = e.nodes → e₁.scheduler = e.scheduler →
      e₁.seqCounter = e.seqCounter →
      e.Sent ((e.nodes.filter fun n => n.kind.isSourceOn clockId).map fun n =>
        (Event.new ⟨clockId, tick⟩ .unit, [n.id])) (e₁.tickSources clockId tick) := by
    intro e₁ hnodes hscheduler hseq
    simp only [Engine.tickSources, pushTicks_eq, hnodes, hscheduler, hseq]
    constructor
    · simp only [List.map_map]
      rfl
    · simp
  rw [Engine.tickSends, Engine.tickClock]
  by_cases hclock : clockId.toNat < 8
  · rw [if_pos hclock]
    by_cases hold : tick ≤ e.clockNow.getD clockId.toNat 0
    · rw [if_pos hold, if_pos ⟨hclock, hold⟩]
      exact ⟨rfl, by simp⟩
    · rw [if_neg hold, if_neg fun h => hold h.2]
      exact hsent _ rfl rfl rfl
  · rw [if_neg hclock, if_neg fun h => hclock h.1]
    exact hsent e rfl rfl rfl

/-- By induction on the nodes that have been flushed. -/
theorem Engine.sent_flushNodes {e : Engine} (h : e.scheduler.Wf) :
    e.Sent e.flushSends e.flushNodes := by
  have hall : ∀ k ≤ e.nodes.length, e.Sent ((e.nodes.take k).flatMap Node.flushSends)
      ((List.range k).foldl Engine.flushNode e) := by
    intro k hk
    induction k with
    | zero => exact ⟨rfl, by simp⟩
    | succ k ih =>
      have hbefore := ih (Nat.le_of_succ_le hk)
      have hlt : k < e.nodes.length := hk
      -- the node has not been flushed yet
      have hnode : ((List.range k).foldl Engine.flushNode e).nodes[k]? = some e.nodes[k] := by
        rw [(Engine.flushed_range true h k).nodes, List.getElem?_eq_getElem hlt]
        simp
      rw [List.range_succ, List.foldl_append, List.foldl_cons, List.foldl_nil, Engine.flushNode,
        hnode]
      dsimp only
      rw [sendOut_eq, hbefore.scheduler, hbefore.seqCounter, List.take_succ_eq_append_getElem hlt,
        List.flatMap_append, List.flatMap_singleton]
      constructor
      · rw [itemsFrom_append, pushAll_append]
        rfl
      · rw [List.length_append, UInt32.ofNat_add, ← UInt32.add_assoc, Node.flushSends,
          List.length_map]
  have hlast := hall _ (le_refl _)
  rwa [List.take_length] at hlast

/-- What a turn sends. -/
theorem Engine.sent_turn {checks : Bool} {e e' : Engine} {item : WorkItem} {node node' : Node}
    {out : List Event} (hnode : e.nodes[item.nodeId]? = some node)
    (hout : node.process checks item.event = .ok (out, node'))
    (hok : e.step checks item = .ok e') : e.Sent (out.map (·, node'.outputs)) e' := by
  rw [step_of_process hnode hout] at hok
  obtain rfl := Except.ok.inj hok
  constructor
  · exact congrArg Prod.fst (sendOut_eq _ _ _ _)
  · rw [stepped_seqCounter, List.length_map]

/-! ### Ledgers -/

/-- A pending item and the count at which its sequence number was assigned. -/
structure Ticket where
  item : WorkItem
  number : ℕ
  deriving DecidableEq

/-- An engine, how many sequence numbers have been assigned, and the tickets of its pending
items. -/
structure Ledger where
  engine : Engine
  assigned : ℕ
  tickets : Multiset Ticket

/-- The tickets of the items that are sent. -/
def ticketsFrom : ℕ → UInt32 → List (Event × List ℕ) → List Ticket
  | _, _, [] => []
  | number, seq, (ev, ids) :: sends =>
    (ids.map fun id => ⟨⟨id, { ev with seq := seq }⟩, number⟩) ++
      ticketsFrom (number + 1) (seq + 1) sends

/-- The ledger of an engine on which nothing is pending. -/
def Ledger.start (e : Engine) : Ledger := ⟨e, e.seqCounter.toNat, 0⟩

/-- The ledger once the engine has sent some events. -/
def Ledger.note (l : Ledger) (sends : List (Event × List ℕ)) (e' : Engine) : Ledger where
  engine := e'
  assigned := l.assigned + sends.length
  tickets := l.tickets + ↑(ticketsFrom l.assigned l.engine.seqCounter sends)

/-- What the engine may do, with its ledger. -/
inductive Ledger.Step (checks : Bool) : Ledger → Ledger → Prop
  | inject {l : Ledger} {name : String} {ev : Event} {id : ℕ} {e' : Engine}
      (hid : l.engine.sourceIds.lookup name = some id) (hok : l.engine.inject name ev = .ok e') :
      Ledger.Step checks l (l.note [(ev, [id])] e')
  | tick {l : Ledger} (clockId : UInt8) (tick : UInt64) : Ledger.Step checks l
      (l.note (l.engine.tickSends clockId tick) (l.engine.tickClock clockId tick))
  | flush {l : Ledger} : Ledger.Step checks l (l.note l.engine.flushSends l.engine.flushNodes)
  | turn {l : Ledger} {ticket : Ticket} {scheduler : Scheduler} {node node' : Node}
      {out : List Event} {e' : Engine} (hmem : ticket ∈ l.tickets)
      (hpop : l.engine.scheduler.pop = (some ticket.item, scheduler))
      (hnode : l.engine.nodes[ticket.item.nodeId]? = some node)
      (hout : node.process checks ticket.item.event = .ok (out, node'))
      (hok : Engine.step checks { l.engine with scheduler := scheduler } ticket.item = .ok e') :
      Ledger.Step checks l
        ({ l with tickets := l.tickets.erase ticket }.note (out.map (·, node'.outputs)) e')
  | logs {l : Ledger} (effectLog : Option (List EffectRecord))
      (traceLog : Option (List TraceRecord)) : Ledger.Step checks l
      { l with engine := { l.engine with effectLog := effectLog, traceLog := traceLog } }

/-- The tickets are those of the pending items, and each carries its number on 32 bits. -/
structure Ledger.Wf (l : Ledger) : Prop where
  sorted : l.engine.scheduler.Sorted
  items : l.tickets.map Ticket.item = l.engine.scheduler.pending
  counter : l.engine.seqCounter.toNat = l.assigned % 2 ^ 32
  numbers : ∀ t ∈ l.tickets,
    t.number < l.assigned ∧ t.item.event.seq.toNat = t.number % 2 ^ 32

theorem map_item_ticketsFrom (number : ℕ) (seq : UInt32) (sends : List (Event × List ℕ)) :
    (ticketsFrom number seq sends).map Ticket.item = itemsFrom seq sends := by
  induction sends generalizing number seq with
  | nil => rfl
  | cons send sends ih =>
    rw [ticketsFrom, itemsFrom, List.map_append, List.map_map, ih]
    rfl

theorem toNat_succ_of_mod {seq : UInt32} {number : ℕ} (h : seq.toNat = number % 2 ^ 32) :
    (seq + 1).toNat = (number + 1) % 2 ^ 32 := by
  rw [UInt32.toNat_add, h]
  exact Nat.mod_add_mod _ _ _

theorem number_of_mem_ticketsFrom {number : ℕ} {seq : UInt32} {sends : List (Event × List ℕ)}
    (h : seq.toNat = number % 2 ^ 32) {t : Ticket} (ht : t ∈ ticketsFrom number seq sends) :
    t.number < number + sends.length ∧ t.item.event.seq.toNat = t.number % 2 ^ 32 := by
  induction sends generalizing number seq with
  | nil => exact absurd ht List.not_mem_nil
  | cons send sends ih =>
    rw [ticketsFrom] at ht
    rcases List.mem_append.mp ht with ht | ht
    · obtain ⟨id, -, rfl⟩ := List.mem_map.mp ht
      exact ⟨Nat.lt_add_of_pos_right (Nat.succ_pos _), h⟩
    · obtain ⟨hlt, hseq⟩ := ih (toNat_succ_of_mod h) ht
      rw [List.length_cons]
      exact ⟨by omega, hseq⟩

theorem Scheduler.Sorted.pushAll {s : Scheduler} (h : s.Sorted) (items : List WorkItem) :
    (s.pushAll items).Sorted :=
  List.foldlRecOn items _ h fun _ hs w _ => hs.push w.nodeId w.event

/-- **Sending** keeps the ledger in order. -/
theorem Ledger.Wf.note {l : Ledger} {sends : List (Event × List ℕ)} {e' : Engine} (h : l.Wf)
    (hsent : l.engine.Sent sends e') : (l.note sends e').Wf where
  sorted := by
    change e'.scheduler.Sorted
    rw [hsent.scheduler]
    exact h.sorted.pushAll _
  items := by
    change (l.tickets + ↑(ticketsFrom l.assigned l.engine.seqCounter sends)).map Ticket.item =
      e'.scheduler.pending
    rw [hsent.scheduler, pending_pushAll, Multiset.map_add, h.items, Multiset.map_coe,
      map_item_ticketsFrom]
  counter := by
    change e'.seqCounter.toNat = (l.assigned + sends.length) % 2 ^ 32
    rw [hsent.seqCounter, UInt32.toNat_add, UInt32.toNat_ofNat', h.counter]
    exact (Nat.add_mod _ _ _).symm
  numbers t ht := by
    rcases Multiset.mem_add.mp ht with ht | ht
    · obtain ⟨hlt, hseq⟩ := h.numbers t ht
      exact ⟨Nat.lt_add_right _ hlt, hseq⟩
    · exact number_of_mem_ticketsFrom h.counter (Multiset.mem_coe.mp ht)

/-- Taking the item of a ticket out keeps it in order. -/
theorem Ledger.Wf.pop {l : Ledger} {ticket : Ticket} {scheduler : Scheduler} (h : l.Wf)
    (hmem : ticket ∈ l.tickets) (hpop : l.engine.scheduler.pop = (some ticket.item, scheduler)) :
    (⟨{ l.engine with scheduler := scheduler }, l.assigned, l.tickets.erase ticket⟩ : Ledger).Wf where
  sorted := by
    have hsorted := h.sorted.act .pop
    rwa [Scheduler.act, hpop] at hsorted
  items := by
    have hpending := (h.sorted.toWf.of_pop hpop).2
    rw [← h.items, ← Multiset.cons_erase hmem, Multiset.map_cons] at hpending
    exact (Multiset.cons_inj_right _).mp hpending
  counter := h.counter
  numbers t ht := h.numbers t (Multiset.mem_of_mem_erase ht)

/-- **Steps** keep the ledger in order. -/
theorem Ledger.Wf.step {checks : Bool} {l l' : Ledger} (h : l.Wf) (hstep : l.Step checks l') :
    l'.Wf := by
  cases hstep with
  | inject hid hok => exact h.note (Engine.sent_inject hid hok)
  | tick clockId tick => exact h.note (l.engine.sent_tickClock clockId tick)
  | flush => exact h.note (Engine.sent_flushNodes h.sorted.toWf)
  | turn hmem hpop hnode hout hok =>
    exact (h.pop hmem hpop).note (Engine.sent_turn hnode hout hok)
  | logs effectLog traceLog => exact ⟨h.sorted, h.items, h.counter, h.numbers⟩

theorem Ledger.wf_start {e : Engine} (h : e.Fresh) : (Ledger.start e).Wf where
  sorted := by
    change e.scheduler.Sorted
    rw [h]
    exact Scheduler.sorted_new
  items := by
    change 0 = e.scheduler.pending
    rw [h]
    rfl
  counter := (Nat.mod_eq_of_lt e.seqCounter.toNat_lt).symm
  numbers t ht := absurd ht (Multiset.notMem_zero t)

/-- The ticket of a pending item. -/
theorem Ledger.Wf.exists_ticket {l : Ledger} (h : l.Wf) {item : WorkItem}
    (hitem : item ∈ l.engine.scheduler.pending) : ∃ t ∈ l.tickets, t.item = item := by
  rw [← h.items] at hitem
  exact Multiset.mem_map.mp hitem

/-! ### Every run has its ledger -/

variable {checks : Bool}

/-- A turn of the engine is one of its ledger. -/
theorem Ledger.Wf.exists_step_of_turn {l : Ledger} {e' : Engine} (h : l.Wf)
    (hturn : EngineTurn checks l.engine e') : ∃ l', l.Step checks l' ∧ l'.engine = e' := by
  obtain ⟨item, scheduler, hpop, hstep⟩ := hturn
  have hpending : item ∈ l.engine.scheduler.pending := by
    rw [(h.sorted.toWf.of_pop hpop).2]
    exact Multiset.mem_cons_self _ _
  obtain ⟨t, ht, rfl⟩ := h.exists_ticket hpending
  obtain ⟨node, node', out, hnode, hout, -⟩ := Engine.step_eq_ok hstep
  exact ⟨_, .turn ht hpop hnode hout hstep, rfl⟩

theorem Ledger.Wf.exists_steps_of_turns {l : Ledger} {e' : Engine} {k : ℕ} (h : l.Wf)
    (hsteps : Steps (EngineTurn checks) k l.engine e') :
    ∃ l', Steps (Ledger.Step checks) k l l' ∧ l'.Wf ∧ l'.engine = e' := by
  generalize he : l.engine = e at hsteps
  induction hsteps with
  | refl => exact ⟨l, .refl l, h, he⟩
  | tail _ hlast ih =>
    obtain ⟨l₁, hsteps, hwf, rfl⟩ := ih he
    obtain ⟨l', hstep, hengine⟩ := hwf.exists_step_of_turn hlast
    exact ⟨l', hsteps.tail hstep, hwf.step hstep, hengine⟩

/-- **Ledgers** leave no run out. -/
theorem EngineReach.exists_ledger {engine e : Engine} (hwf : engine.Wf) (hfresh : engine.Fresh)
    (h : EngineReach checks engine e) :
    ∃ k l, Steps (Ledger.Step checks) k (.start engine) l ∧ l.Wf ∧ l.engine = e := by
  induction h with
  | start => exact ⟨0, _, .refl _, Ledger.wf_start hfresh, rfl⟩
  | @inject e e' name ev h hok ih =>
    obtain ⟨k, l, hsteps, hl, rfl⟩ := ih
    rcases hid : l.engine.sourceIds.lookup name with _ | id
    · rw [Engine.inject, hid] at hok
      cases hok
    · have hstep : l.Step checks _ := .inject hid hok
      exact ⟨k + 1, _, hsteps.tail hstep, hl.step hstep, rfl⟩
  | @tick e clockId tick h ih =>
    obtain ⟨k, l, hsteps, hl, rfl⟩ := ih
    have hstep : l.Step checks _ := .tick clockId tick
    exact ⟨k + 1, _, hsteps.tail hstep, hl.step hstep, rfl⟩
  | @run e e' maxSteps n h hok ih =>
    obtain ⟨k, l, hsteps, hl, rfl⟩ := ih
    obtain ⟨l', hturns, hl', hengine⟩ := hl.exists_steps_of_turns ((h.wf hwf).run_ok hok).2.1
    exact ⟨k + n, l', hsteps.trans hturns, hl', hengine⟩
  | @logs e effectLog traceLog h ih =>
    obtain ⟨k, l, hsteps, hl, rfl⟩ := ih
    have hstep : l.Step checks _ := .logs effectLog traceLog
    exact ⟨k + 1, _, hsteps.tail hstep, hl.step hstep, rfl⟩

/-! ### First in, first out -/

/-- **The order of the pops.** Of the pending events with the stamp of the one that is taken next,
none was numbered before it. -/
def Ledger.Fifo (l : Ledger) : Prop :=
  ∀ t ∈ l.tickets, ∀ scheduler, l.engine.scheduler.pop = (some t.item, scheduler) →
    ∀ u ∈ l.tickets, u.item.event.stamp = t.item.event.stamp → t.number ≤ u.number

/-- The numbers of pending events with one stamp go up on 32 bits in the order of their
assignment: the counter has not come round between them. -/
def Ledger.InStep (l : Ledger) : Prop :=
  ∀ t ∈ l.tickets, ∀ u ∈ l.tickets, u.item.event.stamp = t.item.event.stamp →
    t.number < u.number → t.number % 2 ^ 32 < u.number % 2 ^ 32

/-- What is taken has the least number on 32 bits. -/
theorem Ledger.Wf.number_le_of_pop {l : Ledger} {t u : Ticket} {scheduler : Scheduler} (h : l.Wf)
    (ht : t ∈ l.tickets) (hpop : l.engine.scheduler.pop = (some t.item, scheduler))
    (hu : u ∈ l.tickets) (hstamp : u.item.event.stamp = t.item.event.stamp) :
    t.number % 2 ^ 32 ≤ u.number % 2 ^ 32 := by
  have hpending : u.item ∈ l.engine.scheduler.pending := by
    rw [← h.items]
    exact Multiset.mem_map_of_mem _ hu
  have hkey := h.sorted.key_le_of_pop hpop hpending (congrArg Stamp.clock hstamp)
  rw [WorkItem.key, WorkItem.key, hstamp, Prod.Lex.toLex_le_toLex, Prod.Lex.toLex_le_toLex,
    (h.numbers t ht).2, (h.numbers u hu).2] at hkey
  simp only [lt_irrefl, true_and, false_or] at hkey
  rcases hkey with hlt | ⟨heq, -⟩
  · exact hlt.le
  · exact heq.le

/-- **The order of the pops.** In every state of every run of a compiled program: as long as the
numbers of the pending events of each tick are in step, the next pop is in order; and of two pending
events of one tick whose numbers are in the opposite order on 32 bits, the first is not taken. -/
theorem fifo_of_inStep {program : Program} {engine : Engine} {warnings : List CompileError}
    (hcompile : compile program = .ok (engine, warnings)) {k : ℕ} {l : Ledger}
    (hsteps : Steps (Ledger.Step checks) k (.start engine) l) :
    (l.InStep → l.Fifo) ∧
    ∀ t ∈ l.tickets, ∀ u ∈ l.tickets, u.item.event.stamp = t.item.event.stamp →
      t.number < u.number → u.number % 2 ^ 32 < t.number % 2 ^ 32 →
        ∀ scheduler, l.engine.scheduler.pop ≠ (some t.item, scheduler) := by
  have hwf : l.Wf := hsteps.invariant (Ledger.wf_start (compile_wf hcompile).2)
    fun _ _ hl hstep => hl.step hstep
  constructor
  · intro hin t ht scheduler hpop u hu hstamp
    by_contra hlater
    have hlt := hin u hu t ht hstamp.symm (Nat.not_le.mp hlater)
    exact absurd hlt (Nat.not_lt.mpr (hwf.number_le_of_pop ht hpop hu hstamp))
  · intro t ht u hu hstamp _ hback scheduler hpop
    exact absurd hback (Nat.not_lt.mpr (hwf.number_le_of_pop ht hpop hu hstamp))

/-! ### A run in which the counter comes round -/

/-- `source a = rf;` -/
def loneSource : Program := ⟨[.source "a" none .rf]⟩

/-- A source that sends to no node is alone in the table. -/
structure Ledger.Lone (l : Ledger) : Prop where
  wf : l.Wf
  node : ∃ node, l.engine.nodes = [node] ∧ node.kind.isSource = true ∧ node.outputs = []
  lookup : l.engine.sourceIds.lookup "a" = some 0

/-- An injection. -/
theorem Ledger.Lone.inject (checks : Bool) {l : Ledger} (h : l.Lone) (ev : Event) :
    ∃ l', l.Step checks l' ∧ l'.Lone ∧ l'.assigned = l.assigned + 1 ∧
      ∃ t : Ticket, t.number = l.assigned ∧ t.item.nodeId = 0 ∧ t.item.event.stamp = ev.stamp ∧
        l'.tickets = t ::ₘ l.tickets := by
  obtain ⟨e', hok, hnodes, hsources⟩ : ∃ e', l.engine.inject "a" ev = .ok e' ∧
      e'.nodes = l.engine.nodes ∧ e'.sourceIds = l.engine.sourceIds := by
    rw [Engine.inject, h.lookup]
    exact ⟨_, rfl, rfl, rfl⟩
  have hstep : l.Step checks (l.note [(ev, [0])] e') := .inject h.lookup hok
  refine ⟨_, hstep, ⟨h.wf.step hstep, ?_, ?_⟩, rfl, ⟨⟨0, { ev with seq := l.engine.seqCounter }⟩,
    l.assigned⟩, rfl, rfl, rfl, ?_⟩
  · change ∃ node, e'.nodes = [node] ∧ _
    rw [hnodes]
    exact h.node
  · change e'.sourceIds.lookup "a" = some 0
    rw [hsources]
    exact h.lookup
  · exact add_comm _ _

/-- The turn of the only pending item. -/
theorem Ledger.Lone.turn (checks : Bool) {l : Ledger} (h : l.Lone) {t : Ticket}
    (ht : l.tickets = {t}) (hid : t.item.nodeId = 0) :
    ∃ l', l.Step checks l' ∧ l'.Lone ∧ l'.assigned = l.assigned + 1 ∧ l'.tickets = 0 := by
  obtain ⟨node, hnodes, hsource, houtputs⟩ := h.node
  have hpending : l.engine.scheduler.pending = {t.item} := by
    rw [← h.wf.items, ht, Multiset.map_singleton]
  obtain ⟨hidle, -⟩ | ⟨-, item, scheduler, hpop, -, hitem⟩ := h.wf.sorted.toWf.pop_cases
  · rw [h.wf.sorted.toWf.isIdle_iff.mp hidle] at hpending
    exact absurd hpending.symm (Multiset.singleton_ne_zero _)
  · obtain rfl : item = t.item := by
      have hmem : item ∈ ({t.item} : Multiset WorkItem) := by
        rw [← hpending, hitem]
        exact Multiset.mem_cons_self _ _
      exact Multiset.mem_singleton.mp hmem
    -- the only node is a source without edges: it sends the event nowhere
    have hnode : l.engine.nodes[t.item.nodeId]? = some node := by rw [hnodes, hid]; rfl
    have hout : node.process checks t.item.event = .ok ([t.item.event], node) :=
      process_of_isSource hsource _
    have hok : Engine.step checks { l.engine with scheduler := scheduler } t.item =
        .ok (Engine.stepped { l.engine with scheduler := scheduler } t.item node node
          [t.item.event]) := step_of_process hnode hout
    have hstep : l.Step checks _ := .turn (ht ▸ Multiset.mem_singleton_self t) hpop hnode hout hok
    refine ⟨_, hstep, ⟨h.wf.step hstep, ⟨node, ?_, hsource, houtputs⟩, h.lookup⟩, rfl, ?_⟩
    · change l.engine.nodes.set t.item.nodeId node = [node]
      rw [hnodes, hid]
      rfl
    · change l.tickets.erase t + ↑(ticketsFrom _ _ [(t.item.event, node.outputs)]) = 0
      rw [ht, houtputs]
      simp [ticketsFrom]

/-- Injections, each followed by its turn. -/
theorem Ledger.Lone.rounds (checks : Bool) {l : Ledger} (h : l.Lone) (hnil : l.tickets = 0)
    (n : ℕ) :
    ∃ k l', Steps (Ledger.Step checks) k l l' ∧ l'.Lone ∧ l'.assigned = l.assigned + 2 * n ∧
      l'.tickets = 0 := by
  induction n with
  | zero => exact ⟨0, l, .refl l, h, rfl, hnil⟩
  | succ n ih =>
    obtain ⟨k, l₁, hsteps, h₁, hassigned, htickets⟩ := ih
    obtain ⟨l₂, hinject, h₂, hassigned₂, t, -, hid, -, htickets₂⟩ :=
      h₁.inject checks (.new ⟨0, 0⟩ .unit)
    rw [htickets] at htickets₂
    obtain ⟨l₃, hturn, h₃, hassigned₃, htickets₃⟩ := h₂.turn checks htickets₂ hid
    exact ⟨k + 2, l₃, (hsteps.tail hinject).tail hturn, h₃, by omega, htickets₃⟩

/-- The engine of the lone source. -/
theorem lone_start : ∃ engine warnings, compile loneSource = .ok (engine, warnings) ∧
    (Ledger.start engine).assigned = 0 ∧ (Ledger.start engine).Lone := by
  obtain ⟨engine, warnings, hcompile, hseq, hnodes, hlookup⟩ : ∃ engine warnings,
      compile loneSource = .ok (engine, warnings) ∧ engine.seqCounter = 0 ∧
        (∃ node, engine.nodes = [node] ∧ node.kind.isSource = true ∧ node.outputs = []) ∧
        engine.sourceIds.lookup "a" = some 0 :=
    ⟨_, _, rfl, rfl, ⟨_, rfl, rfl, rfl⟩, rfl⟩
  exact ⟨engine, warnings, hcompile, congrArg UInt32.toNat hseq,
    Ledger.wf_start (compile_wf hcompile).2, hnodes, hlookup⟩

/-- Two events of one tick right after the start. -/
theorem fifo_of_inStep_start : ∃ (engine : Engine) (warnings : List CompileError) (l : Ledger),
    compile loneSource = .ok (engine, warnings) ∧ l.tickets.card = 2 ∧
      (∀ t ∈ l.tickets, t.item.event.stamp = ⟨0, 5⟩) ∧ l.Fifo := by
  obtain ⟨engine, warnings, hcompile, hzero, hstart⟩ := lone_start
  obtain ⟨l₁, hstep₁, h₁, hassigned₁, t₁, hnum₁, -, hstamp₁, htickets₁⟩ :=
    hstart.inject true (.new ⟨0, 5⟩ (.int 1))
  obtain ⟨l₂, hstep₂, -, -, t₂, hnum₂, -, hstamp₂, htickets₂⟩ :=
    h₁.inject true (.new ⟨0, 5⟩ (.int 2))
  rw [htickets₁] at htickets₂
  have hfifo := (fifo_of_inStep hcompile (((Steps.refl _).tail hstep₁).tail hstep₂)).1
  have hnumbers : ∀ t ∈ l₂.tickets, t.number < 2 := by
    intro t ht
    rw [htickets₂, Ledger.start] at ht
    simp only [Multiset.mem_cons, Multiset.notMem_zero, or_false] at ht
    rcases ht with rfl | rfl <;> omega
  refine ⟨engine, warnings, l₂, hcompile, by rw [htickets₂]; rfl, ?_, hfifo ?_⟩
  · rw [htickets₂, Ledger.start]
    simp [hstamp₁, hstamp₂, Event.new]
  · intro t ht u hu _ hlt
    have hsmall := hnumbers u hu
    omega

/-- The event with the number `2 ^ 32` is taken before one with a smaller number. -/
theorem not_fifo : ¬∀ (program : Program) (engine : Engine) (warnings : List CompileError) (k : ℕ)
    (l : Ledger), compile program = .ok (engine, warnings) →
      Steps (Ledger.Step true) k (.start engine) l → l.Fifo := by
  intro h
  obtain ⟨engine, warnings, hcompile, hzero, hstart⟩ := lone_start
  obtain ⟨k, l₀, hsteps, h₀, hassigned₀, htickets₀⟩ :=
    hstart.rounds true rfl (2 ^ 31 - 1)
  -- three events of one tick, the last with the number 0 on 32 bits
  obtain ⟨l₁, hstep₁, h₁, hassigned₁, t₁, hnum₁, -, hstamp₁, htickets₁⟩ :=
    h₀.inject true (.new ⟨0, 5⟩ (.int 1))
  obtain ⟨l₂, hstep₂, h₂, hassigned₂, t₂, hnum₂, -, hstamp₂, htickets₂⟩ :=
    h₁.inject true (.new ⟨0, 5⟩ (.int 2))
  obtain ⟨l₃, hstep₃, h₃, -, t₃, hnum₃, -, hstamp₃, htickets₃⟩ :=
    h₂.inject true (.new ⟨0, 5⟩ (.int 3))
  have hfifo := h _ _ _ _ l₃ hcompile (((hsteps.tail hstep₁).tail hstep₂).tail hstep₃)
  rw [htickets₀] at htickets₁
  rw [htickets₁] at htickets₂
  rw [htickets₂] at htickets₃
  have hmem₁ : t₁ ∈ l₃.tickets := by simp [htickets₃]
  have hmem₃ : t₃ ∈ l₃.tickets := by simp [htickets₃]
  have hstamps : ∀ t ∈ l₃.tickets, t.item.event.stamp = ⟨0, 5⟩ := by
    rw [htickets₃]
    simp [hstamp₁, hstamp₂, hstamp₃, Event.new]
  have hnumbers : ∀ t ∈ l₃.tickets, 2 ^ 32 - 2 ≤ t.number := by
    rw [htickets₃]
    simp only [Multiset.mem_cons, Multiset.notMem_zero, or_false, forall_eq_or_imp, forall_eq]
    omega
  obtain ⟨hidle, -⟩ | ⟨-, item, scheduler, hpop, -, hitem⟩ := h₃.wf.sorted.toWf.pop_cases
  · have hpending := h₃.wf.items
    rw [h₃.wf.sorted.toWf.isIdle_iff.mp hidle, htickets₃] at hpending
    simp at hpending
  · have htaken : item ∈ l₃.engine.scheduler.pending := by
      rw [hitem]
      exact Multiset.mem_cons_self _ _
    obtain ⟨t, ht, rfl⟩ := h₃.wf.exists_ticket htaken
    have hle := hfifo t ht scheduler hpop t₁ hmem₁ ((hstamps _ hmem₁).trans (hstamps _ ht).symm)
    have hleast := h₃.wf.number_le_of_pop ht hpop hmem₃
      ((hstamps _ hmem₃).trans (hstamps _ ht).symm)
    have hbelow := hnumbers t ht
    omega

end Rivr.Core
