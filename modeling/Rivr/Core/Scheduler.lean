import Mathlib.Algebra.BigOperators.Group.Multiset.Basic
import Rivr.Core.Event

/-!
# The scheduler

`rivr_core/src/runtime/scheduler.rs`: one priority queue for each clock, ordered by
`(tick, seq, nodeId)`, and a round-robin over the first eight clocks that have work.

The map of queues is a list in clock order, and a queue is the list of its items in key order,
equal keys in the order of their arrival. `clockOrder` is the part of the source's array in
use, so its length is the number of active clocks. The two 64-bit totals wrap in every build.

`pending` reads a scheduler as the multiset of its items; `push` adds one, `pop` takes one out,
and a scheduler is idle exactly when none is left.
-/

namespace Rivr.Core

/-- `WorkItem`. -/
structure WorkItem where
  nodeId : ℕ
  event : Event
  deriving DecidableEq, Repr

/-- `IntraKey::cmp`, strictly less: by tick, then sequence number, then node. -/
def WorkItem.keyLt (a b : WorkItem) : Bool :=
  if a.event.stamp.tick ≠ b.event.stamp.tick then a.event.stamp.tick < b.event.stamp.tick
  else if a.event.seq ≠ b.event.seq then a.event.seq < b.event.seq
  else a.nodeId < b.nodeId

/-- `BinaryHeap::push` on the items in key order. -/
def insertItem (item : WorkItem) : List WorkItem → List WorkItem
  | [] => [item]
  | x :: xs => if item.keyLt x then item :: x :: xs else x :: insertItem item xs

/-- The map from clocks to queues, in clock order. -/
abbrev Queues := List (UInt8 × List WorkItem)

/-- `queues.entry(clk).or_default().push(item)`. -/
def pushQueue (clk : UInt8) (item : WorkItem) : Queues → Queues
  | [] => [(clk, [item])]
  | (c, q) :: rest =>
    if clk < c then (clk, [item]) :: (c, q) :: rest
    else if clk = c then (c, insertItem item q) :: rest
    else (c, q) :: pushQueue clk item rest

/-- `queues.get_mut(&clk)` and `pop()`: the item, whether the queue is now empty, and the
queues left. -/
def popQueue (clk : UInt8) : Queues → Option (WorkItem × Bool × Queues)
  | [] => none
  | (c, q) :: rest =>
    if c = clk then
      match q with
      | [] => none
      | x :: xs => some (x, xs.isEmpty, (c, xs) :: rest)
    else (popQueue clk rest).map fun r => (r.1, r.2.1, (c, q) :: r.2.2)

/-- `Scheduler`. -/
structure Scheduler where
  queues : Queues
  clockOrder : List UInt8
  rrPos : ℕ
  totalEnqueued : UInt64
  totalProcessed : UInt64
  deriving DecidableEq, Repr

/-- `Scheduler::new`. -/
def Scheduler.new : Scheduler := ⟨[], [], 0, 0, 0⟩

/-- The first eight clocks with work. -/
def activeOf (queues : Queues) : List UInt8 :=
  ((queues.filter fun e => !e.2.isEmpty).map Prod.fst).take 8

/-- `Scheduler::rebuild_order`. -/
def Scheduler.rebuildOrder (s : Scheduler) : Scheduler :=
  { s with
    clockOrder := activeOf s.queues
    rrPos := if 0 < (activeOf s.queues).length then s.rrPos % (activeOf s.queues).length else 0 }

/-- `Scheduler::push`. -/
def Scheduler.push (s : Scheduler) (nodeId : ℕ) (event : Event) : Scheduler :=
  { s with
    queues := pushQueue event.stamp.clock ⟨nodeId, event⟩ s.queues
    totalEnqueued := s.totalEnqueued + 1 }.rebuildOrder

/-- The loop of `Scheduler::pop` over the `n` active clocks. -/
def Scheduler.popLoop (n : ℕ) : ℕ → Scheduler → Option WorkItem × Scheduler
  | 0, s => (none, s)
  | k + 1, s =>
    let clk := s.clockOrder.getD (s.rrPos % n) 0
    let s := { s with rrPos := (s.rrPos + 1) % n }
    match popQueue clk s.queues with
    | some (item, emptied, queues) =>
      let s := { s with queues := queues, totalProcessed := s.totalProcessed + 1 }
      (some item, if emptied then s.rebuildOrder else s)
    | none => popLoop n k s

/-- `Scheduler::pop`. -/
def Scheduler.pop (s : Scheduler) : Option WorkItem × Scheduler :=
  if s.clockOrder.length = 0 then (none, s)
  else s.popLoop s.clockOrder.length s.clockOrder.length

/-- `Scheduler::is_idle`. -/
def Scheduler.isIdle (s : Scheduler) : Bool := s.clockOrder.length == 0

/-- `Scheduler::depth`. -/
def Scheduler.depth (s : Scheduler) : ℕ := (s.queues.map fun e => e.2.length).sum

/-! ### The pending items -/

/-- The items of all queues. -/
def pendingOf (queues : Queues) : Multiset WorkItem := ↑(queues.flatMap Prod.snd)

/-- The items a scheduler holds. -/
def Scheduler.pending (s : Scheduler) : Multiset WorkItem := pendingOf s.queues

@[simp]
theorem pendingOf_cons (c : UInt8) (q : List WorkItem) (rest : Queues) :
    pendingOf ((c, q) :: rest) = ↑q + pendingOf rest := by
  simp [pendingOf]

theorem coe_insertItem (item : WorkItem) (q : List WorkItem) :
    (↑(insertItem item q) : Multiset WorkItem) = item ::ₘ ↑q := by
  induction q with
  | nil => rfl
  | cons x xs ih =>
    simp only [insertItem]
    split_ifs
    · rfl
    · rw [← Multiset.cons_coe, ih, Multiset.cons_swap, Multiset.cons_coe]

/-- Pushing adds the item. -/
theorem pendingOf_pushQueue (clk : UInt8) (item : WorkItem) (queues : Queues) :
    pendingOf (pushQueue clk item queues) = item ::ₘ pendingOf queues := by
  induction queues with
  | nil => rfl
  | cons e rest ih =>
    obtain ⟨c, q⟩ := e
    simp only [pushQueue]
    split_ifs
    · rw [pendingOf_cons, pendingOf_cons]
      rfl
    · rw [pendingOf_cons, pendingOf_cons, coe_insertItem, Multiset.cons_add]
    · rw [pendingOf_cons, pendingOf_cons, ih, Multiset.add_cons]

/-- Popping takes the item out. -/
theorem pendingOf_popQueue {clk : UInt8} {queues queues' : Queues} {item : WorkItem}
    {emptied : Bool} (h : popQueue clk queues = some (item, emptied, queues')) :
    pendingOf queues = item ::ₘ pendingOf queues' := by
  induction queues generalizing queues' with
  | nil => simp [popQueue] at h
  | cons e rest ih =>
    obtain ⟨c, q⟩ := e
    simp only [popQueue] at h
    split_ifs at h with hc
    · cases q with
      | nil => simp at h
      | cons x xs =>
        obtain ⟨rfl, -, rfl⟩ : x = item ∧ xs.isEmpty = emptied ∧ (c, xs) :: rest = queues' := by
          simpa using h
        rw [pendingOf_cons, pendingOf_cons, ← Multiset.cons_coe, Multiset.cons_add]
    · obtain ⟨⟨x, b, rest'⟩, hpop, heq⟩ := Option.map_eq_some_iff.mp h
      obtain ⟨rfl, rfl, rfl⟩ : x = item ∧ b = emptied ∧ (c, q) :: rest' = queues' := by
        simpa using heq
      rw [pendingOf_cons, pendingOf_cons, ih hpop, Multiset.add_cons]

/-! ### The order of the clocks -/

/-- The clocks of a map are distinct and in order. -/
def ClocksSorted (queues : Queues) : Prop := (queues.map Prod.fst).Pairwise (· < ·)

/-- What every scheduler the operations build satisfies: the map is in order, and the
round-robin order is up to date. -/
structure Scheduler.Wf (s : Scheduler) : Prop where
  sorted : ClocksSorted s.queues
  order : s.clockOrder = activeOf s.queues

theorem Scheduler.wf_new : Scheduler.new.Wf := ⟨List.Pairwise.nil, rfl⟩

theorem Scheduler.wf_rebuildOrder {s : Scheduler} (h : ClocksSorted s.queues) :
    s.rebuildOrder.Wf := ⟨h, rfl⟩

private theorem mem_pushQueue_fst {clk c : UInt8} {item : WorkItem} {queues : Queues}
    (h : c ∈ (pushQueue clk item queues).map Prod.fst) :
    c = clk ∨ c ∈ queues.map Prod.fst := by
  induction queues with
  | nil => simpa [pushQueue] using h
  | cons e rest ih =>
    obtain ⟨c', q⟩ := e
    simp only [pushQueue] at h
    split_ifs at h with h₁ h₂
    · simpa using h
    · exact Or.inr (by simpa using h)
    · simp only [List.map_cons, List.mem_cons] at h ⊢
      rcases h with h | h
      · exact Or.inr (Or.inl h)
      · exact (ih h).imp_right Or.inr

theorem ClocksSorted.pushQueue {queues : Queues} (h : ClocksSorted queues) (clk : UInt8)
    (item : WorkItem) : ClocksSorted (pushQueue clk item queues) := by
  induction queues with
  | nil => simp [ClocksSorted, Core.pushQueue]
  | cons e rest ih =>
    obtain ⟨c, q⟩ := e
    obtain ⟨hlt, hrest⟩ := List.pairwise_cons.mp h
    simp only [Core.pushQueue]
    split_ifs with h₁ h₂
    · refine List.pairwise_cons.mpr ⟨?_, h⟩
      intro c' hc'
      rcases List.mem_cons.mp hc' with rfl | hc'
      · exact h₁
      · exact UInt8.lt_trans h₁ (hlt c' hc')
    · exact List.pairwise_cons.mpr ⟨hlt, hrest⟩
    · refine List.pairwise_cons.mpr ⟨?_, ih hrest⟩
      intro c' hc'
      rcases mem_pushQueue_fst hc' with rfl | hc'
      · exact UInt8.lt_of_le_of_ne (UInt8.not_lt.mp h₁) (Ne.symm h₂)
      · exact hlt c' hc'

/-- Popping keeps the clocks of the map. -/
theorem map_fst_popQueue {clk : UInt8} {queues queues' : Queues} {item : WorkItem}
    {emptied : Bool} (h : popQueue clk queues = some (item, emptied, queues')) :
    queues'.map Prod.fst = queues.map Prod.fst := by
  induction queues generalizing queues' with
  | nil => simp [popQueue] at h
  | cons e rest ih =>
    obtain ⟨c, q⟩ := e
    simp only [popQueue] at h
    split_ifs at h with hc
    · cases q with
      | nil => simp at h
      | cons x xs =>
        obtain ⟨-, -, rfl⟩ : x = item ∧ xs.isEmpty = emptied ∧ (c, xs) :: rest = queues' := by
          simpa using h
        rfl
    · obtain ⟨⟨x, b, rest'⟩, hpop, heq⟩ := Option.map_eq_some_iff.mp h
      obtain ⟨rfl, rfl, rfl⟩ : x = item ∧ b = emptied ∧ (c, q) :: rest' = queues' := by
        simpa using heq
      simp [ih hpop]

/-- A pop that does not empty its queue leaves the same clocks with work. -/
theorem activeOf_popQueue {clk : UInt8} {queues queues' : Queues} {item : WorkItem}
    (h : popQueue clk queues = some (item, false, queues')) :
    activeOf queues' = activeOf queues := by
  have hactive : ∀ qs qs' : Queues, popQueue clk qs = some (item, false, qs') →
      (qs'.filter fun e => !e.2.isEmpty).map Prod.fst =
        (qs.filter fun e => !e.2.isEmpty).map Prod.fst := by
    intro qs
    induction qs with
    | nil => intro qs' h; simp [popQueue] at h
    | cons e rest ih =>
      intro qs' h
      obtain ⟨c, q⟩ := e
      simp only [popQueue] at h
      split_ifs at h with hc
      · cases q with
        | nil => simp at h
        | cons x xs =>
          obtain ⟨-, hxs, rfl⟩ : x = item ∧ xs ≠ [] ∧ (c, xs) :: rest = qs' := by
            simpa using h
          simp [hxs]
      · obtain ⟨⟨x, b, rest'⟩, hpop, heq⟩ := Option.map_eq_some_iff.mp h
        obtain ⟨rfl, rfl, rfl⟩ : x = item ∧ b = false ∧ (c, q) :: rest' = qs' := by
          simpa using heq
        cases q <;> simp [ih _ hpop]
  simp only [activeOf, hactive queues queues' h]

/-- A queue with items can be popped. -/
theorem exists_popQueue {clk : UInt8} {q : List WorkItem} {queues : Queues}
    (h : ClocksSorted queues) (hmem : (clk, q) ∈ queues) (hne : q ≠ []) :
    ∃ r, popQueue clk queues = some r := by
  induction queues with
  | nil => simp at hmem
  | cons e rest ih =>
    obtain ⟨c, q'⟩ := e
    obtain ⟨hlt, hrest⟩ := List.pairwise_cons.mp h
    simp only [popQueue]
    rcases List.mem_cons.mp hmem with heq | hmem'
    · obtain ⟨rfl, rfl⟩ : clk = c ∧ q = q' := by simpa using heq
      cases q with
      | nil => exact absurd rfl hne
      | cons x xs => exact ⟨_, if_pos rfl⟩
    · have hc : c ≠ clk := fun heq => by
        have hlt' := hlt clk (List.mem_map.mpr ⟨(clk, q), hmem', rfl⟩)
        rw [heq] at hlt'
        exact UInt8.lt_irrefl clk hlt'
      obtain ⟨r, hr⟩ := ih hrest hmem'
      exact ⟨(r.1, r.2.1, (c, q') :: r.2.2), by rw [if_neg hc, hr]; rfl⟩

/-- So can the queue of an active clock. -/
theorem exists_popQueue_of_mem_activeOf {clk : UInt8} {queues : Queues}
    (h : ClocksSorted queues) (hmem : clk ∈ activeOf queues) :
    ∃ r, popQueue clk queues = some r := by
  obtain ⟨⟨c, q⟩, hq, rfl⟩ := List.mem_map.mp (List.mem_of_mem_take hmem)
  obtain ⟨hmem, hne⟩ := List.mem_filter.mp hq
  exact exists_popQueue h hmem (by simpa using hne)

/-- No clock is active exactly when nothing is pending. -/
theorem activeOf_eq_nil_iff {queues : Queues} : activeOf queues = [] ↔ pendingOf queues = 0 := by
  simp [activeOf, pendingOf, List.filter_eq_nil_iff]

/-! ### Push, pop and idleness -/

theorem Scheduler.Wf.push {s : Scheduler} (h : s.Wf) (nodeId : ℕ) (event : Event) :
    (s.push nodeId event).Wf :=
  wf_rebuildOrder (h.sorted.pushQueue _ _)

@[simp]
theorem Scheduler.pending_push (s : Scheduler) (nodeId : ℕ) (event : Event) :
    (s.push nodeId event).pending = ⟨nodeId, event⟩ ::ₘ s.pending :=
  pendingOf_pushQueue _ _ _

/-- **Idle means empty.** -/
theorem Scheduler.Wf.isIdle_iff {s : Scheduler} (h : s.Wf) :
    s.isIdle = true ↔ s.pending = 0 := by
  simp only [Scheduler.isIdle, h.order, beq_iff_eq, List.length_eq_zero_iff]
  exact activeOf_eq_nil_iff

/-- The clock that the round-robin serves next. -/
def Scheduler.turn (s : Scheduler) : UInt8 :=
  s.clockOrder.getD (s.rrPos % s.clockOrder.length) 0

/-- The scheduler after its turn left the queues. -/
def Scheduler.served (s : Scheduler) (emptied : Bool) (queues : Queues) : Scheduler :=
  let s' : Scheduler :=
    { s with
      queues := queues
      rrPos := (s.rrPos + 1) % s.clockOrder.length
      totalProcessed := s.totalProcessed + 1 }
  if emptied then s'.rebuildOrder else s'

theorem Scheduler.Wf.turn_mem {s : Scheduler} (h : s.Wf) (hbusy : s.isIdle = false) :
    s.turn ∈ activeOf s.queues := by
  have hlen : s.clockOrder.length ≠ 0 := by simpa [Scheduler.isIdle] using hbusy
  have hlt : s.rrPos % s.clockOrder.length < s.clockOrder.length :=
    Nat.mod_lt _ (Nat.pos_of_ne_zero hlen)
  rw [← h.order, Scheduler.turn, List.getD_eq_getElem?_getD, List.getElem?_eq_getElem hlt]
  exact List.getElem_mem hlt

/-- A scheduler that is not idle serves the first turn of the round-robin. -/
theorem Scheduler.Wf.pop_eq {s : Scheduler} (h : s.Wf) (hbusy : s.isIdle = false) :
    ∃ item emptied queues, popQueue s.turn s.queues = some (item, emptied, queues) ∧
      s.pop = (some item, s.served emptied queues) := by
  obtain ⟨⟨item, emptied, queues⟩, hpop⟩ :=
    exists_popQueue_of_mem_activeOf h.sorted (h.turn_mem hbusy)
  refine ⟨item, emptied, queues, hpop, ?_⟩
  have hlen : s.clockOrder.length ≠ 0 := by simpa [Scheduler.isIdle] using hbusy
  obtain ⟨k, hk⟩ : ∃ k, s.clockOrder.length = k + 1 := Nat.exists_eq_succ_of_ne_zero hlen
  have hloop : s.popLoop s.clockOrder.length (k + 1) = (some item, s.served emptied queues) := by
    rw [Scheduler.turn] at hpop
    simp only [Scheduler.popLoop, hpop, Scheduler.served]
  rw [Scheduler.pop, if_neg hlen, ← hloop]
  exact congrArg (fun m => s.popLoop s.clockOrder.length m) hk

theorem Scheduler.pop_of_isIdle {s : Scheduler} (hidle : s.isIdle = true) : s.pop = (none, s) :=
  if_pos (by simpa [Scheduler.isIdle] using hidle)

@[simp]
theorem Scheduler.queues_served (s : Scheduler) (emptied : Bool) (queues : Queues) :
    (s.served emptied queues).queues = queues := by
  cases emptied <;> rfl

theorem Scheduler.Wf.served {s : Scheduler} (h : s.Wf) {clk : UInt8} {item : WorkItem}
    {emptied : Bool} {queues : Queues}
    (hpop : popQueue clk s.queues = some (item, emptied, queues)) :
    (s.served emptied queues).Wf := by
  have hsorted : ClocksSorted queues := by
    rw [ClocksSorted, map_fst_popQueue hpop]
    exact h.sorted
  cases emptied with
  | true => exact wf_rebuildOrder hsorted
  | false => exact ⟨hsorted, h.order.trans (activeOf_popQueue hpop).symm⟩

/-- **Pop.** An idle scheduler gives nothing and stays as it is; any other gives one of its
items, on the first turn of the round-robin, and keeps the rest. -/
theorem Scheduler.Wf.pop_cases {s : Scheduler} (h : s.Wf) :
    (s.isIdle = true ∧ s.pop = (none, s)) ∨
    (s.isIdle = false ∧ ∃ item s', s.pop = (some item, s') ∧ s'.Wf ∧
      s.pending = item ::ₘ s'.pending) := by
  cases hidle : s.isIdle with
  | true => exact Or.inl ⟨rfl, Scheduler.pop_of_isIdle hidle⟩
  | false =>
    obtain ⟨item, emptied, queues, hpop, heq⟩ := h.pop_eq hidle
    refine Or.inr ⟨rfl, item, s.served emptied queues, heq, h.served hpop, ?_⟩
    rw [Scheduler.pending, Scheduler.pending, Scheduler.queues_served]
    exact pendingOf_popQueue hpop

/-- A pop that gives an item. -/
theorem Scheduler.Wf.of_pop {s s' : Scheduler} {item : WorkItem} (h : s.Wf)
    (hpop : s.pop = (some item, s')) : s'.Wf ∧ s.pending = item ::ₘ s'.pending := by
  obtain ⟨-, heq⟩ | ⟨-, item', s'', heq, hwf, hpending⟩ := h.pop_cases
  · rw [hpop] at heq
    exact nomatch (Prod.mk.inj heq).1
  · rw [hpop] at heq
    obtain ⟨hitem, rfl⟩ := Prod.mk.inj heq
    obtain rfl := Option.some.inj hitem
    exact ⟨hwf, hpending⟩

end Rivr.Core
