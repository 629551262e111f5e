import Mathlib.Data.Prod.Lex
import Rivr.Core.Scheduler

/-!
# Runs of the scheduler

Sequences of pushes and pops, and what comes out of them. Each queue is in key order and holds the
items of its clock, so what a stretch of pops takes from one clock is a beginning of that clock's
queue (`popped_clock_append`); with the multiset of pending items this is the contract of the
scheduler (`scheduler_conserves`).
-/

namespace Rivr.Core

/-! ### The order of the keys -/

/-- `IntraKey`, in the order of its fields. -/
def WorkItem.key (w : WorkItem) : ℕ ×ₗ ℕ ×ₗ ℕ :=
  toLex (w.event.stamp.tick.toNat, toLex (w.event.seq.toNat, w.nodeId))

theorem WorkItem.keyLt_iff {a b : WorkItem} : a.keyLt b = true ↔ a.key < b.key := by
  simp only [WorkItem.keyLt, WorkItem.key, Prod.Lex.toLex_lt_toLex, UInt64.lt_iff_toNat_lt,
    UInt32.lt_iff_toNat_lt, ← UInt64.toNat_inj, ← UInt32.toNat_inj, ne_eq]
  split_ifs <;> simp <;> omega

/-- The items are in key order. -/
def KeySorted (items : List WorkItem) : Prop := items.Pairwise fun a b => a.key ≤ b.key

theorem mem_insertItem {item w : WorkItem} {q : List WorkItem} :
    w ∈ insertItem item q ↔ w = item ∨ w ∈ q := by
  rw [← Multiset.mem_coe, coe_insertItem, Multiset.mem_cons, Multiset.mem_coe]

theorem KeySorted.insertItem {q : List WorkItem} (h : KeySorted q) (item : WorkItem) :
    KeySorted (insertItem item q) := by
  induction q with
  | nil => exact List.pairwise_singleton _ _
  | cons x xs ih =>
    obtain ⟨hle, hxs⟩ := List.pairwise_cons.mp h
    rw [Core.insertItem]
    split_ifs with hlt
    · have hlt' : item.key < x.key := WorkItem.keyLt_iff.mp hlt
      refine List.pairwise_cons.mpr ⟨fun w hw => ?_, h⟩
      rcases List.mem_cons.mp hw with rfl | hw
      · exact hlt'.le
      · exact hlt'.le.trans (hle w hw)
    · refine List.pairwise_cons.mpr ⟨fun w hw => ?_, ih hxs⟩
      rcases mem_insertItem.mp hw with rfl | hw
      · exact not_lt.mp fun hlt' => hlt (WorkItem.keyLt_iff.mpr hlt')
      · exact hle w hw

/-! ### One queue -/

/-- The queue of a clock. -/
def queueOf (clk : UInt8) : Queues → List WorkItem
  | [] => []
  | (c, q) :: rest => if c = clk then q else queueOf clk rest

theorem queueOf_cons (clk c : UInt8) (q : List WorkItem) (rest : Queues) :
    queueOf clk ((c, q) :: rest) = if c = clk then q else queueOf clk rest := rfl

theorem queueOf_eq_nil {clk : UInt8} {queues : Queues} (h : clk ∉ queues.map Prod.fst) :
    queueOf clk queues = [] := by
  induction queues with
  | nil => rfl
  | cons e rest ih =>
    rw [List.map_cons, List.mem_cons, not_or] at h
    rw [queueOf_cons, if_neg (Ne.symm h.1), ih h.2]

theorem queueOf_of_mem {queues : Queues} (h : ClocksSorted queues) {e : UInt8 × List WorkItem}
    (he : e ∈ queues) : queueOf e.1 queues = e.2 := by
  induction queues with
  | nil => exact absurd he List.not_mem_nil
  | cons first rest ih =>
    obtain ⟨hlt, hrest⟩ := List.pairwise_cons.mp h
    rw [queueOf_cons]
    rcases List.mem_cons.mp he with rfl | he
    · exact if_pos rfl
    · have hne : first.1 ≠ e.1 := UInt8.ne_of_lt (hlt e.1 (List.mem_map_of_mem he))
      rw [if_neg hne, ih hrest he]

theorem queueOf_pushQueue {queues : Queues} (h : ClocksSorted queues) (clk c : UInt8)
    (item : WorkItem) :
    queueOf c (pushQueue clk item queues) =
      if c = clk then insertItem item (queueOf c queues) else queueOf c queues := by
  induction queues with
  | nil => simp only [pushQueue, queueOf, insertItem, eq_comm]
  | cons e rest ih =>
    obtain ⟨c', q⟩ := e
    obtain ⟨hlt, hrest⟩ := List.pairwise_cons.mp h
    rw [pushQueue]
    by_cases h₁ : clk < c'
    · -- the clock comes before all others, so it had no queue
      have habsent : clk ∉ ((c', q) :: rest).map Prod.fst := by
        intro hmem
        rcases List.mem_cons.mp hmem with rfl | hmem
        · exact UInt8.lt_irrefl _ h₁
        · exact UInt8.lt_irrefl _ (UInt8.lt_trans h₁ (hlt _ hmem))
      rw [if_pos h₁, queueOf_cons]
      by_cases hc : clk = c
      · subst hc
        rw [if_pos rfl, if_pos rfl, queueOf_eq_nil habsent]
        rfl
      · rw [if_neg hc, if_neg (Ne.symm hc)]
    · rw [if_neg h₁]
      by_cases h₂ : clk = c'
      · subst h₂
        rw [if_pos rfl, queueOf_cons, queueOf_cons]
        by_cases hc : clk = c
        · rw [if_pos hc, if_pos hc, if_pos hc.symm]
        · rw [if_neg hc, if_neg hc, if_neg (Ne.symm hc)]
      · rw [if_neg h₂, queueOf_cons, queueOf_cons, ih hrest]
        by_cases hc : c' = c
        · rw [if_pos hc, if_pos hc, if_neg fun heq => h₂ (heq.symm.trans hc.symm)]
        · rw [if_neg hc, if_neg hc]

/-- A pop takes the first item of the queue of its clock and leaves the other queues. -/
theorem queueOf_popQueue {clk : UInt8} {queues queues' : Queues} {item : WorkItem}
    {emptied : Bool} (h : popQueue clk queues = some (item, emptied, queues')) :
    queueOf clk queues = item :: queueOf clk queues' ∧
      emptied = (queueOf clk queues').isEmpty ∧
      ∀ c, c ≠ clk → queueOf c queues' = queueOf c queues := by
  induction queues generalizing queues' with
  | nil => simp [popQueue] at h
  | cons e rest ih =>
    obtain ⟨c', q⟩ := e
    simp only [popQueue] at h
    split_ifs at h with hc
    · cases q with
      | nil => simp at h
      | cons x xs =>
        obtain ⟨rfl, rfl, rfl⟩ : x = item ∧ xs.isEmpty = emptied ∧ (c', xs) :: rest = queues' := by
          simpa using h
        refine ⟨by simp [queueOf_cons, hc], by simp [queueOf_cons, hc], fun c hne => ?_⟩
        simp [queueOf_cons, hc, Ne.symm hne]
    · obtain ⟨⟨x, b, rest'⟩, hpop, heq⟩ := Option.map_eq_some_iff.mp h
      obtain ⟨rfl, rfl, rfl⟩ : x = item ∧ b = emptied ∧ (c', q) :: rest' = queues' := by
        simpa using heq
      obtain ⟨hitem, hemptied, hothers⟩ := ih hpop
      refine ⟨by simpa [queueOf_cons, hc] using hitem, by simpa [queueOf_cons, hc] using hemptied, ?_⟩
      intro c hne
      rw [queueOf_cons, queueOf_cons, hothers c hne]

/-! ### Sorted schedulers -/

/-- Every queue is in key order and holds items of its clock. -/
structure Scheduler.Sorted (s : Scheduler) : Prop extends s.Wf where
  keySorted : ∀ clk, KeySorted (queueOf clk s.queues)
  clock : ∀ clk, ∀ w ∈ queueOf clk s.queues, w.event.stamp.clock = clk

theorem Scheduler.sorted_new : Scheduler.new.Sorted :=
  ⟨wf_new, fun _ => List.Pairwise.nil, fun _ _ hw => absurd hw List.not_mem_nil⟩

theorem Scheduler.Sorted.push {s : Scheduler} (h : s.Sorted) (nodeId : ℕ) (event : Event) :
    (s.push nodeId event).Sorted := by
  have hqueue := queueOf_pushQueue h.sorted event.stamp.clock
  refine ⟨h.toWf.push nodeId event, fun clk => ?_, fun clk w hw => ?_⟩
  · refine (congrArg KeySorted (hqueue clk ⟨nodeId, event⟩)).mpr ?_
    split_ifs
    · exact (h.keySorted clk).insertItem _
    · exact h.keySorted clk
  · replace hw : w ∈ queueOf clk (pushQueue event.stamp.clock ⟨nodeId, event⟩ s.queues) := hw
    rw [hqueue] at hw
    split_ifs at hw with hclk
    · rcases mem_insertItem.mp hw with rfl | hw
      · exact hclk.symm
      · exact h.clock clk w hw
    · exact h.clock clk w hw

theorem Scheduler.Sorted.served {s : Scheduler} (h : s.Sorted) {clk : UInt8} {item : WorkItem}
    {emptied : Bool} {queues : Queues}
    (hpop : popQueue clk s.queues = some (item, emptied, queues)) :
    (s.served emptied queues).Sorted := by
  obtain ⟨hitem, -, hothers⟩ := queueOf_popQueue hpop
  refine ⟨h.toWf.served hpop, fun c => ?_, fun c w hw => ?_⟩
  · rw [Scheduler.queues_served]
    rcases eq_or_ne c clk with rfl | hne
    · exact (List.pairwise_cons.mp (hitem ▸ h.keySorted c)).2
    · rw [hothers c hne]
      exact h.keySorted c
  · rw [Scheduler.queues_served] at hw
    rcases eq_or_ne c clk with rfl | hne
    · exact h.clock c w (hitem ▸ List.mem_cons_of_mem _ hw)
    · exact h.clock c w (hothers c hne ▸ hw)

/-- A pop takes an item that comes first in the key order of its clock. -/
theorem Scheduler.Sorted.key_le_of_pop {s s' : Scheduler} {item w : WorkItem} (h : s.Sorted)
    (hpop : s.pop = (some item, s')) (hw : w ∈ s.pending)
    (hclock : w.event.stamp.clock = item.event.stamp.clock) : item.key ≤ w.key := by
  have hbusy : s.isIdle = false := by
    by_contra hidle
    rw [Bool.not_eq_false] at hidle
    rw [Scheduler.pop_of_isIdle hidle] at hpop
    exact nomatch (Prod.mk.inj hpop).1
  obtain ⟨first, emptied, queues, hfirst, heq⟩ := h.toWf.pop_eq hbusy
  obtain rfl : first = item := Option.some.inj (Prod.mk.inj (heq.symm.trans hpop)).1
  obtain ⟨hqueue, -⟩ := queueOf_popQueue hfirst
  have hturn : first.event.stamp.clock = s.turn := h.clock _ _ (hqueue ▸ List.mem_cons_self)
  -- the other item is in the same queue
  obtain ⟨entry, hentry, hmem⟩ := List.mem_flatMap.mp (Multiset.mem_coe.mp hw)
  rw [← queueOf_of_mem h.sorted hentry] at hmem
  have hsame : entry.1 = s.turn := ((h.clock _ _ hmem).symm.trans hclock).trans hturn
  rw [hsame, hqueue] at hmem
  rcases List.mem_cons.mp hmem with rfl | hmem
  · exact le_refl _
  · exact (List.pairwise_cons.mp (hqueue ▸ h.keySorted s.turn)).1 w hmem

theorem Scheduler.depth_eq_card (s : Scheduler) : s.depth = s.pending.card := by
  rw [Scheduler.pending, pendingOf, Multiset.coe_card, List.length_flatMap]
  rfl

/-! ### Pushes and pops -/

/-- The operations. -/
inductive SchedulerOp where
  | push (nodeId : ℕ) (event : Event)
  | pop
  deriving DecidableEq, Repr

/-- The scheduler after an operation. -/
def Scheduler.act (s : Scheduler) : SchedulerOp → Scheduler
  | .push nodeId event => s.push nodeId event
  | .pop => s.pop.2

/-- What an operation gives. -/
def Scheduler.output (s : Scheduler) : SchedulerOp → List WorkItem
  | .push _ _ => []
  | .pop => s.pop.1.toList

/-- The items that the operations take out, in their order. -/
def Scheduler.popped : Scheduler → List SchedulerOp → List WorkItem
  | _, [] => []
  | s, op :: ops => s.output op ++ (s.act op).popped ops

/-- The items that the operations push. -/
def pushed (ops : List SchedulerOp) : List WorkItem :=
  ops.filterMap fun
    | .push nodeId event => some ⟨nodeId, event⟩
    | .pop => none

theorem Scheduler.Sorted.act {s : Scheduler} (h : s.Sorted) (op : SchedulerOp) :
    (s.act op).Sorted := by
  cases op with
  | push nodeId event => exact h.push nodeId event
  | pop =>
    cases hidle : s.isIdle with
    | true =>
      rw [Scheduler.act, Scheduler.pop_of_isIdle hidle]
      exact h
    | false =>
      obtain ⟨item, emptied, queues, hpop, heq⟩ := h.toWf.pop_eq hidle
      rw [Scheduler.act, heq]
      exact h.served hpop

theorem Scheduler.sorted_foldl {s : Scheduler} (h : s.Sorted) (ops : List SchedulerOp) :
    (ops.foldl Scheduler.act s).Sorted :=
  List.foldlRecOn ops Scheduler.act h fun _ hs op _ => hs.act op

/-- What is pushed is popped or pending, after one operation. -/
theorem Scheduler.Wf.pending_act {s : Scheduler} (h : s.Wf) (op : SchedulerOp) :
    s.pending + ↑(pushed [op]) = ↑(s.output op) + (s.act op).pending := by
  cases op with
  | push nodeId event =>
    have hpush := Scheduler.pending_push s nodeId event
    rw [Scheduler.output, Scheduler.act, hpush, Multiset.coe_nil, zero_add]
    exact (Multiset.add_comm _ _).trans (Multiset.singleton_add _ _)
  | pop =>
    have hpushed : (↑(pushed [SchedulerOp.pop]) : Multiset WorkItem) = 0 := rfl
    rw [hpushed, add_zero]
    rcases h.pop_cases with ⟨-, hpop⟩ | ⟨-, item, s', hpop, -, hpending⟩
    · rw [Scheduler.output, Scheduler.act, hpop, Option.toList_none, Multiset.coe_nil, zero_add]
    · rw [Scheduler.output, Scheduler.act, hpop, hpending, Option.toList_some,
        Multiset.coe_singleton, Multiset.singleton_add]

/-- What is pushed is popped or pending, after any operations. -/
theorem Scheduler.Sorted.pending_foldl {s : Scheduler} (h : s.Sorted) (ops : List SchedulerOp) :
    s.pending + ↑(pushed ops) = ↑(s.popped ops) + (ops.foldl Scheduler.act s).pending := by
  induction ops generalizing s with
  | nil => simp [pushed, Scheduler.popped]
  | cons op ops ih =>
    have hpushed : pushed (op :: ops) = pushed [op] ++ pushed ops := by
      rw [pushed, ← List.singleton_append, List.filterMap_append]
      rfl
    calc s.pending + ↑(pushed (op :: ops))
        = s.pending + ↑(pushed [op]) + ↑(pushed ops) := by
          rw [hpushed, ← Multiset.coe_add, add_assoc]
      _ = ↑(s.output op) + ((s.act op).pending + ↑(pushed ops)) := by
          rw [h.toWf.pending_act, add_assoc]
      _ = ↑(s.popped (op :: ops)) + ((op :: ops).foldl Scheduler.act s).pending := by
          rw [ih (h.act op), Scheduler.popped, ← Multiset.coe_add, add_assoc, List.foldl_cons]

/-- **Pops of one clock.** What a stretch of pops takes from a clock is the beginning of the
clock's queue. -/
theorem Scheduler.Sorted.popped_clock_append {s : Scheduler} (h : s.Sorted) (clk : UInt8)
    (k : ℕ) :
    (s.popped (List.replicate k .pop)).filter (fun w => w.event.stamp.clock = clk) ++
      queueOf clk ((List.replicate k .pop).foldl Scheduler.act s).queues =
    queueOf clk s.queues := by
  induction k generalizing s with
  | zero => rfl
  | succ k ih =>
    rw [List.replicate_succ, List.foldl_cons, Scheduler.popped, List.filter_append,
      List.append_assoc, ih (h.act .pop)]
    cases hidle : s.isIdle with
    | true => simp only [Scheduler.output, Scheduler.act, Scheduler.pop_of_isIdle hidle]; rfl
    | false =>
      obtain ⟨item, emptied, queues, hpop, heq⟩ := h.toWf.pop_eq hidle
      obtain ⟨hitem, -, hothers⟩ := queueOf_popQueue hpop
      have hclock : item.event.stamp.clock = s.turn :=
        h.clock s.turn item (hitem ▸ List.mem_cons_self)
      simp only [Scheduler.output, Scheduler.act, heq, Option.toList_some,
        Scheduler.queues_served]
      rcases eq_or_ne clk s.turn with rfl | hne
      · rw [List.filter_singleton, hclock, hitem]
        simp
      · rw [List.filter_singleton, hclock, hothers clk hne]
        simp [Ne.symm hne]

/-- **The scheduler loses nothing and keeps the order of each clock.** Whatever is pushed and
popped, on any clocks: what was pushed is what was popped and what is pending; the depth counts
what is pending; the scheduler is idle when nothing is; and what any stretch of pops takes from
one clock comes out in the order of `(tick, seq, nodeId)`. -/
theorem scheduler_conserves (ops : List SchedulerOp) :
    let s := ops.foldl Scheduler.act Scheduler.new
    (↑(pushed ops) : Multiset WorkItem) = ↑(Scheduler.new.popped ops) + s.pending ∧
      s.depth = s.pending.card ∧
      (s.isIdle = true ↔ s.pending = 0) ∧
      ∀ (k : ℕ) (clk : UInt8),
        KeySorted ((s.popped (List.replicate k .pop)).filter
          fun w => w.event.stamp.clock = clk) := by
  intro s
  have hsorted : s.Sorted := Scheduler.sorted_foldl Scheduler.sorted_new ops
  refine ⟨?_, s.depth_eq_card, hsorted.toWf.isIdle_iff, fun k clk => ?_⟩
  · have hpending := Scheduler.sorted_new.pending_foldl ops
    have hnew : Scheduler.new.pending = 0 := rfl
    rwa [hnew, zero_add] at hpending
  · have happend := hsorted.popped_clock_append clk k
    exact (List.pairwise_append.mp (happend ▸ hsorted.keySorted clk)).1

end Rivr.Core
