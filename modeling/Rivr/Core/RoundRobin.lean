import Mathlib.Data.Finset.Card
import Rivr.Core.SchedulerRuns
import Rivr.ForMathlib.Runs

/-!
# The round-robin over the clocks

The round-robin position is an index into the list of active clocks, which is sorted by clock and
rebuilt when a clock becomes active or empty. While the turn stays with its clock and passes to the
next one (`KeepsTurn`), the clocks that are served before a waiting clock come in the order of one
round (`roundPos`), each once, so the waiting clock is served within as many pops as there are
clocks (`roundRobin_serves`). A clock that becomes active below the turn takes it back, and one
waiting clock can be passed over for ever (`not_roundRobin_serves`).
-/

namespace Rivr.Core

open Runs

/-! ### Sorted lists of clocks -/

/-- In a sorted list the position of a clock is the number of smaller ones. -/
theorem getElem?_filter_lt {order : List UInt8} (h : order.Pairwise (· < ·)) {clk : UInt8}
    {i : ℕ} : order[i]? = some clk ↔ clk ∈ order ∧ i = (order.filter (· < clk)).length := by
  induction order generalizing i with
  | nil => simp
  | cons c rest ih =>
    obtain ⟨hlt, hrest⟩ := List.pairwise_cons.mp h
    rcases eq_or_ne clk c with rfl | hne
    · have hnone : rest.filter (· < clk) = [] := by
        refine List.filter_eq_nil_iff.mpr fun c hc hlt' => ?_
        exact UInt8.lt_irrefl _ (UInt8.lt_trans (hlt c hc) (of_decide_eq_true hlt'))
      have hself : ¬clk < clk := UInt8.lt_irrefl clk
      cases i with
      | zero => simp [hnone, hself]
      | succ i =>
        have hmem : clk ∉ rest := fun hmem => UInt8.lt_irrefl _ (hlt clk hmem)
        simp [hnone, hself, ih hrest, hmem]
    · cases i with
      | zero =>
        by_cases hclk : c < clk
        · simp [Ne.symm hne, hclk]
        · have hmem : clk ∉ rest := fun hmem => hclk (hlt clk hmem)
          simp [Ne.symm hne, hne, hmem]
      | succ i =>
        by_cases hclk : c < clk
        · simp [hne, hclk, ih hrest]
        · have hmem : clk ∉ rest := fun hmem => hclk (hlt clk hmem)
          simp [hne, ih hrest, hmem]

theorem nodup_of_pairwise_lt {order : List UInt8} (h : order.Pairwise (· < ·)) : order.Nodup := by
  refine h.imp ?_
  rintro c _ hlt rfl
  exact UInt8.lt_irrefl c hlt

/-- Sorted lists with the same clocks are equal. -/
theorem eq_of_pairwise_lt {order order' : List UInt8} (h : order.Pairwise (· < ·))
    (h' : order'.Pairwise (· < ·)) (hmem : ∀ c, c ∈ order ↔ c ∈ order') : order = order' := by
  have hperm : order.Perm order' :=
    (List.perm_ext_iff_of_nodup (nodup_of_pairwise_lt h) (nodup_of_pairwise_lt h')).mpr hmem
  exact hperm.eq_of_pairwise (fun a b _ _ hab hba => (UInt8.lt_asymm hab hba).elim) h h'

/-! ### Active clocks -/

/-- The clocks with work. -/
def busyClocks (queues : Queues) : List UInt8 :=
  (queues.filter fun e => !e.2.isEmpty).map Prod.fst

theorem pairwise_busyClocks {queues : Queues} (h : ClocksSorted queues) :
    (busyClocks queues).Pairwise (· < ·) :=
  h.sublist (List.filter_sublist.map Prod.fst)

theorem mem_busyClocks {queues : Queues} (h : ClocksSorted queues) {clk : UInt8} :
    clk ∈ busyClocks queues ↔ queueOf clk queues ≠ [] := by
  induction queues with
  | nil => simp [busyClocks, queueOf]
  | cons e rest ih =>
    obtain ⟨c, q⟩ := e
    obtain ⟨hlt, hrest⟩ := List.pairwise_cons.mp h
    have hrest' : clk ∈ busyClocks rest ↔ queueOf clk rest ≠ [] := ih hrest
    rw [busyClocks, List.filter_cons, queueOf]
    split_ifs with hq hc hc
    · simpa [hc] using hq
    · rw [List.map_cons, List.mem_cons, ← busyClocks, hrest']
      exact or_iff_right (Ne.symm hc)
    · subst hc
      have habsent : queueOf c rest = [] :=
        queueOf_eq_nil fun hmem => UInt8.lt_irrefl c (hlt c hmem)
      rw [← busyClocks, hrest', habsent]
      simpa using hq
    · rw [← busyClocks, hrest']

/-- With at most eight clocks the round-robin order is the list of all clocks with work. -/
theorem Scheduler.Wf.order_eq {s : Scheduler} (h : s.Wf) {clocks : Finset UInt8}
    (hcard : clocks.card ≤ 8) (hbusy : ∀ c ∈ busyClocks s.queues, c ∈ clocks) :
    s.clockOrder = busyClocks s.queues := by
  have hnodup := nodup_of_pairwise_lt (pairwise_busyClocks h.sorted)
  have hlen : (busyClocks s.queues).length ≤ clocks.card := by
    rw [← List.toFinset_card_of_nodup hnodup]
    exact Finset.card_le_card fun c hc => hbusy c (List.mem_toFinset.mp hc)
  rw [h.order, activeOf, ← busyClocks, List.take_of_length_le (hlen.trans hcard)]

/-! ### The turn -/

/-- A sorted scheduler whose round-robin position is within its order. -/
structure Scheduler.Ring (s : Scheduler) : Prop extends s.Sorted where
  range : s.clockOrder = [] ∨ s.rrPos < s.clockOrder.length

theorem Scheduler.ring_new : Scheduler.new.Ring := ⟨sorted_new, Or.inl rfl⟩

theorem Scheduler.range_rebuildOrder (s : Scheduler) :
    s.rebuildOrder.clockOrder = [] ∨ s.rebuildOrder.rrPos < s.rebuildOrder.clockOrder.length := by
  rcases Nat.eq_zero_or_pos (activeOf s.queues).length with hlen | hlen
  · exact Or.inl (List.length_eq_zero_iff.mp hlen)
  · refine Or.inr ?_
    simp only [Scheduler.rebuildOrder, if_pos hlen]
    exact Nat.mod_lt _ hlen

theorem Scheduler.Ring.act {s : Scheduler} (h : s.Ring) (op : SchedulerOp) : (s.act op).Ring := by
  refine ⟨h.toSorted.act op, ?_⟩
  cases op with
  | push nodeId event => exact Scheduler.range_rebuildOrder _
  | pop =>
    cases hidle : s.isIdle with
    | true =>
      rw [Scheduler.act, Scheduler.pop_of_isIdle hidle]
      exact h.range
    | false =>
      obtain ⟨item, emptied, queues, hpop, heq⟩ := h.toWf.pop_eq hidle
      rw [Scheduler.act, heq]
      cases emptied with
      | true => exact Scheduler.range_rebuildOrder _
      | false =>
        have hlen : s.clockOrder.length ≠ 0 := by simpa [Scheduler.isIdle] using hidle
        exact Or.inr (Nat.mod_lt _ (Nat.pos_of_ne_zero hlen))

theorem Scheduler.ring_foldl (ops : List SchedulerOp) :
    (ops.foldl Scheduler.act Scheduler.new).Ring :=
  List.foldlRecOn ops Scheduler.act Scheduler.ring_new fun _ hs op _ => hs.act op

/-- The turn stays with its clock when another clock becomes active, and passes to the next clock
when its own becomes empty: a clock becomes active behind the turn, and is emptied as the last of
the order, or as one of at most two. -/
def KeepsTurn (s : Scheduler) : SchedulerOp → Prop
  | .push _ event =>
    s.clockOrder = [] ∨ event.stamp.clock ∈ s.clockOrder ∨ s.turn < event.stamp.clock
  | .pop =>
    2 ≤ (queueOf s.turn s.queues).length ∨ s.clockOrder.length ≤ 2 ∨
      s.rrPos + 1 = s.clockOrder.length

instance KeepsTurn.decidable (s : Scheduler) : ∀ op, Decidable (KeepsTurn s op)
  | .push _ _ => inferInstanceAs (Decidable (_ ∨ _))
  | .pop => inferInstanceAs (Decidable (_ ∨ _))

/-- The operation is on one of the clocks. -/
def SchedulerOp.On (clocks : Finset UInt8) : SchedulerOp → Prop
  | .push _ event => event.stamp.clock ∈ clocks
  | .pop => True

instance SchedulerOp.On.decidable (clocks : Finset UInt8) : ∀ op, Decidable (On clocks op)
  | .push _ _ => inferInstanceAs (Decidable (_ ∈ _))
  | .pop => inferInstanceAs (Decidable True)

/-- The place of a clock in the round that ends with `clk`. -/
def roundPos (clk c : UInt8) : ℕ := if clk < c then c.toNat else c.toNat + 256

/-- The place of a clock is behind that of every clock before it. -/
theorem roundPos_lt_of_lt {clk c c' : UInt8} (hlt : c < c') (hnot : clk < c ∨ c' ≤ clk) :
    roundPos clk c < roundPos clk c' := by
  simp only [roundPos, UInt8.lt_iff_toNat_lt, UInt8.le_iff_toNat_le] at *
  split_ifs <;> omega

/-- A clock from the end of the order is before those from its beginning. -/
theorem roundPos_lt_of_le {clk c c' : UInt8} (hlt : clk < c) (hle : c' ≤ clk) :
    roundPos clk c < roundPos clk c' := by
  have hc := c.toNat_lt
  simp only [roundPos, UInt8.lt_iff_toNat_lt, UInt8.le_iff_toNat_le] at *
  split_ifs <;> omega

/-- In a sorted list the first entry is the smallest. -/
theorem getElem_zero_le {order : List UInt8} (h : order.Pairwise (· < ·)) {clk : UInt8}
    (hclk : clk ∈ order) (hpos : 0 < order.length) : order[0] ≤ clk := by
  obtain ⟨j, hj, rfl⟩ := List.getElem_of_mem hclk
  rcases Nat.eq_zero_or_pos j with rfl | hj'
  · exact UInt8.le_refl _
  · exact UInt8.le_of_lt (List.pairwise_iff_getElem.mp h 0 j hpos hj hj')

/-- The entry after a clock is behind it in the round, unless the round ends there. -/
theorem roundPos_succ {order : List UInt8} (h : order.Pairwise (· < ·)) {clk : UInt8}
    (hclk : clk ∈ order) {r : ℕ} (hr : r < order.length) (hne : order[r] ≠ clk)
    (hnext : (r + 1) % order.length < order.length) :
    roundPos clk order[r] < roundPos clk order[(r + 1) % order.length] := by
  have hlt := List.pairwise_iff_getElem.mp h
  obtain ⟨j, hj, hjclk⟩ := List.getElem_of_mem hclk
  have hjr : j ≠ r := fun heq => hne (by simp only [← heq, hjclk])
  rcases Nat.lt_or_ge (r + 1) order.length with hlast | hlast
  · -- no clock lies between an entry and the next, so the round does not end between them
    have hmod : (r + 1) % order.length = r + 1 := Nat.mod_eq_of_lt hlast
    simp only [hmod]
    refine roundPos_lt_of_lt (hlt r (r + 1) hr hlast (Nat.lt_succ_self r)) ?_
    rcases Nat.lt_or_ge j r with hjr' | hjr'
    · exact Or.inl (hjclk ▸ hlt j r hj hr hjr')
    · right
      rcases Nat.eq_or_lt_of_le (show r + 1 ≤ j by omega) with heq | hlt'
      · simp only [heq, hjclk]
        exact UInt8.le_refl _
      · exact UInt8.le_of_lt (hjclk ▸ hlt (r + 1) j hlast hj hlt')
  · have hmod : (r + 1) % order.length = 0 := by
      rw [show r + 1 = order.length by omega, Nat.mod_self]
    simp only [hmod]
    have hclk' : clk < order[r] := hjclk ▸ hlt j r hj hr (by omega)
    exact roundPos_lt_of_le hclk' (getElem_zero_le h hclk (by omega))

theorem Scheduler.turn_eq_getElem (s : Scheduler) (h : s.rrPos < s.clockOrder.length) :
    s.turn = s.clockOrder[s.rrPos] := by
  simp only [Scheduler.turn, Nat.mod_eq_of_lt h, List.getD_eq_getElem?_getD,
    List.getElem?_eq_getElem h, Option.getD_some]

section Window

variable {s : Scheduler} {clocks : Finset UInt8} {clk : UInt8}

/-- A clock with work is in the order, so the order is not empty. -/
theorem Scheduler.Ring.turn_spec (h : s.Ring) (hcard : clocks.card ≤ 8)
    (hbusy : ∀ c ∈ busyClocks s.queues, c ∈ clocks) (hclk : queueOf clk s.queues ≠ []) :
    clk ∈ s.clockOrder ∧ s.clockOrder.Pairwise (· < ·) ∧
      ∃ hr : s.rrPos < s.clockOrder.length, s.turn = s.clockOrder[s.rrPos] := by
  have horder := h.toWf.order_eq hcard hbusy
  have hmem : clk ∈ s.clockOrder := horder ▸ (mem_busyClocks h.sorted).mpr hclk
  have hr : s.rrPos < s.clockOrder.length :=
    h.range.resolve_left fun hnil => List.not_mem_nil (hnil ▸ hmem)
  exact ⟨hmem, horder ▸ pairwise_busyClocks h.sorted, hr, s.turn_eq_getElem hr⟩

/-- The clocks with work stay among the given ones. -/
theorem Scheduler.Ring.busy_act (h : s.Ring) (hbusy : ∀ c ∈ busyClocks s.queues, c ∈ clocks)
    (op : SchedulerOp) (hon : op.On clocks) : ∀ c ∈ busyClocks (s.act op).queues, c ∈ clocks := by
  intro c hc
  rw [mem_busyClocks (h.act op).sorted] at hc
  cases op with
  | push nodeId event =>
    by_cases hclock : c = event.stamp.clock
    · exact hclock ▸ hon
    · refine hbusy c ((mem_busyClocks h.sorted).mpr fun hnil => hc ?_)
      have hqueue := queueOf_pushQueue h.sorted event.stamp.clock c ⟨nodeId, event⟩
      rw [if_neg hclock, hnil] at hqueue
      exact hqueue
  | pop =>
    refine hbusy c ((mem_busyClocks h.sorted).mpr fun hnil => hc ?_)
    cases hidle : s.isIdle with
    | true => rw [Scheduler.act, Scheduler.pop_of_isIdle hidle, hnil]
    | false =>
      obtain ⟨item, emptied, queues, hpop, heq⟩ := h.toWf.pop_eq hidle
      obtain ⟨hitem, -, hothers⟩ := queueOf_popQueue hpop
      rw [Scheduler.act, heq, Scheduler.queues_served]
      rcases eq_or_ne c s.turn with rfl | hne
      · exact absurd (hitem.symm.trans hnil) (List.cons_ne_nil _ _)
      · rw [hothers c hne, hnil]

/-- A push that keeps the turn leaves it with its clock. -/
theorem Scheduler.Ring.turn_push (h : s.Ring) (hcard : clocks.card ≤ 8)
    (hbusy : ∀ c ∈ busyClocks s.queues, c ∈ clocks) (hclk : queueOf clk s.queues ≠ [])
    {nodeId : ℕ} {event : Event} (hon : event.stamp.clock ∈ clocks)
    (hkeeps : KeepsTurn s (.push nodeId event)) : (s.push nodeId event).turn = s.turn := by
  obtain ⟨hmem, hsorted, hr, hturn⟩ := h.turn_spec hcard hbusy hclk
  have horder := h.toWf.order_eq hcard hbusy
  have hring : (s.push nodeId event).Ring := h.act (.push nodeId event)
  have hbusy' := h.busy_act hbusy (.push nodeId event) hon
  have horder' := hring.toWf.order_eq hcard hbusy'
  have hsorted' := horder' ▸ pairwise_busyClocks hring.sorted
  -- the clocks of the new order are the old ones and the clock of the event
  have hclocks : ∀ c, c ∈ (s.push nodeId event).clockOrder ↔
      c = event.stamp.clock ∨ c ∈ s.clockOrder := by
    intro c
    have hqueue : queueOf c (s.push nodeId event).queues = _ :=
      queueOf_pushQueue h.sorted event.stamp.clock c ⟨nodeId, event⟩
    rw [horder', mem_busyClocks hring.sorted, hqueue, horder, mem_busyClocks h.sorted]
    split_ifs with hclock
    · refine iff_of_true (fun hnil => ?_) (Or.inl hclock)
      exact List.not_mem_nil (hnil ▸ mem_insertItem.mpr (Or.inl rfl))
    · exact (or_iff_right hclock).symm
  -- none of them is new before the turn
  have hbefore : (s.push nodeId event).clockOrder.filter (· < s.turn) =
      s.clockOrder.filter (· < s.turn) := by
    refine eq_of_pairwise_lt (hsorted'.filter _) (hsorted.filter _) fun c => ?_
    rw [List.mem_filter, List.mem_filter, hclocks, and_congr_left_iff]
    intro hlt
    refine or_iff_right_of_imp ?_
    rintro rfl
    rcases hkeeps with hnil | hactive | hturn'
    · exact absurd hmem (hnil ▸ List.not_mem_nil)
    · exact hactive
    · exact absurd (of_decide_eq_true hlt) (UInt8.lt_asymm hturn')
  have hat : s.clockOrder[s.rrPos]? = some s.turn := by
    rw [hturn, List.getElem?_eq_getElem hr]
  obtain ⟨hturnmem, hpos⟩ := (getElem?_filter_lt hsorted).mp hat
  have hat' : (s.push nodeId event).clockOrder[s.rrPos]? = some s.turn := by
    rw [getElem?_filter_lt hsorted', hbefore]
    exact ⟨(hclocks _).mpr (Or.inr hturnmem), hpos⟩
  obtain ⟨hlt, hget⟩ := List.getElem?_eq_some_iff.mp hat'
  have hrrPos : (s.push nodeId event).rrPos = s.rrPos := by
    have hlen : 0 < (activeOf (s.push nodeId event).queues).length :=
      hring.toWf.order ▸ (Nat.zero_le _).trans_lt hlt
    have hmod : s.rrPos % (activeOf (s.push nodeId event).queues).length = s.rrPos :=
      Nat.mod_eq_of_lt (hring.toWf.order ▸ hlt)
    exact (if_pos hlen).trans hmod
  rw [(s.push nodeId event).turn_eq_getElem (hrrPos ▸ hlt)]
  simp only [hrrPos, hget]

/-- A pop that keeps the turn passes it on, to a clock behind the one that was served. -/
theorem Scheduler.Ring.turn_pop (h : s.Ring) (hcard : clocks.card ≤ 8)
    (hbusy : ∀ c ∈ busyClocks s.queues, c ∈ clocks) (hclk : queueOf clk s.queues ≠ [])
    (hne : s.turn ≠ clk) (hkeeps : KeepsTurn s .pop) :
    roundPos clk s.turn < roundPos clk (s.act .pop).turn := by
  obtain ⟨hmem, hsorted, hr, hturn⟩ := h.turn_spec hcard hbusy hclk
  have hidle : s.isIdle = false := by
    simpa [Scheduler.isIdle] using List.ne_nil_of_mem hmem
  have hring : (s.act .pop).Ring := h.act .pop
  have hbusy' := h.busy_act hbusy .pop trivial
  obtain ⟨item, emptied, queues, hpop, heq⟩ := h.toWf.pop_eq hidle
  obtain ⟨hitem, hemptied, hothers⟩ := queueOf_popQueue hpop
  have hqueues : (s.act .pop).queues = queues := by rw [Scheduler.act, heq, queues_served]
  have hclk' : queueOf clk (s.act .pop).queues ≠ [] := by
    rwa [hqueues, hothers clk (Ne.symm hne)]
  obtain ⟨hmem', hsorted', hr', hturn'⟩ := hring.turn_spec hcard hbusy' hclk'
  cases emptied with
  | false =>
    -- the order stays, and the position goes one further in it
    have hact : (s.act .pop).clockOrder = s.clockOrder ∧
        (s.act .pop).rrPos = (s.rrPos + 1) % s.clockOrder.length := by
      rw [Scheduler.act, heq]
      exact ⟨rfl, rfl⟩
    simp only [hact.1, hact.2] at hr' hturn'
    rw [hturn', hturn]
    exact roundPos_succ hsorted hmem hr (hturn ▸ hne) hr'
  | true =>
    have hlen : ¬2 ≤ (queueOf s.turn s.queues).length := by
      rw [hitem, List.isEmpty_iff.mp hemptied.symm, List.length_singleton]
      omega
    obtain ⟨j, hj, hjclk⟩ := List.getElem_of_mem hmem
    have hjr : j ≠ s.rrPos := by
      rintro rfl
      exact hne (hturn.trans hjclk)
    have hlt := List.pairwise_iff_getElem.mp hsorted
    by_cases hlast : s.rrPos + 1 = s.clockOrder.length
    · -- the last of the order is gone, and the position goes back to its beginning
      have hrrPos : (s.act .pop).rrPos = 0 := by
        have hpos : 0 < (activeOf queues).length := by
          rw [← hqueues, ← hring.toWf.order]
          exact (Nat.zero_le _).trans_lt hr'
        rw [Scheduler.act, heq]
        simp only [Scheduler.served, Scheduler.rebuildOrder, hlast, Nat.mod_self, if_pos hpos,
          if_true, Nat.zero_mod]
      simp only [hrrPos] at hr' hturn'
      have hclklt : clk < s.turn := by
        rw [hturn, ← hjclk]
        exact hlt j s.rrPos hj hr (by omega)
      rw [hturn']
      exact roundPos_lt_of_le hclklt (getElem_zero_le hsorted' hmem' hr')
    · -- of two clocks the other one is left
      have hn : s.clockOrder.length ≤ 2 := (hkeeps.resolve_left hlen).resolve_right hlast
      have hothermem : (s.act .pop).turn ∈ busyClocks s.queues ∧ (s.act .pop).turn ≠ s.turn := by
        have hmemturn : (s.act .pop).turn ∈ (s.act .pop).clockOrder :=
          hturn' ▸ List.getElem_mem hr'
        rw [hring.toWf.order_eq hcard hbusy', mem_busyClocks hring.sorted, hqueues] at hmemturn
        have hne' : (s.act .pop).turn ≠ s.turn := fun heq' =>
          hmemturn (heq' ▸ List.isEmpty_iff.mp hemptied.symm)
        exact ⟨(mem_busyClocks h.sorted).mpr (hothers _ hne' ▸ hmemturn), hne'⟩
      rw [← h.toWf.order_eq hcard hbusy] at hothermem
      obtain ⟨i, hi, hiturn⟩ := List.getElem_of_mem hothermem.1
      have hir : i ≠ s.rrPos := by
        rintro rfl
        exact hothermem.2 (hiturn.symm.trans hturn.symm)
      have hij : i = j := by omega
      have hturnclk : (s.act .pop).turn = clk := by
        rw [← hiturn, ← hjclk]
        simp only [hij]
      rw [hturnclk]
      refine roundPos_lt_of_lt ?_ (Or.inr (UInt8.le_refl _))
      rw [hturn, ← hjclk]
      exact hlt s.rrPos j hr hj (by omega)

end Window

/-! ### Fairness -/

/-- The clocks that the operations serve. -/
def Scheduler.clocksServed (s : Scheduler) (ops : List SchedulerOp) : List UInt8 :=
  (s.popped ops).map fun w => w.event.stamp.clock

/-- While a clock with work waits, the clocks served come in the order of one round, from the
turn on. -/
theorem Scheduler.Ring.pairwise_roundPos {s : Scheduler} (h : s.Ring) {clocks : Finset UInt8}
    (hcard : clocks.card ≤ 8) (hbusy : ∀ c ∈ busyClocks s.queues, c ∈ clocks) {clk : UInt8}
    (hclk : queueOf clk s.queues ≠ []) {ops : List SchedulerOp}
    (hops : Allows Scheduler.act (fun s op => op.On clocks ∧ KeepsTurn s op) s ops)
    (hwaits : clk ∉ s.clocksServed ops) :
    (s.clocksServed ops).Pairwise (fun c c' => roundPos clk c < roundPos clk c') ∧
      ∀ c ∈ s.clocksServed ops, c ∈ clocks ∧ roundPos clk s.turn ≤ roundPos clk c := by
  induction ops generalizing s with
  | nil => exact ⟨List.Pairwise.nil, fun c hc => absurd hc List.not_mem_nil⟩
  | cons op ops ih =>
    obtain ⟨⟨hon, hkeeps⟩, hrest⟩ := hops
    have hbusy' := h.busy_act hbusy op hon
    cases op with
    | push nodeId event =>
      -- a push leaves the turn where it is
      have hturn := h.turn_push hcard hbusy hclk hon hkeeps
      have hclk' : queueOf clk (s.act (.push nodeId event)).queues ≠ [] := by
        have hqueue : queueOf clk (s.act (.push nodeId event)).queues = _ :=
          queueOf_pushQueue h.sorted event.stamp.clock clk ⟨nodeId, event⟩
        rw [hqueue]
        split_ifs
        · exact fun hnil => List.not_mem_nil (hnil ▸ mem_insertItem.mpr (Or.inl rfl))
        · exact hclk
      obtain ⟨hpairwise, hfrom⟩ := ih (h.act _) hbusy' hclk' hrest hwaits
      exact ⟨hpairwise, fun c hc => hturn ▸ hfrom c hc⟩
    | pop =>
      obtain ⟨hmem, -, -⟩ := h.turn_spec hcard hbusy hclk
      have hidle : s.isIdle = false := by
        simpa [Scheduler.isIdle] using List.ne_nil_of_mem hmem
      obtain ⟨item, emptied, queues, hpop, heq⟩ := h.toWf.pop_eq hidle
      obtain ⟨hitem, -, hothers⟩ := queueOf_popQueue hpop
      have hclock : item.event.stamp.clock = s.turn :=
        h.clock s.turn item (hitem ▸ List.mem_cons_self)
      -- a pop serves the clock whose turn it is, and the turn moves on within the round
      have hserved : s.clocksServed (.pop :: ops) =
          s.turn :: (s.act .pop).clocksServed ops := by
        rw [Scheduler.clocksServed, Scheduler.popped, Scheduler.output, heq, Option.toList_some,
          List.singleton_append, List.map_cons, hclock, Scheduler.clocksServed]
      rw [hserved, List.mem_cons, not_or] at hwaits
      have hclk' : queueOf clk (s.act .pop).queues ≠ [] := by
        rwa [Scheduler.act, heq, Scheduler.queues_served, hothers clk hwaits.1]
      obtain ⟨hpairwise, hfrom⟩ := ih (h.act _) hbusy' hclk' hrest hwaits.2
      have hpass := h.turn_pop hcard hbusy hclk (Ne.symm hwaits.1) hkeeps
      have hturnmem : s.turn ∈ clocks :=
        hbusy _ ((mem_busyClocks h.sorted).mpr (hitem ▸ List.cons_ne_nil _ _))
      rw [hserved]
      refine ⟨List.pairwise_cons.mpr ⟨fun c hc => hpass.trans_le (hfrom c hc).2, hpairwise⟩, ?_⟩
      intro c hc
      rcases List.mem_cons.mp hc with rfl | hc
      · exact ⟨hturnmem, le_rfl⟩
      · exact ⟨(hfrom c hc).1, hpass.le.trans (hfrom c hc).2⟩

/-- **Fairness while the turn is kept.** From any state the operations reach, with at most eight
clocks in use: if every operation keeps the turn, a clock with work is served within as many pops
as there are clocks. -/
theorem roundRobin_serves (before ops : List SchedulerOp) (clocks : Finset UInt8) (clk : UInt8)
    (hcard : clocks.card ≤ 8)
    (hbusy : ∀ c ∈ busyClocks (before.foldl Scheduler.act Scheduler.new).queues, c ∈ clocks)
    (hclk : clk ∈ busyClocks (before.foldl Scheduler.act Scheduler.new).queues)
    (hops : Allows Scheduler.act (fun s op => op.On clocks ∧ KeepsTurn s op)
      (before.foldl Scheduler.act Scheduler.new) ops)
    (hpops : clocks.card ≤ ((before.foldl Scheduler.act Scheduler.new).popped ops).length) :
    clk ∈ (before.foldl Scheduler.act Scheduler.new).clocksServed ops := by
  by_contra hwaits
  have hring := Scheduler.ring_foldl before
  have hclk' := (mem_busyClocks hring.sorted).mp hclk
  obtain ⟨hpairwise, hfrom⟩ := hring.pairwise_roundPos hcard hbusy hclk' hops hwaits
  have hnodup : ((before.foldl Scheduler.act Scheduler.new).clocksServed ops).Nodup := by
    refine hpairwise.imp ?_
    rintro c _ hlt rfl
    exact lt_irrefl _ hlt
  -- the clocks served are distinct, and `clk` is not among them
  have hle : ((before.foldl Scheduler.act Scheduler.new).clocksServed ops).length ≤
      (clocks.erase clk).card := by
    rw [← List.toFinset_card_of_nodup hnodup]
    refine Finset.card_le_card fun c hc => ?_
    rw [List.mem_toFinset] at hc
    exact Finset.mem_erase.mpr ⟨fun heq => hwaits (heq ▸ hc), (hfrom c hc).1⟩
  have hlt : (clocks.erase clk).card < clocks.card := Finset.card_erase_lt_of_mem (hbusy clk hclk)
  rw [Scheduler.clocksServed, List.length_map] at hle
  omega

/-- An event of a clock. -/
def clockEvent (clk : UInt8) (tick : UInt64) : Event := Event.new ⟨clk, tick⟩ .unit

/-- Clock 1 waits while clock 0 has two events. -/
theorem roundRobin_serves_two_clocks :
    (1 : UInt8) ∈
      ([.push 0 (clockEvent 0 0), .push 0 (clockEvent 0 1), .push 0 (clockEvent 1 0)].foldl
        Scheduler.act Scheduler.new).clocksServed [.pop, .pop] := by
  refine roundRobin_serves
    [.push 0 (clockEvent 0 0), .push 0 (clockEvent 0 1), .push 0 (clockEvent 1 0)] _ {0, 1} 1
    (by decide) (fun c hc => ?_) (by decide) (by decide) (by decide)
  simpa using (show c ∈ [0, 1] from hc)

/-- **A waiting clock can be passed over.** Clock 0 becomes active below the turn of clock 1,
takes it back and is served twice in a row. -/
theorem not_roundRobin_serves :
    ¬∀ (before ops : List SchedulerOp) (clocks : Finset UInt8) (clk : UInt8),
      clocks.card ≤ 8 →
      (∀ c ∈ busyClocks (before.foldl Scheduler.act Scheduler.new).queues, c ∈ clocks) →
      clk ∈ busyClocks (before.foldl Scheduler.act Scheduler.new).queues →
      Allows Scheduler.act (fun _ op => op.On clocks) (before.foldl Scheduler.act Scheduler.new)
        ops →
      clocks.card ≤ ((before.foldl Scheduler.act Scheduler.new).popped ops).length →
      clk ∈ (before.foldl Scheduler.act Scheduler.new).clocksServed ops := by
  intro hfair
  have hserved := hfair [.push 0 (clockEvent 0 0), .push 0 (clockEvent 1 0)]
    [.pop, .push 0 (clockEvent 0 1), .pop] {0, 1} 1 (by decide)
    (fun c hc => by simpa using (show c ∈ [0, 1] from hc)) (by decide) (by decide) (by decide)
  revert hserved
  decide

/-- Clock 1 has work, and clock 0 has none. -/
def waitingState (enqueued processed : UInt64) : Scheduler where
  queues := [(0, []), (1, [⟨0, clockEvent 1 0⟩])]
  clockOrder := [1]
  rrPos := 0
  totalEnqueued := enqueued
  totalProcessed := processed

/-- **Starvation.** However often clock 0 becomes active and is emptied, clock 1 is not served. -/
theorem clocksServed_waitingState (rounds : ℕ) (enqueued processed : UInt64) :
    (waitingState enqueued processed).clocksServed
      (List.replicate rounds [.push 0 (clockEvent 0 0), .pop]).flatten =
    List.replicate rounds 0 := by
  induction rounds generalizing enqueued processed with
  | zero => rfl
  | succ rounds ih =>
    have hround : ((waitingState enqueued processed).act (.push 0 (clockEvent 0 0))).act .pop =
        waitingState (enqueued + 1) (processed + 1) := by
      simp [waitingState, Scheduler.act, Scheduler.push, pushQueue, insertItem, Scheduler.pop,
        Scheduler.popLoop, popQueue, Scheduler.rebuildOrder, activeOf, clockEvent, Event.new]
    rw [List.replicate_succ, List.flatten_cons, List.replicate_succ, ← ih (enqueued + 1)
      (processed + 1), ← hround]
    rfl

end Rivr.Core
