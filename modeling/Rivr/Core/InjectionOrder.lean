import Rivr.Core.CompilerSources
import Rivr.Core.SchedulerRuns
import Rivr.Core.Unnumbered

/-!
# The order of injection

Independent events may be injected in any order. The numbers an engine gives to injected events are
the only trace of the order, and they all lie below the number of the first event sent in the run;
without them the queues are a fold of insertions of items with distinct stamps, and these commute
(`pushQueue_comm`). The rotation starts anew with the first push into an idle scheduler
(`foldl_push_of_isIdle`), so the two engines have one unnumbered form, on which all that a run does
depends (`injection_order`).
-/

namespace Rivr.Core

open Worklist

/-! ### Insertions commute -/

theorem keyLt_of_tick_ne {a b : WorkItem} (h : a.event.stamp.tick ≠ b.event.stamp.tick) :
    a.keyLt b = decide (a.event.stamp.tick < b.event.stamp.tick) := by
  rw [WorkItem.keyLt, if_pos h]

/-- Items of different ticks sort the same way without their numbers. -/
theorem keyLt_unnumber_of_tick_ne {bound : ℕ} {a b : WorkItem}
    (h : a.event.stamp.tick ≠ b.event.stamp.tick) :
    (a.unnumber bound).keyLt (b.unnumber bound) = a.keyLt b := by
  rw [keyLt_of_tick_ne h, keyLt_of_tick_ne (by rwa [unnumber_stamp, unnumber_stamp]),
    unnumber_stamp, unnumber_stamp]

theorem insertItem_comm_of_key_lt {a b : WorkItem} (h : a.key < b.key) (q : List WorkItem) :
    insertItem a (insertItem b q) = insertItem b (insertItem a q) := by
  have hab : a.keyLt b = true := WorkItem.keyLt_iff.mpr h
  have hba : ¬b.keyLt a = true := fun hlt => lt_asymm h (WorkItem.keyLt_iff.mp hlt)
  induction q with
  | nil => simp only [insertItem, if_pos hab, if_neg hba]
  | cons x xs ih =>
    by_cases hbx : b.keyLt x = true
    · have hax : a.keyLt x = true :=
        WorkItem.keyLt_iff.mpr (h.trans (WorkItem.keyLt_iff.mp hbx))
      simp only [insertItem, if_pos hbx, if_pos hax, if_pos hab, if_neg hba]
    · by_cases hax : a.keyLt x = true
      · simp only [insertItem, if_neg hbx, if_pos hax, if_neg hba]
      · simp only [insertItem, if_neg hbx, if_neg hax, ih]

/-- Two items with different keys can be inserted in either order. -/
theorem insertItem_comm {a b : WorkItem} (h : a.key ≠ b.key) (q : List WorkItem) :
    insertItem a (insertItem b q) = insertItem b (insertItem a q) := by
  rcases lt_or_gt_of_ne h with hlt | hlt
  · exact insertItem_comm_of_key_lt hlt q
  · exact (insertItem_comm_of_key_lt hlt q).symm

theorem pushQueue_comm_of_lt {c d : UInt8} (h : c < d) (a b : WorkItem) (queues : Queues) :
    pushQueue c a (pushQueue d b queues) = pushQueue d b (pushQueue c a queues) := by
  have hdc : ¬d < c := fun hlt => UInt8.lt_irrefl c (UInt8.lt_trans h hlt)
  have hne : d ≠ c := fun heq => UInt8.lt_irrefl c (heq ▸ h)
  induction queues with
  | nil => simp only [pushQueue, if_pos h, if_neg hdc, if_neg hne]
  | cons e rest ih =>
    obtain ⟨k, q⟩ := e
    by_cases hck : c < k
    · by_cases hdk : d < k
      · simp only [pushQueue, if_pos h, if_neg hdc, if_neg hne, if_pos hck, if_pos hdk]
      · simp only [pushQueue, if_neg hdk, if_pos hck, if_neg hdc, if_neg hne]
        split_ifs <;> simp only [pushQueue, if_pos hck]
    · -- the clock of the queue comes before the later of the two
      have hkd : k < d := by
        rw [UInt8.lt_iff_toNat_lt] at h hck ⊢
        omega
      have hdk : ¬d < k := fun hlt => UInt8.lt_irrefl k (UInt8.lt_trans hkd hlt)
      have hdk' : d ≠ k := fun heq => UInt8.lt_irrefl k (heq ▸ hkd)
      simp only [pushQueue, if_neg hck, if_neg hdk, if_neg hdk']
      split_ifs
      · simp only [pushQueue, if_neg hdk, if_neg hdk']
      · simp only [pushQueue, if_neg hdk, if_neg hdk', ih]

theorem pushQueue_comm_of_key_ne {a b : WorkItem} (h : a.key ≠ b.key) (c : UInt8)
    (queues : Queues) :
    pushQueue c a (pushQueue c b queues) = pushQueue c b (pushQueue c a queues) := by
  have hcc : ¬c < c := UInt8.lt_irrefl c
  induction queues with
  | nil =>
    have hinsert := insertItem_comm h []
    simp only [insertItem] at hinsert
    simp only [pushQueue, if_neg hcc, ↓reduceIte, insertItem, hinsert]
  | cons e rest ih =>
    obtain ⟨k, q⟩ := e
    by_cases hck : c < k
    · have hinsert := insertItem_comm h []
      simp only [insertItem] at hinsert
      simp only [pushQueue, if_pos hck, if_neg hcc, ↓reduceIte, insertItem, hinsert]
    · by_cases heq : c = k
      · simp only [pushQueue, if_neg hck, if_pos heq, insertItem_comm h q]
      · simp only [pushQueue, if_neg hck, if_neg heq, ih]

/-- **Insertions commute** when the stamps differ. -/
theorem pushQueue_comm {a b : WorkItem} (h : a.event.stamp ≠ b.event.stamp) (queues : Queues) :
    pushQueue a.event.stamp.clock a (pushQueue b.event.stamp.clock b queues) =
      pushQueue b.event.stamp.clock b (pushQueue a.event.stamp.clock a queues) := by
  rcases Nat.lt_trichotomy a.event.stamp.clock.toNat b.event.stamp.clock.toNat with hlt | heq | hgt
  · exact pushQueue_comm_of_lt (UInt8.lt_iff_toNat_lt.mpr hlt) a b queues
  · have hclock : a.event.stamp.clock = b.event.stamp.clock := UInt8.toNat_inj.mp heq
    have hkey : a.key ≠ b.key := fun hkey => by
      have htick : a.event.stamp.tick.toNat = b.event.stamp.tick.toNat :=
        congrArg (fun k => (ofLex k).1) hkey
      refine h ?_
      rcases ha : a.event.stamp with ⟨c, t⟩
      rcases hb : b.event.stamp with ⟨c', t'⟩
      rw [ha, hb] at hclock htick
      exact congrArg₂ Stamp.mk hclock (UInt64.toNat_inj.mp htick)
    rw [hclock]
    exact pushQueue_comm_of_key_ne hkey _ queues
  · exact (pushQueue_comm_of_lt (UInt8.lt_iff_toNat_lt.mpr hgt) b a queues).symm

/-! ### Pushing into an idle scheduler -/

/-- The item goes into the queue of its clock. -/
def enqueue (queues : Queues) (w : WorkItem) : Queues := pushQueue w.event.stamp.clock w queues

/-- The pushes of a list of items. -/
def Scheduler.pushAll (s : Scheduler) (items : List WorkItem) : Scheduler :=
  items.foldl (fun s w => s.push w.nodeId w.event) s

/-- No more clocks are active than items are pending. -/
theorem length_activeOf_le (queues : Queues) :
    (activeOf queues).length ≤ (pendingOf queues).card := by
  have hfilter : (queues.filter fun e => !e.2.isEmpty).length ≤ (pendingOf queues).card := by
    induction queues with
    | nil => exact le_refl 0
    | cons e rest ih =>
      obtain ⟨c, q⟩ := e
      rw [pendingOf_cons, Multiset.card_add, Multiset.coe_card]
      cases q with
      | nil => simpa using ih
      | cons x xs =>
        rw [List.filter_cons_of_pos (by simp), List.length_cons, List.length_cons]
        omega
  rw [activeOf, List.length_take, List.length_map]
  exact (min_le_right _ _).trans hfilter

/-- The rotation starts anew with the first push. -/
theorem rrPos_push_of_isIdle {s : Scheduler} (h : s.Wf) (hidle : s.isIdle = true) (nodeId : ℕ)
    (event : Event) : (s.push nodeId event).rrPos = 0 := by
  have hle := length_activeOf_le (s.push nodeId event).queues
  have hpending := Scheduler.pending_push s nodeId event
  rw [h.isIdle_iff.mp hidle, Scheduler.pending] at hpending
  rw [hpending, Multiset.card_cons, Multiset.card_zero] at hle
  change (if 0 < (activeOf (s.push nodeId event).queues).length then
    s.rrPos % (activeOf (s.push nodeId event).queues).length else 0) = 0
  split_ifs with hpos
  · have hone : (activeOf (s.push nodeId event).queues).length = 1 := by omega
    rw [hone, Nat.mod_one]
  · rfl

theorem pushAll_of_rrPos {s : Scheduler} (h : s.clockOrder = activeOf s.queues) (hpos : s.rrPos = 0)
    (items : List WorkItem) :
    s.pushAll items = ⟨items.foldl enqueue s.queues, activeOf (items.foldl enqueue s.queues), 0,
      s.totalEnqueued + UInt64.ofNat items.length, s.totalProcessed⟩ := by
  induction items generalizing s with
  | nil =>
    have hadd : s.totalEnqueued + UInt64.ofNat 0 = s.totalEnqueued := UInt64.add_zero _
    rw [Scheduler.pushAll, List.foldl_nil, List.foldl_nil, List.length_nil, ← h, hadd, ← hpos]
  | cons w ws ih =>
    have hnext : (s.push w.nodeId w.event).rrPos = 0 := by
      change (if 0 < (activeOf (s.push w.nodeId w.event).queues).length then
        s.rrPos % (activeOf (s.push w.nodeId w.event).queues).length else 0) = 0
      rw [hpos, Nat.zero_mod, ite_self]
    refine (ih rfl hnext).trans ?_
    rw [List.foldl_cons, List.length_cons, Nat.add_comm, UInt64.ofNat_add, ← UInt64.add_assoc]
    rfl

theorem pushAll_of_isIdle {s : Scheduler} (h : s.Wf) (hidle : s.isIdle = true)
    {items : List WorkItem} (hne : items ≠ []) :
    s.pushAll items = ⟨items.foldl enqueue s.queues, activeOf (items.foldl enqueue s.queues), 0,
      s.totalEnqueued + UInt64.ofNat items.length, s.totalProcessed⟩ := by
  obtain ⟨w, ws, rfl⟩ := List.exists_cons_of_ne_nil hne
  refine (pushAll_of_rrPos (s := s.push w.nodeId w.event) rfl
    (rrPos_push_of_isIdle h hidle w.nodeId w.event) ws).trans ?_
  rw [List.foldl_cons, List.length_cons, Nat.add_comm, UInt64.ofNat_add, ← UInt64.add_assoc]
  rfl

/-- **Pushing into an idle scheduler**, in any order of items with distinct stamps. -/
theorem pushAll_perm {s : Scheduler} (h : s.Wf) (hidle : s.isIdle = true)
    {items items' : List WorkItem} (hperm : items.Perm items')
    (hdistinct : items.Pairwise fun a b => a.event.stamp ≠ b.event.stamp) :
    s.pushAll items = s.pushAll items' := by
  have hsymm : Std.Symm fun a b : WorkItem => a.event.stamp ≠ b.event.stamp :=
    ⟨fun _ _ hne => hne.symm⟩
  have hqueues : items.foldl enqueue s.queues = items'.foldl enqueue s.queues := by
    refine hperm.foldl_eq' (fun a ha b hb queues => ?_) s.queues
    by_cases hab : a = b
    · rw [hab]
    · exact (pushQueue_comm (hdistinct.forall ha hb hab) queues).symm
  by_cases hnil : items = []
  · rw [hnil] at hperm ⊢
    rw [hperm.nil_eq]
  · have hnil' : items' ≠ [] := fun heq => hnil (heq ▸ hperm).eq_nil
    rw [pushAll_of_isIdle h hidle hnil, pushAll_of_isIdle h hidle hnil', hqueues,
      hperm.length_eq]

theorem pending_pushAll (s : Scheduler) (items : List WorkItem) :
    (s.pushAll items).pending = s.pending + ↑items := by
  induction items generalizing s with
  | nil => exact (add_zero _).symm
  | cons w ws ih =>
    refine (ih (s.push w.nodeId w.event)).trans ?_
    rw [Scheduler.pending_push, ← Multiset.cons_coe, Multiset.cons_add, Multiset.add_cons]

theorem Scheduler.Wf.pushAll {s : Scheduler} (h : s.Wf) (items : List WorkItem) :
    (s.pushAll items).Wf :=
  List.foldlRecOn items _ h fun _ hs w _ => hs.push w.nodeId w.event

/-! ### Numbered items -/

/-- The items with consecutive numbers. -/
def numberFrom : UInt32 → List WorkItem → List WorkItem
  | _, [] => []
  | seq, w :: ws => ⟨w.nodeId, { w.event with seq := seq }⟩ :: numberFrom (seq + 1) ws

/-- The item with the number zero. -/
def WorkItem.zeroed (w : WorkItem) : WorkItem := ⟨w.nodeId, { w.event with seq := 0 }⟩

theorem map_nodeId_numberFrom (seq : UInt32) (items : List WorkItem) :
    (numberFrom seq items).map WorkItem.nodeId = items.map WorkItem.nodeId := by
  induction items generalizing seq with
  | nil => rfl
  | cons w ws ih => rw [numberFrom, List.map_cons, List.map_cons, ih]

/-- Without their numbers, fresh items are pushed as if they had none. -/
theorem pushAll_numberFrom {s : Scheduler} {bound : ℕ} {seq : UInt32} {items : List WorkItem}
    (h : s.Sorted) (hfresh : ∀ x ∈ s.pending, ∀ w ∈ items, x.event.stamp ≠ w.event.stamp)
    (hdistinct : items.Pairwise fun a b => a.event.stamp ≠ b.event.stamp)
    (hle : seq.toNat + items.length ≤ bound) (hbound : bound < 2 ^ 32) :
    (s.pushAll (numberFrom seq items)).unnumber bound =
      (s.unnumber bound).pushAll (items.map WorkItem.zeroed) := by
  induction items generalizing s seq with
  | nil => rfl
  | cons w ws ih =>
    rw [List.length_cons] at hle
    obtain ⟨hne, hrest⟩ := List.pairwise_cons.mp hdistinct
    have hnext : (seq + 1).toNat = seq.toNat + 1 := by
      rw [UInt32.toNat_add]
      exact Nat.mod_eq_of_lt (by change seq.toNat + 1 < 2 ^ 32; omega)
    have hnum : (⟨w.nodeId, { w.event with seq := seq }⟩ : WorkItem).unnumber bound = w.zeroed :=
      unnumber_of_lt (show seq.toNat < bound by omega)
    have hfirst : (s.push w.nodeId { w.event with seq := seq }).unnumber bound =
        (s.unnumber bound).push w.zeroed.nodeId w.zeroed.event := by
      rw [push_unnumber fun e he hclock x hx => ?_, hnum]
      · rfl
      · -- the ticks differ, since the clocks agree
        have hclock' : x.event.stamp.clock = w.event.stamp.clock := by
          rw [h.clock e.1 x (by rwa [queueOf_of_mem h.sorted he])]
          exact hclock
        have hmem : x ∈ s.pending :=
          Multiset.mem_coe.mpr (List.mem_flatMap.mpr ⟨e, he, hx⟩)
        have htick : w.event.stamp.tick ≠ x.event.stamp.tick := fun htick =>
          hfresh x hmem w List.mem_cons_self (congrArg₂ Stamp.mk hclock' htick.symm)
        exact keyLt_unnumber_of_tick_ne htick
    refine (ih (h.push w.nodeId _) (fun x hx w' hw' => ?_) hrest (by omega)).trans ?_
    · rw [Scheduler.pending_push, Multiset.mem_cons] at hx
      rcases hx with rfl | hx
      · exact hne w' hw'
      · exact hfresh x hx w' (List.mem_cons_of_mem _ hw')
    · rw [hfirst]
      rfl

theorem Scheduler.Wf.unnumber {s : Scheduler} (h : s.Wf) (bound : ℕ) : (s.unnumber bound).Wf := by
  refine ⟨?_, h.order.trans (activeOf_unnumberQueues s.queues).symm⟩
  have hclocks : (unnumberQueues bound s.queues).map Prod.fst = s.queues.map Prod.fst := by
    rw [unnumberQueues, List.map_map]
    rfl
  exact (congrArg (List.Pairwise (· < ·)) hclocks).mpr h.sorted

theorem sorted_of_isIdle {s : Scheduler} (h : s.Wf) (hidle : s.isIdle = true) : s.Sorted := by
  have hempty : ∀ clk, queueOf clk s.queues = [] := by
    intro clk
    by_cases hclk : clk ∈ s.queues.map Prod.fst
    · obtain ⟨e, he, rfl⟩ := List.mem_map.mp hclk
      rw [queueOf_of_mem h.sorted he, List.eq_nil_iff_forall_not_mem]
      intro x hx
      have hmem : x ∈ s.pending := Multiset.mem_coe.mpr (List.mem_flatMap.mpr ⟨e, he, hx⟩)
      rw [h.isIdle_iff.mp hidle] at hmem
      exact Multiset.notMem_zero x hmem
    · exact queueOf_eq_nil hclk
  refine ⟨h, fun clk => ?_, fun clk w hw => ?_⟩
  · rw [hempty clk]
    exact List.Pairwise.nil
  · rw [hempty clk] at hw
    exact absurd hw List.not_mem_nil

/-! ### Injections -/

/-- A list of injections, one after the other; an unknown source leaves the engine as it is. -/
def Engine.injectAll (e : Engine) (evs : List (String × Event)) : Engine :=
  evs.foldl (fun e ev => (e.inject ev.1 ev.2).toOption.getD e) e

/-- The items of the events for known sources. -/
def Engine.accepted (e : Engine) (evs : List (String × Event)) : List WorkItem :=
  evs.filterMap fun ev => (e.sourceIds.lookup ev.1).map fun id => ⟨id, ev.2⟩

/-- **Injections** push the accepted items with consecutive numbers; of the rest of the engine they
touch the clocks and the metrics only. -/
theorem injectAll_eq (e : Engine) (evs : List (String × Event)) : ∃ clockNow metrics,
    e.injectAll evs = { e with
      clockNow := clockNow
      sourceMetrics := metrics
      seqCounter := e.seqCounter + UInt32.ofNat (e.accepted evs).length
      scheduler := e.scheduler.pushAll (numberFrom e.seqCounter (e.accepted evs)) } := by
  induction evs generalizing e with
  | nil =>
    have hadd : e.seqCounter + UInt32.ofNat 0 = e.seqCounter := UInt32.add_zero _
    refine ⟨e.clockNow, e.sourceMetrics, ?_⟩
    rw [Engine.accepted, List.filterMap_nil, List.length_nil, hadd]
    rfl
  | cons ev evs ih =>
    rw [Engine.injectAll, List.foldl_cons]
    rcases hlookup : e.sourceIds.lookup ev.1 with _ | id
    · -- an unknown source refuses the event and leaves the engine as it was
      have hsame : (e.inject ev.1 ev.2).toOption.getD e = e := by
        rw [Engine.inject, hlookup]
        rfl
      have haccepted : e.accepted (ev :: evs) = e.accepted evs := by
        rw [Engine.accepted, List.filterMap_cons, hlookup]
        rfl
      rw [hsame, haccepted]
      exact ih e
    · obtain ⟨clockNow, metrics, hfirst⟩ : ∃ clockNow metrics,
          (e.inject ev.1 ev.2).toOption.getD e = { e with
            clockNow := clockNow
            sourceMetrics := metrics
            seqCounter := e.seqCounter + 1
            scheduler := e.scheduler.push id { ev.2 with seq := e.seqCounter } } := by
        rw [Engine.inject, hlookup]
        exact ⟨_, _, rfl⟩
      have haccepted : e.accepted (ev :: evs) = ⟨id, ev.2⟩ :: e.accepted evs := by
        rw [Engine.accepted, List.filterMap_cons, hlookup]
        rfl
      obtain ⟨clockNow', metrics', hrest⟩ := ih ((e.inject ev.1 ev.2).toOption.getD e)
      refine ⟨clockNow', metrics', hrest.trans ?_⟩
      rw [hfirst, haccepted, List.length_cons, Nat.add_comm, UInt32.ofNat_add, ← UInt32.add_assoc]
      rfl

theorem accepted_pairwise (e : Engine) {evs : List (String × Event)}
    (h : evs.Pairwise fun a b => a.2.stamp ≠ b.2.stamp) :
    (e.accepted evs).Pairwise fun a b => a.event.stamp ≠ b.event.stamp := by
  refine List.pairwise_filterMap.mpr (h.imp fun hne x hx y hy => ?_)
  obtain ⟨id, -, rfl⟩ := Option.map_eq_some_iff.mp hx
  obtain ⟨id', -, rfl⟩ := Option.map_eq_some_iff.mp hy
  exact hne

/-- **The unnumbered engine** is the same in every order of injection. -/
theorem injectAll_unnumber_perm {e : Engine} (h : e.scheduler.Wf)
    (hidle : e.scheduler.isIdle = true) {evs evs' : List (String × Event)} (hperm : evs.Perm evs')
    (hdistinct : evs.Pairwise fun a b => a.2.stamp ≠ b.2.stamp) {bound : ℕ}
    (hle : e.seqCounter.toNat + (e.accepted evs).length ≤ bound) (hbound : bound < 2 ^ 32) :
    (e.injectAll evs).unnumber bound = (e.injectAll evs').unnumber bound := by
  have hitems : (e.accepted evs).Perm (e.accepted evs') := hperm.filterMap _
  have hlen := hitems.length_eq
  have hpair := accepted_pairwise e hdistinct
  have hpair' : (e.accepted evs').Pairwise fun a b => a.event.stamp ≠ b.event.stamp :=
    hitems.pairwise hpair fun hne => hne.symm
  have hsorted := sorted_of_isIdle h hidle
  have hfresh : ∀ items : List WorkItem, ∀ x ∈ e.scheduler.pending, ∀ w ∈ items,
      x.event.stamp ≠ w.event.stamp := by
    intro items x hx
    rw [h.isIdle_iff.mp hidle] at hx
    exact absurd hx (Multiset.notMem_zero x)
  have hzeroed : ((e.accepted evs).map WorkItem.zeroed).Pairwise
      fun a b => a.event.stamp ≠ b.event.stamp := List.pairwise_map.mpr hpair
  have hpush := pushAll_perm (h.unnumber bound) (show (e.scheduler.unnumber bound).isIdle = true
    from hidle) (hitems.map WorkItem.zeroed) hzeroed
  rw [← pushAll_numberFrom hsorted (hfresh _) hpair hle hbound,
    ← pushAll_numberFrom hsorted (hfresh _) hpair' (hlen ▸ hle) hbound] at hpush
  obtain ⟨clockNow, metrics, heq⟩ := injectAll_eq e evs
  obtain ⟨clockNow', metrics', heq'⟩ := injectAll_eq e evs'
  rw [heq, heq', Engine.unnumber, Engine.unnumber]
  dsimp only
  rw [hpush, hlen]

/-! ### States of a compiled engine -/

/-- A state of an engine: the graph and the names are those of the engine, its sources are still
sources, and the scheduler is in order. What the nodes and the counters hold is left open. -/
structure Engine.StateOf (engine e : Engine) : Prop where
  wiring : e.nodes.map Node.wiring = engine.nodes.map Node.wiring
  sources : ∀ w, engine.ForSource w → e.ForSource w
  sourceIds : e.sourceIds = engine.sourceIds
  streamIds : e.streamIds = engine.streamIds
  scheduler : e.scheduler.Wf

variable {checks : Bool} {engine e : Engine}

theorem Engine.StateOf.steps {k : ℕ} {e' : Engine} (h : engine.StateOf e) (hwf : e.Wf)
    (hsteps : Steps (EngineTurn checks) k e e') : engine.StateOf e' := by
  induction hsteps with
  | refl e => exact h
  | tail hsteps hturn ih =>
    have hnow := ih h hwf
    have hlast := (hwf.steps (hsteps.tail hturn)).1
    obtain ⟨item, scheduler, -, hstep⟩ := hturn
    obtain ⟨node, node', out, hnode, -, hwiring, hnodes, -, hsrc, hstr⟩ := Engine.step_ok hstep
    refine ⟨?_, fun w hw => forSource_step hstep (hnow.sources w hw), hsrc.trans hnow.sourceIds,
      hstr.trans hnow.streamIds, hlast.scheduler⟩
    rw [hnodes]
    exact (map_wiring_set hnode hwiring).trans hnow.wiring

/-- Every engine that injections, ticks and runs lead to is a state of the engine they started
from. -/
theorem EngineReach.stateOf (hwf : engine.Wf) (h : EngineReach checks engine e) :
    engine.StateOf e := by
  have hnow : e.Wf := h.wf hwf
  induction h with
  | start => exact ⟨rfl, fun _ hw => hw, rfl, rfl, hwf.scheduler⟩
  | @inject e e' name ev h hok ih =>
    have hold := ih (h.wf hwf)
    rw [Engine.inject] at hok
    rcases hlookup : e.sourceIds.lookup name with _ | id
    · rw [hlookup] at hok
      cases hok
    · rw [hlookup] at hok
      obtain rfl := Except.ok.inj hok
      exact ⟨hold.wiring, hold.sources, hold.sourceIds, hold.streamIds, hnow.scheduler⟩
  | @tick e clockId tick h ih =>
    have hold := ih (h.wf hwf)
    rw [Engine.tickClock] at hnow ⊢
    split_ifs at hnow ⊢ <;>
      exact ⟨hold.wiring, hold.sources, hold.sourceIds, hold.streamIds, hnow.scheduler⟩
  | @run e e' maxSteps n h hok ih =>
    have hsteps := ((h.wf hwf).run_ok hok).2.1
    exact (ih (h.wf hwf)).steps (h.wf hwf) hsteps
  | logs effectLog traceLog h ih =>
    have hold := ih (h.wf hwf)
    exact ⟨hold.wiring, hold.sources, hold.sourceIds, hold.streamIds, hold.scheduler⟩

theorem Engine.StateOf.wf_of_isIdle (hordered : engine.Ordered) (h : engine.StateOf e)
    (hidle : e.scheduler.isIdle = true) : e.Wf := by
  have hlen : e.nodes.length = engine.nodes.length := by
    simpa using congrArg List.length h.wiring
  refine ⟨⟨hordered.wired.congr h.wiring, ?_, ?_⟩, h.scheduler, fun item hitem => ?_⟩
  · rw [h.sourceIds, hlen]
    exact hordered.sourceIds
  · rw [h.streamIds, hlen]
    exact hordered.streamIds
  · rw [h.scheduler.isIdle_iff.mp hidle] at hitem
    exact absurd hitem (Multiset.notMem_zero item)

theorem Engine.Wf.injectAll (h : e.Wf) (evs : List (String × Event)) : (e.injectAll evs).Wf := by
  refine List.foldlRecOn evs _ h fun e he ev _ => ?_
  rcases hinject : e.inject ev.1 ev.2 with msg | e'
  · exact he
  · exact he.inject hinject

/-- What is accepted is for the sources. -/
theorem Engine.StateOf.forSource_of_mem_accepted (hnamed : engine.SourcesNamed)
    (h : engine.StateOf e) {evs : List (String × Event)} {w : WorkItem} (hw : w ∈ e.accepted evs) :
    e.ForSource w := by
  obtain ⟨ev, -, hlookup⟩ := List.mem_filterMap.mp hw
  obtain ⟨id, hid, rfl⟩ := Option.map_eq_some_iff.mp hlookup
  rw [h.sourceIds] at hid
  obtain ⟨l₁, l₂, heq, -⟩ := List.lookup_eq_some_iff.mp hid
  obtain ⟨kind, hkind, hsource⟩ := hnamed (ev.1, id) (by rw [heq]; simp)
  rw [List.getElem?_map] at hkind
  obtain ⟨node, hnode, rfl⟩ := Option.map_eq_some_iff.mp hkind
  exact h.sources _ ⟨node, hnode, hsource⟩

/-- After injections into an idle engine, the numbers below the counter are those of items for
sources. -/
theorem Engine.StateOf.numbered (hnamed : engine.SourcesNamed) (h : engine.StateOf e)
    (hidle : e.scheduler.isIdle = true) (evs : List (String × Event)) {bound : ℕ}
    (hbound : bound = e.seqCounter.toNat + (e.accepted evs).length) (hlt : bound < 2 ^ 32) :
    (e.injectAll evs).Numbered bound := by
  obtain ⟨clockNow, metrics, heq⟩ := injectAll_eq e evs
  rw [heq]
  refine ⟨?_, fun w hw _ => ?_, h.scheduler.pushAll _⟩
  · change bound ≤ (e.seqCounter + UInt32.ofNat (e.accepted evs).length).toNat
    rw [UInt32.toNat_add, UInt32.toNat_ofNat']
    omega
  · change w ∈ (e.scheduler.pushAll _).pending at hw
    rw [pending_pushAll, h.scheduler.isIdle_iff.mp hidle, zero_add, Multiset.mem_coe] at hw
    have hid := List.mem_map_of_mem (f := WorkItem.nodeId) hw
    rw [map_nodeId_numberFrom] at hid
    obtain ⟨w', hw', hsame⟩ := List.mem_map.mp hid
    obtain ⟨node, hnode, hkind⟩ := h.forSource_of_mem_accepted hnamed hw'
    exact ⟨node, hsame ▸ hnode, hkind⟩

/-! ### The order of injection -/

/-- **The order of injection does not matter.** Take any state of a compiled engine with an idle
scheduler and any events whose ticks differ on each clock, and let the sequence counter not wrap.
Injected in any two orders, the events lead to runs that process the same `(node, stamp, value)`
steps and leave the same nodes, and running to idle ends. -/
theorem injection_order {program : Program} {warnings : List CompileError}
    (hcompile : compile program = .ok (engine, warnings)) (h : engine.StateOf e)
    (hidle : e.scheduler.isIdle = true) {evs evs' : List (String × Event)} (hperm : evs.Perm evs')
    (hdistinct : evs.Pairwise fun a b => a.2.stamp ≠ b.2.stamp)
    (hcount : e.seqCounter.toNat + evs.length < 2 ^ 32) (hwrap : (e.injectAll evs).NoWrap checks) :
    (∀ n, (e.injectAll evs).processed checks n = (e.injectAll evs').processed checks n) ∧
      (∀ fuel, ((e.injectAll evs).runToIdle checks fuel).map (Except.map Engine.nodes) =
        ((e.injectAll evs').runToIdle checks fuel).map (Except.map Engine.nodes)) ∧
      ∃ fuel r, (e.injectAll evs).runToIdle checks fuel = some r ∧
        ∀ e', r = .ok e' → e'.scheduler.isIdle = true := by
  have hnamed := compile_sources hcompile
  have hwf := h.wf_of_isIdle (compile_wf hcompile).1 hidle
  have hlen : (e.accepted evs).length = (e.accepted evs').length :=
    (hperm.filterMap _).length_eq
  have hlt : e.seqCounter.toNat + (e.accepted evs).length < 2 ^ 32 := by
    have hle : (e.accepted evs).length ≤ evs.length := List.length_filterMap_le _ _
    omega
  have hnum := h.numbered hnamed hidle evs rfl hlt
  have hnum' := h.numbered hnamed hidle evs' (congrArg (e.seqCounter.toNat + ·) hlen) hlt
  -- without their sequence numbers, the two engines are the same
  have hsame := injectAll_unnumber_perm h.scheduler hidle hperm hdistinct (le_refl _) hlt
  have hwrap' : (e.injectAll evs').NoWrap checks := by
    rw [← hnum'.noWrap_iff, ← hsame]
    exact hnum.noWrap_iff.mpr hwrap
  refine ⟨fun n => ?_, fun fuel => ?_, ?_⟩
  · rw [← hnum.processed hwrap, hsame, hnum'.processed hwrap']
  · rw [← hnum.nodes_runToIdle hwrap, hsame, hnum'.nodes_runToIdle hwrap']
  · obtain ⟨r, hr, -, hend⟩ := (hwf.injectAll evs).runToIdle (Nat.lt_succ_self _)
    exact ⟨_, r, hr, hend⟩

/-- Two frames for the chat pipeline, the later one first. -/
def sampleEvents : List (String × Event) :=
  [("rf", .new ⟨0, 60⟩ (.bytes [1, 2])), ("rf", .new ⟨0, 45⟩ (.bytes [1, 2, 3]))]

theorem injection_order_sample : ∃ engine, compile sampleProgram = .ok (engine, []) ∧
    (∀ n, (engine.injectAll sampleEvents).processed true n =
      (engine.injectAll sampleEvents.reverse).processed true n) ∧
    (engine.injectAll sampleEvents).processed true 9 =
      [(0, ⟨0, 45⟩, .bytes [1, 2, 3]), (1, ⟨0, 45⟩, .bytes [1, 2, 3]),
        (0, ⟨0, 60⟩, .bytes [1, 2]), (1, ⟨0, 60⟩, .bytes [1, 2])] := by
  obtain ⟨engine, hcompile, hseq, hweight, hrun⟩ : ∃ engine,
      compile sampleProgram = .ok (engine, []) ∧ engine.seqCounter = 0 ∧
      (engine.injectAll sampleEvents).seqCounter.toNat +
        2 * (engine.injectAll sampleEvents).weight < 2 ^ 32 ∧
      (engine.injectAll sampleEvents).processed true 9 =
        [(0, ⟨0, 45⟩, .bytes [1, 2, 3]), (1, ⟨0, 45⟩, .bytes [1, 2, 3]),
          (0, ⟨0, 60⟩, .bytes [1, 2]), (1, ⟨0, 60⟩, .bytes [1, 2])] :=
    ⟨_, rfl, rfl, by decide +kernel, by decide +kernel⟩
  obtain ⟨hordered, hfresh⟩ := compile_wf hcompile
  have hwf := Engine.wf_of_ordered hordered hfresh
  have hidle : engine.scheduler.isIdle = true := by
    rw [hfresh]
    rfl
  have hreach : EngineReach true engine engine := .start
  have hwrap : (engine.injectAll sampleEvents).NoWrap true :=
    (hwf.injectAll sampleEvents).noWrap hweight
  have hsame := injection_order hcompile (hreach.stateOf hwf) hidle
    sampleEvents.reverse_perm.symm (by decide) (by rw [hseq]; decide) hwrap
  exact ⟨engine, hcompile, hsame.1, hrun⟩

end Rivr.Core
