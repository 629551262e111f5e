import Rivr.Core.FlushAll
import Rivr.Core.WindowGrouping

/-!
# The arithmetic of the operators

What the operators compute on `u64` and `i64` when overflow is checked. `NodeKind.Headroom` says of
an operator in a state and of an event that every sum the operator forms for the event fits into its
type; an operator whose window is not empty processes the event without an overflow, and without a
division by zero, exactly then (`NodeKind.computes_iff`). So does a run of an engine
(`Engine.Wf.run_computes_iff`).
-/

namespace Rivr.Core

open Except Worklist

/-! ### The checked operations -/

/-- The panics of arithmetic. -/
def Panic.IsArithmetic : Panic → Prop
  | .divisionByZero | .arithmeticOverflow => True
  | .indexOutOfBounds | .removeFromEmpty => False

/-- No operation overflows or divides by zero. -/
def Computes {α : Type} (x : Except Panic α) : Prop := Avoids Panic.IsArithmetic x

section Rules

variable {α β : Type}

theorem computes_ok (a : α) : Computes (.ok a) := avoids_ok a

theorem computes_error_iff {p : Panic} : Computes (.error p : Except Panic α) ↔ ¬p.IsArithmetic :=
  avoids_error_iff

theorem computes_bind_iff {x : Except Panic α} {f : α → Except Panic β} :
    Computes (x >>= f) ↔ Computes x ∧ ∀ a, x = .ok a → Computes (f a) := avoids_bind_iff

/-- What comes last and cannot fail does not matter. -/
theorem computes_bind_ok_iff {x : Except Panic α} {f : α → Except Panic β}
    (hf : ∀ a, ∃ b, f a = .ok b) : Computes (x >>= f) ↔ Computes x := by
  refine computes_bind_iff.trans (and_iff_left fun a _ => ?_)
  obtain ⟨b, hb⟩ := hf a
  rw [hb]
  exact computes_ok b

theorem computes_map_iff {x : Except Panic α} {f : α → β} : Computes (x.map f) ↔ Computes x :=
  avoids_map_iff

end Rules

/-- The sum fits into 64 bits. -/
def SumFits (a b : UInt64) : Prop := a.toNat + b.toNat < 2 ^ 64

instance SumFits.decidable (a b : UInt64) : Decidable (SumFits a b) :=
  inferInstanceAs (Decidable (_ < _))

theorem computes_addU64_iff {a b : UInt64} : Computes (addU64 true a b) ↔ SumFits a b := by
  by_cases h : SumFits a b
  · rw [addU64_ok h]
    exact iff_of_true (computes_ok _) h
  · have hover : 2 ^ 64 ≤ a.toNat + b.toNat := Nat.not_lt.mp h
    rw [addU64, if_pos (by simpa using hover)]
    exact iff_of_false (fun hok => computes_error_iff.mp hok trivial) h

theorem computes_addI64_iff {a b : Int64} :
    Computes (addI64 true a b) ↔ -2 ^ 63 ≤ a.toInt + b.toInt ∧ a.toInt + b.toInt < 2 ^ 63 := by
  rw [addI64]
  split_ifs with hover
  · simp only [Bool.true_and, decide_eq_true_eq] at hover
    refine iff_of_false (fun hok => computes_error_iff.mp hok trivial) ?_
    omega
  · simp only [Bool.true_and, decide_eq_true_eq] at hover
    refine iff_of_true (computes_ok _) ?_
    omega

/-- A step that adds first, and then goes on with the sum. -/
theorem computes_addU64_bind_iff {α : Type} {a b : UInt64} {f : UInt64 → Except Panic α} :
    Computes (addU64 true a b >>= f) ↔ SumFits a b ∧ Computes (f (a + b)) := by
  rw [computes_bind_iff, computes_addU64_iff]
  refine and_congr_right fun h => ?_
  rw [addU64_ok h]
  constructor
  · exact fun hall => hall _ rfl
  · rintro hf _ ⟨⟩
    exact hf

/-! ### The windows -/

/-- The event is at or past the end of a window. -/
def PastEnd (start width tick : UInt64) : Prop := start.toNat + width.toNat ≤ tick.toNat

instance PastEnd.decidable (start width tick : UInt64) : Decidable (PastEnd start width tick) :=
  inferInstanceAs (Decidable (_ ≤ _))

/-- What is in the buffer of a window when an event is stored: nothing, if the event closes the
window or the full buffer was flushed early. -/
def WindowTicks.waiting (w : WindowTicks) (ev : Event) : List Event :=
  if PastEnd w.windowStart w.duration ev.stamp.tick ∨
    (w.bufferPolicy = .flushEarly ∧ w.buffer.isFullCapped w.cap) then [] else w.buffer.inner

/-- The end of the window fits, and so does the count of drops if the event makes one more. -/
def WindowTicks.Headroom (w : WindowTicks) (ev : Event) : Prop :=
  SumFits w.windowStart w.duration ∧
    (min w.cap windowCap ≤ (w.waiting ev).length → SumFits w.buffer.drops 1)

instance WindowTicks.decidableHeadroom (w : WindowTicks) (ev : Event) : Decidable (w.Headroom ev) :=
  inferInstanceAs (Decidable (_ ∧ (_ → _)))

/-- A push counts a drop if the buffer is full. -/
theorem BoundedVec.computes_pushCapped_iff {b : BoundedVec} {ev : Event} {policy : DropPolicy}
    {cap : ℕ} : Computes (b.pushCapped true ev policy cap) ↔
      (min cap windowCap ≤ b.inner.length → SumFits b.drops 1) := by
  rw [BoundedVec.pushCapped]
  split_ifs with hfull
  · rw [computes_addU64_bind_iff]
    refine ⟨fun h _ => h.1, fun h => ⟨h hfull, ?_⟩⟩
    -- removing from an empty buffer is a panic, but not one of arithmetic
    split
    · exact computes_ok _
    · exact computes_error_iff.mpr id
    · exact computes_ok _
  · exact iff_of_true (computes_ok _) (absurd · hfull)

/-- A store pushes into the buffer, which may have been flushed before. -/
theorem WindowTicks.computes_store_iff {w : WindowTicks} {ev : Event} :
    Computes (w.store true ev) ↔ (min w.cap windowCap ≤
      (if w.bufferPolicy = .flushEarly ∧ w.buffer.isFullCapped w.cap then []
        else w.buffer.inner).length → SumFits w.buffer.drops 1) := by
  rw [WindowTicks.store]
  split_ifs
  · rw [computes_bind_ok_iff fun _ => ⟨_, rfl⟩]
    exact BoundedVec.computes_pushCapped_iff
  · rw [computes_bind_ok_iff fun _ => ⟨_, rfl⟩]
    exact BoundedVec.computes_pushCapped_iff

/-- The store decides when the boundary is behind. -/
theorem WindowTicks.computes_process_of_boundary {w w' : WindowTicks} {ev : Event}
    {out : List Event} (h : w.boundary true ev = .ok (out, w')) :
    Computes (w.process true ev) ↔ Computes (w'.store true ev) := by
  have hbind : w.process true ev = w'.store true ev >>= fun r => .ok (out ++ r.1, r.2) := by
    rw [WindowTicks.process, h]
    rfl
  rw [hbind, computes_bind_ok_iff fun _ => ⟨_, rfl⟩]

/-- **A window** computes an event exactly if it has headroom for it. -/
theorem WindowTicks.computes_iff {w : WindowTicks} (hduration : w.duration ≠ 0) (ev : Event) :
    Computes (w.process true ev) ↔ w.Headroom ev := by
  by_cases hfits : SumFits w.windowStart w.duration
  · rw [WindowTicks.Headroom, and_iff_right hfits]
    by_cases hpast : PastEnd w.windowStart w.duration ev.stamp.tick
    · have hwaiting : w.waiting ev = [] := if_pos (.inl hpast)
      rw [computes_process_of_boundary (boundary_past true hfits hduration hpast),
        computes_store_iff, hwaiting]
      change (min w.cap windowCap ≤ (if _ then [] else []).length → SumFits w.buffer.drops 1) ↔ _
      rw [ite_self]
    · rw [computes_process_of_boundary (boundary_within true hfits (Nat.not_le.mp hpast)),
        computes_store_iff, WindowTicks.waiting]
      simp only [hpast, false_or]
  · refine iff_of_false (fun h => hfits ?_) fun h => hfits h.1
    exact (computes_addU64_bind_iff.mp (computes_bind_iff.mp h).1).1

/-! ### The other clocks and counters -/

/-- The deadline of the event fits. -/
def DelayTicks.Headroom (d : DelayTicks) (ev : Event) : Prop := SumFits ev.stamp.tick d.delay

instance DelayTicks.decidableHeadroom (d : DelayTicks) (ev : Event) : Decidable (d.Headroom ev) :=
  inferInstanceAs (Decidable (SumFits _ _))

theorem DelayTicks.computes_iff (d : DelayTicks) (ev : Event) :
    Computes (d.process true ev) ↔ d.Headroom ev :=
  computes_addU64_bind_iff.trans (and_iff_left (computes_ok _))

/-- A roll adds the width to the start; what it computes past the end stays below the tick. -/
theorem rollWindow_eq (tick : UInt64) {start width : UInt64} (hwidth : width ≠ 0)
    (hfits : SumFits start width) :
    ∃ roll, rollWindow true tick start width = .ok roll ∧
      (roll.isSome = true ↔ PastEnd start width tick) := by
  have hpast : start + width ≤ tick ↔ PastEnd start width tick := by
    rw [UInt64.le_iff_toNat_le, UInt64.toNat_add, Nat.mod_eq_of_lt hfits, PastEnd]
  rw [rollWindow, addU64_ok hfits]
  change ∃ roll, (if start + width ≤ tick then _ else _) = _ ∧ _
  rw [← hpast]
  split_ifs with hle
  · -- no product and no sum of the roll exceeds the tick
    have hlt := tick.toNat_lt
    have hstart : start.toNat ≤ tick.toNat :=
      (Nat.le_add_right _ _).trans (hpast.mp hle)
    have helapsed : (tick - start).toNat = tick.toNat - start.toNat :=
      UInt64.toNat_sub_of_le _ _ (UInt64.le_iff_toNat_le.mpr hstart)
    have hdiv := Nat.div_mul_le_self (tick - start).toNat width.toNat
    have hsub : subU64 true tick start = .ok (tick - start) := by
      rw [subU64, if_neg]
      simpa [UInt64.lt_iff_toNat_lt] using hstart
    have hmul : mulU64 true ((tick - start) / width) width =
        .ok ((tick - start) / width * width) := by
      rw [mulU64, if_neg]
      simp only [Bool.true_and, decide_eq_true_eq, not_le, UInt64.toNat_div]
      omega
    have hjump : ((tick - start) / width * width).toNat =
        (tick - start).toNat / width.toNat * width.toNat := by
      rw [UInt64.toNat_mul, UInt64.toNat_div, Nat.mod_eq_of_lt (by omega)]
    refine ⟨some (start + (tick - start) / width * width), ?_, iff_of_true rfl hle⟩
    rw [hsub]
    change (divU64 (tick - start) width >>= _) = _
    rw [divU64, if_neg hwidth]
    change (mulU64 true ((tick - start) / width) width >>= _) = _
    rw [hmul]
    change (addU64 true start ((tick - start) / width * width) >>= _) = _
    rw [addU64_ok (by omega)]
    rfl
  · exact ⟨none, rfl, iff_of_false Bool.false_ne_true hle⟩

/-- The end of the window fits, and so does the count of drops if the event is dropped. -/
def AirtimeBudget.Headroom (b : AirtimeBudget) (ev : Event) : Prop :=
  SumFits b.windowStart b.windowTicks ∧
    (b.budgetPerWindow ≤ (if PastEnd b.windowStart b.windowTicks ev.stamp.tick then 0 else b.used) →
      SumFits b.totalDropped 1)

instance AirtimeBudget.decidableHeadroom (b : AirtimeBudget) (ev : Event) :
    Decidable (b.Headroom ev) := inferInstanceAs (Decidable (_ ∧ (_ → _)))

theorem AirtimeBudget.computes_iff {b : AirtimeBudget} (hwindow : b.windowTicks ≠ 0) (ev : Event) :
    Computes (b.process true ev) ↔ b.Headroom ev := by
  by_cases hfits : SumFits b.windowStart b.windowTicks
  · obtain ⟨roll, hroll, hsome⟩ := rollWindow_eq ev.stamp.tick hwindow hfits
    rw [AirtimeBudget.Headroom, and_iff_right hfits, AirtimeBudget.process_eq, hroll]
    simp only [← hsome]
    change Computes (if (b.rolled roll).used < b.budgetPerWindow then _ else _) ↔
      (b.budgetPerWindow ≤ (b.rolled roll).used → _)
    split_ifs with hused
    · refine iff_of_true ?_ (absurd · (UInt64.not_le.mpr hused))
      -- what is less than the budget can be counted up
      refine (computes_bind_ok_iff fun _ => ⟨_, rfl⟩).mpr (computes_addU64_iff.mpr ?_)
      have hlt := b.budgetPerWindow.toNat_lt
      rw [UInt64.lt_iff_toNat_lt] at hused
      change (b.rolled roll).used.toNat + 1 < 2 ^ 64
      omega
    · rw [computes_bind_ok_iff fun _ => ⟨_, rfl⟩, computes_addU64_iff]
      exact ⟨fun h _ => h, fun h => h (UInt64.not_lt.mp hused)⟩
  · refine iff_of_false (fun h => hfits ?_) fun h => hfits h.1
    exact (computes_addU64_bind_iff.mp (computes_bind_iff.mp h).1).1

/-- The time on air when the event is admitted: nothing of it is left over from the window
before. -/
def ToaBudget.level (b : ToaBudget) (ev : Event) : UInt64 :=
  if PastEnd b.windowStart b.windowMs ev.stamp.tick then 0 else b.usedUs

/-- The end of the window fits, the time on air with the event does, and so does the count of drops
if the event is dropped. -/
def ToaBudget.Headroom (b : ToaBudget) (ev : Event) : Prop :=
  SumFits b.windowStart b.windowMs ∧ SumFits (b.level ev) b.toaUsPerEvent ∧
    (b.budgetUs.toNat < (b.level ev).toNat + b.toaUsPerEvent.toNat → SumFits b.totalDropped 1)

instance ToaBudget.decidableHeadroom (b : ToaBudget) (ev : Event) : Decidable (b.Headroom ev) :=
  inferInstanceAs (Decidable (_ ∧ _ ∧ (_ → _)))

theorem ToaBudget.computes_iff {b : ToaBudget} (hwindow : b.windowMs ≠ 0) (ev : Event) :
    Computes (b.process true ev) ↔ b.Headroom ev := by
  by_cases hfits : SumFits b.windowStart b.windowMs
  · obtain ⟨roll, hroll, hsome⟩ := rollWindow_eq ev.stamp.tick hwindow hfits
    have hlevel : (b.rolled roll).usedUs = b.level ev := by
      rw [ToaBudget.level, ToaBudget.rolled]
      simp only [← hsome]
    rw [ToaBudget.Headroom, and_iff_right hfits, ToaBudget.process_eq, hroll]
    change Computes (addU64 true (b.rolled roll).usedUs b.toaUsPerEvent >>= _) ↔ _
    rw [computes_addU64_bind_iff, hlevel]
    refine and_congr_right fun hsum => ?_
    have hover : b.level ev + b.toaUsPerEvent ≤ b.budgetUs ↔
        ¬b.budgetUs.toNat < (b.level ev).toNat + b.toaUsPerEvent.toNat := by
      rw [UInt64.le_iff_toNat_le, UInt64.toNat_add, Nat.mod_eq_of_lt hsum, Nat.not_lt]
    split_ifs with hfull
    · exact iff_of_true (computes_ok _) (absurd · (hover.mp hfull))
    · rw [computes_bind_ok_iff fun _ => ⟨_, rfl⟩, computes_addU64_iff]
      exact ⟨fun h _ => h, fun h => h (not_not.mp (mt hover.mpr hfull))⟩
  · refine iff_of_false (fun h => hfits ?_) fun h => hfits h.1
    exact (computes_addU64_bind_iff.mp (computes_bind_iff.mp h).1).1

/-! ### Every operator -/

/-- The sum with the value fits into `i64`; only integers count. -/
def Value.FitsSum (sum : Int64) : Value → Prop
  | .int n => -2 ^ 63 ≤ sum.toInt + n.toInt ∧ sum.toInt + n.toInt < 2 ^ 63
  | _ => True

instance Value.decidableFitsSum (sum : Int64) : (v : Value) → Decidable (v.FitsSum sum)
  | .int _ => inferInstanceAs (Decidable (_ ∧ _))
  | .bool _ | .str _ | .bytes _ | .unit | .window _ => .isTrue trivial

theorem computes_addValue_iff {sum : Int64} {v : Value} :
    Computes (addValue true sum v) ↔ v.FitsSum sum := by
  cases v with
  | int n => exact computes_addI64_iff
  | _ => exact iff_of_true (computes_ok _) trivial

/-- The sums that the three wrapped kinds form for the event fit. -/
def NodeKind.InnerHeadroom (ev : Event) : NodeKind → Prop
  | .windowTicks w => w.Headroom ev
  | .delayTicks d => d.Headroom ev
  | _ => True

instance NodeKind.decidableInnerHeadroom (ev : Event) :
    (kind : NodeKind) → Decidable (kind.InnerHeadroom ev)
  | .windowTicks w => inferInstanceAs (Decidable (w.Headroom ev))
  | .delayTicks d => inferInstanceAs (Decidable (d.Headroom ev))
  | .source .. | .mapUpper | .mapLower | .mapTrim | .filterNonempty | .filterKind _
  | .filterPktType _ | .foldCount _ | .foldSum _ | .foldLast _ | .throttleTicks _ | .windowMs _
  | .throttleMs _ | .debounceMs _ | .budget _ | .airtimeBudget _ | .toaBudget _ | .merge | .tag _
  | .emit _ => .isTrue trivial

/-- **Headroom.** Every sum that the operator, in the state it is in, forms for the event fits. -/
def NodeKind.Headroom (ev : Event) : NodeKind → Prop
  | .foldCount count => SumFits count 1
  | .foldSum sum => ev.v.FitsSum sum
  | .windowMs inner | .throttleMs inner | .debounceMs inner => inner.InnerHeadroom ev
  | .airtimeBudget b => b.Headroom ev
  | .toaBudget b => b.Headroom ev
  | kind => kind.InnerHeadroom ev

instance NodeKind.decidableHeadroom (ev : Event) : (kind : NodeKind) → Decidable (kind.Headroom ev)
  | .foldCount count => inferInstanceAs (Decidable (SumFits count 1))
  | .foldSum sum => inferInstanceAs (Decidable (ev.v.FitsSum sum))
  | .windowMs inner | .throttleMs inner | .debounceMs inner =>
    inferInstanceAs (Decidable (inner.InnerHeadroom ev))
  | .airtimeBudget b => inferInstanceAs (Decidable (b.Headroom ev))
  | .toaBudget b => inferInstanceAs (Decidable (b.Headroom ev))
  | .windowTicks w => inferInstanceAs (Decidable (w.Headroom ev))
  | .delayTicks d => inferInstanceAs (Decidable (d.Headroom ev))
  | .source .. | .mapUpper | .mapLower | .mapTrim | .filterNonempty | .filterKind _
  | .filterPktType _ | .foldLast _ | .throttleTicks _ | .budget _ | .merge | .tag _
  | .emit _ => .isTrue trivial

/-- The windows of the operator are not empty. -/
def NodeKind.Positive : NodeKind → Prop
  | .windowTicks w => w.duration ≠ 0
  | .windowMs inner | .throttleMs inner | .debounceMs inner => inner.Positive
  | .airtimeBudget b => b.windowTicks ≠ 0
  | .toaBudget b => b.windowMs ≠ 0
  | _ => True

/-- What an operator remembers does not matter for that. -/
theorem positive_operator (kind : NodeKind) : kind.operator.Positive ↔ kind.Positive := by
  induction kind with
  | windowMs inner ih | throttleMs inner ih | debounceMs inner ih => exact ih
  | _ => exact Iff.rfl

theorem NodeKind.computes_processInner_iff {kind : NodeKind} (hpos : kind.Positive) (ev : Event) :
    Computes (kind.processInner true ev) ↔ kind.InnerHeadroom ev := by
  cases kind with
  | windowTicks w => exact computes_map_iff.trans (WindowTicks.computes_iff hpos ev)
  | delayTicks d => exact computes_map_iff.trans (d.computes_iff ev)
  | _ => exact iff_of_true (computes_ok _) trivial

/-- **Operators.** An operator with no empty window computes an event exactly if it has headroom for
it. -/
theorem NodeKind.computes_iff {kind : NodeKind} (hpos : kind.Positive) (ev : Event) :
    Computes (kind.process true ev) ↔ kind.Headroom ev := by
  cases kind with
  | foldCount count => exact computes_map_iff.trans computes_addU64_iff
  | foldSum sum => exact computes_map_iff.trans computes_addValue_iff
  | windowTicks w =>
    exact NodeKind.computes_processInner_iff (show (windowTicks w).Positive from hpos) ev
  | throttleTicks t =>
    exact NodeKind.computes_processInner_iff (show (throttleTicks t).Positive from hpos) ev
  | delayTicks d =>
    exact NodeKind.computes_processInner_iff (show (delayTicks d).Positive from hpos) ev
  | windowMs inner | throttleMs inner | debounceMs inner =>
    exact computes_map_iff.trans
      (NodeKind.computes_processInner_iff (show inner.Positive from hpos) ev)
  | airtimeBudget b => exact computes_map_iff.trans (AirtimeBudget.computes_iff hpos ev)
  | toaBudget b => exact computes_map_iff.trans (ToaBudget.computes_iff hpos ev)
  | _ => exact iff_of_true (computes_ok _) trivial

/-! ### Runs of an engine -/

/-- Every operator of the engine has no empty window. -/
def Engine.Positive (e : Engine) : Prop := ∀ node ∈ e.nodes, node.kind.Positive

theorem Engine.Positive.of_map_role {e e' : Engine} (h : e.Positive)
    (hrole : e'.nodes.map Node.role = e.nodes.map Node.role) : e'.Positive := by
  intro node' hnode'
  obtain ⟨i, hi⟩ := List.mem_iff_getElem?.mp hnode'
  obtain ⟨node, hnode, -, hoperator⟩ := exists_of_map_role hrole hi
  rw [← positive_operator, hoperator, positive_operator]
  exact h node (List.mem_of_getElem? hnode)

/-- A turn changes no operator. -/
theorem EngineTurn.map_role {checks : Bool} {e e' : Engine} (h : EngineTurn checks e e')
    (hwf : e.scheduler.Wf) : e'.nodes.map Node.role = e.nodes.map Node.role := by
  obtain ⟨item, -, node, kind, out, -, -, hnode, hprocess, hnodes, -⟩ := h.spec hwf
  rw [hnodes]
  exact map_role_set hnode (operator_process hprocess)

/-- The item that the engine takes next finds headroom at its node. -/
def Engine.TurnHeadroom (e : Engine) : Prop :=
  ∀ item scheduler, e.scheduler.pop = (some item, scheduler) →
    ∀ node, e.nodes[item.nodeId]? = some node → node.kind.Headroom item.event

/-- A step computes if the node does. -/
theorem Engine.computes_step_iff {e : Engine} (hpos : e.Positive) {item : WorkItem} :
    Computes (e.step true item) ↔
      ∀ node, e.nodes[item.nodeId]? = some node → node.kind.Headroom item.event := by
  rcases hnode : e.nodes[item.nodeId]? with _ | node
  · rw [Engine.step, hnode]
    exact iff_of_true (computes_error_iff.mpr id) (by simp)
  · have hkind := NodeKind.computes_iff (hpos node (List.mem_of_getElem? hnode)) item.event
    have hstep : Computes (e.step true item) ↔ Computes (node.process true item.event) := by
      rcases hprocess : node.process true item.event with p | ⟨out, node'⟩
      · rw [step_of_panic hnode hprocess]
        exact computes_error_iff.trans computes_error_iff.symm
      · rw [step_of_process hnode hprocess]
        exact iff_of_true (computes_ok _) (computes_ok _)
    rw [hstep, Node.process, computes_map_iff, hkind]
    constructor
    · rintro h _ ⟨⟩
      exact h
    · exact fun h => h node rfl

/-- **Runs.** A run computes exactly if every item that it takes finds headroom. -/
theorem Engine.Wf.run_computes_iff {e : Engine} (h : e.Wf) (hpos : e.Positive) (maxSteps : ℕ) :
    Computes (e.run true maxSteps) ↔
      ∀ k < maxSteps, ∀ e', Steps (EngineTurn true) k e e' → e'.TurnHeadroom := by
  induction maxSteps generalizing e with
  | zero => exact iff_of_true (computes_ok _) fun k hk => absurd hk (Nat.not_lt_zero k)
  | succ maxSteps ih =>
    rcases h.scheduler.pop_cases with ⟨-, hpop⟩ | ⟨-, item, scheduler, hpop, -, -⟩
    · -- nothing is queued, and no turn is made
      rw [Engine.run, hpop]
      refine iff_of_true (computes_ok _) ?_
      rintro (_ | k) - e' hsteps item scheduler' hpop'
      · obtain ⟨⟩ := hsteps
        cases hpop.symm.trans hpop'
      · obtain ⟨e₁, ⟨item', scheduler₁, hpop₁, -⟩, -⟩ := hsteps.exists_head
        cases hpop.symm.trans hpop₁
    · -- the run is one turn and the rest of the run
      have hrun : e.run true (maxSteps + 1) =
          Engine.step true { e with scheduler := scheduler } item >>= fun e₁ =>
            (e₁.run true maxSteps).map fun r => (r.1 + 1, r.2) := by
        rw [Engine.run, hpop]
        dsimp only
        rcases Engine.step true { e with scheduler := scheduler } item with _ | e₁ <;> rfl
      have hhead : e.TurnHeadroom ↔
          ∀ node, e.nodes[item.nodeId]? = some node → node.kind.Headroom item.event := by
        refine ⟨fun hhead => hhead item scheduler hpop, fun hnode item' scheduler' hpop' => ?_⟩
        obtain ⟨heq, -⟩ := Prod.mk.inj (hpop.symm.trans hpop')
        obtain rfl := Option.some.inj heq
        exact hnode
      have hpos' : Engine.Positive { e with scheduler := scheduler } := hpos
      have hstep_iff : Computes (Engine.step true { e with scheduler := scheduler } item) ↔
          e.TurnHeadroom := (Engine.computes_step_iff hpos').trans hhead.symm
      rw [hrun, computes_bind_iff, hstep_iff]
      constructor
      · rintro ⟨hfirst, hrest⟩ (_ | k) hk e' hsteps
        · obtain ⟨⟩ := hsteps
          exact hfirst
        · obtain ⟨e₁, ⟨item', scheduler', hpop', hstep⟩, hsteps⟩ := hsteps.exists_head
          obtain ⟨heq, rfl⟩ := Prod.mk.inj (hpop.symm.trans hpop')
          obtain rfl := Option.some.inj heq
          have hturn : EngineTurn true e e₁ := ⟨item, scheduler, hpop, hstep⟩
          have hpos₁ := hpos.of_map_role (hturn.map_role h.scheduler)
          exact (ih (h.turn hturn).1 hpos₁).mp (computes_map_iff.mp (hrest e₁ hstep)) k
            (Nat.lt_of_succ_lt_succ hk) e' hsteps
      · intro hall
        refine ⟨hall 0 (Nat.succ_pos _) e (.refl e), fun e₁ hstep => computes_map_iff.mpr ?_⟩
        have hturn : EngineTurn true e e₁ := ⟨item, scheduler, hpop, hstep⟩
        have hpos₁ := hpos.of_map_role (hturn.map_role h.scheduler)
        exact (ih (h.turn hturn).1 hpos₁).mpr fun k hk e' hsteps =>
          hall (k + 1) (Nat.succ_lt_succ hk) e' (hsteps.head hturn)

end Rivr.Core
