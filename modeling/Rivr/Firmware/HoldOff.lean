import Mathlib.Algebra.Ring.Nat
import Rivr.Firmware.Reception
import Rivr.Firmware.RelayNode

/-!
# The hold-off of a relay

A relay gets a time before which it is not to be sent, on a clock of 32 bits. The drain loop
compares this time with the clock as two numbers. It never loses a frame that it puts back
(`count_txDrainLoop`), and it takes out the frames whose time has come as long as the clock does not
wrap between the time and the drain, and only then (`holdOff_iff`).
-/

namespace Rivr

/-! ### Times on a clock that wraps -/

/-- The milliseconds between two times, the shorter way around the clock. -/
def clockDist (a b : UInt32) : ℕ := min (a - b).toNat (b - a).toNat

/-- The clock has reached the time, less than half a turn ago. -/
def ClockReached (dueMs nowMs : UInt32) : Prop := (nowMs - dueMs).toNat < 2 ^ 31

instance (dueMs nowMs : UInt32) : Decidable (ClockReached dueMs nowMs) :=
  inferInstanceAs (Decidable (_ < _))

/-- The clock does not wrap between the two times. -/
def NoWrapBetween (dueMs nowMs : UInt32) : Prop :=
  dueMs.toNat < nowMs.toNat + 2 ^ 31 ∧ nowMs.toNat < dueMs.toNat + 2 ^ 31

instance (dueMs nowMs : UInt32) : Decidable (NoWrapBetween dueMs nowMs) :=
  inferInstanceAs (Decidable (_ ∧ _))

theorem toNat_sub_cases (a b : UInt32) :
    (a - b).toNat = if b.toNat ≤ a.toNat then a.toNat - b.toNat
      else a.toNat + 2 ^ 32 - b.toNat := by
  rw [UInt32.toNat_sub]
  have ha := a.toNat_lt
  have hb := b.toNat_lt
  split_ifs <;> omega

/-- The time 0, which stands for no hold-off, makes no difference to this. -/
theorem waits_iff {req : RfTxRequest} {nowMs : UInt32} :
    req.Waits nowMs ↔ nowMs.toNat < req.dueMs.toNat := by
  rw [RfTxRequest.Waits, gt_iff_lt, UInt32.lt_iff_toNat_lt, and_iff_right_iff_imp]
  intro hlt hzero
  rw [hzero] at hlt
  exact absurd hlt (Nat.not_lt_zero _)

/-- **The comparison of two times as numbers** is the comparison on the clock exactly if the clock
does not wrap between them. -/
theorem lt_iff_not_clockReached_iff {dueMs nowMs : UInt32} (hnear : clockDist dueMs nowMs < 2 ^ 31) :
    (nowMs.toNat < dueMs.toNat ↔ ¬ClockReached dueMs nowMs) ↔ NoWrapBetween dueMs nowMs := by
  have hdue := dueMs.toNat_lt
  have hnow := nowMs.toNat_lt
  rw [clockDist, toNat_sub_cases, toNat_sub_cases, min_lt_iff] at hnear
  rw [ClockReached, NoWrapBetween, toNat_sub_cases]
  split_ifs at hnear ⊢ <;> omega

/-! ### What a drain pops -/

variable {build : RelayBuild} {node : RelayNode build} {nowMs : UInt32} {radio : ℕ → RadioOutcome}
  {n : ℕ} {req : RfTxRequest}

/-- The requests that the iterations of the loop pop, oldest first. -/
def drainPops (nowMs : UInt32) (radio : ℕ → RadioOutcome) :
    ℕ → RelayNode build → List RfTxRequest
  | 0, _ => []
  | n + 1, node =>
    match rbPop node.txQueue with
    | (none, _) => []
    | (some req, txQueue) =>
      let node := { node with txQueue := txQueue }
      req :: drainPops nowMs radio n
        (if req.Waits nowMs then { node with txQueue := (rbTryPush txQueue req).2 }
          else (node.send req nowMs (radio n)).2)

@[simp]
theorem send_txQueue (node : RelayNode build) (req : RfTxRequest) (nowMs : UInt32)
    (radio : RadioOutcome) : (node.send req nowMs radio).2.txQueue = node.txQueue := by
  rw [RelayNode.send]
  dsimp only
  split_ifs <;> simp

/-- The slot of the request that was popped is free. -/
theorem items_requeue {q rest : TxQueue} (h : q.items = req :: rest.items) :
    (rbTryPush rest req).2.items = rest.items ++ [req] := by
  have hroom : rest.items.length + 1 < rfTxQueueCap := by
    have hlt := q.length_lt
    rwa [h, List.length_cons] at hlt
  rw [rbTryPush, dif_pos hroom]

/-- A drain takes out those of the popped requests that do not wait. -/
theorem turns_eq_filter (nowMs : UInt32) (radio : ℕ → RadioOutcome) (n : ℕ)
    (node : RelayNode build) : (txDrainLoop nowMs radio n node).1.map TxTurn.req =
      (drainPops nowMs radio n node).filter fun req => ¬req.Waits nowMs := by
  induction n generalizing node with
  | zero => rfl
  | succ n ih =>
    rw [txDrainLoop, drainPops]
    rcases rbPop_cases node.txQueue with hpop | ⟨req, rest, hpop, -⟩
    · rw [hpop]
      rfl
    · rw [hpop]
      dsimp only
      by_cases hwaits : req.Waits nowMs
      · rw [if_pos hwaits, if_pos hwaits, List.filter_cons_of_neg (by simpa using hwaits)]
        exact ih _
      · rw [if_neg hwaits, if_neg hwaits, List.filter_cons_of_pos (by simpa using hwaits),
          List.map_cons, ih]

theorem taken_iff (h : req ∈ drainPops nowMs radio n node) :
    req ∈ (txDrainLoop nowMs radio n node).1.map TxTurn.req ↔ ¬req.Waits nowMs := by
  rw [turns_eq_filter, List.mem_filter, decide_eq_true_eq, and_iff_right h]

/-- What a drain takes out and what it leaves is what was in the queue. -/
theorem perm_txDrainLoop (nowMs : UInt32) (radio : ℕ → RadioOutcome) (n : ℕ)
    (node : RelayNode build) : ((txDrainLoop nowMs radio n node).1.map TxTurn.req ++
      (txDrainLoop nowMs radio n node).2.txQueue.items).Perm node.txQueue.items := by
  induction n generalizing node with
  | zero => exact .refl _
  | succ n ih =>
    rw [txDrainLoop]
    rcases rbPop_cases node.txQueue with hpop | ⟨req, rest, hpop, hitems⟩
    · rw [hpop]
      exact .refl _
    · rw [hpop, hitems]
      dsimp only
      split_ifs with hwaits
      · refine (ih _).trans ?_
        rw [items_requeue hitems]
        exact List.perm_append_singleton req rest.items
      · have hrest := ih (RelayNode.send { node with txQueue := rest } req nowMs (radio n)).2
        rw [send_txQueue] at hrest
        exact hrest.cons req

/-- **A request that waits is never lost**: it is in the queue as often as before. -/
theorem count_txDrainLoop (hwaits : req.Waits nowMs) :
    (txDrainLoop nowMs radio n node).2.txQueue.items.count req = node.txQueue.items.count req := by
  have hnot : req ∉ (txDrainLoop nowMs radio n node).1.map TxTurn.req := by
    rw [turns_eq_filter, List.mem_filter, decide_eq_true_eq]
    exact fun h => h.2 hwaits
  rw [← (perm_txDrainLoop nowMs radio n node).count_eq req, List.count_append,
    List.count_eq_zero_of_not_mem hnot, Nat.zero_add]

/-! ### The law -/

/-- The drain takes the request out exactly if its time has come, and otherwise loses none of it. -/
structure HoldOffHonoured (nowMs : UInt32) (radio : ℕ → RadioOutcome) (n : ℕ)
    (node : RelayNode build) (req : RfTxRequest) : Prop where
  taken : req ∈ (txDrainLoop nowMs radio n node).1.map TxTurn.req ↔ ClockReached req.dueMs nowMs
  kept : req ∉ (txDrainLoop nowMs radio n node).1.map TxTurn.req →
    (txDrainLoop nowMs radio n node).2.txQueue.items.count req = node.txQueue.items.count req

/-- The time that the relay step gives a request. -/
theorem dueMs_of_relayOffer {cfg : BuildConfig} {node : RadioNode cfg} {env : RxVerdicts}
    {frame : RfRxFrame} {fwdHdr : RivrPktHdr} {pl : Option (List UInt8)}
    (h : node.relayOffer env frame fwdHdr pl nowMs = some req) :
    req.dueMs = nowMs + env.delayMs := by
  rw [RadioNode.relayOffer, RadioNode.relayRequest] at h
  split_ifs at h
  obtain ⟨_, -, rfl⟩ := Option.map_eq_some_iff.mp h
  rfl

/-- **The hold-off of a request** that a drain pops is honoured exactly if the clock does not wrap
between its time and the drain. -/
theorem holdOff_iff (node : RelayNode build) (nowMs : UInt32) (radio : ℕ → RadioOutcome) (n : ℕ)
    (req : RfTxRequest) (hpop : req ∈ drainPops nowMs radio n node)
    (hnear : clockDist req.dueMs nowMs < 2 ^ 31) :
    HoldOffHonoured nowMs radio n node req ↔ NoWrapBetween req.dueMs nowMs := by
  rw [← lt_iff_not_clockReached_iff hnear, ← waits_iff]
  constructor
  · intro h
    rw [← not_iff_not, not_not, ← taken_iff hpop]
    exact h.taken
  · intro h
    refine ⟨?_, fun hkept => count_txDrainLoop ?_⟩
    · rw [taken_iff hpop, h, not_not]
    · rwa [taken_iff hpop, not_not] at hkept

/-- A client that holds one request back. -/
def heldNode (dueMs : UInt32) : RelayNode ⟨clientBuild, false⟩ :=
  { RelayNode.init ⟨clientBuild, false⟩ .client 1 0 with
    txQueue := ⟨[⟨[1], 1000, dueMs⟩], by rw [List.length_singleton]; decide⟩ }

theorem mem_drainPops_heldNode (dueMs nowMs : UInt32) (radio : ℕ → RadioOutcome) :
    ⟨[1], 1000, dueMs⟩ ∈ drainPops nowMs radio txDrainLimit (heldNode dueMs) :=
  List.mem_cons_self

/-- The law for a request that is due 8 ms after the drain. -/
theorem holdOff_iff_heldNode :
    HoldOffHonoured 1000 (fun _ => ⟨true, 1001⟩) txDrainLimit (heldNode 1008) ⟨[1], 1000, 1008⟩ ↔
      NoWrapBetween 1008 1000 :=
  holdOff_iff (heldNode 1008) 1000 (fun _ => ⟨true, 1001⟩) txDrainLimit ⟨[1], 1000, 1008⟩
    (mem_drainPops_heldNode _ _ _) (by decide)

/-- **A relay that misses its time.** It is due 16 ms before the clock wraps, and is put back 21 ms
after that. -/
theorem not_holdOff_honoured : ¬∀ (build : RelayBuild) (node : RelayNode build) (nowMs : UInt32)
    (radio : ℕ → RadioOutcome) (n : ℕ), ∀ req ∈ drainPops nowMs radio n node,
      clockDist req.dueMs nowMs < 2 ^ 31 → HoldOffHonoured nowMs radio n node req := by
  intro hall
  have hheld := hall _ (heldNode 0xFFFFFFF0) 5 (fun _ => ⟨true, 6⟩) txDrainLimit
    ⟨[1], 1000, 0xFFFFFFF0⟩ (mem_drainPops_heldNode _ _ _) (by decide)
  have hwaits : RfTxRequest.Waits ⟨[1], 1000, 0xFFFFFFF0⟩ 5 := by decide
  exact (taken_iff (mem_drainPops_heldNode _ _ _)).mp (hheld.taken.mpr (by decide)) hwaits

end Rivr
