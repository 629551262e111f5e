import Rivr.Core.FlushAll
import Rivr.Core.Unnumbered
import Rivr.Firmware.EmbedEngine

/-!
# Running the engine in chunks

`rivr_engine_run` of `rivr_core/src/ffi.rs`: the steps of one call are made in chunks, so that the
watchdog is kicked in between, and the report says how many were made and how many were left.

The chunks make the steps of one run of the engine. The number of steps left is zero when the
engine was cut off, but also when its work ended exactly with the last step that was allowed.
-/

namespace Rivr

open Worklist
open Rivr.Core (Engine EngineTurn Panic WorkItem)

/-- `WATCHDOG_INTERVAL`. -/
def watchdogInterval : UInt32 := 64

/-- What `rivr_engine_run` reports beside its code. -/
structure RunReport where
  cyclesUsed : UInt32
  gasRemaining : UInt32
  deriving DecidableEq, Repr

/-- `a + b` on `u32`. -/
def addU32 (checks : Bool) (a b : UInt32) : Except Panic UInt32 :=
  if checks && decide (2 ^ 32 ≤ a.toNat + b.toNat) then .error .arithmeticOverflow else .ok (a + b)

/-- `a.saturating_sub(b)` on `u32`. -/
def satSubU32 (a b : UInt32) : UInt32 := if a < b then 0 else a - b

/-- The next chunk of a budget is not empty, and taking it off makes the budget smaller. -/
theorem satSubU32_min_lt {budget : UInt32} (h : budget ≠ 0) :
    (satSubU32 budget (min budget watchdogInterval)).toNat < budget.toNat := by
  have hpos : 0 < budget.toNat := Nat.pos_of_ne_zero fun h0 => h (UInt32.toNat_inj.mp h0)
  have hmin : (min budget watchdogInterval).toNat = min budget.toNat 64 := by
    rw [UInt32.toNat_min]
    rfl
  rw [satSubU32]
  split_ifs with hlt
  · exact hpos
  · rw [UInt32.toNat_sub_of_le _ _ (UInt32.not_lt.mp hlt), hmin]
    omega

/-- The loop of `rivr_engine_run`: the number of steps made in all, and the engine left. -/
def runChunks (checks : Bool) (budget total : UInt32) (engine : Engine) :
    Except Panic (UInt32 × Engine) :=
  if _ : budget = 0 then .ok (total, engine)
  else
    let chunk := min budget watchdogInterval
    match engine.run checks chunk.toNat with
    | .error p => .error p
    | .ok (n, engine) =>
      let done := UInt32.ofNat n
      match addU32 checks total done with
      | .error p => .error p
      | .ok total =>
        if done < chunk then .ok (total, engine)
        else runChunks checks (satSubU32 budget chunk) total engine
termination_by budget.toNat
decreasing_by exact satSubU32_min_lt ‹_›

/-- `rivr_engine_run`. -/
def rivrEngineRun (checks : Bool) (maxSteps : UInt32) (slot : EngineSlot) :
    RivrResult (RunReport × EngineSlot) :=
  match slot.engine with
  | none => .err .notInit
  | some engine =>
    match runChunks checks maxSteps 0 engine with
    | .error _ => .panic
    | .ok (total, engine) =>
      .ok (⟨total, satSubU32 maxSteps total⟩, { slot with engine := some engine })

/-- What the runs of the loop process, one after the other. -/
def chunksProcessed (checks : Bool) (budget : UInt32) (engine : Engine) :
    List (ℕ × Core.Stamp × Core.Value) :=
  if _ : budget = 0 then []
  else
    let chunk := min budget watchdogInterval
    engine.processed checks chunk.toNat ++
      match engine.run checks chunk.toNat with
      | .error _ => []
      | .ok (n, engine) =>
        if UInt32.ofNat n < chunk then []
        else chunksProcessed checks (satSubU32 budget chunk) engine
termination_by budget.toNat
decreasing_by exact satSubU32_min_lt ‹_›

/-! ### A run in two parts -/

variable {checks : Bool}

/-- No run makes more steps than it may. -/
theorem run_le {maxSteps n : ℕ} {e e' : Engine} (h : e.run checks maxSteps = .ok (n, e')) :
    n ≤ maxSteps := by
  induction maxSteps generalizing e n with
  | zero => exact (Prod.mk.inj (Except.ok.inj h)).1.ge
  | succ maxSteps ih =>
    rw [Engine.run] at h
    rcases hpop : e.scheduler.pop with ⟨_ | item, scheduler⟩
    · rw [hpop] at h
      obtain ⟨rfl, -⟩ := Prod.mk.inj (Except.ok.inj h)
      exact Nat.zero_le _
    · rw [hpop] at h
      dsimp only at h
      rcases hstep : Engine.step checks { e with scheduler := scheduler } item with p | e₁
      · rw [hstep] at h
        cases h
      · rw [hstep] at h
        obtain ⟨⟨m, e₂⟩, hrun, heq⟩ := Except.of_map_eq_ok h
        obtain ⟨rfl, rfl⟩ := Prod.mk.inj heq
        exact Nat.succ_le_succ (ih hrun)

/-- **A run in two parts.** A run stops in its first part, for want of work or in a panic, or goes
on from where this part ends. -/
theorem run_add (a b : ℕ) (e : Engine) :
    e.run checks (a + b) = (e.run checks a).bind fun r =>
      if r.1 < a then .ok r else (r.2.run checks b).map fun r' => (r.1 + r'.1, r'.2) := by
  induction a generalizing e with
  | zero =>
    rw [Nat.zero_add]
    rcases hrun : e.run checks b with p | ⟨n, e'⟩ <;>
      simp [Engine.run, Except.bind, Except.map, hrun]
  | succ a ih =>
    rw [Nat.succ_add, Engine.run, Engine.run]
    rcases e.scheduler.pop with ⟨_ | item, scheduler⟩
    · rfl
    · dsimp only
      rcases Engine.step checks { e with scheduler := scheduler } item with p | e₁
      · rfl
      · dsimp only
        rw [ih e₁]
        rcases e₁.run checks a with p | ⟨n, e₂⟩
        · rfl
        · by_cases hlt : n < a
          · simp [Except.bind, Except.map, hlt]
          · rcases hrest : e₂.run checks b with p | ⟨m, e₃⟩ <;>
              simp [Except.bind, Except.map, hlt, hrest, Nat.add_right_comm]

/-- What a run in two parts processes. -/
theorem processed_add (a b : ℕ) (e : Engine) :
    e.processed checks (a + b) = e.processed checks a ++
      match e.run checks a with
      | .error _ => []
      | .ok (n, e') => if n < a then [] else e'.processed checks b := by
  induction a generalizing e with
  | zero => simp [Engine.run, Engine.processed]
  | succ a ih =>
    rw [Nat.succ_add, Engine.run, Engine.processed, Engine.processed]
    rcases e.scheduler.pop with ⟨_ | item, scheduler⟩
    · rfl
    · dsimp only
      rcases Engine.step checks { e with scheduler := scheduler } item with p | e₁
      · rfl
      · dsimp only
        rw [ih e₁, List.cons_append]
        rcases e₁.run checks a with p | ⟨n, e₂⟩
        · rfl
        · simp [Except.map]

/-! ### The chunks make one run -/

private theorem toNat_chunk (budget : UInt32) :
    (min budget watchdogInterval).toNat = min budget.toNat 64 := by
  rw [UInt32.toNat_min]
  rfl

/-- A chunk and what it leaves of the budget make up the budget. -/
theorem toNat_chunk_add (budget : UInt32) :
    (min budget watchdogInterval).toNat +
      (satSubU32 budget (min budget watchdogInterval)).toNat = budget.toNat := by
  have hle : min budget watchdogInterval ≤ budget := by
    rw [UInt32.le_iff_toNat_le, toNat_chunk]
    exact min_le_left _ _
  rw [satSubU32, if_neg (UInt32.not_lt.mpr hle), UInt32.toNat_sub_of_le _ _ hle]
  exact Nat.add_sub_cancel' (UInt32.le_iff_toNat_le.mp hle)

theorem toNat_ofNat_of_le_toNat {n : ℕ} {a : UInt32} (h : n ≤ a.toNat) : (UInt32.ofNat n).toNat = n :=
  UInt32.toNat_ofNat_of_lt' (h.trans_lt a.toNat_lt)

theorem ofNat_lt_iff {n : ℕ} {a : UInt32} (h : n ≤ a.toNat) : UInt32.ofNat n < a ↔ n < a.toNat := by
  rw [UInt32.lt_iff_toNat_lt, toNat_ofNat_of_le_toNat h]

theorem addU32_of_lt {a b : UInt32} (h : a.toNat + b.toNat < 2 ^ 32) :
    addU32 checks a b = .ok (a + b) :=
  if_neg (by simpa using fun _ => h)

/-- **The chunks make one run**, and the count of its steps does not overflow. -/
theorem runChunks_eq {budget total : UInt32} (e : Engine)
    (htotal : total.toNat + budget.toNat < 2 ^ 32) :
    runChunks checks budget total e =
      (e.run checks budget.toNat).map fun r => (total + UInt32.ofNat r.1, r.2) := by
  induction hbudget : budget.toNat using Nat.strong_induction_on generalizing budget total e with
  | _ n ih =>
    subst hbudget
    rw [runChunks]
    by_cases hzero : budget = 0
    · subst hzero
      simp [Engine.run, Except.map]
    rw [dif_neg hzero]
    dsimp only
    have hsplit := toNat_chunk_add budget
    set chunk := min budget watchdogInterval with hchunk
    set rest := satSubU32 budget chunk with hrest
    have hrun : e.run checks budget.toNat = e.run checks (chunk.toNat + rest.toNat) := by rw [hsplit]
    rw [hrun, run_add]
    rcases hfirst : e.run checks chunk.toNat with p | ⟨n, e₁⟩
    · rfl
    have hn : n ≤ chunk.toNat := run_le hfirst
    have hdone : (UInt32.ofNat n).toNat = n := toNat_ofNat_of_le_toNat hn
    have hadd : addU32 checks total (UInt32.ofNat n) = .ok (total + UInt32.ofNat n) :=
      addU32_of_lt (by omega)
    dsimp only [Except.bind]
    rw [hadd]
    dsimp only
    -- a chunk that made fewer steps than it might has come to rest
    by_cases hlt : n < chunk.toNat
    · rw [if_pos hlt, if_pos ((ofNat_lt_iff hn).mpr hlt)]
      rfl
    · rw [if_neg hlt, if_neg (mt (ofNat_lt_iff hn).mp hlt)]
      have hsum : (total + UInt32.ofNat n).toNat = total.toNat + n := by
        rw [UInt32.toNat_add, hdone]
        exact Nat.mod_eq_of_lt (by omega)
      rw [ih rest.toNat (satSubU32_min_lt hzero) e₁ (by omega) rfl]
      rcases e₁.run checks rest.toNat with p | ⟨m, e₂⟩
      · rfl
      · simp [Except.map, UInt32.add_assoc, UInt32.ofNat_add]

/-- So they process what one run processes. -/
theorem chunksProcessed_eq (budget : UInt32) (e : Engine) :
    chunksProcessed checks budget e = e.processed checks budget.toNat := by
  induction hbudget : budget.toNat using Nat.strong_induction_on generalizing budget e with
  | _ n ih =>
    subst hbudget
    rw [chunksProcessed]
    by_cases hzero : budget = 0
    · subst hzero
      rfl
    rw [dif_neg hzero]
    dsimp only
    have hsplit := toNat_chunk_add budget
    set chunk := min budget watchdogInterval with hchunk
    set rest := satSubU32 budget chunk with hrest
    have hprocessed : e.processed checks budget.toNat =
        e.processed checks (chunk.toNat + rest.toNat) := by rw [hsplit]
    rw [hprocessed, processed_add]
    rcases hfirst : e.run checks chunk.toNat with p | ⟨n, e₁⟩
    · rfl
    dsimp only
    rw [ih rest.toNat (satSubU32_min_lt hzero) rest e₁ rfl]
    simp only [ofNat_lt_iff (run_le hfirst)]

/-- What the call comes to, in terms of one run of the engine. -/
theorem rivrEngineRun_eq (checks frozen : Bool) (e : Engine) (maxSteps : UInt32) :
    rivrEngineRun checks maxSteps ⟨some e, frozen⟩ =
      match e.run checks maxSteps.toNat with
      | .error _ => .panic
      | .ok (n, e') =>
        .ok (⟨UInt32.ofNat n, maxSteps - UInt32.ofNat n⟩, ⟨some e', frozen⟩) := by
  have htotal : (0 : UInt32).toNat + maxSteps.toNat < 2 ^ 32 := by
    rw [UInt32.toNat_zero, Nat.zero_add]
    exact maxSteps.toNat_lt
  rw [rivrEngineRun]
  dsimp only
  rw [runChunks_eq e htotal]
  rcases hrun : e.run checks maxSteps.toNat with p | ⟨n, e'⟩
  · rfl
  have hle : ¬maxSteps < UInt32.ofNat n := by
    rw [UInt32.lt_iff_toNat_lt, toNat_ofNat_of_le_toNat (run_le hrun)]
    exact Nat.not_lt.mpr (run_le hrun)
  simp [Except.map, satSubU32, hle]

/-- **A chunked run is one run**: it processes the same, ends in the same engine or panics with it,
and reports the steps it made. -/
theorem rivrEngineRun_eq_run (checks frozen : Bool) (e : Engine) (maxSteps : UInt32) :
    chunksProcessed checks maxSteps e = e.processed checks maxSteps.toNat ∧
      match e.run checks maxSteps.toNat with
      | .error _ => rivrEngineRun checks maxSteps ⟨some e, frozen⟩ = .panic
      | .ok (n, e') => ∃ report,
        rivrEngineRun checks maxSteps ⟨some e, frozen⟩ = .ok (report, ⟨some e', frozen⟩) ∧
          report.cyclesUsed.toNat = n := by
  refine ⟨chunksProcessed_eq maxSteps e, ?_⟩
  have hcall := rivrEngineRun_eq checks frozen e maxSteps
  rcases hrun : e.run checks maxSteps.toNat with p | ⟨n, e'⟩
  · rw [hrun] at hcall
    exact hcall
  · rw [hrun] at hcall
    exact ⟨_, hcall, toNat_ofNat_of_le_toNat (run_le hrun)⟩

/-! ### The gas that is left -/

/-- The work of an engine, with all it gives rise to, takes exactly so many turns. -/
def WorkTakes (checks : Bool) (n : ℕ) (e : Engine) : Prop :=
  ∃ e', Steps (EngineTurn checks) n e e' ∧ e'.scheduler.pending = 0

/-- **The flag is exact**: no gas is reported to be left exactly when events are. -/
def GasExact (checks frozen : Bool) (maxSteps : UInt32) (e : Engine) : Prop :=
  ∀ report e', rivrEngineRun checks maxSteps ⟨some e, frozen⟩ = .ok (report, ⟨some e', frozen⟩) →
    (report.gasRemaining = 0 ↔ e'.scheduler.pending ≠ 0)

/-- Turns that can be made are made by a run of as many steps. -/
theorem run_of_steps {n : ℕ} {e e' : Engine} (h : Steps (EngineTurn checks) n e e') :
    e.run checks n = .ok (n, e') := by
  induction h with
  | refl e => rfl
  | tail _ hlast ih =>
    obtain ⟨item, scheduler, hpop, hstep⟩ := hlast
    rw [run_add, ih]
    simp [Except.bind, Except.map, Engine.run, hpop, hstep]

/-- The work takes so many turns exactly when a run makes them and ends idle. -/
theorem workTakes_iff {n : ℕ} {e : Engine} (h : e.scheduler.Wf) :
    WorkTakes checks n e ↔ ∃ e', e.run checks n = .ok (n, e') ∧ e'.scheduler.pending = 0 := by
  constructor
  · rintro ⟨e', hsteps, hidle⟩
    exact ⟨e', run_of_steps hsteps, hidle⟩
  · rintro ⟨e', hrun, hidle⟩
    exact ⟨e', (Engine.run_turns h hrun).1, hidle⟩

/-- **Gas.** The flag is exact unless the work of the engine takes exactly the steps it is given. -/
theorem gasExact_iff (checks frozen : Bool) (maxSteps : UInt32) (e : Engine)
    (h : e.scheduler.Wf) :
    GasExact checks frozen maxSteps e ↔ ¬WorkTakes checks maxSteps.toNat e := by
  have hcall := rivrEngineRun_eq checks frozen e maxSteps
  rw [workTakes_iff h]
  rcases hrun : e.run checks maxSteps.toNat with p | ⟨n, e'⟩
  · rw [hrun] at hcall
    refine iff_of_true ?_ ?_
    · intro report e'' hreport
      rw [hcall] at hreport
      exact nomatch hreport
    · rintro ⟨e'', hok, -⟩
      exact nomatch hok
  rw [hrun] at hcall
  have hle : n ≤ maxSteps.toNat := run_le hrun
  -- no gas is left after as many steps as were allowed
  have hgas : maxSteps - UInt32.ofNat n = 0 ↔ n = maxSteps.toNat := by
    rw [← UInt32.toNat_inj, UInt32.toNat_sub_of_le, toNat_ofNat_of_le_toNat hle, UInt32.toNat_zero]
    · omega
    · rw [UInt32.le_iff_toNat_le, toNat_ofNat_of_le_toNat hle]
      exact hle
  have hexact : GasExact checks frozen maxSteps e ↔
      (n = maxSteps.toNat ↔ e'.scheduler.pending ≠ 0) := by
    rw [← hgas]
    constructor
    · exact fun hflag => hflag _ _ hcall
    · intro hflag report e'' hreport
      obtain ⟨rfl, hslot⟩ := Prod.mk.inj (RivrResult.ok.inj (hcall.symm.trans hreport))
      obtain rfl : e' = e'' := by simpa using hslot
      exact hflag
  rw [hexact]
  constructor
  · rintro hflag ⟨e'', hok, hidle⟩
    obtain ⟨rfl, rfl⟩ := Prod.mk.inj (Except.ok.inj hok)
    exact hflag.mp rfl hidle
  · intro hbusy
    constructor
    · rintro rfl hidle
      exact hbusy ⟨e', rfl, hidle⟩
    · intro hpending
      by_contra hne
      exact hpending ((Engine.run_turns h hrun).2 (Nat.lt_of_le_of_ne hle hne))

/-- The engine of `source b = rf;`. -/
def oneSource : Engine :=
  { Engine.new with
    nodes := [Core.Node.new 0 "b" (.source "b" 0 none)]
    sourceIds := [("b", 0)]
    streamIds := [("b", 0)] }

/-- The same engine when one event is pending. -/
def oneEvent : Engine :=
  { oneSource with scheduler := Core.Scheduler.new.push 0 ⟨⟨0, 1⟩, .unit, none, 0⟩ }

theorem wf_oneEvent : oneEvent.scheduler.Wf := Core.Scheduler.wf_new.push _ _

theorem gasExact_iff_oneEvent :
    GasExact true false 2 oneEvent ↔ ¬WorkTakes true (2 : UInt32).toNat oneEvent :=
  gasExact_iff true false 2 oneEvent wf_oneEvent

/-- One step is allowed, it is made, and nothing is left to do; the report says that the engine was
cut off. The engine is that of `source b = rf;` after one event. -/
theorem not_gasExact :
    (¬∀ (e : Engine) (maxSteps : UInt32), e.scheduler.Wf → 0 < maxSteps →
      GasExact true false maxSteps e) ∧
    ∃ warnings, ∃ e e' : Engine,
      Core.compile ⟨[.source "b" none .rf]⟩ = .ok (oneSource, warnings) ∧
      oneSource.inject "b" ⟨⟨0, 1⟩, .unit, none, 0⟩ = .ok e ∧
      rivrEngineRun true 1 ⟨some e, false⟩ = .ok (⟨1, 0⟩, ⟨some e', false⟩) ∧
      e'.scheduler.isIdle = true := by
  constructor
  · intro hflag
    have hrun := rivrEngineRun_eq true false oneEvent 1
    exact (hflag oneEvent 1 wf_oneEvent (by decide) _ _ hrun).mp rfl rfl
  · refine ⟨_, _, ?_, rfl, rfl, ?_, ?_⟩
    rotate_left
    · exact rivrEngineRun_eq true false _ 1
    · rfl

end Rivr
