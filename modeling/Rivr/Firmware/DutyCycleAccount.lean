import Mathlib.Algebra.Ring.Nat
import Rivr.Firmware.DutyCycle

/-!
# The account of the duty-cycle limiter

Checks and records in any order, at any times: the running total is the airtime of the slots in use.
The limiter in which a subtraction below zero would end the run (`DcCtx.stepChecked`) does the same,
so no subtraction falls below zero, and the guard of the eviction is never needed
(`dutycycle_accounted`).
-/

namespace Rivr

/-! ### Runs -/

/-- A call of the limiter. -/
inductive DcCall where
  | check (nowMs toaUs : UInt32)
  | record (nowMs toaUs : UInt32)

/-- The limiter after a call. -/
def DcCtx.step (dc : DcCtx) : DcCall → DcCtx
  | .check nowMs toaUs => (dutycycleCheck dc nowMs toaUs).2
  | .record nowMs toaUs => dutycycleRecord dc nowMs toaUs

/-- The limiter after some calls. -/
def dcAfter (calls : List DcCall) : DcCtx := calls.foldl DcCtx.step dutycycleInit

/-! ### The limiter with checked subtractions -/

/-- A subtraction that does not fall below zero. -/
def subChecked (a b : UInt64) : Option UInt64 := if b ≤ a then some (a - b) else none

/-- `expire_old` with checked subtractions. -/
def expireSlotsChecked (nowMs : UInt32) :
    List DcTxRecord → UInt64 → Option (List DcTxRecord × UInt64)
  | [], used => some ([], used)
  | r :: rs, used =>
    if r.txEndMs = 0 then
      (expireSlotsChecked nowMs rs used).map fun (slots, used) => (r :: slots, used)
    else if nowMs - r.txEndMs > dcWindowMs then do
      let used ← subChecked used r.toaUs.toUInt64
      (expireSlotsChecked nowMs rs used).map fun (slots, used) => (.empty :: slots, used)
    else (expireSlotsChecked nowMs rs used).map fun (slots, used) => (r :: slots, used)

/-- The eviction without its guard. -/
def DcCtx.evictChecked (dc : DcCtx) (idx : ℕ) : Option DcCtx :=
  (subChecked dc.usedUs (dc.history.getD idx .empty).toaUs.toUInt64).map fun used =>
    { dc with usedUs := used }

/-- A call, unless a subtraction falls below zero. -/
def DcCtx.stepChecked (dc : DcCtx) (call : DcCall) : Option DcCtx :=
  match call with
  | .check nowMs toaUs =>
    (expireSlotsChecked nowMs dc.history dc.usedUs).map fun _ =>
      (dutycycleCheck dc nowMs toaUs).2
  | .record nowMs toaUs =>
    (expireSlotsChecked nowMs dc.history dc.usedUs).bind fun _ =>
      match (expireOld dc nowMs).search nowMs with
      | (some freeIdx, _) => some ((expireOld dc nowMs).write freeIdx nowMs toaUs)
      | (none, lruIdx) =>
        ((expireOld dc nowMs).evictChecked lruIdx).map fun dc => dc.write lruIdx nowMs toaUs

variable {dc : DcCtx} {nowMs toaUs : UInt32} {slots : List DcTxRecord} {used : UInt64}

theorem subChecked_of_le {a b : UInt64} (h : b.toNat ≤ a.toNat) : subChecked a b = some (a - b) :=
  if_pos (UInt64.le_iff_toNat_le.mpr h)

/-- Expiry takes off the total what is part of it. -/
theorem expireSlotsChecked_eq (nowMs : UInt32) (slots : List DcTxRecord) (used : UInt64)
    (hle : airtime (inUse slots) ≤ used.toNat) :
    expireSlotsChecked nowMs slots used = some (expireSlots nowMs slots used) := by
  induction slots generalizing used with
  | nil => rfl
  | cons r rs ih =>
    rw [inUse_cons] at hle
    rw [expireSlotsChecked, expireSlots]
    split_ifs at hle ⊢ with hzero hold
    · rw [ih used hle, Option.map_some]
    · rw [airtime_cons] at hle
      have hlt := used.toNat_lt
      rw [subChecked_of_le (by rw [UInt32.toNat_toUInt64]; omega)]
      change Option.map _ (expireSlotsChecked _ _ _) = _
      rw [ih _ (by rw [UInt64.toNat_sub, UInt32.toNat_toUInt64]; omega), Option.map_some]
    · rw [airtime_cons] at hle
      rw [ih used (by omega), Option.map_some]

/-! ### The account -/

/-- The running total is the airtime of the slots in use. -/
def DcCtx.Accounted (dc : DcCtx) : Prop := dc.usedUs.toNat = airtime (inUse dc.history)

theorem accounted_init : dutycycleInit.Accounted := by
  rw [DcCtx.Accounted, dutycycleInit, inUse, List.filter_replicate_of_neg (by decide)]
  rfl

theorem DcCtx.Accounted.expireOld (h : dc.Accounted) (nowMs : UInt32) :
    (expireOld dc nowMs).Accounted := (expireOld_spec h nowMs).2

/-- A slot in use that is written again: its airtime goes, that of the new record comes. -/
theorem airtime_inUse_set {history : List DcTxRecord} {idx : ℕ} {r : DcTxRecord}
    (hidx : idx < history.length) (hused : (history.getD idx .empty).txEndMs ≠ 0)
    (hr : r.txEndMs ≠ 0) :
    airtime (inUse (history.set idx r)) + (history.getD idx .empty).toaUs.toNat =
      airtime (inUse history) + r.toaUs.toNat := by
  induction history generalizing idx with
  | nil => simp at hidx
  | cons x xs ih =>
    cases idx with
    | zero =>
      have hx : x.txEndMs ≠ 0 := hused
      rw [List.set_cons_zero, inUse_cons, if_neg hr, inUse_cons, if_neg hx, airtime_cons,
        airtime_cons, List.getD_cons_zero]
      omega
    | succ idx =>
      have hrest := ih (by simpa using hidx) hused
      rw [List.set_cons_succ, inUse_cons, inUse_cons, List.getD_cons_succ]
      split_ifs
      · exact hrest
      · rw [airtime_cons, airtime_cons]
        omega

/-- All slots together hold less than 512 times 2^32 microseconds. -/
theorem airtime_inUse_le (slots : List DcTxRecord) :
    airtime (inUse slots) ≤ slots.length * 2 ^ 32 := by
  induction slots with
  | nil => exact Nat.zero_le _
  | cons r rs ih =>
    have htoa := r.toaUs.toNat_lt
    rw [inUse_cons, List.length_cons, Nat.add_mul, Nat.one_mul]
    split_ifs
    · exact ih.trans (Nat.le_add_right _ _)
    · rw [airtime_cons, Nat.add_comm]
      exact Nat.add_le_add ih htoa.le

/-- The total has room for a record. -/
theorem DcCtx.Accounted.toNat_add (h : dc.Accounted) (toaUs : UInt32) :
    (dc.usedUs + toaUs.toUInt64).toNat = dc.usedUs.toNat + toaUs.toNat := by
  have hle := airtime_inUse_le dc.history
  have htoa := toaUs.toNat_lt
  rw [dc.length_history, dcHistoryCap, ← h] at hle
  rw [UInt64.toNat_add, UInt32.toNat_toUInt64, Nat.mod_eq_of_lt (by omega)]

/-- A record in use is part of the total. -/
theorem DcCtx.Accounted.toaUs_le (h : dc.Accounted) {idx : ℕ} (hidx : idx < dc.history.length)
    (hused : (dc.history.getD idx .empty).txEndMs ≠ 0) :
    (dc.history.getD idx .empty).toaUs.toNat ≤ dc.usedUs.toNat := by
  have hset := airtime_inUse_set hidx hused (r := ⟨1, 0⟩) (by decide)
  rw [h]
  have hzero : (⟨1, 0⟩ : DcTxRecord).toaUs.toNat = 0 := rfl
  omega

/-- The search finds an unused slot, or a slot in use. -/
theorem DcCtx.search_cases (dc : DcCtx) (nowMs : UInt32) :
    (∃ idx lru, dc.search nowMs = (some idx, lru) ∧ idx < dc.history.length ∧
        (dc.history.getD idx .empty).txEndMs = 0) ∨
      ∃ lru, dc.search nowMs = (none, lru) ∧ lru < dc.history.length ∧
        (dc.history.getD lru .empty).txEndMs ≠ 0 := by
  rw [dc.length_history]
  by_cases hfree : ∃ idx ∈ scanOrder dc.head, (dc.history.getD idx .empty).txEndMs = 0
  · obtain ⟨idx, lru, hsearch, hmem, hzero⟩ : ∃ idx lru, dc.search nowMs = (some idx, lru) ∧
        idx ∈ scanOrder dc.head ∧ (dc.history.getD idx .empty).txEndMs = 0 :=
      dcSearch_of_free hfree 0 0
    exact .inl ⟨idx, lru, hsearch, mem_scanOrder.mp hmem, hzero⟩
  · have hfull : ∀ idx ∈ scanOrder dc.head, (dc.history.getD idx .empty).txEndMs ≠ 0 :=
      fun idx hidx hzero => hfree ⟨idx, hidx, hzero⟩
    obtain ⟨lru, hlru, hsearch⟩ : ∃ lru < dcHistoryCap, dc.search nowMs = (none, lru) :=
      dcSearch_of_full hfull (fun _ => mem_scanOrder.mp) (by decide)
    exact .inr ⟨lru, hsearch, hlru, hfull lru (mem_scanOrder.mpr hlru)⟩

/-- A record that is written into an unused slot. -/
theorem DcCtx.Accounted.write (h : dc.Accounted) {idx : ℕ} (hidx : idx < dc.history.length)
    (hfree : (dc.history.getD idx .empty).txEndMs = 0) (nowMs toaUs : UInt32) :
    (dc.write idx nowMs toaUs).Accounted := by
  rw [DcCtx.Accounted, DcCtx.write, h.toNat_add,
    inUse_set hidx hfree (storedTime_ne_zero nowMs), airtime_cons, h, Nat.add_comm]

/-- A record that is written in place of another one. -/
theorem DcCtx.Accounted.evict_write (h : dc.Accounted) {idx : ℕ} (hidx : idx < dc.history.length)
    (hused : (dc.history.getD idx .empty).txEndMs ≠ 0) (nowMs toaUs : UInt32) :
    dc.evictChecked idx = some (dc.evict idx) ∧
      ((dc.evict idx).write idx nowMs toaUs).Accounted := by
  have hle := h.toaUs_le hidx hused
  have hle' : (dc.history.getD idx .empty).toaUs.toUInt64 ≤ dc.usedUs := by
    rwa [UInt64.le_iff_toNat_le, UInt32.toNat_toUInt64]
  have hset : airtime (inUse (dc.history.set idx ⟨storedTime nowMs, toaUs⟩)) +
      (dc.history.getD idx .empty).toaUs.toNat = airtime (inUse dc.history) + toaUs.toNat :=
    airtime_inUse_set hidx hused (storedTime_ne_zero nowMs)
  constructor
  · rw [DcCtx.evictChecked, subChecked_of_le (by rwa [UInt32.toNat_toUInt64]), DcCtx.evict,
      if_pos hle', Option.map_some]
  · have hadd := h.toNat_add toaUs
    have hlt := (dc.usedUs + toaUs.toUInt64).toNat_lt
    rw [DcCtx.Accounted] at h ⊢
    simp only [DcCtx.write, DcCtx.evict, if_pos hle']
    rw [UInt64.toNat_add, UInt64.toNat_sub_of_le _ _ hle', UInt32.toNat_toUInt64,
      UInt32.toNat_toUInt64, Nat.mod_eq_of_lt (by omega)]
    omega

/-- **One call** keeps the account, and no subtraction in it falls below zero. -/
theorem DcCtx.Accounted.step (h : dc.Accounted) (call : DcCall) :
    dc.stepChecked call = some (dc.step call) ∧ (dc.step call).Accounted := by
  cases call with
  | check nowMs toaUs =>
    constructor
    · rw [DcCtx.stepChecked, expireSlotsChecked_eq _ _ _ h.ge]
      rfl
    · rw [DcCtx.step]
      rcases dutycycleCheck_cases dc nowMs toaUs with ⟨-, hcheck⟩ | ⟨-, -, hhistory, hused⟩
      · rw [hcheck]
        exact h.expireOld nowMs
      · rw [DcCtx.Accounted, hhistory, hused]
        exact h.expireOld nowMs
  | record nowMs toaUs =>
    have hexpired := h.expireOld nowMs
    rw [DcCtx.stepChecked, expireSlotsChecked_eq _ _ _ h.ge, DcCtx.step, dutycycleRecord]
    dsimp only [Option.bind_some]
    rcases (Rivr.expireOld dc nowMs).search_cases nowMs with
      ⟨idx, lru, hsearch, hidx, hfree⟩ | ⟨lru, hsearch, hlru, hused⟩
    · rw [hsearch]
      exact ⟨rfl, hexpired.write hidx hfree nowMs toaUs⟩
    · obtain ⟨hevict, hwrite⟩ := hexpired.evict_write hlru hused nowMs toaUs
      rw [hsearch]
      refine ⟨?_, hwrite⟩
      dsimp only
      rw [hevict]
      rfl

/-- **The account of the limiter.** After any calls at any times the running total is the airtime of
the slots in use, and no subtraction on the way has fallen below zero. -/
theorem dutycycle_accounted (calls : List DcCall) :
    calls.foldlM DcCtx.stepChecked dutycycleInit = some (dcAfter calls) ∧
      (dcAfter calls).usedUs.toNat = airtime (inUse (dcAfter calls).history) := by
  suffices hrun : ∀ dc : DcCtx, dc.Accounted →
      calls.foldlM DcCtx.stepChecked dc = some (calls.foldl DcCtx.step dc) ∧
        (calls.foldl DcCtx.step dc).Accounted from hrun _ accounted_init
  induction calls with
  | nil => exact fun dc h => ⟨rfl, h⟩
  | cons call calls ih =>
    intro dc h
    obtain ⟨hchecked, hnext⟩ := h.step call
    rw [List.foldlM_cons, hchecked]
    exact ih _ hnext

end Rivr
