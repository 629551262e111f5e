import Rivr.Firmware.DutyCycle
import Rivr.ForMathlib.WindowSum

/-!
# The duty-cycle law

Transmit attempts come at non-decreasing times; each calls `dutycycleCheck`, and
`dutycycleRecord` when the check passed. The law: at every time the airtime of the recorded
transmissions in the trailing hour is at most a tenth of it.

The law holds of every run in which each admitted transmission finds a free slot and no slot
is stamped later than the attempt (`dutycycle_law_of_meets`). It fails without: with the table
full, the oldest record that is still inside the hour makes room, and its airtime is forgotten
(`not_dutycycle_law`).
-/

namespace Rivr

open WindowSum

/-! ### Attempts and runs -/

/-- One transmit attempt. -/
structure TxAttempt where
  nowMs : UInt32
  toaUs : UInt32
  deriving DecidableEq, Repr

/-- The limiter, the time of the last attempt and, as an observer, the recorded
transmissions, newest first. -/
structure DcRun where
  dc : DcCtx
  nowMs : UInt32
  log : List TxAttempt

/-- The start of every run. -/
def DcRun.init : DcRun := ⟨dutycycleInit, 0, []⟩

/-- One attempt: check, and record exactly when the check passed. -/
def DcRun.attempt (s : DcRun) (a : TxAttempt) : DcRun :=
  if (dutycycleCheck s.dc a.nowMs a.toaUs).1 then
    ⟨dutycycleRecord (dutycycleCheck s.dc a.nowMs a.toaUs).2 a.nowMs a.toaUs, a.nowMs, a :: s.log⟩
  else ⟨(dutycycleCheck s.dc a.nowMs a.toaUs).2, a.nowMs, s.log⟩

/-- The states of the runs whose attempts come at non-decreasing times and all meet a
condition. -/
inductive DcReach (P : DcCtx → TxAttempt → Prop) : DcRun → Prop
  | init : DcReach P .init
  | attempt {s : DcRun} (a : TxAttempt) (h : DcReach P s) (htime : s.nowMs ≤ a.nowMs)
      (ha : P s.dc a) : DcReach P (s.attempt a)

/-- The recorded transmissions as timed costs. -/
def entries (log : List TxAttempt) : List (ℕ × ℕ) :=
  log.map fun a => (a.nowMs.toNat, a.toaUs.toNat)

/-- **The law**: at every time, the airtime recorded in the trailing window is within the
budget. -/
def DutyCycleLaw (s : DcRun) : Prop :=
  ∀ t, windowSum dcWindowMs.toNat t (entries s.log) ≤ dcBudgetUs.toNat

/-! ### The invariant -/

/-- The record an attempt is stored as. -/
def storedRecord (a : TxAttempt) : DcTxRecord := ⟨storedTime a.nowMs, a.toaUs⟩

/-- The record is not older than the window, in true time. -/
def InHour (nowMs : UInt32) (r : DcTxRecord) : Prop := nowMs.toNat ≤ r.txEndMs.toNat + 3600000

instance (nowMs : UInt32) (r : DcTxRecord) : Decidable (InHour nowMs r) :=
  inferInstanceAs (Decidable (_ ≤ _))

/-- The recorded transmissions that are not older than the window. -/
def liveRecords (nowMs : UInt32) (log : List TxAttempt) : Multiset DcTxRecord :=
  (↑(log.map storedRecord) : Multiset DcTxRecord).filter (InHour nowMs)

/-- The slots in use are the recorded transmissions that are not older than the window, and
the total is their airtime. -/
structure DcInv (s : DcRun) : Prop where
  used : s.dc.usedUs.toNat = airtime (inUse s.dc.history)
  cap : s.dc.usedUs.toNat ≤ dcBudgetUs.toNat
  slots : inUse s.dc.history = liveRecords s.nowMs s.log
  past : ∀ a ∈ s.log, a.nowMs ≤ s.nowMs
  sorted : Sorted (entries s.log)
  within : Within dcWindowMs.toNat dcBudgetUs.toNat (entries s.log)

/-- What a step has to meet: no slot is stamped later than the attempt, and there is room for
the record unless the airtime still in the window refuses it anyway. -/
structure StepMeets (dc : DcCtx) (a : TxAttempt) : Prop where
  notAhead : ∀ r ∈ dc.history, r.txEndMs ≤ a.nowMs
  room : dc.HasRoom a.nowMs ∨
    dcBudgetUs.toNat <
      airtime ((inUse dc.history).filter (DcTxRecord.Recent a.nowMs)) + a.toaUs.toNat

theorem le_storedTime (nowMs : UInt32) : nowMs.toNat ≤ (storedTime nowMs).toNat := by
  simp only [storedTime]
  split_ifs with h
  · rw [h]
    decide
  · exact le_rfl

/-- For a slot not stamped later than now, the 32-bit age decides the same as the true age. -/
theorem recent_iff_inHour {nowMs : UInt32} {r : DcTxRecord} (h : r.txEndMs ≤ nowMs) :
    r.Recent nowMs ↔ InHour nowMs r := by
  have hle : r.txEndMs.toNat ≤ nowMs.toNat := h
  have hlt := nowMs.toNat_lt
  simp only [DcTxRecord.Recent, InHour, dcWindowMs, gt_iff_lt, UInt32.lt_iff_toNat_lt,
    UInt32.toNat_sub, UInt32.reduceToNat]
  omega

theorem airtime_filter_le (p : DcTxRecord → Prop) [DecidablePred p] (rs : Multiset DcTxRecord) :
    airtime (rs.filter p) ≤ airtime rs := by
  conv_rhs => rw [← Multiset.filter_add_not p rs]
  simp [airtime]

theorem le_airtime_of_mem {r : DcTxRecord} {rs : Multiset DcTxRecord} (h : r ∈ rs) :
    r.toaUs.toNat ≤ airtime rs := by
  obtain ⟨rest, rfl⟩ := Multiset.exists_cons_of_mem h
  rw [airtime_cons]
  exact Nat.le_add_right _ _

/-- What is left of the slots when they expire at a later time. -/
theorem liveRecords_filter {nowMs nowMs' : UInt32} (hle : nowMs ≤ nowMs') (log : List TxAttempt) :
    (liveRecords nowMs log).filter (InHour nowMs') = liveRecords nowMs' log := by
  have hle' : nowMs.toNat ≤ nowMs'.toNat := hle
  rw [liveRecords, liveRecords, Multiset.filter_filter]
  refine Multiset.filter_congr fun r _ => ?_
  simp only [InHour]
  omega

/-- **Expiry** at the time of an attempt leaves the live records. -/
theorem DcInv.expireOld {s : DcRun} (h : DcInv s) {nowMs : UInt32} (hle : s.nowMs ≤ nowMs)
    (hahead : ∀ r ∈ s.dc.history, r.txEndMs ≤ nowMs) :
    inUse (expireOld s.dc nowMs).history = liveRecords nowMs s.log ∧
      (Rivr.expireOld s.dc nowMs).usedUs.toNat = airtime (liveRecords nowMs s.log) ∧
      (Rivr.expireOld s.dc nowMs).usedUs.toNat ≤ dcBudgetUs.toNat := by
  obtain ⟨hslots, hused⟩ := expireOld_spec h.used nowMs
  have hcongr : (inUse s.dc.history).filter (DcTxRecord.Recent nowMs) =
      (inUse s.dc.history).filter (InHour nowMs) := by
    refine Multiset.filter_congr fun r hr => recent_iff_inHour (hahead r ?_)
    exact List.mem_of_mem_filter (Multiset.mem_coe.mp hr)
  have hlive : inUse (Rivr.expireOld s.dc nowMs).history = liveRecords nowMs s.log := by
    rw [hslots, hcongr, h.slots, liveRecords_filter hle]
  have hcap : airtime (liveRecords nowMs s.log) ≤ dcBudgetUs.toNat := by
    rw [← hlive, hslots]
    exact (airtime_filter_le _ _).trans (h.used ▸ h.cap)
  rw [hlive] at hused
  exact ⟨hlive, hused, hused ▸ hcap⟩

/-- The airtime in the window is that of live records. -/
theorem windowSum_le_airtime {nowMs : UInt32} {log : List TxAttempt} :
    windowSum dcWindowMs.toNat nowMs.toNat (entries log) ≤ airtime (liveRecords nowMs log) := by
  induction log with
  | nil => simp [windowSum, inWindow, entries]
  | cons a log ih =>
    have hstored := le_storedTime a.nowMs
    have hlive : liveRecords nowMs (a :: log) =
        if InHour nowMs (storedRecord a) then storedRecord a ::ₘ liveRecords nowMs log
        else liveRecords nowMs log := by
      simp only [liveRecords, List.map_cons, ← Multiset.cons_coe, Multiset.filter_cons]
      split_ifs <;> simp
    have hwindow : windowSum dcWindowMs.toNat nowMs.toNat (entries (a :: log)) =
        if a.nowMs.toNat ≤ nowMs.toNat ∧ nowMs.toNat < a.nowMs.toNat + dcWindowMs.toNat then
          a.toaUs.toNat + windowSum dcWindowMs.toNat nowMs.toNat (entries log)
        else windowSum dcWindowMs.toNat nowMs.toNat (entries log) := by
      simp only [windowSum, inWindow, entries, List.map_cons, List.filter_cons,
        decide_eq_true_eq]
      split_ifs <;> simp
    rw [hlive, hwindow]
    by_cases hin : a.nowMs.toNat ≤ nowMs.toNat ∧ nowMs.toNat < a.nowMs.toNat + dcWindowMs.toNat
    · have hhour : InHour nowMs (storedRecord a) := by
        have hlt : nowMs.toNat < a.nowMs.toNat + 3600000 := hin.2
        simp only [InHour, storedRecord]
        omega
      rw [if_pos hin, if_pos hhour, airtime_cons]
      exact Nat.add_le_add_left ih _
    · rw [if_neg hin]
      split_ifs
      · rw [airtime_cons]
        exact ih.trans (Nat.le_add_left _ _)
      · exact ih

theorem dcInv_init : DcInv .init := by
  have hempty : inUse dutycycleInit.history = 0 := by
    simp [inUse, dutycycleInit, DcTxRecord.empty]
  refine ⟨?_, by decide, ?_, ?_, List.Pairwise.nil, trivial⟩
  · rw [DcRun.init, hempty]
    rfl
  · rw [DcRun.init, hempty]
    rfl
  · exact fun a ha => absurd ha List.not_mem_nil

/-- Expiry alone keeps the invariant. -/
theorem DcInv.expired {s : DcRun} (h : DcInv s) {nowMs : UInt32} (htime : s.nowMs ≤ nowMs)
    (hahead : ∀ r ∈ s.dc.history, r.txEndMs ≤ nowMs) :
    DcInv ⟨Rivr.expireOld s.dc nowMs, nowMs, s.log⟩ := by
  obtain ⟨hlive, hused, hcap⟩ := h.expireOld htime hahead
  exact ⟨hused.trans (by rw [hlive]), hcap, hlive,
    fun b hb => UInt32.le_trans (h.past b hb) htime, h.sorted, h.within⟩

/-- Adding airtime to a total within the budget does not wrap. -/
private theorem toNat_add_toaUs {used : UInt64} (h : used.toNat ≤ dcBudgetUs.toNat)
    (toaUs : UInt32) : (used + toaUs.toUInt64).toNat = used.toNat + toaUs.toNat := by
  have hlt := toaUs.toNat_lt
  have hbudget : dcBudgetUs.toNat = 360000000 := rfl
  rw [UInt64.toNat_add, UInt32.toNat_toUInt64]
  omega

/-- Recording an admitted attempt into a free slot keeps the invariant. -/
theorem DcInv.record {s : DcRun} (h : DcInv s) {a : TxAttempt} (htime : s.nowMs ≤ a.nowMs)
    (hahead : ∀ r ∈ s.dc.history, r.txEndMs ≤ a.nowMs) (hroom : s.dc.HasRoom a.nowMs)
    (hle : (Rivr.expireOld s.dc a.nowMs).usedUs + a.toaUs.toUInt64 ≤ dcBudgetUs) :
    DcInv ⟨dutycycleRecord s.dc a.nowMs a.toaUs, a.nowMs, a :: s.log⟩ := by
  obtain ⟨hlive, hused, hcap⟩ := h.expireOld htime hahead
  obtain ⟨hslots, htotal⟩ := dutycycleRecord_spec hroom a.toaUs
  have hstored : liveRecords a.nowMs (a :: s.log) =
      storedRecord a ::ₘ liveRecords a.nowMs s.log := by
    -- a record is live at the time it is made
    have hhour : InHour a.nowMs (storedRecord a) :=
      (le_storedTime a.nowMs).trans (Nat.le_add_right _ _)
    simp only [liveRecords, List.map_cons, ← Multiset.cons_coe]
    exact Multiset.filter_cons_of_pos _ hhour
  have hpast : ∀ b ∈ a :: s.log, b.nowMs ≤ a.nowMs := by
    intro b hb
    rcases List.mem_cons.mp hb with rfl | hb
    · exact UInt32.le_refl _
    · exact UInt32.le_trans (h.past b hb) htime
  have hinuse : inUse (dutycycleRecord s.dc a.nowMs a.toaUs).history =
      liveRecords a.nowMs (a :: s.log) := by
    rw [hslots, hlive, hstored, storedRecord]
  have hairtime : (dutycycleRecord s.dc a.nowMs a.toaUs).usedUs.toNat =
      airtime (liveRecords a.nowMs (a :: s.log)) := by
    rw [htotal, toNat_add_toaUs hcap, hused, hstored, airtime_cons, storedRecord,
      Nat.add_comm]
  have hbudget : (dutycycleRecord s.dc a.nowMs a.toaUs).usedUs.toNat ≤ dcBudgetUs.toNat := by
    rw [htotal]
    exact hle
  refine ⟨?_, hbudget, hinuse, hpast, ?_, ?_, h.within⟩
  · rw [hairtime, hinuse]
  · refine List.pairwise_cons.mpr ⟨?_, h.sorted⟩
    intro x hx
    obtain ⟨b, hb, rfl⟩ := List.mem_map.mp hx
    exact hpast b (List.mem_cons_of_mem _ hb)
  · rw [hairtime] at hbudget
    exact windowSum_le_airtime.trans hbudget

/-- **Step lemma.** An attempt that meets the condition keeps the invariant. -/
theorem DcInv.attempt {s : DcRun} (h : DcInv s) {a : TxAttempt} (htime : s.nowMs ≤ a.nowMs)
    (ha : StepMeets s.dc a) : DcInv (s.attempt a) := by
  have hexpired := h.expired htime ha.notAhead
  rcases dutycycleCheck_cases s.dc a.nowMs a.toaUs with
    ⟨hle, hcheck⟩ | ⟨hlt, hcheck, hhist, hkeep⟩
  · -- admitted: `dutycycle_record` expires again, which finds nothing more to clear
    have hroom : s.dc.HasRoom a.nowMs := by
      refine ha.room.resolve_right (Nat.not_lt.mpr ?_)
      have hle' := UInt64.le_iff_toNat_le.mp hle
      rwa [toNat_add_toaUs hexpired.cap, hexpired.used, (expireOld_spec h.used _).1] at hle'
    have hahead : ∀ r ∈ (Rivr.expireOld s.dc a.nowMs).history, r.txEndMs ≤ a.nowMs := by
      intro r hr
      rcases mem_expireSlots hr with rfl | hr
      · exact UInt32.zero_le
      · exact ha.notAhead r hr
    have hagain := hexpired.expireOld (UInt32.le_refl _) hahead
    have hsame : (Rivr.expireOld (Rivr.expireOld s.dc a.nowMs) a.nowMs).usedUs =
        (Rivr.expireOld s.dc a.nowMs).usedUs :=
      UInt64.toNat_inj.mp (hagain.2.1.trans (h.expireOld htime ha.notAhead).2.1.symm)
    have hrun : s.attempt a = ⟨dutycycleRecord (Rivr.expireOld s.dc a.nowMs) a.nowMs a.toaUs,
        a.nowMs, a :: s.log⟩ := by
      rw [DcRun.attempt, hcheck]
      rfl
    rw [hrun]
    exact hexpired.record (UInt32.le_refl _) hahead hroom.expireOld (by rw [hsame]; exact hle)
  · -- refused: only what expired is gone
    have hrun : s.attempt a = ⟨(dutycycleCheck s.dc a.nowMs a.toaUs).2, a.nowMs, s.log⟩ := by
      rw [DcRun.attempt, hcheck]
      rfl
    rw [hrun]
    refine ⟨?_, ?_, ?_, hexpired.past, h.sorted, h.within⟩
    · rw [hkeep, hhist]
      exact hexpired.used
    · rw [hkeep]
      exact hexpired.cap
    · rw [hhist]
      exact hexpired.slots

/-- **Run lemma.** -/
theorem DcReach.inv {s : DcRun} (h : DcReach StepMeets s) : DcInv s := by
  induction h with
  | init => exact dcInv_init
  | attempt a _ htime ha ih => exact ih.attempt htime ha

/-! ### The law -/

/-- **The duty-cycle law holds** in every state of every run whose steps all find room in the
table and no slot stamped ahead of them. -/
theorem dutycycle_law_of_meets {s : DcRun} (h : DcReach StepMeets s) : DutyCycleLaw s := by
  obtain ⟨-, -, -, -, hsorted, hwithin⟩ := h.inv
  exact fun t => windowSum_le hwithin hsorted t

/-- An admitted attempt in an empty table: the law is about something. -/
theorem dutycycle_law_of_meets_first :
    ((DcRun.init.attempt ⟨1000, 360000000⟩).log = [⟨1000, 360000000⟩]) ∧
      DutyCycleLaw (DcRun.init.attempt ⟨1000, 360000000⟩) := by
  have hempty : ∀ r ∈ DcRun.init.dc.history, r = .empty := fun r hr => List.eq_of_mem_replicate hr
  have hmeets : StepMeets DcRun.init.dc ⟨1000, 360000000⟩ := by
    refine ⟨fun r hr => ?_, Or.inl ⟨.empty, List.mem_replicate.mpr ⟨by decide, rfl⟩, Or.inl rfl⟩⟩
    rw [hempty r hr]
    decide
  refine ⟨?_, dutycycle_law_of_meets (.attempt _ .init (by decide) hmeets)⟩
  have hsame : expireOld DcRun.init.dc 1000 = DcRun.init.dc :=
    expireOld_of_recent fun r hr => Or.inl (by rw [hempty r hr]; rfl)
  rw [DcRun.attempt, dutycycleCheck, hsame]
  rfl

/-! ### A burst that overruns the table -/

/-- Every slot is unused or holds one and the same transmission, and the total is their
airtime. -/
structure Burst (toaUs : UInt32) (dc : DcCtx) : Prop where
  slots : ∀ r ∈ dc.history, r = ⟨1, toaUs⟩ ∨ r = .empty
  used : dc.usedUs.toNat = airtime (inUse dc.history)

theorem Burst.recent {toaUs : UInt32} {dc : DcCtx} (h : Burst toaUs dc) :
    ∀ r ∈ dc.history, r.txEndMs = 0 ∨ r.Recent 1 := by
  intro r hr
  rcases h.slots r hr with rfl | rfl
  · exact Or.inr (by decide : ¬(1 : UInt32) - 1 > dcWindowMs)
  · exact Or.inl rfl

/-- The total never counts more transmissions than there are slots. -/
theorem Burst.used_le {toaUs : UInt32} {dc : DcCtx} (h : Burst toaUs dc) :
    dc.usedUs.toNat ≤ 512 * toaUs.toNat := by
  have hslots : ∀ slots : List DcTxRecord, (∀ r ∈ slots, r = ⟨1, toaUs⟩ ∨ r = .empty) →
      airtime (inUse slots) ≤ slots.length * toaUs.toNat := by
    intro slots hall
    induction slots with
    | nil => exact Nat.zero_le _
    | cons r rs ih =>
      obtain ⟨hr, hrs⟩ := List.forall_mem_cons.mp hall
      rw [inUse_cons, List.length_cons, Nat.succ_mul]
      rcases hr with rfl | rfl
      · have hused : (1 : UInt32) ≠ 0 := by decide
        rw [if_neg hused, airtime_cons, Nat.add_comm]
        exact Nat.add_le_add_right (ih hrs) _
      · have hunused : DcTxRecord.empty.txEndMs = 0 := rfl
        rw [if_pos hunused]
        exact (ih hrs).trans (Nat.le_add_right _ _)
  have hle := hslots dc.history h.slots
  rw [dc.length_history, ← h.used] at hle
  exact hle

/-- With a full table, the new transmission takes the place and the airtime of an old one. -/
theorem Burst.record {toaUs : UInt32} {dc : DcCtx} (h : Burst toaUs dc)
    (hsmall : 513 * toaUs.toNat ≤ dcBudgetUs.toNat) : Burst toaUs (dutycycleRecord dc 1 toaUs) := by
  have hsame := expireOld_of_recent h.recent
  have hused := h.used_le
  have hbudget : dcBudgetUs.toNat = 360000000 := rfl
  refine ⟨fun r hr => ?_, ?_⟩
  · rcases mem_place hr with rfl | hr
    · exact Or.inl rfl
    · exact h.slots r (hsame ▸ hr)
  by_cases hroom : dc.HasRoom 1
  · obtain ⟨hslots, htotal⟩ := dutycycleRecord_spec hroom toaUs
    rw [hslots, htotal, hsame, toNat_add_toaUs (by omega), airtime_cons, h.used, Nat.add_comm]
  · -- no slot is free: the record that is overwritten equals the new one
    have hfull : ∀ r ∈ dc.history, r.txEndMs ≠ 0 := fun r hr hzero => hroom ⟨r, hr, Or.inl hzero⟩
    have hall : ∀ r ∈ dc.history, r = ⟨1, toaUs⟩ := fun r hr =>
      (h.slots r hr).resolve_right fun hempty => hfull r hr (by rw [hempty]; rfl)
    obtain ⟨lru, hlru, hrecord⟩ := dutycycleRecord_of_full (hsame.symm ▸ hfull) toaUs
    rw [← dc.length_history] at hlru
    have hslot : dc.history[lru] = ⟨1, toaUs⟩ := hall _ (List.getElem_mem hlru)
    have hget : dc.history.getD lru .empty = ⟨1, toaUs⟩ := by
      rw [List.getD_eq_getElem?_getD, List.getElem?_eq_getElem hlru, hslot, Option.getD_some]
    have hset : dc.history.set lru ⟨storedTime 1, toaUs⟩ = dc.history := by
      have hstored : (⟨storedTime 1, toaUs⟩ : DcTxRecord) = dc.history[lru] := hslot.symm
      rw [hstored, List.set_getElem_self]
    have hge : toaUs.toUInt64 ≤ dc.usedUs := by
      have hmem : (⟨1, toaUs⟩ : DcTxRecord) ∈ inUse dc.history := by
        refine Multiset.mem_coe.mpr (List.mem_filter.mpr ⟨hslot ▸ List.getElem_mem hlru, ?_⟩)
        rfl
      have hle := le_airtime_of_mem hmem
      rw [← h.used] at hle
      rw [UInt64.le_iff_toNat_le, UInt32.toNat_toUInt64]
      exact hle
    rw [hrecord, hsame]
    simp only [DcCtx.write, DcCtx.evict, hget, hset, if_pos hge, UInt64.sub_add_cancel]
    exact h.used

/-- Every attempt of a burst is admitted. -/
theorem Burst.attempt {toaUs : UInt32} {s : DcRun} (h : Burst toaUs s.dc)
    (hsmall : 513 * toaUs.toNat ≤ dcBudgetUs.toNat) :
    Burst toaUs (s.attempt ⟨1, toaUs⟩).dc ∧
      (s.attempt ⟨1, toaUs⟩).log = ⟨1, toaUs⟩ :: s.log ∧ (s.attempt ⟨1, toaUs⟩).nowMs = 1 := by
  have hsame := expireOld_of_recent h.recent
  have hused := h.used_le
  have hadmit : s.dc.usedUs + toaUs.toUInt64 ≤ dcBudgetUs := by
    have hbudget : dcBudgetUs.toNat = 360000000 := rfl
    rw [UInt64.le_iff_toNat_le, toNat_add_toaUs (by omega)]
    omega
  have hcheck : dutycycleCheck s.dc 1 toaUs = (true, s.dc) := by
    rw [dutycycleCheck, hsame]
    exact if_pos hadmit
  have hrun : s.attempt ⟨1, toaUs⟩ = ⟨dutycycleRecord s.dc 1 toaUs, 1, ⟨1, toaUs⟩ :: s.log⟩ := by
    rw [DcRun.attempt, hcheck]
    rfl
  have hdc : (s.attempt ⟨1, toaUs⟩).dc = dutycycleRecord s.dc 1 toaUs := by rw [hrun]
  refine ⟨?_, by rw [hrun], by rw [hrun]⟩
  rw [hdc]
  exact h.record hsmall

/-- A burst of transmissions whose airtime 513 times over fits the budget is admitted for ever. -/
theorem exists_burst {toaUs : UInt32} (hsmall : 513 * toaUs.toNat ≤ dcBudgetUs.toNat) (n : ℕ) :
    ∃ s, DcReach (fun _ _ => True) s ∧ s.log = List.replicate n ⟨1, toaUs⟩ := by
  suffices ∃ s, DcReach (fun _ _ => True) s ∧ s.log = List.replicate n ⟨1, toaUs⟩ ∧
      s.nowMs ≤ 1 ∧ Burst toaUs s.dc by
    obtain ⟨s, hreach, hlog, -, -⟩ := this
    exact ⟨s, hreach, hlog⟩
  induction n with
  | zero =>
    refine ⟨.init, .init, rfl, by decide, fun r hr => Or.inr (List.eq_of_mem_replicate hr), ?_⟩
    exact dcInv_init.used
  | succ n ih =>
    obtain ⟨s, hreach, hlog, htime, hburst⟩ := ih
    obtain ⟨hnext, hgrow, hnow⟩ := hburst.attempt hsmall
    refine ⟨_, hreach.attempt ⟨1, toaUs⟩ htime trivial, ?_, ?_, hnext⟩
    · rw [hgrow, hlog, List.replicate_succ]
    · rw [hnow]
      exact UInt32.le_refl _

/-- **The law fails** without the condition: 514 transmissions of 701.754 ms, all at one
millisecond, are all admitted, and add up to more than the budget. -/
theorem not_dutycycle_law : ¬∀ s, DcReach (fun _ _ => True) s → DutyCycleLaw s := by
  intro hlaw
  have hsmall : 513 * (701754 : UInt32).toNat ≤ dcBudgetUs.toNat := by decide
  obtain ⟨s, hreach, hlog⟩ := exists_burst hsmall 514
  have hle := hlaw s hreach 1
  have hsum : windowSum dcWindowMs.toNat 1 (List.replicate 514 (1, 701754)) = 514 * 701754 := by
    rw [windowSum, inWindow, List.filter_replicate_of_pos (by decide), List.map_replicate,
      List.sum_replicate_nat]
  have hentries : entries s.log = List.replicate 514 (1, 701754) := by
    rw [entries, hlog, List.map_replicate]
    rfl
  rw [hentries, hsum] at hle
  exact absurd hle (by decide)

end Rivr
