import Mathlib.Algebra.BigOperators.Group.Multiset.Basic
import Mathlib.Algebra.Order.Group.Nat
import Mathlib.Tactic.Ring

/-!
# The duty-cycle limiter

`firmware_core/dutycycle.c`: a table of 512 transmissions, the running total of their airtime,
and the two operations on it, `dutycycleCheck` and `dutycycleRecord`. A slot whose time is zero
is unused.

Each operation is described on the slots in use: expiry keeps those of age at most the window,
recording into a free slot adds one, and the total stays the sum of their airtimes.
-/

namespace Rivr

/-! ### The limiter -/

def dcWindowMs : UInt32 := 3600000
def dcDutyPctX10 : UInt64 := 100
def dcBudgetUs : UInt64 := dcWindowMs.toUInt64 * dcDutyPctX10 * 1000 / 1000
def dcHistoryCap : ℕ := 512

/-- `dc_tx_record_t`. -/
structure DcTxRecord where
  txEndMs : UInt32
  toaUs : UInt32
  deriving DecidableEq, Repr

/-- An unused slot. -/
def DcTxRecord.empty : DcTxRecord := ⟨0, 0⟩

/-- `dc_ctx_t`. -/
structure DcCtx where
  history : List DcTxRecord
  head : ℕ
  usedUs : UInt64
  totalBlockedUs : UInt64
  blockedCount : UInt32
  length_history : history.length = dcHistoryCap

/-- `dutycycle_init`. -/
def dutycycleInit : DcCtx where
  history := List.replicate dcHistoryCap .empty
  head := 0
  usedUs := 0
  totalBlockedUs := 0
  blockedCount := 0
  length_history := List.length_replicate

/-- The loop of `expire_old`: the slots and the total it leaves. -/
def expireSlots (nowMs : UInt32) : List DcTxRecord → UInt64 → List DcTxRecord × UInt64
  | [], used => ([], used)
  | r :: rs, used =>
    -- an end time of zero marks a free slot
    if r.txEndMs = 0 then
      (r :: (expireSlots nowMs rs used).1, (expireSlots nowMs rs used).2)
    else if nowMs - r.txEndMs > dcWindowMs then
      (.empty :: (expireSlots nowMs rs (used - r.toaUs.toUInt64)).1,
        (expireSlots nowMs rs (used - r.toaUs.toUInt64)).2)
    else (r :: (expireSlots nowMs rs used).1, (expireSlots nowMs rs used).2)

@[simp]
theorem expireSlots_length (nowMs : UInt32) (slots : List DcTxRecord) (used : UInt64) :
    (expireSlots nowMs slots used).1.length = slots.length := by
  induction slots generalizing used with
  | nil => rfl
  | cons r rs ih =>
    simp only [expireSlots]
    split_ifs <;> simp [ih]

/-- `expire_old`. -/
def expireOld (dc : DcCtx) (nowMs : UInt32) : DcCtx :=
  { dc with
    history := (expireSlots nowMs dc.history dc.usedUs).1
    usedUs := (expireSlots nowMs dc.history dc.usedUs).2
    length_history := by simp [dc.length_history] }

/-- `dutycycle_check`. -/
def dutycycleCheck (dc : DcCtx) (nowMs toaUs : UInt32) : Bool × DcCtx :=
  let dc := expireOld dc nowMs
  -- nothing is booked here: the frame is recorded once it has been sent
  if dc.usedUs + toaUs.toUInt64 ≤ dcBudgetUs then (true, dc)
  else
    (false, { dc with
      blockedCount := dc.blockedCount + 1
      totalBlockedUs := dc.totalBlockedUs + toaUs.toUInt64 })

/-- The search of `dutycycle_record` along the given indices: the first free slot, and the
oldest slot met before it. -/
def dcSearch (history : List DcTxRecord) (nowMs : UInt32) :
    List ℕ → ℕ → UInt32 → Option ℕ × ℕ
  | [], lruIdx, _ => (none, lruIdx)
  | idx :: rest, lruIdx, lruAge =>
    let r := history.getD idx .empty
    -- the first free slot ends the search
    if r.txEndMs = 0 then (some idx, lruIdx)
    else if nowMs - r.txEndMs > lruAge then
      dcSearch history nowMs rest idx (nowMs - r.txEndMs)
    else dcSearch history nowMs rest lruIdx lruAge

/-- The indices in the order of the search: from the head on, around the ring. -/
def scanOrder (head : ℕ) : List ℕ :=
  (List.range dcHistoryCap).map fun i => (head + i) % dcHistoryCap

/-- The time a record is stored with: zero would mean an unused slot. -/
def storedTime (nowMs : UInt32) : UInt32 := if nowMs = 0 then 1 else nowMs

/-- Writing the record into a slot. -/
def DcCtx.write (dc : DcCtx) (idx : ℕ) (nowMs toaUs : UInt32) : DcCtx :=
  { dc with
    history := dc.history.set idx ⟨storedTime nowMs, toaUs⟩
    head := (idx + 1) % dcHistoryCap
    usedUs := dc.usedUs + toaUs.toUInt64
    length_history := by simp [dc.length_history] }

/-- Taking the airtime of the evicted slot off the total, never below zero. -/
def DcCtx.evict (dc : DcCtx) (idx : ℕ) : DcCtx :=
  let toaUs := (dc.history.getD idx .empty).toaUs.toUInt64
  { dc with usedUs := if dc.usedUs ≥ toaUs then dc.usedUs - toaUs else 0 }

/-- The search over the whole ring. -/
def DcCtx.search (dc : DcCtx) (nowMs : UInt32) : Option ℕ × ℕ :=
  dcSearch dc.history nowMs (scanOrder dc.head) 0 0

/-- Writing the record where the search says: into the free slot, or in place of the oldest. -/
def DcCtx.place (dc : DcCtx) (nowMs toaUs : UInt32) : Option ℕ × ℕ → DcCtx
  | (some freeIdx, _) => dc.write freeIdx nowMs toaUs
  | (none, lruIdx) => (dc.evict lruIdx).write lruIdx nowMs toaUs

/-- `dutycycle_record`. -/
def dutycycleRecord (dc : DcCtx) (nowMs toaUs : UInt32) : DcCtx :=
  (expireOld dc nowMs).place nowMs toaUs ((expireOld dc nowMs).search nowMs)

/-! ### The slots in use -/

/-- The records in the slots in use. -/
def inUse (history : List DcTxRecord) : Multiset DcTxRecord :=
  ↑(history.filter fun r => r.txEndMs ≠ 0)

/-- The airtime of a multiset of records. -/
def airtime (rs : Multiset DcTxRecord) : ℕ := (rs.map fun r => r.toaUs.toNat).sum

/-- The record has not left the window. -/
def DcTxRecord.Recent (nowMs : UInt32) (r : DcTxRecord) : Prop := ¬nowMs - r.txEndMs > dcWindowMs

instance (nowMs : UInt32) (r : DcTxRecord) : Decidable (r.Recent nowMs) :=
  inferInstanceAs (Decidable (¬_))

@[simp]
theorem airtime_cons (r : DcTxRecord) (rs : Multiset DcTxRecord) :
    airtime (r ::ₘ rs) = r.toaUs.toNat + airtime rs := by simp [airtime]

theorem inUse_cons (r : DcTxRecord) (rs : List DcTxRecord) :
    inUse (r :: rs) = if r.txEndMs = 0 then inUse rs else r ::ₘ inUse rs := by
  simp only [inUse, List.filter_cons]
  split_ifs with h₁ h₂ <;> simp_all

/-- **Expiry** keeps the recent records, and takes the airtime of the others off the total. -/
theorem expireSlots_spec (nowMs : UInt32) (slots : List DcTxRecord) (used : UInt64) (rest : ℕ)
    (hused : used.toNat = airtime (inUse slots) + rest) :
    inUse (expireSlots nowMs slots used).1 = (inUse slots).filter (DcTxRecord.Recent nowMs) ∧
      (expireSlots nowMs slots used).2.toNat =
        airtime ((inUse slots).filter (DcTxRecord.Recent nowMs)) + rest := by
  induction slots generalizing used rest with
  | nil => exact ⟨rfl, hused⟩
  | cons r rs ih =>
    rw [inUse_cons] at hused ⊢
    simp only [expireSlots]
    split_ifs at hused ⊢ with h₀ hold
    · obtain ⟨h₁, h₂⟩ := ih _ _ hused
      exact ⟨by rw [inUse_cons, if_pos h₀, h₁], h₂⟩
    · -- an expired record: its airtime was part of the total
      rw [airtime_cons] at hused
      have hsub : (used - r.toaUs.toUInt64).toNat = airtime (inUse rs) + rest := by
        have hlt := used.toNat_lt
        rw [UInt64.toNat_sub, UInt32.toNat_toUInt64]
        omega
      obtain ⟨h₁, h₂⟩ := ih _ _ hsub
      have hnot : ¬r.Recent nowMs := not_not.mpr hold
      rw [Multiset.filter_cons_of_neg _ hnot]
      have hempty : DcTxRecord.empty.txEndMs = 0 := rfl
      exact ⟨by rw [inUse_cons, if_pos hempty, h₁], h₂⟩
    · rw [airtime_cons] at hused
      obtain ⟨h₁, h₂⟩ := ih used (r.toaUs.toNat + rest) (by omega)
      rw [Multiset.filter_cons_of_pos _ (show r.Recent nowMs from hold)]
      refine ⟨by rw [inUse_cons, if_neg h₀, h₁], ?_⟩
      rw [h₂, airtime_cons]
      omega

theorem expireOld_spec {dc : DcCtx} (h : dc.usedUs.toNat = airtime (inUse dc.history))
    (nowMs : UInt32) :
    inUse (expireOld dc nowMs).history = (inUse dc.history).filter (DcTxRecord.Recent nowMs) ∧
      (expireOld dc nowMs).usedUs.toNat = airtime (inUse (expireOld dc nowMs).history) := by
  obtain ⟨h₁, h₂⟩ := expireSlots_spec nowMs dc.history _ 0 h
  exact ⟨h₁, by rw [expireOld, h₂, h₁, add_zero]⟩

/-- Expiry clears slots and writes nothing else. -/
theorem mem_expireSlots {nowMs : UInt32} {slots : List DcTxRecord} {used : UInt64}
    {r : DcTxRecord} (h : r ∈ (expireSlots nowMs slots used).1) : r = .empty ∨ r ∈ slots := by
  induction slots generalizing used with
  | nil => exact absurd h List.not_mem_nil
  | cons x xs ih =>
    simp only [expireSlots] at h
    split_ifs at h
    all_goals
      rcases List.mem_cons.mp h with rfl | h
    all_goals try exact (ih h).imp_right (List.mem_cons_of_mem _)
    · exact Or.inr List.mem_cons_self
    · exact Or.inl rfl
    · exact Or.inr List.mem_cons_self

/-- With every slot unused or recent, expiry changes nothing. -/
theorem expireSlots_of_recent {nowMs : UInt32} {slots : List DcTxRecord} {used : UInt64}
    (h : ∀ r ∈ slots, r.txEndMs = 0 ∨ r.Recent nowMs) :
    expireSlots nowMs slots used = (slots, used) := by
  induction slots with
  | nil => rfl
  | cons r rs ih =>
    obtain ⟨hr, hrs⟩ := List.forall_mem_cons.mp h
    simp only [expireSlots, ih hrs]
    split_ifs with h₀ hold
    · rfl
    · exact absurd hr (not_or.mpr ⟨h₀, not_not.mpr hold⟩)
    · rfl

theorem expireOld_of_recent {dc : DcCtx} {nowMs : UInt32}
    (h : ∀ r ∈ dc.history, r.txEndMs = 0 ∨ r.Recent nowMs) : expireOld dc nowMs = dc := by
  simp only [expireOld, expireSlots_of_recent h]

/-- Overwriting an unused slot adds a record. -/
theorem inUse_set {history : List DcTxRecord} {idx : ℕ} {r : DcTxRecord}
    (hidx : idx < history.length) (hfree : (history.getD idx .empty).txEndMs = 0)
    (hr : r.txEndMs ≠ 0) : inUse (history.set idx r) = r ::ₘ inUse history := by
  induction history generalizing idx with
  | nil => simp at hidx
  | cons x xs ih =>
    cases idx with
    | zero =>
      have hx : x.txEndMs = 0 := hfree
      rw [List.set_cons_zero, inUse_cons, if_neg hr, inUse_cons, if_pos hx]
    | succ idx =>
      have hidx' : idx < xs.length := by simpa using hidx
      rw [List.set_cons_succ, inUse_cons, inUse_cons, ih hidx' hfree]
      split_ifs
      · rfl
      · exact Multiset.cons_swap _ _ _

/-- **Checking** expires, and compares; a refused attempt changes only the two counters of
refusals. -/
theorem dutycycleCheck_cases (dc : DcCtx) (nowMs toaUs : UInt32) :
    ((expireOld dc nowMs).usedUs + toaUs.toUInt64 ≤ dcBudgetUs ∧
      dutycycleCheck dc nowMs toaUs = (true, expireOld dc nowMs)) ∨
    (dcBudgetUs < (expireOld dc nowMs).usedUs + toaUs.toUInt64 ∧
      (dutycycleCheck dc nowMs toaUs).1 = false ∧
      (dutycycleCheck dc nowMs toaUs).2.history = (expireOld dc nowMs).history ∧
      (dutycycleCheck dc nowMs toaUs).2.usedUs = (expireOld dc nowMs).usedUs) := by
  simp only [dutycycleCheck]
  by_cases h : (expireOld dc nowMs).usedUs + toaUs.toUInt64 ≤ dcBudgetUs
  · rw [if_pos h]
    exact Or.inl ⟨h, rfl⟩
  · rw [if_neg h]
    exact Or.inr ⟨UInt64.not_le.mp h, rfl, rfl, rfl⟩

/-! ### The search -/

/-- A search along indices of which one is free finds a free one. -/
theorem dcSearch_of_free {history : List DcTxRecord} {nowMs : UInt32} {order : List ℕ}
    (hfree : ∃ idx ∈ order, (history.getD idx .empty).txEndMs = 0) (lruIdx : ℕ)
    (lruAge : UInt32) :
    ∃ idx lru, dcSearch history nowMs order lruIdx lruAge = (some idx, lru) ∧ idx ∈ order ∧
      (history.getD idx .empty).txEndMs = 0 := by
  induction order generalizing lruIdx lruAge with
  | nil => simp at hfree
  | cons i rest ih =>
    simp only [dcSearch]
    by_cases hi : (history.getD i .empty).txEndMs = 0
    · exact ⟨i, lruIdx, by rw [if_pos hi], List.mem_cons_self, hi⟩
    · have hrest : ∃ idx ∈ rest, (history.getD idx .empty).txEndMs = 0 := by
        obtain ⟨idx, hmem, hidx⟩ := hfree
        rcases List.mem_cons.mp hmem with rfl | hmem
        · exact absurd hidx hi
        · exact ⟨idx, hmem, hidx⟩
      rw [if_neg hi]
      split_ifs
      · obtain ⟨idx, lru, heq, hmem, hidx⟩ := ih hrest i (nowMs - (history.getD i .empty).txEndMs)
        exact ⟨idx, lru, heq, List.mem_cons_of_mem _ hmem, hidx⟩
      · obtain ⟨idx, lru, heq, hmem, hidx⟩ := ih hrest lruIdx lruAge
        exact ⟨idx, lru, heq, List.mem_cons_of_mem _ hmem, hidx⟩

/-- A search along indices none of which is free ends with one to evict. -/
theorem dcSearch_of_full {history : List DcTxRecord} {nowMs : UInt32} {order : List ℕ}
    {lruIdx : ℕ} {lruAge : UInt32}
    (hfull : ∀ idx ∈ order, (history.getD idx .empty).txEndMs ≠ 0)
    (horder : ∀ idx ∈ order, idx < dcHistoryCap) (hlru : lruIdx < dcHistoryCap) :
    ∃ lru < dcHistoryCap, dcSearch history nowMs order lruIdx lruAge = (none, lru) := by
  induction order generalizing lruIdx lruAge with
  | nil => exact ⟨lruIdx, hlru, rfl⟩
  | cons i rest ih =>
    obtain ⟨hi, hrest⟩ := List.forall_mem_cons.mp hfull
    obtain ⟨hlt, horest⟩ := List.forall_mem_cons.mp horder
    simp only [dcSearch, if_neg hi]
    split_ifs
    · exact ih hrest horest hlt
    · exact ih hrest horest hlru

/-- The search looks at every slot. -/
theorem mem_scanOrder {head idx : ℕ} : idx ∈ scanOrder head ↔ idx < dcHistoryCap := by
  simp only [scanOrder, List.mem_map, List.mem_range, dcHistoryCap]
  constructor
  · rintro ⟨i, -, rfl⟩
    exact Nat.mod_lt _ (by decide)
  · intro hidx
    exact ⟨(idx + 512 - head % 512) % 512, Nat.mod_lt _ (by decide), by omega⟩

/-- A slot is left for the next record: one is unused, or its record has left the window. -/
def DcCtx.HasRoom (dc : DcCtx) (nowMs : UInt32) : Prop :=
  ∃ r ∈ dc.history, r.txEndMs = 0 ∨ ¬r.Recent nowMs

instance (dc : DcCtx) (nowMs : UInt32) : Decidable (dc.HasRoom nowMs) :=
  inferInstanceAs (Decidable (∃ r ∈ _, _))

/-- Expiry turns room into an unused slot. -/
theorem exists_free_expireSlots {nowMs : UInt32} {slots : List DcTxRecord}
    (h : ∃ r ∈ slots, r.txEndMs = 0 ∨ ¬r.Recent nowMs) (used : UInt64) :
    ∃ r ∈ (expireSlots nowMs slots used).1, r.txEndMs = 0 := by
  induction slots generalizing used with
  | nil => simp at h
  | cons x xs ih =>
    simp only [expireSlots]
    split_ifs with h₀ hold
    · exact ⟨x, List.mem_cons_self, h₀⟩
    · exact ⟨.empty, List.mem_cons_self, rfl⟩
    · obtain ⟨r, hr, hroom⟩ := h
      rcases List.mem_cons.mp hr with rfl | hr
      · exact absurd hroom (not_or.mpr ⟨h₀, not_not.mpr hold⟩)
      · obtain ⟨r', hr', hzero⟩ := ih ⟨r, hr, hroom⟩ used
        exact ⟨r', List.mem_cons_of_mem _ hr', hzero⟩

/-- Expiry takes no room away. -/
theorem DcCtx.HasRoom.expireOld {dc : DcCtx} {nowMs : UInt32} (h : dc.HasRoom nowMs) :
    (expireOld dc nowMs).HasRoom nowMs := by
  obtain ⟨r, hr, hzero⟩ := exists_free_expireSlots h dc.usedUs
  exact ⟨r, hr, Or.inl hzero⟩

theorem storedTime_ne_zero (nowMs : UInt32) : storedTime nowMs ≠ 0 := by
  simp only [storedTime]
  split_ifs with h
  · decide
  · exact h

/-- **Recording** with room adds the record and its airtime, and nothing else. -/
theorem dutycycleRecord_spec {dc : DcCtx} {nowMs : UInt32} (hroom : dc.HasRoom nowMs)
    (toaUs : UInt32) :
    inUse (dutycycleRecord dc nowMs toaUs).history =
        ⟨storedTime nowMs, toaUs⟩ ::ₘ inUse (expireOld dc nowMs).history ∧
      (dutycycleRecord dc nowMs toaUs).usedUs =
        (expireOld dc nowMs).usedUs + toaUs.toUInt64 := by
  have hlen := (expireOld dc nowMs).length_history
  have hfree : ∃ idx ∈ scanOrder (expireOld dc nowMs).head,
      ((expireOld dc nowMs).history.getD idx .empty).txEndMs = 0 := by
    obtain ⟨r, hr, hzero⟩ : ∃ r ∈ (expireOld dc nowMs).history, r.txEndMs = 0 :=
      exists_free_expireSlots hroom _
    obtain ⟨idx, hidx⟩ := List.mem_iff_getElem?.mp hr
    have hlt := (List.getElem?_eq_some_iff.mp hidx).1
    rw [hlen] at hlt
    refine ⟨idx, mem_scanOrder.mpr hlt, ?_⟩
    rw [List.getD_eq_getElem?_getD, hidx]
    exact hzero
  obtain ⟨idx, lru, hsearch, hmem, hzero⟩ : ∃ idx lru,
      (expireOld dc nowMs).search nowMs = (some idx, lru) ∧ idx ∈ scanOrder _ ∧ _ :=
    dcSearch_of_free hfree 0 0
  have hidx : idx < (expireOld dc nowMs).history.length := by
    rw [hlen]
    exact mem_scanOrder.mp hmem
  rw [dutycycleRecord, hsearch]
  exact ⟨inUse_set hidx hzero (storedTime_ne_zero nowMs), rfl⟩

/-- **Recording** without room evicts a slot for the record. -/
theorem dutycycleRecord_of_full {dc : DcCtx} {nowMs : UInt32}
    (hfull : ∀ r ∈ (expireOld dc nowMs).history, r.txEndMs ≠ 0) (toaUs : UInt32) :
    ∃ lru < dcHistoryCap, dutycycleRecord dc nowMs toaUs =
      ((expireOld dc nowMs).evict lru).write lru nowMs toaUs := by
  have hlen := (expireOld dc nowMs).length_history
  have hslots : ∀ idx ∈ scanOrder (expireOld dc nowMs).head,
      ((expireOld dc nowMs).history.getD idx .empty).txEndMs ≠ 0 := by
    intro idx hidx
    have hlt : idx < (expireOld dc nowMs).history.length := by
      rw [hlen]
      exact mem_scanOrder.mp hidx
    rw [List.getD_eq_getElem?_getD, List.getElem?_eq_getElem hlt]
    exact hfull _ (List.getElem_mem hlt)
  obtain ⟨lru, hlru, hsearch⟩ : ∃ lru < dcHistoryCap,
      (expireOld dc nowMs).search nowMs = (none, lru) :=
    dcSearch_of_full hslots (fun _ => mem_scanOrder.mp) (by decide)
  exact ⟨lru, hlru, by rw [dutycycleRecord, hsearch, DcCtx.place]⟩

/-- Recording writes one slot. -/
theorem mem_place {dc : DcCtx} {nowMs toaUs : UInt32} {found : Option ℕ × ℕ} {r : DcTxRecord}
    (h : r ∈ (dc.place nowMs toaUs found).history) :
    r = ⟨storedTime nowMs, toaUs⟩ ∨ r ∈ dc.history := by
  obtain ⟨_ | idx, lru⟩ := found
  · exact (List.mem_or_eq_of_mem_set h).symm
  · exact (List.mem_or_eq_of_mem_set h).symm

end Rivr
