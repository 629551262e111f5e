import Mathlib.Algebra.Ring.Nat
import Rivr.Firmware.NeighborRuns

/-!
# What an observation costs

Two decisions of `neighbor_update` that compare numbers which wrap around.

The loss rate of a known neighbour takes the gap of the 16-bit sequence numbers for missed frames.
For a number that was seen before, or is older than the last one, the gap is far above its cap, so
that a duplicate counts as fifteen missed frames. It leaves the loss rate as it was, or lower, only
if this was 81 or more, or was not taken yet (`lossRate_observed_le_iff`).

In a full table a new neighbour takes the place of the record with the smallest time stamp, which is
the oldest one exactly if the clock has not wrapped since some of the records were written and
before others were (`replacesOldest_iff`).
-/

namespace Rivr

/-! ### Sequence numbers -/

/-- The first sequence number equals the second or precedes it, in the order of 16-bit serial
numbers. -/
def SerialLE (seq lastSeq : UInt16) : Prop := (seq - lastSeq).toInt16 ≤ 0

instance (seq lastSeq : UInt16) : Decidable (SerialLE seq lastSeq) :=
  inferInstanceAs (Decidable (_ ≤ _))

/-- The gap of a number that is not new is above the cap. -/
theorem SerialLE.lossMaxGap_lt {seq lastSeq : UInt16} (h : SerialLE seq lastSeq) :
    seq - lastSeq - 1 > ntableLossMaxGap := by
  rw [SerialLE] at h
  generalize seq - lastSeq = gap at h ⊢
  have hlt := gap.toNat_lt
  have hone : (1 : UInt16).toNat = 1 := rfl
  rw [Int16.le_iff_toInt_le] at h
  change BitVec.toInt gap.toBitVec ≤ 0 at h
  rw [BitVec.toInt_eq_toNat_cond] at h
  change (if 2 * gap.toNat < 2 ^ 16 then (gap.toNat : ℤ) else (gap.toNat : ℤ) - (2 ^ 16 : ℕ)) ≤ 0
    at h
  rw [gt_iff_lt, UInt16.lt_iff_toNat_lt, UInt16.toNat_sub, hone]
  change 15 < (2 ^ 16 - 1 + gap.toNat) % 2 ^ 16
  split_ifs at h <;> omega

/-! ### The loss rate -/

/-- The loss rate after a frame whose number is not new. -/
def lossAfterDuplicate (lossRate : UInt8) : UInt8 :=
  ((lossAfterMisses 15 lossRate).toUInt32 * 7 / 8).toUInt8

theorem updateLossRateEwma_of_serialLE {n : RivrNeighbor} {seq : UInt16}
    (h : SerialLE seq n.lastSeq) :
    (updateLossRateEwma n seq).lossRate = lossAfterDuplicate n.lossRate := by
  rw [updateLossRateEwma]
  dsimp only
  rw [if_pos h.lossMaxGap_lt]
  rfl

/-- Fifteen misses and a receipt lead to a loss rate of about 81. -/
theorem lossAfterDuplicate_le_iff (lossRate : UInt8) :
    lossAfterDuplicate lossRate ≤ lossRate ↔ 81 ≤ lossRate := by
  have hall : ∀ i : Fin 256, lossAfterDuplicate (UInt8.ofNat i) ≤ UInt8.ofNat i ↔
      81 ≤ UInt8.ofNat i := by decide +kernel
  have hloss := hall ⟨lossRate.toNat, lossRate.toNat_lt⟩
  rwa [UInt8.ofNat_toNat] at hloss

variable {tbl : RivrNeighborTable} {o : Observation} {n : RivrNeighbor} {k : ℕ}

theorem entries_neighborUpdate_of_known (hid : o.nodeId ≠ 0)
    (hslot : findSlot tbl o.nodeId = some k) (nowMs : UInt32) :
    (neighborUpdate tbl o nowMs).entries =
      tbl.entries.set k (((tbl.entries.getD k .empty).observeAgain o).observed o nowMs) := by
  rw [neighborUpdate, if_neg hid]
  split
  · rename_i idx hidx
    obtain rfl := Option.some.inj (hidx.symm.trans hslot)
    rfl
  · rename_i hnone
    exact absurd (hnone.symm.trans hslot) (Option.some_ne_none k).symm

/-- **Duplicates and old frames.** Observing a known neighbour with a number that is not new leaves
its loss rate as it was, or lower, exactly if no loss is counted yet or the rate is 81 or more. -/
theorem lossRate_observed_le_iff (hid : o.nodeId ≠ 0) (hslot : findSlot tbl o.nodeId = some k)
    (hget : tbl.entries[k]? = some n) (hold : SerialLE o.seq n.lastSeq) (nowMs : UInt32) :
    ((neighborUpdate tbl o nowMs).entries.getD k .empty).lossRate ≤ n.lossRate ↔
      n.rxOk = 0 ∨ 81 ≤ n.lossRate := by
  obtain ⟨hk, -⟩ := List.getElem?_eq_some_iff.mp hget
  have hn : tbl.entries.getD k .empty = n := by
    rw [List.getD_eq_getElem?_getD, hget, Option.getD_some]
  have hloss : ((neighborUpdate tbl o nowMs).entries.getD k .empty).lossRate =
      if n.rxOk > 0 then lossAfterDuplicate n.lossRate else n.lossRate := by
    rw [entries_neighborUpdate_of_known hid hslot, hn, List.getD_eq_getElem?_getD,
      List.getElem?_set_self hk, Option.getD_some, lossRate_observed, lossRate_observeAgain,
      updateLossRateEwma_of_serialLE hold]
  rw [hloss]
  by_cases hrx : n.rxOk = 0
  · rw [if_neg (by rw [hrx]; decide)]
    exact iff_of_true (UInt8.le_refl _) (.inl hrx)
  · have hpos : n.rxOk > 0 := UInt32.pos_iff_ne_zero.mpr hrx
    rw [if_pos hpos, lossAfterDuplicate_le_iff, or_iff_right hrx]

/-- A table with one neighbour, of which two frames in a row were heard. -/
def twoFramesTable : RivrNeighborTable :=
  ntableAfter [.update ⟨7, -90, 5, 0, 1, 40⟩ 1000, .update ⟨7, -90, 5, 0, 2, 40⟩ 2000]

theorem lossRate_observed_le_iff_two :
    ((neighborUpdate twoFramesTable ⟨7, -90, 5, 0, 2, 40⟩ 3000).entries.getD 0 .empty).lossRate ≤
        (twoFramesTable.entries.getD 0 .empty).lossRate ↔
      (twoFramesTable.entries.getD 0 .empty).rxOk = 0 ∨
        81 ≤ (twoFramesTable.entries.getD 0 .empty).lossRate :=
  lossRate_observed_le_iff (by decide) (by decide) (by decide) (by decide) 3000

/-- The second frame heard once more raises the loss rate from 0 to 72. -/
theorem not_lossRate_observed_le :
    ¬∀ (tbl : RivrNeighborTable) (o : Observation) (k : ℕ) (n : RivrNeighbor) (nowMs : UInt32),
      o.nodeId ≠ 0 → findSlot tbl o.nodeId = some k → tbl.entries[k]? = some n →
        SerialLE o.seq n.lastSeq →
          ((neighborUpdate tbl o nowMs).entries.getD k .empty).lossRate ≤ n.lossRate := by
  intro h
  have hloss := h twoFramesTable ⟨7, -90, 5, 0, 2, 40⟩ 0 (twoFramesTable.entries.getD 0 .empty) 3000
    (by decide) (by decide) (by decide) (by decide)
  exact absurd hloss (by decide +kernel)

/-! ### Eviction -/

/-- A new neighbour takes the place of a record of the greatest age, and nothing else changes. -/
def ReplacesOldest (tbl : RivrNeighborTable) (o : Observation) (nowMs : UInt32) : Prop :=
  ∃ k n, tbl.entries[k]? = some n ∧
    (∀ m ∈ tbl.entries, nowMs - m.lastSeenMs ≤ nowMs - n.lastSeenMs) ∧
      (neighborUpdate tbl o nowMs).entries = tbl.entries.set k (o.newRecord.observed o nowMs) ∧
        (neighborUpdate tbl o nowMs).count = tbl.count

/-- The loop of `oldest_slot` finds a record with the smallest time stamp. -/
theorem oldestScan_spec {seen ns : List RivrNeighbor} {oldest : ℕ} {x : RivrNeighbor}
    (hget : seen[oldest]? = some x) (hmin : ∀ m ∈ seen, x.lastSeenMs ≤ m.lastSeenMs) :
    ∃ y, (seen ++ ns)[oldestScan ns seen.length oldest x.lastSeenMs]? = some y ∧
      ∀ m ∈ seen ++ ns, y.lastSeenMs ≤ m.lastSeenMs := by
  induction ns generalizing seen oldest x with
  | nil =>
    rw [List.append_nil]
    exact ⟨x, hget, hmin⟩
  | cons n ns ih =>
    have hsplit : seen ++ n :: ns = (seen ++ [n]) ++ ns := by
      rw [List.append_assoc, List.singleton_append]
    have hlen : seen.length + 1 = (seen ++ [n]).length := by
      rw [List.length_append, List.length_singleton]
    rw [oldestScan, hsplit, hlen]
    split_ifs with hlt
    · refine ih List.getElem?_concat_length fun m hm => ?_
      rcases List.mem_append.mp hm with hm | hm
      · exact UInt32.le_trans (UInt32.le_of_lt hlt) (hmin m hm)
      · obtain rfl := List.mem_singleton.mp hm
        exact UInt32.le_refl _
    · have hoccupied : oldest < seen.length := (List.getElem?_eq_some_iff.mp hget).1
      refine ih (by rwa [List.getElem?_append_left hoccupied]) fun m hm => ?_
      rcases List.mem_append.mp hm with hm | hm
      · exact hmin m hm
      · obtain rfl := List.mem_singleton.mp hm
        exact UInt32.not_lt.mp hlt

theorem oldestSlot_spec (hfull : tbl.count.toNat = ntableSize) :
    ∃ n, tbl.entries[oldestSlot tbl]? = some n ∧
      ∀ m ∈ tbl.entries, n.lastSeenMs ≤ m.lastSeenMs := by
  have hlen := tbl.length_entries
  rw [oldestSlot, hfull, ← hlen, List.take_length]
  cases hentries : tbl.entries with
  | nil =>
    rw [hentries] at hlen
    exact absurd hlen (by decide)
  | cons x ns =>
    refine @oldestScan_spec [x] ns 0 x rfl fun m hm => ?_
    obtain rfl := List.mem_singleton.mp hm
    exact UInt32.le_refl _

/-- Ages of records from the same side of a wrap of the clock, and from both. -/
theorem age_le_iff {ts ts' nowMs : UInt32} (hle : ts ≤ ts') :
    nowMs - ts' ≤ nowMs - ts ↔ (ts ≤ nowMs → ts' ≤ nowMs) := by
  have hts := ts.toNat_lt
  have hts' := ts'.toNat_lt
  have hnow := nowMs.toNat_lt
  simp only [UInt32.le_iff_toNat_le, UInt32.toNat_sub] at hle ⊢
  omega

theorem neighborUpdate_of_full (hid : o.nodeId ≠ 0) (hfull : tbl.count.toNat = ntableSize)
    (hnew : ∀ n ∈ tbl.entries, n.neighborId ≠ o.nodeId) (nowMs : UInt32) :
    (neighborUpdate tbl o nowMs).entries =
        tbl.entries.set (oldestSlot tbl) (o.newRecord.observed o nowMs) ∧
      (neighborUpdate tbl o nowMs).count = tbl.count := by
  have hslot : findSlot tbl o.nodeId = none := by
    rw [findSlot, List.findIdx?_eq_none_iff]
    exact fun n hn => decide_eq_false (hnew n (List.mem_of_mem_take hn))
  rw [neighborUpdate, if_neg hid]
  split
  · rename_i idx hidx
    exact absurd (hslot.symm.trans hidx) (Option.some_ne_none idx).symm
  · dsimp only
    rw [if_neg (Nat.not_lt.mpr (Nat.le_of_eq hfull.symm)), if_neg (Nat.not_lt.mpr (Nat.le_of_eq hfull.symm))]
    exact ⟨rfl, rfl⟩

/-- A record of the greatest age can only be the one in the slot that `oldest_slot` finds. -/
theorem ReplacesOldest.age_le {nowMs : UInt32} (h : ReplacesOldest tbl o nowMs)
    (hid : o.nodeId ≠ 0) (hfull : tbl.count.toNat = ntableSize)
    (hnew : ∀ n ∈ tbl.entries, n.neighborId ≠ o.nodeId)
    (hget : tbl.entries[oldestSlot tbl]? = some n) :
    ∀ m ∈ tbl.entries, nowMs - m.lastSeenMs ≤ nowMs - n.lastSeenMs := by
  obtain ⟨k, m, hm, hage, hset, -⟩ := h
  by_cases hk : k = oldestSlot tbl
  · rw [hk] at hm
    obtain rfl := Option.some.inj (hm.symm.trans hget)
    exact hage
  · -- the record in the other slot would be one of the new neighbour
    have hother := congrArg (fun es => es[k]?)
      (hset.symm.trans (neighborUpdate_of_full hid hfull hnew nowMs).1)
    rw [List.getElem?_set_self (List.getElem?_eq_some_iff.mp hm).1,
      List.getElem?_set_ne (Ne.symm hk), hm] at hother
    exact absurd (congrArg RivrNeighbor.neighborId (Option.some.inj hother)).symm
      (hnew m (List.mem_of_getElem? hm))

/-- **Eviction.** In a full table a new neighbour takes the place of a record of the greatest age
exactly if the clock has wrapped since all the records were written, or since none was. -/
theorem replacesOldest_iff (hid : o.nodeId ≠ 0) (hfull : tbl.count.toNat = ntableSize)
    (hnew : ∀ n ∈ tbl.entries, n.neighborId ≠ o.nodeId) (nowMs : UInt32) :
    ReplacesOldest tbl o nowMs ↔ (∀ n ∈ tbl.entries, n.lastSeenMs ≤ nowMs) ∨
      ∀ n ∈ tbl.entries, nowMs < n.lastSeenMs := by
  obtain ⟨hentries, hcount⟩ := neighborUpdate_of_full hid hfull hnew nowMs
  obtain ⟨n, hget, hmin⟩ := oldestSlot_spec hfull
  have hn := List.mem_of_getElem? hget
  constructor
  · intro h
    have hage := h.age_le hid hfull hnew hget
    by_cases hpast : n.lastSeenMs ≤ nowMs
    · exact .inl fun x hx => (age_le_iff (hmin x hx)).mp (hage x hx) hpast
    · refine .inr fun x hx => ?_
      exact UInt32.lt_of_lt_of_le (UInt32.not_le.mp hpast) (hmin x hx)
  · intro hside
    refine ⟨oldestSlot tbl, n, hget, fun x hx => (age_le_iff (hmin x hx)).mpr fun hpast => ?_,
      hentries, hcount⟩
    rcases hside with hbefore | hafter
    · exact hbefore x hx
    · exact absurd hpast (UInt32.not_le.mpr (hafter n hn))

/-- A full table: node 1 was heard just after the clock had wrapped, and the others before. -/
def wrappedTable : RivrNeighborTable :=
  ntableAfter (((List.range 15).map fun i =>
    NtableCall.update ⟨UInt32.ofNat (i + 2), -90, 5, 0, 1, 40⟩ (0xFFFFFF00 + UInt32.ofNat i)) ++
      [.update ⟨1, -90, 5, 0, 1, 40⟩ 10])

/-- A full table of records from the same side of the wrap. -/
def unwrappedTable : RivrNeighborTable :=
  ntableAfter ((List.range 16).map fun i =>
    NtableCall.update ⟨UInt32.ofNat (i + 1), -90, 5, 0, 1, 40⟩ (UInt32.ofNat (i + 1000)))

theorem replacesOldest_iff_unwrapped :
    ReplacesOldest unwrappedTable ⟨17, -90, 5, 0, 1, 40⟩ 2000 ↔
      (∀ n ∈ unwrappedTable.entries, n.lastSeenMs ≤ 2000) ∨
        ∀ n ∈ unwrappedTable.entries, 2000 < n.lastSeenMs :=
  replacesOldest_iff (by decide) (by decide +kernel) (by decide +kernel) 2000

/-- Node 17 takes the place of node 1, which was heard last. -/
theorem not_replacesOldest :
    ¬∀ (tbl : RivrNeighborTable) (o : Observation) (nowMs : UInt32), o.nodeId ≠ 0 →
      tbl.count.toNat = ntableSize → (∀ n ∈ tbl.entries, n.neighborId ≠ o.nodeId) →
        (∀ n ∈ tbl.entries, (nowMs - n.lastSeenMs).toNat < 2 ^ 31) →
          ReplacesOldest tbl o nowMs := by
  intro h
  have hreplaces := h wrappedTable ⟨17, -90, 5, 0, 1, 40⟩ 1000 (by decide) (by decide +kernel)
    (by decide +kernel) (by decide +kernel)
  obtain ⟨n, hlast, hseen⟩ : ∃ n, wrappedTable.entries[oldestSlot wrappedTable]? = some n ∧
      n.lastSeenMs = 10 := ⟨wrappedTable.entries.getD 15 .empty, by decide +kernel⟩
  have hage := hreplaces.age_le (by decide) (by decide +kernel) (by decide +kernel) hlast
    (wrappedTable.entries.getD 0 .empty) (by decide +kernel)
  rw [hseen] at hage
  exact absurd hage (by decide +kernel)

end Rivr
