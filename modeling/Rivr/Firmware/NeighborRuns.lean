import Mathlib.Data.List.GetD
import Mathlib.Data.List.Induction
import Mathlib.Data.List.Nodup
import Rivr.Firmware.NeighborTable
import Rivr.ForMathlib.SlotTable
import Rivr.ForMathlib.SwapRemove

/-!
# The neighbour table as a list of neighbours

The occupied slots of the table of `firmware_core/neighbor_table.c` come first, so that it is a list
of neighbours (`RivrNeighborTable.Holds`). Whatever is called, and with whatever arguments, the list
changes in one of eight ways (`Changes`): nothing happens, a record is written in its place, a
record is added, the table being full a record gives way to a new one, or the expired records go and
the others may change their places.

Each of these keeps the node ids distinct and the loss rates and transmission counts in their ranges
(`ntable_wellFormed`).
-/

open SlotTable SwapRemove

namespace Rivr

/-! ### Calls -/

/-- A call. -/
inductive NtableCall
  | update (o : Observation) (nowMs : UInt32)
  | setFlag (nodeId : UInt32) (flag : UInt8)
  | setPosition (nodeId : UInt32) (latE7 lonE7 : Int32)
  | find (nodeId nowMs : UInt32)
  | expire (nowMs : UInt32)

/-- The table after a call. -/
def NtableCall.apply (tbl : RivrNeighborTable) : NtableCall → RivrNeighborTable
  | .update o nowMs => neighborUpdate tbl o nowMs
  | .setFlag nodeId flag => neighborSetFlag tbl nodeId flag
  | .setPosition nodeId latE7 lonE7 => neighborSetPosition tbl nodeId latE7 lonE7
  | .find nodeId nowMs => (neighborFind tbl nodeId nowMs).2
  | .expire nowMs => (neighborTableExpire tbl nowMs).1

/-- The table after the calls, from a new one. -/
def ntableAfter (calls : List NtableCall) : RivrNeighborTable :=
  calls.foldl NtableCall.apply neighborTableInit

/-! ### The table as a list -/

variable {tbl : RivrNeighborTable} {ns ns' : List RivrNeighbor} {n : RivrNeighbor} {k : ℕ}
  {nodeId nowMs : UInt32} {o : Observation}

/-- The neighbours stand in the first slots, and the other slots are free. -/
structure RivrNeighborTable.Holds (tbl : RivrNeighborTable) (ns : List RivrNeighbor) : Prop where
  entries : ∃ free, tbl.entries = ns ++ free ∧ ∀ n ∈ free, n.neighborId = 0
  count : tbl.count.toNat = ns.length

theorem RivrNeighborTable.Holds.length_le (h : tbl.Holds ns) : ns.length ≤ ntableSize := by
  obtain ⟨free, hentries, -⟩ := h.entries
  have hlen := congrArg List.length hentries
  rw [tbl.length_entries, List.length_append] at hlen
  omega

theorem RivrNeighborTable.Holds.take_eq (h : tbl.Holds ns) :
    tbl.entries.take tbl.count.toNat = ns := by
  obtain ⟨free, hentries, -⟩ := h.entries
  rw [hentries, h.count, List.take_left]

theorem RivrNeighborTable.Holds.getD_eq (h : tbl.Holds ns) (hget : ns[k]? = some n) :
    tbl.entries.getD k .empty = n := by
  obtain ⟨free, hentries, -⟩ := h.entries
  obtain ⟨hk, rfl⟩ := List.getElem?_eq_some_iff.mp hget
  rw [hentries, List.getD_eq_getElem?_getD, List.getElem?_append_left hk, hget, Option.getD_some]

/-- The table with one record written over. -/
theorem RivrNeighborTable.Holds.set (h : tbl.Holds ns) (hk : k < ns.length) {x : RivrNeighbor}
    {tbl' : RivrNeighborTable} (hentries' : tbl'.entries = tbl.entries.set k x)
    (hcount : tbl'.count = tbl.count) : tbl'.Holds (ns.set k x) := by
  obtain ⟨free, hentries, hfree⟩ := h.entries
  refine ⟨⟨free, ?_, hfree⟩, ?_⟩
  · rw [hentries', hentries, List.set_append_left _ _ hk]
  · rw [hcount, List.length_set]
    exact h.count

theorem holds_neighborTableInit : neighborTableInit.Holds [] where
  entries := by
    refine ⟨neighborTableInit.entries, rfl, fun n hn => ?_⟩
    obtain rfl := List.eq_of_mem_replicate hn
    rfl
  count := rfl

/-! ### Finding a slot -/

theorem findSlot_eq_some (h : tbl.Holds ns) (hslot : findSlot tbl nodeId = some k) :
    ∃ n, ns[k]? = some n ∧ n.neighborId = nodeId := by
  rw [findSlot, h.take_eq] at hslot
  obtain ⟨hk, hid, -⟩ := List.findIdx?_eq_some_iff_getElem.mp hslot
  exact ⟨ns[k], List.getElem?_eq_getElem hk, of_decide_eq_true hid⟩

theorem findSlot_eq_none_iff (h : tbl.Holds ns) :
    findSlot tbl nodeId = none ↔ ∀ n ∈ ns, n.neighborId ≠ nodeId := by
  rw [findSlot, h.take_eq, List.findIdx?_eq_none_iff]
  exact forall₂_congr fun n _ => decide_eq_false_iff_not

theorem oldestScan_lt {ns : List RivrNeighbor} {i oldest : ℕ} {minTs : UInt32} {bound : ℕ}
    (hi : i + ns.length ≤ bound) (hold : oldest < bound) : oldestScan ns i oldest minTs < bound := by
  induction ns generalizing i oldest minTs with
  | nil => exact hold
  | cons n ns ih =>
    rw [List.length_cons] at hi
    rw [oldestScan]
    split_ifs
    · exact ih (by omega) (by omega)
    · exact ih (by omega) hold

theorem oldestSlot_lt (h : tbl.Holds ns) (hne : 0 < ns.length) : oldestSlot tbl < ns.length := by
  rw [oldestSlot, h.take_eq]
  refine oldestScan_lt ?_ hne
  rw [List.length_drop]
  omega

/-! ### What a call does -/

/-- The record after it has been looked up. -/
def RivrNeighbor.lookedUp (n : RivrNeighbor) (nowMs : UInt32) : RivrNeighbor :=
  if nowMs - n.lastSeenMs ≥ ntableExpiryMs then n else n.refreshStale nowMs

/-- The call meets no neighbour. -/
def NtableCall.Misses (ns : List RivrNeighbor) : NtableCall → Prop
  | .update o _ => o.nodeId = 0
  | .setFlag nodeId _ => ∀ n ∈ ns, n.neighborId ≠ nodeId
  | .setPosition nodeId _ _ => ∀ n ∈ ns, n.neighborId ≠ nodeId
  | .find nodeId _ => ∀ n ∈ ns, n.neighborId ≠ nodeId
  | .expire _ => False

/-- What a call does to the list of neighbours. -/
inductive Changes (ns : List RivrNeighbor) : NtableCall → List RivrNeighbor → Prop
  | missed {c : NtableCall} (h : c.Misses ns) : Changes ns c ns
  | observed {o : Observation} {nowMs : UInt32} {k : ℕ} {n : RivrNeighbor} (hget : ns[k]? = some n)
      (hid : n.neighborId = o.nodeId) :
      Changes ns (.update o nowMs) (ns.set k ((n.observeAgain o).observed o nowMs))
  | added {o : Observation} {nowMs : UInt32} (hid : o.nodeId ≠ 0)
      (hnew : ∀ n ∈ ns, n.neighborId ≠ o.nodeId) (hroom : ns.length < ntableSize) :
      Changes ns (.update o nowMs) (ns ++ [o.newRecord.observed o nowMs])
  | evicted {o : Observation} {nowMs : UInt32} {k : ℕ} {n : RivrNeighbor} (hid : o.nodeId ≠ 0)
      (hnew : ∀ n ∈ ns, n.neighborId ≠ o.nodeId) (hfull : ns.length = ntableSize)
      (hget : ns[k]? = some n) :
      Changes ns (.update o nowMs) (ns.set k (o.newRecord.observed o nowMs))
  | flagged {flag : UInt8} {k : ℕ} {n : RivrNeighbor} (hget : ns[k]? = some n) :
      Changes ns (.setFlag n.neighborId flag) (ns.set k { n with flags := n.flags ||| flag })
  | positioned {latE7 lonE7 : Int32} {k : ℕ} {n : RivrNeighbor} (hget : ns[k]? = some n) :
      Changes ns (.setPosition n.neighborId latE7 lonE7)
        (ns.set k { n with latE7 := latE7, lonE7 := lonE7 })
  | found {nowMs : UInt32} {k : ℕ} {n : RivrNeighbor} (hget : ns[k]? = some n) :
      Changes ns (.find n.neighborId nowMs) (ns.set k (n.lookedUp nowMs))
  | expired {nowMs : UInt32} {ns' : List RivrNeighbor}
      (hperm : ns'.Perm (ns.filter fun n => ¬nowMs - n.lastSeenMs ≥ ntableExpiryMs)) :
      Changes ns (.expire nowMs) ns'

/-- `neighbor_update`. -/
theorem neighborUpdate_spec (h : tbl.Holds ns) (o : Observation) (nowMs : UInt32) :
    ∃ ns', Changes ns (.update o nowMs) ns' ∧ (neighborUpdate tbl o nowMs).Holds ns' := by
  rw [neighborUpdate]
  by_cases hzero : o.nodeId = 0
  · rw [if_pos hzero]
    exact ⟨ns, .missed hzero, h⟩
  rw [if_neg hzero]
  have hle := h.length_le
  split
  · rename_i k hslot
    obtain ⟨n, hget, hid⟩ := findSlot_eq_some h hslot
    refine ⟨_, .observed hget hid, ?_⟩
    refine h.set (List.getElem?_eq_some_iff.mp hget).1 ?_ rfl
    rw [← h.getD_eq hget]
  · rename_i hslot
    have hnew := (findSlot_eq_none_iff h).mp hslot
    have hcount := h.count
    by_cases hroom : ns.length < ntableSize
    · refine ⟨_, .added hzero hnew hroom, ?_⟩
      -- the new record takes the first free slot, right behind the others
      obtain ⟨free, hentries, hfree⟩ := h.entries
      have hlen := congrArg List.length hentries
      rw [tbl.length_entries, List.length_append] at hlen
      obtain ⟨x, free, rfl⟩ := List.exists_cons_of_length_pos (show 0 < free.length by omega)
      refine ⟨⟨free, ?_, fun n hn => hfree n (List.mem_cons_of_mem x hn)⟩, ?_⟩
      · dsimp only
        rw [hcount, if_pos hroom, hentries, List.set_append_right _ _ (Nat.le_refl _),
          Nat.sub_self, List.set_cons_zero, List.append_assoc]
        rfl
      · dsimp only
        rw [hcount, if_pos hroom, UInt8.toNat_add, hcount, List.length_append]
        exact Nat.mod_eq_of_lt (show ns.length + 1 < 256 by rw [ntableSize] at hroom; omega)
    · -- a full table: the oldest record gives up its slot
      have hfull : ns.length = ntableSize := by omega
      have hlt := oldestSlot_lt h (hfull ▸ (by decide : 0 < ntableSize))
      refine ⟨_, .evicted hzero hnew hfull (List.getElem?_eq_getElem hlt), ?_⟩
      refine h.set hlt ?_ ?_
      · dsimp only
        rw [hcount, if_neg hroom]
      · dsimp only
        rw [hcount, if_neg hroom]

/-- The calls that change the record of a node. -/
theorem modifyRecord_spec (h : tbl.Holds ns) (hzero : ∀ n ∈ ns, n.neighborId ≠ 0)
    (nodeId : UInt32) (write : RivrNeighbor → RivrNeighbor) :
    ((∀ n ∈ ns, n.neighborId ≠ nodeId) ∧ (tbl.modifyRecord nodeId write).Holds ns) ∨
      ∃ k n, ns[k]? = some n ∧ n.neighborId = nodeId ∧
        (tbl.modifyRecord nodeId write).Holds (ns.set k (write n)) := by
  rw [RivrNeighborTable.modifyRecord]
  by_cases hid : nodeId = 0
  · rw [if_pos hid]
    exact .inl ⟨hid ▸ hzero, h⟩
  rw [if_neg hid]
  split
  · rename_i k hslot
    obtain ⟨n, hget, hn⟩ := findSlot_eq_some h hslot
    refine .inr ⟨k, n, hget, hn, ?_⟩
    refine h.set (List.getElem?_eq_some_iff.mp hget).1 ?_ rfl
    rw [← h.getD_eq hget]
  · rename_i hslot
    exact .inl ⟨(findSlot_eq_none_iff h).mp hslot, h⟩

theorem neighborScan_snd (nodeId nowMs : UInt32) (ns : List RivrNeighbor) :
    ((∀ n ∈ ns, n.neighborId ≠ nodeId) ∧ (neighborScan nodeId nowMs ns).2 = ns) ∨
      ∃ k n, ns[k]? = some n ∧ n.neighborId = nodeId ∧
        (neighborScan nodeId nowMs ns).2 = ns.set k (n.lookedUp nowMs) := by
  induction ns with
  | nil => exact .inl ⟨fun _ hn => absurd hn List.not_mem_nil, rfl⟩
  | cons n ns ih =>
    rw [neighborScan]
    by_cases hid : n.neighborId = nodeId
    · rw [if_neg (not_not.mpr hid)]
      refine .inr ⟨0, n, rfl, hid, ?_⟩
      rw [List.set_cons_zero, RivrNeighbor.lookedUp]
      split_ifs <;> rfl
    · rw [if_pos hid]
      rcases ih with ⟨hnone, hsame⟩ | ⟨k, m, hget, hm, hset⟩
      · exact .inl ⟨List.forall_mem_cons.mpr ⟨hid, hnone⟩, congrArg (n :: ·) hsame⟩
      · exact .inr ⟨k + 1, m, hget, hm, congrArg (n :: ·) hset⟩

/-- `neighbor_find`. -/
theorem neighborFind_spec (h : tbl.Holds ns) (hzero : ∀ n ∈ ns, n.neighborId ≠ 0)
    (nodeId nowMs : UInt32) :
    ∃ ns', Changes ns (.find nodeId nowMs) ns' ∧ (neighborFind tbl nodeId nowMs).2.Holds ns' := by
  rw [neighborFind]
  by_cases hid : nodeId = 0
  · rw [if_pos hid]
    exact ⟨ns, .missed (hid ▸ hzero : ∀ n ∈ ns, n.neighborId ≠ nodeId), h⟩
  rw [if_neg hid]
  obtain ⟨free, hentries, hfree⟩ := h.entries
  have hdrop : tbl.entries.drop tbl.count.toNat = free := by
    rw [hentries, h.count, List.drop_left]
  rcases neighborScan_snd nodeId nowMs ns with ⟨hnone, hscan⟩ | ⟨k, n, hget, rfl, hscan⟩
  · refine ⟨ns, .missed hnone, ⟨free, ?_, hfree⟩, h.count⟩
    dsimp only
    rw [h.take_eq, hscan, hdrop]
  · refine ⟨_, .found hget, ⟨free, ?_, hfree⟩, h.count.trans List.length_set.symm⟩
    dsimp only
    rw [h.take_eq, hscan, hdrop]

theorem holds_removeSlot (h : tbl.Holds ns) (hk : k < ns.length) :
    (tbl.removeSlot k).Holds (swapRemove ns k) := by
  rcases List.eq_nil_or_concat' ns with rfl | ⟨ns, last, rfl⟩
  · exact absurd hk (Nat.not_lt_zero k)
  obtain ⟨free, hentries, hfree⟩ := h.entries
  have hcount := h.count
  rw [List.length_append, List.length_singleton] at hk hcount
  have hlast : tbl.count.toNat - 1 = ns.length := by omega
  rw [List.append_assoc, List.singleton_append] at hentries
  have hgetD : tbl.entries.getD ns.length .empty = last := by
    rw [hentries, List.getD_append_right _ _ _ _ (Nat.le_refl _), Nat.sub_self, List.getD_cons_zero]
  have hclear : ∀ l : List RivrNeighbor, l.length = ns.length →
      (l ++ last :: free).set ns.length .empty = l ++ RivrNeighbor.empty :: free := by
    intro l hl
    rw [List.set_append_right _ _ (Nat.le_of_eq hl), hl, Nat.sub_self, List.set_cons_zero]
  have hcount' : (tbl.count - 1).toNat = ns.length := by
    rw [UInt8.toNat_sub_of_le _ _ (UInt8.le_iff_toNat_le.mpr (by rw [hcount]; exact Nat.succ_pos _)),
      hcount]
    rfl
  have hfree' : ∀ n ∈ RivrNeighbor.empty :: free, n.neighborId = 0 :=
    List.forall_mem_cons.mpr ⟨rfl, hfree⟩
  -- either the last record moves into the slot, or it is removed itself
  rcases Nat.lt_succ_iff_lt_or_eq.mp hk with hlt | rfl
  · rw [swapRemove_concat hlt]
    refine ⟨⟨_, ?_, hfree'⟩, hcount'.trans List.length_set.symm⟩
    rw [RivrNeighborTable.removeSlot]
    dsimp only
    rw [hlast, if_pos (Nat.ne_of_lt hlt), hgetD, hentries, List.set_append_left _ _ hlt,
      hclear _ List.length_set]
  · rw [swapRemove_concat_length]
    refine ⟨⟨_, ?_, hfree'⟩, hcount'⟩
    rw [RivrNeighborTable.removeSlot]
    dsimp only
    rw [hlast, if_neg (not_not.mpr rfl), hentries, hclear _ rfl]

/-- The loop of `neighbor_table_expire` sweeps the list. -/
theorem holds_expireLoop {turns i : ℕ} (h : tbl.Holds ns) (removed : UInt8) :
    (expireLoop nowMs turns i tbl removed).1.Holds
      (sweep (fun n => nowMs - n.lastSeenMs ≥ ntableExpiryMs) turns i ns) := by
  induction turns generalizing i tbl ns removed with
  | zero => exact h
  | succ turns ih =>
    rw [expireLoop, sweep, h.count]
    cases hget : ns[i]? with
    | none =>
      rw [if_neg (Nat.not_lt.mpr (List.getElem?_eq_none_iff.mp hget))]
      exact h
    | some n =>
      have hi := (List.getElem?_eq_some_iff.mp hget).1
      rw [if_pos hi, h.getD_eq hget]
      dsimp only
      split_ifs
      · exact ih (holds_removeSlot h hi) _
      · exact ih h _

/-- `neighbor_table_expire`. -/
theorem neighborTableExpire_spec (h : tbl.Holds ns) (nowMs : UInt32) :
    ∃ ns', Changes ns (.expire nowMs) ns' ∧ (neighborTableExpire tbl nowMs).1.Holds ns' := by
  refine ⟨_, .expired (sweep_perm ?_ ?_), holds_expireLoop h 0⟩
  · exact Nat.le_of_eq (by rw [h.count, Nat.zero_add])
  · exact fun n hn => absurd hn List.not_mem_nil

/-- **Refinement.** A call changes the list of neighbours in one of the eight ways. -/
theorem NtableCall.apply_spec (h : tbl.Holds ns) (hzero : ∀ n ∈ ns, n.neighborId ≠ 0)
    (c : NtableCall) : ∃ ns', Changes ns c ns' ∧ (c.apply tbl).Holds ns' := by
  cases c with
  | update o nowMs => exact neighborUpdate_spec h o nowMs
  | setFlag nodeId flag =>
    rcases modifyRecord_spec h hzero nodeId fun n => { n with flags := n.flags ||| flag } with
      ⟨hnone, hholds⟩ | ⟨k, n, hget, rfl, hholds⟩
    · exact ⟨ns, .missed hnone, hholds⟩
    · exact ⟨_, .flagged hget, hholds⟩
  | setPosition nodeId latE7 lonE7 =>
    rcases modifyRecord_spec h hzero nodeId fun n => { n with latE7 := latE7, lonE7 := lonE7 } with
      ⟨hnone, hholds⟩ | ⟨k, n, hget, rfl, hholds⟩
    · exact ⟨ns, .missed hnone, hholds⟩
    · exact ⟨_, .positioned hget, hholds⟩
  | find nodeId nowMs => exact neighborFind_spec h hzero nodeId nowMs
  | expire nowMs => exact neighborTableExpire_spec h nowMs

/-! ### Loss rates and transmission counts -/

/-- The loss rate is a percentage, and the transmission count, times 8, is one. -/
structure RivrNeighbor.InRange (n : RivrNeighbor) : Prop where
  lossRate_le : n.lossRate ≤ 100
  le_etxX8 : 8 ≤ n.etxX8
  etxX8_le : n.etxX8 ≤ 255

/-- A moving average of a loss rate and a percentage does not wrap, and is a percentage. -/
theorem toNat_lossEwma (lossRate : UInt8) {sample : UInt32} (hsample : sample.toNat ≤ 100) :
    ((lossRate.toUInt32 * 7 + sample) / 8).toUInt8.toNat =
      (lossRate.toNat * 7 + sample.toNat) / 8 := by
  have hloss := lossRate.toNat_lt
  rw [UInt32.toNat_toUInt8, UInt32.toNat_div, UInt32.toNat_add, UInt32.toNat_mul,
    UInt8.toNat_toUInt32]
  change (lossRate.toNat * 7 % 2 ^ 32 + sample.toNat) % 2 ^ 32 / 8 % 2 ^ 8 = _
  omega

theorem lossAfterMisses_le (misses : ℕ) {lossRate : UInt8} (h : lossRate ≤ 100) :
    lossAfterMisses misses lossRate ≤ 100 := by
  induction misses generalizing lossRate with
  | zero => exact h
  | succ misses ih =>
    refine ih ?_
    rw [UInt8.le_iff_toNat_le] at h ⊢
    rw [toNat_lossEwma lossRate (by decide)]
    change _ ≤ 100 at h
    change (_ + 100) / 8 ≤ 100
    omega

/-- The frame that was received counts as no loss. -/
theorem toNat_lossAfterReceipt (lossRate : UInt8) :
    (lossRate.toUInt32 * 7 / 8).toUInt8.toNat = lossRate.toNat * 7 / 8 := by
  have hewma := toNat_lossEwma lossRate (by decide : (0 : UInt32).toNat ≤ 100)
  rwa [UInt32.add_zero, UInt32.toNat_zero, Nat.add_zero] at hewma

theorem updateLossRateEwma_le (h : n.lossRate ≤ 100) (seq : UInt16) :
    (updateLossRateEwma n seq).lossRate ≤ 100 := by
  have hmisses := lossAfterMisses_le
    (if seq - n.lastSeq - 1 > ntableLossMaxGap then ntableLossMaxGap
      else seq - n.lastSeq - 1).toNat h
  have hreceipt := toNat_lossAfterReceipt (lossAfterMisses
    (if seq - n.lastSeq - 1 > ntableLossMaxGap then ntableLossMaxGap
      else seq - n.lastSeq - 1).toNat n.lossRate)
  rw [UInt8.le_iff_toNat_le] at hmisses ⊢
  change _ ≤ 100 at hmisses
  change UInt8.toNat (UInt32.toUInt8 _) ≤ 100
  omega

/-- Looking a neighbour up keeps its node id and its position. -/
theorem lookedUp_kept (n : RivrNeighbor) (nowMs : UInt32) :
    (n.lookedUp nowMs).neighborId = n.neighborId ∧ (n.lookedUp nowMs).latE7 = n.latE7 ∧
      (n.lookedUp nowMs).lonE7 = n.lonE7 := by
  rw [RivrNeighbor.lookedUp, RivrNeighbor.refreshStale]
  split_ifs <;> exact ⟨rfl, rfl, rfl⟩

theorem le_etxX8_recomputeEtx (n : RivrNeighbor) : 8 ≤ (recomputeEtx n).etxX8 := by
  rw [recomputeEtx]
  dsimp only
  split_ifs with hdead hlong hshort
  · exact (by decide : (8 : UInt8) ≤ 255)
  · exact (by decide : (8 : UInt8) ≤ (255 : UInt32).toUInt8)
  · exact (by decide : (8 : UInt8) ≤ (8 : UInt32).toUInt8)
  · dsimp only
    generalize 8 * 100 / (100 - n.lossRate.toUInt32) = etx at hlong hshort
    rw [gt_iff_lt, UInt32.lt_iff_toNat_lt] at hlong
    rw [UInt32.lt_iff_toNat_lt] at hshort
    rw [UInt8.le_iff_toNat_le, UInt32.toNat_toUInt8]
    change ¬255 < etx.toNat at hlong
    change ¬etx.toNat < 8 at hshort
    change 8 ≤ etx.toNat % 2 ^ 8
    omega

theorem uint8_le_255 (b : UInt8) : b ≤ 255 := Nat.le_of_lt_succ b.toNat_lt

theorem RivrNeighbor.InRange.observed (h : n.InRange) (o : Observation) (nowMs : UInt32) :
    (n.observed o nowMs).InRange := ⟨h.lossRate_le, h.le_etxX8, h.etxX8_le⟩

/-- What an observation does to the loss rate of a known neighbour. -/
theorem lossRate_observeAgain (n : RivrNeighbor) (o : Observation) :
    (n.observeAgain o).lossRate =
      if n.rxOk > 0 then (updateLossRateEwma n o.seq).lossRate else n.lossRate := by
  rw [RivrNeighbor.observeAgain]
  dsimp only
  split_ifs <;> (rw [recomputeEtx]; dsimp only; split_ifs <;> rfl)

theorem lossRate_observed (n : RivrNeighbor) (o : Observation) (nowMs : UInt32) :
    (n.observed o nowMs).lossRate = n.lossRate := rfl

theorem observed_kept (n : RivrNeighbor) (o : Observation) (nowMs : UInt32) :
    (n.observed o nowMs).neighborId = n.neighborId ∧ (n.observed o nowMs).latE7 = n.latE7 ∧
      (n.observed o nowMs).lonE7 = n.lonE7 := ⟨rfl, rfl, rfl⟩

/-- An observation keeps the node id and the position of a known neighbour. -/
theorem observeAgain_kept (n : RivrNeighbor) (o : Observation) :
    (n.observeAgain o).neighborId = n.neighborId ∧ (n.observeAgain o).latE7 = n.latE7 ∧
      (n.observeAgain o).lonE7 = n.lonE7 := by
  rw [RivrNeighbor.observeAgain]
  dsimp only
  split_ifs <;> (rw [recomputeEtx]; dsimp only; split_ifs <;> exact ⟨rfl, rfl, rfl⟩)

theorem RivrNeighbor.InRange.observeAgain (h : n.InRange) (o : Observation) :
    (n.observeAgain o).InRange := by
  refine ⟨?_, le_etxX8_recomputeEtx _, uint8_le_255 _⟩
  rw [lossRate_observeAgain]
  split_ifs
  · exact updateLossRateEwma_le h.lossRate_le _
  · exact h.lossRate_le

theorem RivrNeighbor.InRange.lookedUp (h : n.InRange) (nowMs : UInt32) :
    (n.lookedUp nowMs).InRange := by
  rw [RivrNeighbor.lookedUp, RivrNeighbor.refreshStale]
  split_ifs <;> exact ⟨h.lossRate_le, h.le_etxX8, h.etxX8_le⟩

theorem inRange_newRecord (o : Observation) : o.newRecord.InRange :=
  ⟨(by decide : (0 : UInt8) ≤ 100), (by decide : (8 : UInt8) ≤ 8), (by decide : (8 : UInt8) ≤ 255)⟩

/-! ### The representation -/

/-- The neighbours are of distinct nodes, and their numbers are in range. -/
structure NeighborsSound (ns : List RivrNeighbor) : Prop where
  nodup : (ns.map RivrNeighbor.neighborId).Nodup
  neighborId_ne_zero : ∀ n ∈ ns, n.neighborId ≠ 0
  inRange : ∀ n ∈ ns, n.InRange

theorem neighborsSound_nil : NeighborsSound [] where
  nodup := List.nodup_nil
  neighborId_ne_zero := fun _ hn => absurd hn List.not_mem_nil
  inRange := fun _ hn => absurd hn List.not_mem_nil

/-- A record is written over by one of the same node. -/
theorem NeighborsSound.set_same (h : NeighborsSound ns) (hget : ns[k]? = some n) {n' : RivrNeighbor}
    (hid : n'.neighborId = n.neighborId) (hrange : n.InRange → n'.InRange) :
    NeighborsSound (ns.set k n') := by
  have hn := List.mem_of_getElem? hget
  refine ⟨?_, fun m hm => ?_, fun m hm => ?_⟩
  · rw [map_key_set hget hid]
    exact h.nodup
  · rcases List.mem_or_eq_of_mem_set hm with hm | rfl
    · exact h.neighborId_ne_zero m hm
    · exact hid ▸ h.neighborId_ne_zero n hn
  · rcases List.mem_or_eq_of_mem_set hm with hm | rfl
    · exact h.inRange m hm
    · exact hrange (h.inRange n hn)

/-- **What a call keeps**, whatever it is. -/
theorem NeighborsSound.changes {c : NtableCall} (h : NeighborsSound ns) (hc : Changes ns c ns') :
    NeighborsSound ns' := by
  cases hc with
  | missed => exact h
  | @observed o nowMs k n hget hid =>
    have hkept := (observed_kept (n.observeAgain o) o nowMs).1.trans (observeAgain_kept n o).1
    exact h.set_same hget hkept fun hrange => (hrange.observeAgain o).observed o nowMs
  | @added o nowMs hid hnew hroom =>
    have hnew' := (inRange_newRecord o).observed o nowMs
    refine ⟨nodup_map_concat h.nodup hnew, fun m hm => ?_, fun m hm => ?_⟩
    · rcases List.mem_append.mp hm with hm | hm
      · exact h.neighborId_ne_zero m hm
      · obtain rfl := List.mem_singleton.mp hm
        exact hid
    · rcases List.mem_append.mp hm with hm | hm
      · exact h.inRange m hm
      · obtain rfl := List.mem_singleton.mp hm
        exact hnew'
  | @evicted o nowMs k n hid hnew hfull hget =>
    have hnew' := (inRange_newRecord o).observed o nowMs
    refine ⟨nodup_map_set h.nodup hnew k, fun m hm => ?_, fun m hm => ?_⟩
    · rcases List.mem_or_eq_of_mem_set hm with hm | rfl
      · exact h.neighborId_ne_zero m hm
      · exact hid
    · rcases List.mem_or_eq_of_mem_set hm with hm | rfl
      · exact h.inRange m hm
      · exact hnew'
  | flagged hget =>
    exact h.set_same hget rfl fun hrange => ⟨hrange.lossRate_le, hrange.le_etxX8, hrange.etxX8_le⟩
  | positioned hget =>
    exact h.set_same hget rfl fun hrange => ⟨hrange.lossRate_le, hrange.le_etxX8, hrange.etxX8_le⟩
  | @found nowMs k n hget =>
    exact h.set_same hget (lookedUp_kept n nowMs).1 fun hrange => hrange.lookedUp nowMs
  | @expired nowMs ns' hperm =>
    -- what is left is a part of what there was, in another order
    have hsub : ∀ m ∈ ns', m ∈ ns := fun m hm => List.mem_of_mem_filter (hperm.mem_iff.mp hm)
    refine ⟨?_, fun m hm => h.neighborId_ne_zero m (hsub m hm),
      fun m hm => h.inRange m (hsub m hm)⟩
    have hfilter : ((ns.filter fun n => ¬nowMs - n.lastSeenMs ≥ ntableExpiryMs).map
        RivrNeighbor.neighborId).Nodup :=
      h.nodup.sublist (List.filter_sublist.map _)
    exact (hperm.map _).nodup_iff.mpr hfilter

/-- The table represents neighbours: the occupied slots are the first ones, they are of distinct
nodes, and the loss rates and transmission counts are in range. -/
structure RivrNeighborTable.WellFormed (tbl : RivrNeighborTable) : Prop where
  count_le : tbl.count.toNat ≤ ntableSize
  occupied_iff : ∀ ⦃i : ℕ⦄ ⦃n : RivrNeighbor⦄, tbl.entries[i]? = some n →
    (n.neighborId ≠ 0 ↔ i < tbl.count.toNat)
  nodup : ((tbl.entries.take tbl.count.toNat).map RivrNeighbor.neighborId).Nodup
  inRange : ∀ n ∈ tbl.entries.take tbl.count.toNat, n.InRange

theorem NeighborsSound.wellFormed (h : NeighborsSound ns) (hholds : tbl.Holds ns) :
    tbl.WellFormed := by
  have htake := hholds.take_eq
  have hcount := hholds.count
  refine ⟨hcount ▸ hholds.length_le, fun i n hget => ?_, htake.symm ▸ h.nodup,
    htake.symm ▸ h.inRange⟩
  obtain ⟨free, hentries, hfree⟩ := hholds.entries
  rw [hcount]
  rw [hentries] at hget
  by_cases hi : i < ns.length
  · rw [List.getElem?_append_left hi] at hget
    exact iff_of_true (h.neighborId_ne_zero n (List.mem_of_getElem? hget)) hi
  · rw [List.getElem?_append_right (Nat.not_lt.mp hi)] at hget
    exact iff_of_false (not_not.mpr (hfree n (List.mem_of_getElem? hget))) hi

/-- The neighbours after the calls. -/
theorem exists_holds_ntableAfter (calls : List NtableCall) :
    ∃ ns, (ntableAfter calls).Holds ns ∧ NeighborsSound ns := by
  induction calls using List.reverseRecOn with
  | nil => exact ⟨[], holds_neighborTableInit, neighborsSound_nil⟩
  | append_singleton calls c ih =>
    obtain ⟨ns, hholds, hsound⟩ := ih
    obtain ⟨ns', hchanges, hholds'⟩ := c.apply_spec hholds hsound.neighborId_ne_zero
    refine ⟨ns', ?_, hsound.changes hchanges⟩
    rw [ntableAfter, List.foldl_concat]
    exact hholds'

/-- **The table represents neighbours** after any calls with any arguments. -/
theorem ntable_wellFormed (calls : List NtableCall) : (ntableAfter calls).WellFormed := by
  obtain ⟨ns, hholds, hsound⟩ := exists_holds_ntableAfter calls
  exact hsound.wellFormed hholds

end Rivr
