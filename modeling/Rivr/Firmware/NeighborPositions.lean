import Rivr.Firmware.NeighborRuns

/-!
# The positions of neighbours

A record of `firmware_core/neighbor_table.c` says with `INT32_MIN` that the position of the
neighbour is unknown, and then the beacon handler of `rivr_layer/rivr_sources.c` reports none. An
observer follows the calls and remembers the neighbours whose position was set since their slot was
created.

`neighbor_update` fills a new slot with zeros and not with the sentinel, so that every other
neighbour reads as being at 0° N 0° E (`NtableRun.AtOrigin`). So unknown positions stay unknown only
as long as no slot is created (`ntable_position_iff`).
-/

namespace Rivr

/-- The position of a node that the beacon handler reports, in the list of the application and in
the `@BCN` line; `INT32_MIN` stands for an unknown one. -/
def reportedPosition (tbl : RivrNeighborTable) (srcId nowMs : UInt32) : Option (Int32 × Int32) :=
  let lat := ((neighborFind tbl srcId nowMs).1.map RivrNeighbor.latE7).getD Int32.minValue
  let lon := ((neighborFind tbl srcId nowMs).1.map RivrNeighbor.lonE7).getD Int32.minValue
  if lat ≠ Int32.minValue ∧ lon ≠ Int32.minValue then some (lat, lon) else none

/-! ### The observer -/

/-- The neighbours with a position after a call, if these had one before. -/
def NtableCall.locates (tbl : RivrNeighborTable) (located : List UInt32) : NtableCall → List UInt32
  | .update o _ =>
    if findSlot tbl o.nodeId = none then located.filter (· ≠ o.nodeId) else located
  | .setPosition nodeId _ _ => if findSlot tbl nodeId = none then located else nodeId :: located
  | _ => located

/-- The table and, as an observer, the nodes whose position was set since their slot was created. -/
structure NtableRun where
  table : RivrNeighborTable
  located : List UInt32

/-- The run with one more call. -/
def NtableRun.call (s : NtableRun) (c : NtableCall) : NtableRun :=
  ⟨c.apply s.table, c.locates s.table s.located⟩

/-- The run of the calls on a new table. -/
def ntableRun (calls : List NtableCall) : NtableRun :=
  calls.foldl NtableRun.call ⟨neighborTableInit, []⟩

/-- A neighbour whose position was not set reads as having none, and none is reported. -/
structure NtableRun.UnknownStays (s : NtableRun) : Prop where
  sentinel : ∀ n ∈ s.table.entries.take s.table.count.toNat, n.neighborId ∉ s.located →
    n.latE7 = Int32.minValue ∧ n.lonE7 = Int32.minValue
  unreported : ∀ nodeId nowMs, nodeId ∉ s.located → reportedPosition s.table nodeId nowMs = none

/-! ### At the origin -/

/-- A neighbour whose position was not set reads as being at 0° N 0° E. -/
def AtOrigin (ns : List RivrNeighbor) (located : List UInt32) : Prop :=
  ∀ n ∈ ns, n.neighborId ∉ located → n.latE7 = 0 ∧ n.lonE7 = 0

section Step

variable {tbl : RivrNeighborTable} {ns ns' : List RivrNeighbor} {located : List UInt32}
  {n : RivrNeighbor} {k : ℕ} {o : Observation}

/-- A record is written over by one of the same node and position. -/
theorem AtOrigin.set_same (h : AtOrigin ns located) (hget : ns[k]? = some n) {n' : RivrNeighbor}
    (hid : n'.neighborId = n.neighborId) (hlat : n'.latE7 = n.latE7) (hlon : n'.lonE7 = n.lonE7) :
    AtOrigin (ns.set k n') located := by
  intro m hm hunset
  rcases List.mem_or_eq_of_mem_set hm with hm | rfl
  · exact h m hm hunset
  · rw [hlat, hlon]
    exact h n (List.mem_of_getElem? hget) (hid ▸ hunset)

/-- A neighbour of another node than the observed one had no position before. -/
theorem AtOrigin.of_ne (h : AtOrigin ns located) (hn : n ∈ ns) (hne : n.neighborId ≠ o.nodeId)
    (hunset : n.neighborId ∉ located.filter (· ≠ o.nodeId)) : n.latE7 = 0 ∧ n.lonE7 = 0 :=
  h n hn fun hmem => hunset (List.mem_filter.mpr ⟨hmem, decide_eq_true hne⟩)

theorem AtOrigin.changes {c : NtableCall} (h : AtOrigin ns located) (hholds : tbl.Holds ns)
    (hsound : NeighborsSound ns) (hc : Changes ns c ns') :
    AtOrigin ns' (c.locates tbl located) := by
  have hpresent : ∀ {k : ℕ} {n : RivrNeighbor}, ns[k]? = some n →
      findSlot tbl n.neighborId ≠ none := fun hget hnone =>
    (findSlot_eq_none_iff hholds).mp hnone _ (List.mem_of_getElem? hget) rfl
  cases hc with
  | @missed c hmisses =>
    cases c with
    | update o nowMs =>
      have hzero : o.nodeId = 0 := hmisses
      -- node 0 has no record, so nothing changes
      have hnew : ∀ n ∈ ns, n.neighborId ≠ o.nodeId := by
        rw [hzero]
        exact hsound.neighborId_ne_zero
      rw [NtableCall.locates, if_pos ((findSlot_eq_none_iff hholds).mpr hnew)]
      exact fun n hn hunset => h.of_ne hn (hnew n hn) hunset
    | setPosition nodeId latE7 lonE7 =>
      rw [NtableCall.locates, if_pos ((findSlot_eq_none_iff hholds).mpr hmisses)]
      exact h
    | setFlag nodeId flag => exact h
    | find nodeId nowMs => exact h
    | expire nowMs => exact h
  | @observed o nowMs k n hget hid =>
    obtain ⟨hid₁, hlat, hlon⟩ := observeAgain_kept n o
    obtain ⟨hid₂, hlat₂, hlon₂⟩ := observed_kept (n.observeAgain o) o nowMs
    have hslot : findSlot tbl o.nodeId ≠ none := by
      rw [← hid]
      exact hpresent hget
    rw [NtableCall.locates, if_neg hslot]
    exact h.set_same hget (hid₂.trans hid₁) (hlat₂.trans hlat) (hlon₂.trans hlon)
  | @added o nowMs hid hnew hroom =>
    rw [NtableCall.locates, if_pos ((findSlot_eq_none_iff hholds).mpr hnew)]
    intro n hn hunset
    rcases List.mem_append.mp hn with hn | hn
    · exact h.of_ne hn (hnew n hn) hunset
    · obtain rfl := List.mem_singleton.mp hn
      exact ⟨rfl, rfl⟩
  | @evicted o nowMs k n hid hnew hfull hget =>
    rw [NtableCall.locates, if_pos ((findSlot_eq_none_iff hholds).mpr hnew)]
    intro n hn hunset
    rcases List.mem_or_eq_of_mem_set hn with hn | rfl
    · exact h.of_ne hn (hnew n hn) hunset
    · exact ⟨rfl, rfl⟩
  | flagged hget => exact h.set_same hget rfl rfl rfl
  | positioned hget =>
    rw [NtableCall.locates, if_neg (hpresent hget)]
    intro n hn hunset
    rcases List.mem_or_eq_of_mem_set hn with hn | rfl
    · exact h n hn fun hmem => hunset (List.mem_cons_of_mem _ hmem)
    · exact absurd List.mem_cons_self hunset
  | @found nowMs k n hget =>
    obtain ⟨hid₁, hlat, hlon⟩ := lookedUp_kept n nowMs
    exact h.set_same hget hid₁ hlat hlon
  | @expired nowMs ns' hperm =>
    exact fun n hn hunset => h n (List.mem_of_mem_filter (hperm.mem_iff.mp hn)) hunset

end Step

/-- **Where neighbours without a position are.** After any calls they read as being at
0° N 0° E. -/
theorem atOrigin_ntableRun (calls : List NtableCall) :
    ∃ ns, (ntableRun calls).table.Holds ns ∧ NeighborsSound ns ∧
      AtOrigin ns (ntableRun calls).located := by
  induction calls using List.reverseRecOn with
  | nil =>
    exact ⟨[], holds_neighborTableInit, neighborsSound_nil, fun _ hn => absurd hn List.not_mem_nil⟩
  | append_singleton calls c ih =>
    obtain ⟨ns, hholds, hsound, hat⟩ := ih
    obtain ⟨ns', hchanges, hholds'⟩ := c.apply_spec hholds hsound.neighborId_ne_zero
    rw [ntableRun, List.foldl_concat]
    exact ⟨ns', hholds', hsound.changes hchanges, hat.changes hholds hsound hchanges⟩

/-! ### Unknown positions -/

/-- Without an observation of a node the table stays empty. -/
theorem holds_nil_ntableRun {calls : List NtableCall}
    (h : ∀ o nowMs, .update o nowMs ∈ calls → o.nodeId = 0) : (ntableRun calls).table.Holds [] := by
  induction calls using List.reverseRecOn with
  | nil => exact holds_neighborTableInit
  | append_singleton calls c ih =>
    have hholds := ih fun o nowMs hmem => h o nowMs (List.mem_append_left [c] hmem)
    obtain ⟨ns', hchanges, hholds'⟩ := c.apply_spec hholds neighborsSound_nil.neighborId_ne_zero
    rw [ntableRun, List.foldl_concat]
    cases hchanges with
    | missed => exact hholds'
    | @added o nowMs hid =>
      exact absurd (h o nowMs (List.mem_append_right calls List.mem_cons_self)) hid
    | evicted hid hnew hfull => exact absurd hfull (by decide)
    | expired hperm =>
      obtain rfl := hperm.eq_nil
      exact hholds'
    | observed hget => cases hget
    | flagged hget => cases hget
    | positioned hget => cases hget
    | found hget => cases hget

theorem unknownStays_of_holds_nil {s : NtableRun} (h : s.table.Holds []) : s.UnknownStays where
  sentinel := fun n hn => by
    rw [h.take_eq] at hn
    exact absurd hn List.not_mem_nil
  unreported := fun nodeId nowMs _ => by
    have hnone : (neighborFind s.table nodeId nowMs).1 = none := by
      rw [neighborFind]
      split_ifs
      · rfl
      · dsimp only
        rw [h.take_eq]
        rfl
    rw [reportedPosition, hnone]
    exact if_neg fun hne => hne.1 rfl

/-- The neighbour of a new slot reads as being at 0° N 0° E. -/
theorem not_unknownStays_of_added {s : NtableRun} (h : s.table.Holds []) {o : Observation}
    (hid : o.nodeId ≠ 0) (nowMs : UInt32) : ¬(s.call (.update o nowMs)).UnknownStays := by
  intro hstays
  obtain ⟨ns', hchanges, hholds⟩ := neighborUpdate_spec h o nowMs
  cases hchanges with
  | missed hmisses => exact hid hmisses
  | added =>
    have hunset : o.nodeId ∉ s.located.filter (· ≠ o.nodeId) := fun hmem =>
      of_decide_eq_true (List.mem_filter.mp hmem).2 rfl
    have hlocated : (s.call (.update o nowMs)).located = s.located.filter (· ≠ o.nodeId) :=
      if_pos ((findSlot_eq_none_iff h).mpr fun _ hn => absurd hn List.not_mem_nil)
    have hmem : o.newRecord.observed o nowMs ∈ (s.call (.update o nowMs)).table.entries.take
        (s.call (.update o nowMs)).table.count.toNat := by
      have htake : (s.call (.update o nowMs)).table.entries.take
          (s.call (.update o nowMs)).table.count.toNat = [o.newRecord.observed o nowMs] :=
        hholds.take_eq
      rw [htake]
      exact List.mem_cons_self
    have hsentinel := (hstays.sentinel _ hmem (hlocated ▸ hunset)).1
    exact absurd hsentinel (by decide : (0 : Int32) ≠ Int32.minValue)
  | evicted _ _ hfull => exact absurd hfull (by decide)
  | observed hget => cases hget

/-- **Unknown positions** stay unknown all along the calls exactly if these observe no node at
all. -/
theorem ntable_position_iff (calls : List NtableCall) :
    (∀ m, (ntableRun (calls.take m)).UnknownStays) ↔
      ∀ o nowMs, .update o nowMs ∈ calls → o.nodeId = 0 := by
  constructor
  · intro hstays
    induction calls using List.reverseRecOn with
    | nil => exact fun _ _ hmem => absurd hmem List.not_mem_nil
    | append_singleton calls c ih =>
      have hbefore : ∀ o nowMs, .update o nowMs ∈ calls → o.nodeId = 0 := by
        refine ih fun m => ?_
        rcases Nat.le_total m calls.length with hm | hm
        · have hall := hstays m
          rwa [List.take_append_of_le_length hm] at hall
        · have hall := hstays calls.length
          rwa [List.take_left, ← List.take_of_length_le hm] at hall
      intro o nowMs hmem
      rcases List.mem_append.mp hmem with hmem | hmem
      · exact hbefore o nowMs hmem
      · obtain rfl := List.mem_singleton.mp hmem
        by_contra hid
        refine not_unknownStays_of_added (holds_nil_ntableRun hbefore) hid nowMs ?_
        have hall := hstays (calls ++ [NtableCall.update o nowMs]).length
        rwa [List.take_length, ntableRun, List.foldl_concat] at hall
  · intro hnone m
    exact unknownStays_of_holds_nil
      (holds_nil_ntableRun fun o nowMs hmem => hnone o nowMs (List.mem_of_mem_take hmem))

/-- One frame from node 7. -/
def sampleObservation : Observation := ⟨7, -90, 5, 0, 1, 40⟩

/-- After it, node 7 is reported to be at 0° N 0° E. -/
theorem not_ntable_position : ¬∀ calls : List NtableCall, (ntableRun calls).UnknownStays := by
  intro h
  have hreport := (h [.update sampleObservation 1000]).unreported 7 1000 (by decide)
  exact absurd hreport (by decide)

end Rivr
