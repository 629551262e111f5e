import Mathlib.Data.List.MinMax
import Mathlib.Data.List.Nodup
import Mathlib.Data.List.Induction
import Rivr.Firmware.NeighborTable
import Rivr.Firmware.Protocol
import Rivr.ForMathlib.CString
import Rivr.ForMathlib.Runs
import Rivr.ForMathlib.SlotTable

/-!
# The neighbours that routing shows

The neighbour table of `firmware_core/routing.c`, which the display and the console read. Its slots
fill up in order and are never emptied, so that it is a list of neighbours (`NeighborTable.Holds`),
of which an update refreshes one, adds one or, when the table is full, writes over the one that was
heard longest ago (`Updates`).

Writing over a slot does not write its callsign and role, and the hop byte 255 passes the check of
the hop count because that is made after the addition has wrapped. `routing_neighbor_provenance_iff`
says that nothing else goes wrong.
-/

open Runs SlotTable

namespace Rivr

def neighborTableSize : ℕ := 16

/-! ### Entries -/

/-- `char callsign[12]`. -/
structure Callsign where
  bytes : List UInt8
  length_bytes : bytes.length = 12

/-- The callsign as a string. -/
def Callsign.text (c : Callsign) : List UInt8 := CString.cstr c.bytes

/-- The callsign that an argument of `routing_neighbor_set_callsign` gives: at most 11
characters. -/
def callsignText (callsign : List UInt8) : List UInt8 := (CString.cstr callsign).take 11

theorem length_callsignText (callsign : List UInt8) : (callsignText callsign).length ≤ 11 :=
  List.length_take_le 11 _

/-- The copying of a callsign: the bytes after its NUL stay as they were. -/
def Callsign.copy (c : Callsign) (callsign : List UInt8) : Callsign where
  bytes := callsignText callsign ++ 0 :: c.bytes.drop ((callsignText callsign).length + 1)
  length_bytes := by
    have hlen := length_callsignText callsign
    rw [List.length_append, List.length_cons, List.length_drop, c.length_bytes]
    omega

/-- `neighbor_entry_t`. -/
structure NeighborEntry where
  nodeId : UInt32
  lastSeenMs : UInt32
  rssiDbm : Int8
  hopCount : UInt8
  callsign : Callsign
  rxOk : UInt32
  lastSnrDb : Int8
  role : UInt8

/-- A zeroed slot. -/
def NeighborEntry.empty : NeighborEntry := ⟨0, 0, 0, 0, ⟨List.replicate 12 0, rfl⟩, 0, 0, 0⟩

/-- `neighbor_table_t`. -/
structure NeighborTable where
  entries : List NeighborEntry
  count : UInt8
  length_entries : entries.length = neighborTableSize

/-- `routing_neighbor_init`. -/
def routingNeighborInit : NeighborTable where
  entries := List.replicate neighborTableSize .empty
  count := 0
  length_entries := List.length_replicate

/-! ### Updates -/

/-- The arguments of `routing_neighbor_update`. -/
structure NeighborFrame where
  pkt : RivrPktHdr
  rssiDbm : Int8
  snrDb : Int8
  nowMs : UInt32

variable {f : NeighborFrame} {tbl : NeighborTable} {ns : List NeighborEntry}

/-- `new_hops`. -/
def NeighborFrame.newHops (f : NeighborFrame) : UInt8 := f.pkt.hop + 1

/-- `neighbor_fill_slot`. -/
def neighborFillSlot (n : NeighborEntry) (f : NeighborFrame) : NeighborEntry :=
  { n with
    nodeId := f.pkt.srcId
    lastSeenMs := f.nowMs
    rssiDbm := f.rssiDbm
    lastSnrDb := f.snrDb
    hopCount := f.pkt.hop + 1
    rxOk := 1 }

/-- `neighbor_update_existing`. -/
def neighborUpdateExisting (n : NeighborEntry) (f : NeighborFrame) : NeighborEntry :=
  { n with
    lastSeenMs := f.nowMs
    rssiDbm := Int8.ofInt (ewma n.rssiDbm.toInt f.rssiDbm.toInt)
    lastSnrDb := Int8.ofInt (ewma n.lastSnrDb.toInt f.snrDb.toInt)
    rxOk := n.rxOk + 1
    hopCount := if f.newHops < n.hopCount then f.newHops else n.hopCount }

/-- How the loop of `routing_neighbor_update` ends: with a slot filled, with the slot of the node
refreshed, or with the index of the oldest slot. -/
inductive NeighborSlot
  | filled
  | refreshed
  | full (oldestIdx : Option ℕ)

/-- The index and the age of the oldest slot, with one more slot. -/
def trackOldest (oldest : Option (ℕ × UInt32)) (i : ℕ) (age : UInt32) : Option (ℕ × UInt32) :=
  match oldest with
  | none => some (i, age)
  | some (_, oldestAge) => if age > oldestAge then some (i, age) else oldest

/-- The loop of `routing_neighbor_update` from slot `i` on: how it ends, and the slots it leaves. -/
def neighborLoop (f : NeighborFrame) :
    List NeighborEntry → ℕ → Option (ℕ × UInt32) → NeighborSlot × List NeighborEntry
  | [], _, oldest => (.full (oldest.map Prod.fst), [])
  | n :: ns, i, oldest =>
    -- the first free slot ends the scan, although the node may have a slot further on
    if n.nodeId = 0 then (.filled, neighborFillSlot n f :: ns)
    else if n.nodeId = f.pkt.srcId then (.refreshed, neighborUpdateExisting n f :: ns)
    else
      let rest := neighborLoop f ns (i + 1) (trackOldest oldest i (f.nowMs - n.lastSeenMs))
      (rest.1, n :: rest.2)

theorem length_neighborLoop (f : NeighborFrame) (ns : List NeighborEntry) (i : ℕ)
    (oldest : Option (ℕ × UInt32)) : (neighborLoop f ns i oldest).2.length = ns.length := by
  induction ns generalizing i oldest with
  | nil => rfl
  | cons n ns ih =>
    rw [neighborLoop]
    split_ifs
    · rfl
    · rfl
    · exact congrArg (· + 1) (ih _ _)

/-- The eviction at the end of `routing_neighbor_update`. -/
def evictOldest (f : NeighborFrame) (es : List NeighborEntry) : Option ℕ → List NeighborEntry
  | some idx => es.modify idx fun n => neighborFillSlot n f
  | none => es

theorem length_evictOldest (f : NeighborFrame) (es : List NeighborEntry) (idx : Option ℕ) :
    (evictOldest f es idx).length = es.length := by
  cases idx with
  | none => rfl
  | some idx => exact List.length_modify ..

/-- `routing_neighbor_update`. -/
def routingNeighborUpdate (tbl : NeighborTable) (f : NeighborFrame) : NeighborTable :=
  if f.pkt.srcId = 0 then tbl
  -- `new_hops` is `hop + 1` in eight bits
  else if f.newHops > rivrPktDefaultTtl then tbl
  else
    let scan := neighborLoop f tbl.entries 0 none
    match scan.1 with
    | .filled =>
      { entries := scan.2
        count := if tbl.count.toNat < neighborTableSize then tbl.count + 1 else tbl.count
        length_entries := (length_neighborLoop ..).trans tbl.length_entries }
    | .refreshed =>
      { tbl with
        entries := scan.2
        length_entries := (length_neighborLoop ..).trans tbl.length_entries }
    | .full oldestIdx =>
      { tbl with
        entries := evictOldest f tbl.entries oldestIdx
        length_entries := (length_evictOldest ..).trans tbl.length_entries }

/-- The loops of `routing_neighbor_set_callsign` and `routing_neighbor_set_role`: the first slot of
the node is changed. -/
def setNeighbor (nodeId : UInt32) (write : NeighborEntry → NeighborEntry) :
    List NeighborEntry → List NeighborEntry
  | [] => []
  | n :: ns => if n.nodeId = nodeId then write n :: ns else n :: setNeighbor nodeId write ns

theorem length_setNeighbor (nodeId : UInt32) (write : NeighborEntry → NeighborEntry)
    (ns : List NeighborEntry) : (setNeighbor nodeId write ns).length = ns.length := by
  induction ns with
  | nil => rfl
  | cons n ns ih =>
    rw [setNeighbor]
    split_ifs
    · rfl
    · exact congrArg (· + 1) ih

/-- The table with the first slot of the node changed. -/
def NeighborTable.setField (tbl : NeighborTable) (nodeId : UInt32)
    (write : NeighborEntry → NeighborEntry) : NeighborTable :=
  if nodeId = 0 then tbl
  else
    { tbl with
      entries := setNeighbor nodeId write tbl.entries
      length_entries := (length_setNeighbor ..).trans tbl.length_entries }

/-- `routing_neighbor_set_callsign`. -/
def routingNeighborSetCallsign (tbl : NeighborTable) (nodeId : UInt32) (callsign : List UInt8) :
    NeighborTable :=
  tbl.setField nodeId fun n => { n with callsign := n.callsign.copy callsign }

/-- `routing_neighbor_set_role`. -/
def routingNeighborSetRole (tbl : NeighborTable) (nodeId : UInt32) (role : UInt8) :
    NeighborTable :=
  tbl.setField nodeId fun n => { n with role := role }

/-! ### The table as a list of neighbours -/

/-- The occupied slots. -/
def NeighborTable.neighbors (tbl : NeighborTable) : List NeighborEntry :=
  tbl.entries.take tbl.count.toNat

/-- The neighbours stand in the first slots, and the other slots are zero. -/
structure NeighborTable.Holds (tbl : NeighborTable) (ns : List NeighborEntry) : Prop where
  entries : tbl.entries = ns ++ List.replicate (neighborTableSize - ns.length) .empty
  count : tbl.count.toNat = ns.length

theorem NeighborTable.Holds.neighbors_eq (h : tbl.Holds ns) : tbl.neighbors = ns := by
  rw [neighbors, h.entries, h.count, List.take_left]

theorem NeighborTable.Holds.length_le (h : tbl.Holds ns) : ns.length ≤ neighborTableSize := by
  have hlen := congrArg List.length h.entries
  rw [tbl.length_entries, List.length_append] at hlen
  omega

theorem holds_init : routingNeighborInit.Holds [] := ⟨rfl, rfl⟩

/-- How long ago the neighbour was heard. -/
def NeighborEntry.age (n : NeighborEntry) (nowMs : UInt32) : ℕ := (nowMs - n.lastSeenMs).toNat

/-- What an update does to the list of neighbours. -/
inductive Updates (f : NeighborFrame) (ns : List NeighborEntry) : List NeighborEntry → Prop
  | refreshed {k : ℕ} {n : NeighborEntry} (hget : ns[k]? = some n) (hid : n.nodeId = f.pkt.srcId) :
      Updates f ns (ns.set k (neighborUpdateExisting n f))
  | added (hnew : ∀ n ∈ ns, n.nodeId ≠ f.pkt.srcId) (hroom : ns.length < neighborTableSize) :
      Updates f ns (ns ++ [neighborFillSlot .empty f])
  | evicted {k : ℕ} {n : NeighborEntry} (hget : ns[k]? = some n)
      (hnew : ∀ n ∈ ns, n.nodeId ≠ f.pkt.srcId) (hfull : ns.length = neighborTableSize)
      (holdest : ns.argmax (fun n => n.age f.nowMs) = some n) :
      Updates f ns (ns.set k (neighborFillSlot n f))

/-- What the loop has tracked after some occupied slots. -/
def oldestAfter (nowMs : UInt32) (ns : List NeighborEntry) (i : ℕ)
    (oldest : Option (ℕ × UInt32)) : Option (ℕ × UInt32) :=
  match ns with
  | [] => oldest
  | n :: ns => oldestAfter nowMs ns (i + 1) (trackOldest oldest i (nowMs - n.lastSeenMs))

theorem oldestAfter_concat (nowMs : UInt32) (ns : List NeighborEntry) (x : NeighborEntry) (i : ℕ)
    (oldest : Option (ℕ × UInt32)) :
    oldestAfter nowMs (ns ++ [x]) i oldest =
      trackOldest (oldestAfter nowMs ns i oldest) (i + ns.length) (nowMs - x.lastSeenMs) := by
  induction ns generalizing i oldest with
  | nil => rfl
  | cons n ns ih =>
    rw [List.cons_append, oldestAfter, ih, oldestAfter, List.length_cons]
    congr 1
    omega

/-- The loop tracks the first of the neighbours that were heard longest ago. -/
theorem oldestAfter_eq (nowMs : UInt32) (hne : ns ≠ []) :
    ∃ k n, ns[k]? = some n ∧ ns.argmax (fun n => n.age nowMs) = some n ∧
      oldestAfter nowMs ns 0 none = some (k, nowMs - n.lastSeenMs) := by
  induction ns using List.reverseRecOn with
  | nil => exact absurd rfl hne
  | append_singleton ns x ih =>
    rw [oldestAfter_concat, List.argmax_concat]
    cases ns with
    | nil => exact ⟨0, x, rfl, rfl, rfl⟩
    | cons n₀ ns =>
      obtain ⟨k, n, hget, hmax, htrack⟩ := ih (List.cons_ne_nil n₀ ns)
      rw [hmax, htrack, trackOldest]
      have hk : k < (n₀ :: ns).length := (List.getElem?_eq_some_iff.mp hget).1
      by_cases hage : nowMs - x.lastSeenMs > nowMs - n.lastSeenMs
      · rw [if_pos hage]
        refine ⟨(n₀ :: ns).length, x, ?_, if_pos (UInt32.lt_iff_toNat_lt.mp hage), ?_⟩
        · exact List.getElem?_concat_length
        · rw [Nat.zero_add]
      · rw [if_neg hage]
        refine ⟨k, n, ?_, if_neg fun h => hage (UInt32.lt_iff_toNat_lt.mpr h), rfl⟩
        rw [List.getElem?_append_left hk, hget]

/-- The loop on occupied slots: it refreshes the neighbour if it meets it, and otherwise goes on. -/
theorem neighborLoop_append (hoccupied : ∀ n ∈ ns, n.nodeId ≠ 0) (rest : List NeighborEntry)
    (i : ℕ) (oldest : Option (ℕ × UInt32)) :
    (∃ k n, ns[k]? = some n ∧ n.nodeId = f.pkt.srcId ∧ neighborLoop f (ns ++ rest) i oldest =
        (.refreshed, ns.set k (neighborUpdateExisting n f) ++ rest)) ∨
      (∀ n ∈ ns, n.nodeId ≠ f.pkt.srcId) ∧ neighborLoop f (ns ++ rest) i oldest =
        ((neighborLoop f rest (i + ns.length) (oldestAfter f.nowMs ns i oldest)).1,
          ns ++ (neighborLoop f rest (i + ns.length) (oldestAfter f.nowMs ns i oldest)).2) := by
  induction ns generalizing i oldest with
  | nil => exact .inr ⟨fun n hn => absurd hn List.not_mem_nil, rfl⟩
  | cons n ns ih =>
    rw [List.cons_append, neighborLoop, if_neg (hoccupied n List.mem_cons_self)]
    by_cases hid : n.nodeId = f.pkt.srcId
    · exact .inl ⟨0, n, rfl, hid, if_pos hid⟩
    rw [if_neg hid]
    dsimp only
    rcases ih (fun m hm => hoccupied m (List.mem_cons_of_mem n hm)) (i + 1)
      (trackOldest oldest i (f.nowMs - n.lastSeenMs)) with ⟨k, m, hget, hm, hloop⟩ | ⟨hnew, hloop⟩
    · refine .inl ⟨k + 1, m, hget, hm, ?_⟩
      rw [hloop]
      rfl
    · refine .inr ⟨List.forall_mem_cons.mpr ⟨hid, hnew⟩, ?_⟩
      rw [hloop, oldestAfter, List.length_cons, Nat.add_right_comm, Nat.add_assoc]
      rfl

/-- The loop on empty slots fills the first one. -/
theorem neighborLoop_empty {room : ℕ} (hroom : 0 < room) (i : ℕ) (oldest : Option (ℕ × UInt32)) :
    neighborLoop f (List.replicate room .empty) i oldest =
      (.filled, neighborFillSlot .empty f :: List.replicate (room - 1) .empty) := by
  cases room with
  | zero => exact absurd hroom (Nat.lt_irrefl 0)
  | succ room =>
    rw [List.replicate_succ, neighborLoop]
    exact if_pos rfl

theorem evictOldest_eq {k : ℕ} {n : NeighborEntry} (hget : ns[k]? = some n) :
    evictOldest f ns (some k) = ns.set k (neighborFillSlot n f) := by
  have : Inhabited NeighborEntry := ⟨n⟩
  rw [evictOldest, List.modify_eq_set, hget, Option.getD_some]

/-- The counter does not wrap. -/
theorem NeighborTable.Holds.count_added (h : tbl.Holds ns) (hroom : ns.length < neighborTableSize) :
    (if tbl.count.toNat < neighborTableSize then tbl.count + 1 else tbl.count).toNat =
      ns.length + 1 := by
  rw [h.count, if_pos hroom, UInt8.toNat_add, h.count]
  rw [neighborTableSize] at hroom
  exact Nat.mod_eq_of_lt (show ns.length + 1 < 256 by omega)

/-- **Refinement.** An update that is not turned away updates the list of neighbours. -/
theorem routingNeighborUpdate_spec (h : tbl.Holds ns) (hoccupied : ∀ n ∈ ns, n.nodeId ≠ 0)
    (hsrc : f.pkt.srcId ≠ 0) (hhops : ¬f.newHops > rivrPktDefaultTtl) :
    ∃ ns', Updates f ns ns' ∧ (routingNeighborUpdate tbl f).Holds ns' := by
  have hloop := neighborLoop_append (f := f) hoccupied
    (List.replicate (neighborTableSize - ns.length) NeighborEntry.empty) 0 none
  rw [← h.entries] at hloop
  rw [routingNeighborUpdate, if_neg hsrc, if_neg hhops]
  dsimp only
  rcases hloop with ⟨k, n, hget, hid, hloop⟩ | ⟨hnew, hloop⟩
  · rw [congrArg Prod.fst hloop]
    refine ⟨_, .refreshed hget hid, ?_, ?_⟩
    · rw [List.length_set]
      exact congrArg Prod.snd hloop
    · rw [List.length_set]
      exact h.count
  by_cases hroom : ns.length < neighborTableSize
  · -- the first slot after the neighbours is empty
    rw [neighborLoop_empty (Nat.sub_pos_of_lt hroom)] at hloop
    rw [congrArg Prod.fst hloop]
    refine ⟨_, .added hnew hroom, ?_, ?_⟩
    · rw [List.length_append, List.length_singleton, ← Nat.sub_sub, List.append_assoc]
      exact congrArg Prod.snd hloop
    · rw [List.length_append]
      exact h.count_added hroom
  · have hfull : ns.length = neighborTableSize := h.length_le.antisymm (Nat.not_lt.mp hroom)
    -- a full table: the oldest entry is the one that the scan tracked
    have hne : ns ≠ [] := by
      rintro rfl
      exact absurd hfull (by decide)
    obtain ⟨k, n, hget, hmax, htrack⟩ := oldestAfter_eq f.nowMs hne
    have hentries : tbl.entries = ns := by
      rw [h.entries, hfull, Nat.sub_self]
      exact List.append_nil ns
    rw [hfull, Nat.sub_self, htrack] at hloop
    rw [congrArg Prod.fst hloop]
    refine ⟨_, .evicted hget hnew hfull hmax, ?_, ?_⟩
    · rw [List.length_set, hfull, Nat.sub_self]
      change evictOldest f tbl.entries (some k) = _
      rw [hentries, evictOldest_eq hget]
      exact (List.append_nil _).symm
    · rw [List.length_set]
      exact h.count

theorem setNeighbor_of_absent {nodeId : UInt32} (write : NeighborEntry → NeighborEntry)
    (h : ∀ n ∈ ns, n.nodeId ≠ nodeId) : setNeighbor nodeId write ns = ns := by
  induction ns with
  | nil => rfl
  | cons n ns ih =>
    rw [setNeighbor, if_neg (h n List.mem_cons_self),
      ih fun m hm => h m (List.mem_cons_of_mem n hm)]

theorem setNeighbor_append {nodeId : UInt32} (write : NeighborEntry → NeighborEntry)
    {rest : List NeighborEntry} (hrest : ∀ n ∈ rest, n.nodeId ≠ nodeId)
    (ns : List NeighborEntry) :
    setNeighbor nodeId write (ns ++ rest) = setNeighbor nodeId write ns ++ rest := by
  induction ns with
  | nil => exact setNeighbor_of_absent write hrest
  | cons n ns ih =>
    rw [List.cons_append, setNeighbor, setNeighbor]
    split_ifs
    · rfl
    · rw [ih, List.cons_append]

theorem mem_setNeighbor {nodeId : UInt32} {write : NeighborEntry → NeighborEntry}
    {x : NeighborEntry} (hx : x ∈ setNeighbor nodeId write ns) :
    x ∈ ns ∨ ∃ n ∈ ns, n.nodeId = nodeId ∧ x = write n := by
  induction ns with
  | nil => exact absurd hx List.not_mem_nil
  | cons n ns ih =>
    rw [setNeighbor] at hx
    split_ifs at hx with hid
    · rcases List.mem_cons.mp hx with rfl | hx
      · exact .inr ⟨n, List.mem_cons_self, hid, rfl⟩
      · exact .inl (List.mem_cons_of_mem n hx)
    · rcases List.mem_cons.mp hx with rfl | hx
      · exact .inl List.mem_cons_self
      · rcases ih hx with hx | ⟨m, hm, hid', rfl⟩
        · exact .inl (List.mem_cons_of_mem n hx)
        · exact .inr ⟨m, List.mem_cons_of_mem n hm, hid', rfl⟩

theorem map_nodeId_setNeighbor {nodeId : UInt32} {write : NeighborEntry → NeighborEntry}
    (hwrite : ∀ n, (write n).nodeId = n.nodeId) (ns : List NeighborEntry) :
    (setNeighbor nodeId write ns).map NeighborEntry.nodeId = ns.map NeighborEntry.nodeId := by
  induction ns with
  | nil => rfl
  | cons n ns ih =>
    rw [setNeighbor]
    split_ifs
    · rw [List.map_cons, List.map_cons, hwrite]
    · rw [List.map_cons, List.map_cons, ih]

theorem setField_spec (h : tbl.Holds ns) {nodeId : UInt32} (hid : nodeId ≠ 0)
    (write : NeighborEntry → NeighborEntry) :
    (tbl.setField nodeId write).Holds (setNeighbor nodeId write ns) := by
  rw [NeighborTable.setField, if_neg hid]
  constructor
  · change setNeighbor nodeId write tbl.entries = _
    have hblank : ∀ n ∈ List.replicate (neighborTableSize - ns.length) NeighborEntry.empty,
        n.nodeId ≠ nodeId := by
      intro n hn
      rw [(List.mem_replicate.mp hn).2]
      exact Ne.symm hid
    rw [h.entries, setNeighbor_append write hblank, length_setNeighbor]
  · rw [length_setNeighbor]
    exact h.count

/-! ### Where callsigns and roles come from -/

/-- A call. -/
inductive NeighborCall
  | update (f : NeighborFrame)
  | setCallsign (nodeId : UInt32) (callsign : List UInt8)
  | setRole (nodeId : UInt32) (role : UInt8)

/-- The table after a call. -/
def NeighborCall.apply (tbl : NeighborTable) : NeighborCall → NeighborTable
  | .update f => routingNeighborUpdate tbl f
  | .setCallsign nodeId callsign => routingNeighborSetCallsign tbl nodeId callsign
  | .setRole nodeId role => routingNeighborSetRole tbl nodeId role

/-- The table and, as an observer, the calls so far. -/
structure NeighborRun where
  table : NeighborTable
  calls : List NeighborCall

/-- The run with one more call. -/
def NeighborRun.call (s : NeighborRun) (c : NeighborCall) : NeighborRun :=
  ⟨c.apply s.table, c :: s.calls⟩

/-- The run of the calls on a new table. -/
def neighborRun (calls : List NeighborCall) : NeighborRun :=
  calls.foldl NeighborRun.call ⟨routingNeighborInit, []⟩

/-- The callsign and the role of the entry were set for the node, or never set. -/
structure NeighborEntry.TaggedFor (n : NeighborEntry) (nodeId : UInt32)
    (calls : List NeighborCall) : Prop where
  callsign : n.callsign.text = [] ∨
    ∃ callsign, .setCallsign nodeId callsign ∈ calls ∧ n.callsign.text = callsignText callsign
  role : n.role = 0 ∨ .setRole nodeId n.role ∈ calls

/-- What an occupied slot is to hold. -/
structure NeighborEntry.Provenance (n : NeighborEntry) (calls : List NeighborCall) : Prop where
  nodeId : n.nodeId ≠ 0
  tagged : n.TaggedFor n.nodeId calls
  hopCount : 1 ≤ n.hopCount ∧ n.hopCount ≤ rivrPktDefaultTtl

/-- The occupied slots are of distinct nodes, each with its own callsign and role and a hop count in
range; all other slots are zero. -/
structure NeighborRun.Sound (s : NeighborRun) : Prop where
  holds : s.table.Holds s.table.neighbors
  nodup : (s.table.neighbors.map NeighborEntry.nodeId).Nodup
  provenance : ∀ n ∈ s.table.neighbors, n.Provenance s.calls

theorem sound_of_holds {s : NeighborRun} (h : s.table.Holds ns)
    (hnodup : (ns.map NeighborEntry.nodeId).Nodup) (hns : ∀ n ∈ ns, n.Provenance s.calls) :
    s.Sound := by
  obtain rfl := h.neighbors_eq
  exact ⟨h, hnodup, hns⟩

/-- The entry that an update from a new node writes over: in a full table, the first of those that
were heard longest ago. -/
def NeighborTable.victim (tbl : NeighborTable) (srcId nowMs : UInt32) : Option NeighborEntry :=
  if ∀ n ∈ tbl.entries, n.nodeId ≠ 0 ∧ n.nodeId ≠ srcId then
    tbl.entries.argmax fun n => n.age nowMs
  else none

/-- The call does no harm: an update has not the hop byte 255, and does not write over an entry
whose callsign or role is not the new node's. -/
def NeighborRun.KeepsProvenance (s : NeighborRun) : NeighborCall → Prop
  | .update f => f.pkt.srcId ≠ 0 → f.pkt.hop ≠ 255 ∧ (f.pkt.hop < rivrPktDefaultTtl →
      ∀ n, s.table.victim f.pkt.srcId f.nowMs = some n → n.TaggedFor f.pkt.srcId s.calls)
  | _ => True

section Step

variable {n : NeighborEntry} {nodeId : UInt32} {calls : List NeighborCall} {s : NeighborRun}

theorem NeighborEntry.TaggedFor.cons (h : n.TaggedFor nodeId calls) (c : NeighborCall) :
    n.TaggedFor nodeId (c :: calls) :=
  ⟨h.callsign.imp_right fun ⟨callsign, hmem, htext⟩ =>
    ⟨callsign, List.mem_cons_of_mem c hmem, htext⟩, h.role.imp_right (List.mem_cons_of_mem c)⟩

theorem NeighborEntry.Provenance.cons (h : n.Provenance calls) (c : NeighborCall) :
    n.Provenance (c :: calls) := ⟨h.nodeId, h.tagged.cons c, h.hopCount⟩

/-- An update sets no callsign and no role. -/
theorem taggedFor_update :
    n.TaggedFor nodeId (.update f :: calls) ↔ n.TaggedFor nodeId calls := by
  refine ⟨fun h => ⟨h.callsign.imp_right ?_, h.role.imp_right ?_⟩, fun h => h.cons _⟩
  · rintro ⟨callsign, hmem, htext⟩
    exact ⟨callsign, (List.mem_cons.mp hmem).resolve_left (by simp), htext⟩
  · exact fun hmem => (List.mem_cons.mp hmem).resolve_left (by simp)

theorem taggedFor_empty : NeighborEntry.empty.TaggedFor nodeId calls := ⟨.inl rfl, .inl rfl⟩

/-- The hop count of the frame is in range. -/
def NeighborFrame.HopsInRange (f : NeighborFrame) : Prop :=
  1 ≤ f.newHops ∧ f.newHops ≤ rivrPktDefaultTtl

/-- A slot that is filled keeps its callsign and role. -/
theorem provenance_fillSlot_iff (hsrc : f.pkt.srcId ≠ 0) :
    (neighborFillSlot n f).Provenance calls ↔
      n.TaggedFor f.pkt.srcId calls ∧ f.HopsInRange := by
  constructor
  · exact fun h => ⟨⟨h.tagged.callsign, h.tagged.role⟩, h.hopCount⟩
  · exact fun h => ⟨hsrc, ⟨h.1.callsign, h.1.role⟩, h.2⟩

/-- A refreshed neighbour keeps the lesser hop count. -/
theorem provenance_updateExisting_iff (h : n.Provenance calls)
    (hle : ¬f.newHops > rivrPktDefaultTtl) :
    (neighborUpdateExisting n f).Provenance calls ↔ f.HopsInRange := by
  have hhops := UInt8.not_lt.mp hle
  have hcount : (neighborUpdateExisting n f).hopCount =
      if f.newHops < n.hopCount then f.newHops else n.hopCount := rfl
  constructor
  · intro h'
    refine ⟨?_, hhops⟩
    have hone := h'.hopCount.1
    rw [hcount] at hone
    split_ifs at hone with hlt
    · exact hone
    · exact UInt8.le_trans h.hopCount.1 (UInt8.not_lt.mp hlt)
  · intro hrange
    refine ⟨h.nodeId, ⟨h.tagged.callsign, h.tagged.role⟩, ?_⟩
    rw [hcount]
    split_ifs
    · exact hrange
    · exact h.hopCount

/-- Once the check of the hop count has passed, only the hop byte 255 is out of range: its sum has
wrapped. -/
theorem hopsInRange_iff (hle : ¬f.newHops > rivrPktDefaultTtl) :
    f.HopsInRange ↔ f.pkt.hop ≠ 255 := by
  have hhops := UInt8.le_iff_toNat_le.mp (UInt8.not_lt.mp hle)
  have hlt := f.pkt.hop.toNat_lt
  rw [NeighborFrame.newHops, UInt8.toNat_add] at hhops
  rw [NeighborFrame.HopsInRange, NeighborFrame.newHops, UInt8.le_iff_toNat_le,
    UInt8.le_iff_toNat_le, UInt8.toNat_add, ne_eq, ← UInt8.toNat_inj]
  simp only [rivrPktDefaultTtl, UInt8.reduceToNat] at hhops ⊢
  omega

/-- The check of the hop count, without the sum. -/
theorem newHops_gt_iff (hbyte : f.pkt.hop ≠ 255) :
    f.newHops > rivrPktDefaultTtl ↔ ¬f.pkt.hop < rivrPktDefaultTtl := by
  have hlt := f.pkt.hop.toNat_lt
  rw [ne_eq, ← UInt8.toNat_inj] at hbyte
  rw [NeighborFrame.newHops, gt_iff_lt, UInt8.lt_iff_toNat_lt, UInt8.lt_iff_toNat_lt,
    UInt8.toNat_add]
  simp only [rivrPktDefaultTtl, UInt8.reduceToNat] at hbyte ⊢
  omega

/-- Writing one neighbour. -/
theorem forall_provenance_set (hns : ∀ n ∈ ns, n.Provenance calls) {k : ℕ} (hget : ns[k]? = some n)
    (x : NeighborEntry) : (∀ n ∈ ns.set k x, n.Provenance calls) ↔ x.Provenance calls := by
  have hk := (List.getElem?_eq_some_iff.mp hget).1
  constructor
  · exact fun h => h x (List.mem_of_getElem? (List.getElem?_set_self hk))
  · intro hx m hm
    rcases List.mem_or_eq_of_mem_set hm with hm | rfl
    · exact hns m hm
    · exact hx

theorem NeighborTable.Holds.victim_of_mem (h : tbl.Holds ns) (hn : n ∈ ns) (nowMs : UInt32) :
    tbl.victim n.nodeId nowMs = none := by
  refine if_neg fun hall => (hall n ?_).2 rfl
  rw [h.entries]
  exact List.mem_append_left _ hn

theorem NeighborTable.Holds.victim_of_room (h : tbl.Holds ns)
    (hroom : ns.length < neighborTableSize) (srcId nowMs : UInt32) : tbl.victim srcId nowMs = none := by
  refine if_neg fun hall => (hall .empty ?_).1 rfl
  rw [h.entries]
  exact List.mem_append_right _ (List.mem_replicate.mpr ⟨by omega, rfl⟩)

theorem NeighborTable.Holds.victim_of_full (h : tbl.Holds ns)
    (hfull : ns.length = neighborTableSize) (hoccupied : ∀ n ∈ ns, n.nodeId ≠ 0) {srcId : UInt32} (hnew : ∀ n ∈ ns, n.nodeId ≠ srcId)
    (nowMs : UInt32) : tbl.victim srcId nowMs = ns.argmax fun n => n.age nowMs := by
  have hentries : tbl.entries = ns := by
    rw [h.entries, hfull, Nat.sub_self, List.replicate_zero, List.append_nil]
  rw [victim, if_pos fun n hn => ?_, hentries]
  rw [hentries] at hn
  exact ⟨hoccupied n hn, hnew n hn⟩

/-- **What an update does to the provenance.** -/
theorem provenance_updates_iff {ns' : List NeighborEntry} (h : tbl.Holds ns)
    (hns : ∀ n ∈ ns, n.Provenance calls) (hsrc : f.pkt.srcId ≠ 0)
    (hle : ¬f.newHops > rivrPktDefaultTtl) (hupdates : Updates f ns ns') :
    (∀ n ∈ ns', n.Provenance calls) ↔ f.HopsInRange ∧
      ∀ n, tbl.victim f.pkt.srcId f.nowMs = some n → n.TaggedFor f.pkt.srcId calls := by
  have hoccupied : ∀ n ∈ ns, n.nodeId ≠ 0 := fun n hn => (hns n hn).nodeId
  cases hupdates with
  | @refreshed k n hget hid =>
    have hmem := List.mem_of_getElem? hget
    rw [forall_provenance_set hns hget, provenance_updateExisting_iff (hns n hmem) hle, ← hid,
      h.victim_of_mem hmem]
    exact (and_iff_left fun n hn => absurd hn (by simp)).symm
  | added hnew hroom =>
    rw [h.victim_of_room hroom, List.forall_mem_append, List.forall_mem_singleton,
      provenance_fillSlot_iff hsrc]
    constructor
    · exact fun hall => ⟨hall.2.2, fun n hn => absurd hn (by simp)⟩
    · exact fun hall => ⟨hns, taggedFor_empty, hall.1⟩
  | @evicted k n hget hnew hfull holdest =>
    rw [forall_provenance_set hns hget, provenance_fillSlot_iff hsrc,
      h.victim_of_full hfull hoccupied hnew, holdest]
    constructor
    · rintro ⟨htagged, hrange⟩
      refine ⟨hrange, fun m hm => ?_⟩
      rwa [← Option.some.inj hm]
    · exact fun hall => ⟨hall.2 n rfl, hall.1⟩

theorem nodup_updates {ns' : List NeighborEntry}
    (hnodup : (ns.map NeighborEntry.nodeId).Nodup) (hupdates : Updates f ns ns') :
    (ns'.map NeighborEntry.nodeId).Nodup := by
  cases hupdates with
  | @refreshed k n hget hid =>
    have hkeys := map_key_set hget (show (neighborUpdateExisting n f).nodeId = n.nodeId from rfl)
    exact hkeys ▸ hnodup
  | added hnew hroom => exact nodup_map_concat hnodup hnew
  | evicted hget hnew hfull holdest => exact nodup_map_set hnodup hnew _

/-- The string that a slot holds after a callsign was copied into it. -/
theorem text_copy (c : Callsign) (callsign : List UInt8) :
    (c.copy callsign).text = callsignText callsign := by
  have hchars : ∀ b ∈ callsignText callsign, (b != 0) = true := by
    intro b hb
    exact List.mem_takeWhile_imp (p := fun b => b != 0) (List.mem_of_mem_take hb)
  change (callsignText callsign ++ 0 :: _).takeWhile (fun b => b != 0) = _
  rw [List.takeWhile_append_of_pos hchars, List.takeWhile_cons_of_neg (by decide), List.append_nil]

theorem provenance_setCallsign (h : n.Provenance calls) (callsign : List UInt8) :
    { n with callsign := n.callsign.copy callsign : NeighborEntry }.Provenance
      (.setCallsign n.nodeId callsign :: calls) :=
  ⟨h.nodeId, ⟨.inr ⟨callsign, List.mem_cons_self, text_copy _ _⟩, (h.tagged.cons _).role⟩,
    h.hopCount⟩

theorem provenance_setRole (h : n.Provenance calls) (role : UInt8) :
    { n with role := role : NeighborEntry }.Provenance (.setRole n.nodeId role :: calls) :=
  ⟨h.nodeId, ⟨(h.tagged.cons _).callsign, .inr List.mem_cons_self⟩, h.hopCount⟩

/-- Setting a field of the neighbour that is named keeps the run sound. -/
theorem NeighborRun.Sound.setField (h : s.Sound) {c : NeighborCall} {nodeId : UInt32}
    {write : NeighborEntry → NeighborEntry}
    (happly : c.apply s.table = s.table.setField nodeId write)
    (hid : ∀ n, (write n).nodeId = n.nodeId)
    (hwrite : ∀ n, n.Provenance s.calls → n.nodeId = nodeId →
      (write n).Provenance (c :: s.calls)) : (s.call c).Sound := by
  have hcall : s.call c = ⟨s.table.setField nodeId write, c :: s.calls⟩ := by
    rw [NeighborRun.call, happly]
  rw [hcall]
  by_cases hzero : nodeId = 0
  · rw [NeighborTable.setField, if_pos hzero]
    exact sound_of_holds h.holds h.nodup fun n hn => (h.provenance n hn).cons c
  · refine sound_of_holds (setField_spec h.holds hzero write) ?_ fun x hx => ?_
    · rw [map_nodeId_setNeighbor hid]
      exact h.nodup
    · rcases mem_setNeighbor hx with hx | ⟨n, hn, heq, rfl⟩
      · exact (h.provenance x hx).cons c
      · exact hwrite n (h.provenance n hn) heq

/-- **What a call does to the provenance.** -/
theorem NeighborRun.Sound.call_iff (h : s.Sound) (c : NeighborCall) :
    (s.call c).Sound ↔ s.KeepsProvenance c := by
  cases c with
  | setCallsign nodeId callsign =>
    refine iff_of_true (h.setField rfl (fun _ => rfl) fun n hn heq => ?_) trivial
    exact heq ▸ provenance_setCallsign hn callsign
  | setRole nodeId role =>
    refine iff_of_true (h.setField rfl (fun _ => rfl) fun n hn heq => ?_) trivial
    exact heq ▸ provenance_setRole hn role
  | update f =>
    have hsame : routingNeighborUpdate s.table f = s.table → (s.call (.update f)).Sound := by
      intro hsame
      rw [NeighborRun.call, NeighborCall.apply, hsame]
      exact sound_of_holds h.holds h.nodup fun n hn => (h.provenance n hn).cons _
    rw [NeighborRun.KeepsProvenance]
    by_cases hsrc : f.pkt.srcId = 0
    · refine iff_of_true (hsame ?_) fun hne => absurd hsrc hne
      rw [routingNeighborUpdate, if_pos hsrc]
    by_cases hle : f.newHops > rivrPktDefaultTtl
    · -- a hop count of 255 would wrap to zero and pass the check
      have hbyte : f.pkt.hop ≠ 255 := by
        intro hbyte
        rw [NeighborFrame.newHops, hbyte] at hle
        exact absurd hle (by decide)
      refine iff_of_true (hsame ?_) fun _ =>
        ⟨hbyte, fun hlt => absurd hlt ((newHops_gt_iff hbyte).mp hle)⟩
      rw [routingNeighborUpdate, if_neg hsrc, if_pos hle]
    · obtain ⟨ns', hupdates, hholds⟩ := routingNeighborUpdate_spec h.holds
        (fun n hn => (h.provenance n hn).nodeId) hsrc hle
      have hlater : ∀ n ∈ s.table.neighbors, n.Provenance (.update f :: s.calls) :=
        fun n hn => (h.provenance n hn).cons _
      have hiff := provenance_updates_iff h.holds hlater hsrc hle hupdates
      have hsound : (s.call (.update f)).Sound ↔
          ∀ n ∈ ns', n.Provenance (.update f :: s.calls) := by
        constructor
        · intro hcall
          have hneighbors : (s.call (.update f)).table.neighbors = ns' := hholds.neighbors_eq
          exact hneighbors ▸ hcall.provenance
        · exact sound_of_holds (s := s.call (.update f)) hholds (nodup_updates h.nodup hupdates)
      rw [hsound, hiff, hopsInRange_iff hle, forall_prop_of_true hsrc]
      refine and_congr_right fun hbyte => ?_
      have hlt : f.pkt.hop < rivrPktDefaultTtl := by
        by_contra hge
        exact hle ((newHops_gt_iff hbyte).mpr hge)
      rw [forall_prop_of_true hlt]
      exact forall₂_congr fun _ _ => taggedFor_update

theorem sound_init : (neighborRun []).Sound :=
  sound_of_holds (s := neighborRun []) holds_init List.nodup_nil
    fun _ hn => absurd hn List.not_mem_nil

end Step

/-- **The provenance of the neighbours.** After every call the table is sound exactly if no update
has the hop byte 255, and none writes over an entry with a callsign or a role that is not the new
node's. -/
theorem routing_neighbor_provenance_iff (calls : List NeighborCall) :
    (∀ m, (neighborRun (calls.take m)).Sound) ↔
      Allows NeighborRun.call NeighborRun.KeepsProvenance ⟨routingNeighborInit, []⟩ calls :=
  forall_take_iff_allows (fun _ c h => h.call_iff c) sound_init calls

/-- A frame from node 1 with the hop byte 255. -/
def wrappingFrame : NeighborFrame := ⟨{ sampleChatHdr with srcId := 1, hop := 255 }, -60, 10, 0⟩

/-- Its sender is stored with a hop count of 0. -/
theorem not_routing_neighbor_provenance :
    ¬∀ calls : List NeighborCall, (neighborRun calls).Sound := by
  intro h
  have hone := ((h [.update wrappingFrame]).provenance _ List.mem_cons_self).hopCount.1
  exact absurd hone (by decide)

end Rivr
