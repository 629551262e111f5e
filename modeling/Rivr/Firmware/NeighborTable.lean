import Mathlib.Data.Int.Notation
import Mathlib.Data.Nat.Notation
import Mathlib.Tactic.SplitIfs

/-!
# The neighbour table

`firmware_core/neighbor_table.c`: the record of a direct or overheard peer, how a received frame
updates it, its link score, and the two lookups routing makes in the table. The feature flag
`RIVR_FEATURE_AIRTIME_ROUTING` is the argument `airtimeRouting`.
-/

namespace Rivr

def ntableSize : ℕ := 16
def ntableExpiryMs : UInt32 := 120000
def ntableStaleMs : UInt32 := 70000
def ntableLossMaxGap : UInt16 := 15
def ntableScoreUnicastMin : UInt8 := 20

def ntableFlagDirect : UInt8 := 0x01
def ntableFlagStale : UInt8 := 0x02

/-- `rivr_neighbor_t`. -/
structure RivrNeighbor where
  neighborId : UInt32
  rssiAvg : Int16
  snrAvg : Int8
  lossRate : UInt8
  lastSeenMs : UInt32
  flags : UInt8
  hopCount : UInt8
  lastSeq : UInt16
  rxOk : UInt32
  etxX8 : UInt8
  avgFrameLen : UInt8
  latE7 : Int32
  lonE7 : Int32
  deriving DecidableEq, Repr

/-- `rivr_neighbor_table_t`. -/
structure RivrNeighborTable where
  entries : List RivrNeighbor
  count : UInt8
  length_entries : entries.length = ntableSize

/-- A zeroed slot. -/
def RivrNeighbor.empty : RivrNeighbor := ⟨0, 0, 0, 0, 0, 0, 0, 0, 0, 0, 0, 0, 0⟩

/-- `neighbor_table_init`: positions start as unknown. -/
def neighborTableInit : RivrNeighborTable where
  entries := List.replicate ntableSize
    { RivrNeighbor.empty with latE7 := Int32.minValue, lonE7 := Int32.minValue }
  count := 0
  length_entries := List.length_replicate

/-! ### Updating a record -/

/-- A moving average with weight 1/8, rounded toward zero. -/
def ewma (avg sample : ℤ) : ℤ := (avg * 7 + sample).tdiv 8

/-- The loss rate after a number of missed frames. -/
def lossAfterMisses : ℕ → UInt8 → UInt8
  | 0, lossRate => lossRate
  | misses + 1, lossRate =>
    lossAfterMisses misses ((lossRate.toUInt32 * 7 + 100) / 8).toUInt8

/-- `update_loss_rate_ewma`. -/
def updateLossRateEwma (n : RivrNeighbor) (seq : UInt16) : RivrNeighbor :=
  let gap := seq - n.lastSeq - 1
  let gap := if gap > ntableLossMaxGap then ntableLossMaxGap else gap
  { n with lossRate := ((lossAfterMisses gap.toNat n.lossRate).toUInt32 * 7 / 8).toUInt8 }

/-- `recompute_etx`. -/
def recomputeEtx (n : RivrNeighbor) : RivrNeighbor :=
  let deliveryPct := 100 - n.lossRate.toUInt32
  if deliveryPct = 0 then { n with etxX8 := 255 }
  else
    let etx := 8 * 100 / deliveryPct
    { n with etxX8 := (if etx > 255 then 255 else if etx < 8 then 8 else etx).toUInt8 }

/-- What `neighbor_update` is told about a received frame. -/
structure Observation where
  nodeId : UInt32
  rssiDbm : Int16
  snrDb : Int8
  hopCount : UInt8
  seq : UInt16
  frameLen : UInt8

/-- `neighbor_update` on a record of the peer. -/
def RivrNeighbor.observeAgain (n : RivrNeighbor) (o : Observation) : RivrNeighbor :=
  let n := { n with
    rssiAvg := Int16.ofInt (ewma n.rssiAvg.toInt o.rssiDbm.toInt)
    snrAvg := Int8.ofInt (ewma n.snrAvg.toInt o.snrDb.toInt) }
  let n := if n.rxOk > 0 then updateLossRateEwma n o.seq else n
  recomputeEtx (if o.hopCount < n.hopCount then { n with hopCount := o.hopCount } else n)

/-- The record of a new peer. -/
def Observation.newRecord (o : Observation) : RivrNeighbor :=
  { RivrNeighbor.empty with
    neighborId := o.nodeId
    rssiAvg := o.rssiDbm
    snrAvg := o.snrDb
    hopCount := o.hopCount
    etxX8 := 8 }

/-- The end of `neighbor_update`, on every observation. -/
def RivrNeighbor.observed (n : RivrNeighbor) (o : Observation) (nowMs : UInt32) : RivrNeighbor :=
  let avgFrameLen :=
    if o.frameLen > 0 then
      if n.avgFrameLen = 0 then o.frameLen
      else ((n.avgFrameLen.toUInt32 * 7 + o.frameLen.toUInt32) / 8).toUInt8
    else n.avgFrameLen
  let flags := n.flags &&& ~~~ntableFlagStale
  { n with
    avgFrameLen := avgFrameLen
    lastSeq := o.seq
    lastSeenMs := nowMs
    rxOk := n.rxOk + 1
    flags := if o.hopCount = 0 then flags ||| ntableFlagDirect else flags }

/-- `find_slot`. -/
def findSlot (tbl : RivrNeighborTable) (nodeId : UInt32) : Option ℕ :=
  (tbl.entries.take tbl.count.toNat).findIdx? fun n => n.neighborId = nodeId

/-- The loop of `oldest_slot`, from slot `i` on. -/
def oldestScan : List RivrNeighbor → ℕ → ℕ → UInt32 → ℕ
  | [], _, oldest, _ => oldest
  | n :: ns, i, oldest, minTs =>
    if n.lastSeenMs < minTs then oldestScan ns (i + 1) i n.lastSeenMs
    else oldestScan ns (i + 1) oldest minTs

/-- `oldest_slot`. -/
def oldestSlot (tbl : RivrNeighborTable) : ℕ :=
  oldestScan ((tbl.entries.take tbl.count.toNat).drop 1) 1 0
    (tbl.entries.headD .empty).lastSeenMs

/-- `neighbor_update`: the table it leaves. -/
def neighborUpdate (tbl : RivrNeighborTable) (o : Observation) (nowMs : UInt32) :
    RivrNeighborTable :=
  if o.nodeId = 0 then tbl
  else
    match findSlot tbl o.nodeId with
    | some idx =>
      let n := (tbl.entries.getD idx .empty).observeAgain o
      { tbl with
        entries := tbl.entries.set idx (n.observed o nowMs)
        length_entries := by simp [tbl.length_entries] }
    | none =>
      -- a full table gives up the record that was heard longest ago
      let slot := if tbl.count.toNat < ntableSize then tbl.count.toNat else oldestSlot tbl
      { entries := tbl.entries.set slot (o.newRecord.observed o nowMs)
        count := if tbl.count.toNat < ntableSize then tbl.count + 1 else tbl.count
        length_entries := by simp [tbl.length_entries] }

/-! ### Finding a record -/

/-- The record with its stale flag brought up to date. -/
def RivrNeighbor.refreshStale (n : RivrNeighbor) (nowMs : UInt32) : RivrNeighbor :=
  if nowMs - n.lastSeenMs ≥ ntableStaleMs then { n with flags := n.flags ||| ntableFlagStale }
  else { n with flags := n.flags &&& ~~~ntableFlagStale }

/-- The loop of `neighbor_find`: the record it returns and the records it leaves. -/
def neighborScan (nodeId nowMs : UInt32) :
    List RivrNeighbor → Option RivrNeighbor × List RivrNeighbor
  | [] => (none, [])
  | n :: ns =>
    if n.neighborId ≠ nodeId then
      ((neighborScan nodeId nowMs ns).1, n :: (neighborScan nodeId nowMs ns).2)
    -- an expired record ends the search; its removal is left to `neighbor_table_expire`
    else if nowMs - n.lastSeenMs ≥ ntableExpiryMs then (none, n :: ns)
    else (some (n.refreshStale nowMs), n.refreshStale nowMs :: ns)

@[simp]
theorem neighborScan_length (nodeId nowMs : UInt32) (ns : List RivrNeighbor) :
    (neighborScan nodeId nowMs ns).2.length = ns.length := by
  induction ns with
  | nil => rfl
  | cons n ns ih =>
    simp only [neighborScan]
    split_ifs <;> simp [ih]

/-- `neighbor_find`: the record, unless it has expired, and the table it leaves. -/
def neighborFind (tbl : RivrNeighborTable) (nodeId nowMs : UInt32) :
    Option RivrNeighbor × RivrNeighborTable :=
  if nodeId = 0 then (none, tbl)
  else
    ((neighborScan nodeId nowMs (tbl.entries.take tbl.count.toNat)).1, { tbl with
      entries := (neighborScan nodeId nowMs (tbl.entries.take tbl.count.toNat)).2 ++
        tbl.entries.drop tbl.count.toNat
      length_entries := by
        rw [List.length_append, neighborScan_length, ← List.length_append, List.take_append_drop,
          tbl.length_entries] })

/-! ### Flags, positions and expiry -/

/-- The table with the record of a node changed, if it has one. -/
def RivrNeighborTable.modifyRecord (tbl : RivrNeighborTable) (nodeId : UInt32)
    (write : RivrNeighbor → RivrNeighbor) : RivrNeighborTable :=
  if nodeId = 0 then tbl
  else
    match findSlot tbl nodeId with
    | some idx =>
      { tbl with
        entries := tbl.entries.set idx (write (tbl.entries.getD idx .empty))
        length_entries := by rw [List.length_set, tbl.length_entries] }
    | none => tbl

/-- `neighbor_set_flag`. -/
def neighborSetFlag (tbl : RivrNeighborTable) (nodeId : UInt32) (flag : UInt8) :
    RivrNeighborTable :=
  tbl.modifyRecord nodeId fun n => { n with flags := n.flags ||| flag }

/-- `neighbor_set_position`. -/
def neighborSetPosition (tbl : RivrNeighborTable) (nodeId : UInt32) (latE7 lonE7 : Int32) :
    RivrNeighborTable :=
  tbl.modifyRecord nodeId fun n => { n with latE7 := latE7, lonE7 := lonE7 }

/-- The removal of slot `i` in `neighbor_table_expire`: the last record takes its place. -/
def RivrNeighborTable.removeSlot (tbl : RivrNeighborTable) (i : ℕ) : RivrNeighborTable :=
  let last := tbl.count.toNat - 1
  { entries := (if i ≠ last then tbl.entries.set i (tbl.entries.getD last .empty)
      else tbl.entries).set last .empty
    count := tbl.count - 1
    length_entries := by
      rw [List.length_set]
      split_ifs
      · rw [List.length_set, tbl.length_entries]
      · exact tbl.length_entries }

/-- The loop of `neighbor_table_expire` from slot `i` on, with a bound on its turns. -/
def expireLoop (nowMs : UInt32) : ℕ → ℕ → RivrNeighborTable → UInt8 → RivrNeighborTable × UInt8
  | 0, _, tbl, removed => (tbl, removed)
  | turns + 1, i, tbl, removed =>
    if i < tbl.count.toNat then
      if nowMs - (tbl.entries.getD i .empty).lastSeenMs ≥ ntableExpiryMs then
        -- the record moved into slot `i` is looked at next
        expireLoop nowMs turns i (tbl.removeSlot i) (removed + 1)
      else expireLoop nowMs turns (i + 1) tbl removed
    else (tbl, removed)

/-- `neighbor_table_expire`: the table it leaves, and how many records it has removed. Each turn
removes a record or goes on to the next slot. -/
def neighborTableExpire (tbl : RivrNeighborTable) (nowMs : UInt32) : RivrNeighborTable × UInt8 :=
  expireLoop nowMs tbl.count.toNat 0 tbl 0

/-! ### Link scores -/

/-- `clamp_i32`. -/
def clampI32 (v lo hi : ℤ) : ℤ := if v < lo then lo else if v > hi then hi else v

/-- The link quality of a signal: at most 80 for its strength, at most 20 for its clarity. -/
def linkQuality (rssiDbm : Int16) (snrDb : Int8) : UInt32 :=
  UInt32.ofNat (clampI32 (rssiDbm.toInt + 140) 0 80 + clampI32 (snrDb.toInt + 10) 0 20).toNat

/-- `neighbor_link_score`. -/
def neighborLinkScore (n : RivrNeighbor) (nowMs : UInt32) : UInt8 :=
  let age := nowMs - n.lastSeenMs
  if n.neighborId = 0 then 0
  else if age ≥ ntableExpiryMs then 0
  else
    let base := linkQuality n.rssiAvg n.snrAvg
    let afterLoss := base * (100 - n.lossRate.toUInt32) / 100
    let score := afterLoss * (ntableExpiryMs - age) / ntableExpiryMs
    if score > 100 then 100 else score.toUInt8

/-- The expected transmission count, times 8, and at least 8. -/
def RivrNeighbor.etx (n : RivrNeighbor) : UInt32 := (if n.etxX8 ≥ 8 then n.etxX8 else 8).toUInt32

/-- `neighbor_link_score_full`. -/
def neighborLinkScoreFull (airtimeRouting : Bool) (n : RivrNeighbor) (nowMs : UInt32) : UInt8 :=
  let age := nowMs - n.lastSeenMs
  if n.neighborId = 0 then 0
  else if age ≥ ntableExpiryMs then 0
  else
    let base := linkQuality n.rssiAvg n.snrAvg
    let afterQuality :=
      if airtimeRouting then base * 8 / n.etx else base * (100 - n.lossRate.toUInt32) / 100
    let score := afterQuality * (ntableExpiryMs - age) / ntableExpiryMs
    if score > 100 then 100 else score.toUInt8

/-- The loop of `neighbor_best`, with the best record so far and its score. -/
def neighborBestScan (airtimeRouting : Bool) (nowMs : UInt32) :
    List RivrNeighbor → Option RivrNeighbor → UInt8 → Option RivrNeighbor
  | [], best, _ => best
  | n :: ns, best, bestScore =>
    if n.neighborId = 0 then neighborBestScan airtimeRouting nowMs ns best bestScore
    else if nowMs - n.lastSeenMs ≥ ntableExpiryMs then
      neighborBestScan airtimeRouting nowMs ns best bestScore
    else if neighborLinkScoreFull airtimeRouting n nowMs > bestScore then
      neighborBestScan airtimeRouting nowMs ns (some n)
        (neighborLinkScoreFull airtimeRouting n nowMs)
    else neighborBestScan airtimeRouting nowMs ns best bestScore

/-- `neighbor_best`. -/
def neighborBest (airtimeRouting : Bool) (tbl : RivrNeighborTable) (nowMs : UInt32) :
    Option RivrNeighbor :=
  neighborBestScan airtimeRouting nowMs (tbl.entries.take tbl.count.toNat) none 0

end Rivr
