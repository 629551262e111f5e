import Mathlib.Algebra.NeZero
import Mathlib.Algebra.Ring.Nat
import Mathlib.Order.Nat
import Rivr.Firmware.NeighborTable
import Rivr.ForMathlib.SlotTable

/-!
# The route cache

`firmware_core/route_cache.c`: for each destination the next hop toward it, with a hop count, a
metric and the time it was last reported. The number of slots, `RCACHE_SIZE`, is 32 or 64 in the
builds of the firmware and a parameter here.

Every operation but one only clears expired slots (`Shrinks`). `routeCacheUpdate` writes one
slot (`routeCacheUpdate_spec`): with the report, or, when the slot held a live route to the
destination and the report is no better, with the time alone brought up to date.
-/

namespace Rivr

open SlotTable

/-! ### Entries -/

def rcacheExpiryMs : UInt32 := 120000
def rcacheMetricHysteresis : UInt32 := 10
def rcacheReplyMinMetric : UInt8 := 30
def rcacheReplyMaxHops : UInt8 := 6

def rcacheFlagValid : UInt8 := 0x01
def rcacheFlagPending : UInt8 := 0x02
def rcacheFlagDirect : UInt8 := 0x04

/-- `route_cache_entry_t`. -/
structure RouteCacheEntry where
  dstId : UInt32
  nextHop : UInt32
  lastSeenMs : UInt32
  hopCount : UInt8
  metric : UInt8
  flags : UInt8
  deriving DecidableEq, Repr

/-- A zeroed slot. -/
def RouteCacheEntry.empty : RouteCacheEntry := ⟨0, 0, 0, 0, 0, 0⟩

/-- The slot holds a route. -/
def RouteCacheEntry.Valid (e : RouteCacheEntry) : Prop := e.flags &&& rcacheFlagValid ≠ 0

/-- The route was last reported longer ago than the expiry time. -/
def RouteCacheEntry.Expired (e : RouteCacheEntry) (nowMs : UInt32) : Prop :=
  nowMs - e.lastSeenMs > rcacheExpiryMs

/-- The route is tentative: a request for it is outstanding. -/
def RouteCacheEntry.Pending (e : RouteCacheEntry) : Prop := e.flags &&& rcacheFlagPending ≠ 0

instance RouteCacheEntry.decidableValid (e : RouteCacheEntry) : Decidable e.Valid :=
  inferInstanceAs (Decidable (_ ≠ _))

instance RouteCacheEntry.decidableExpired (e : RouteCacheEntry) (nowMs : UInt32) :
    Decidable (e.Expired nowMs) := inferInstanceAs (Decidable (_ > _))

instance RouteCacheEntry.decidablePending (e : RouteCacheEntry) : Decidable e.Pending :=
  inferInstanceAs (Decidable (_ ≠ _))

/-- `expire_entry`: the slot it leaves. It returns `true` exactly on a valid, expired slot. -/
def expireEntry (e : RouteCacheEntry) (nowMs : UInt32) : RouteCacheEntry :=
  if e.Valid ∧ e.Expired nowMs then .empty else e

theorem not_valid_empty : ¬RouteCacheEntry.empty.Valid := by decide

/-- Expiry leaves a valid slot as it is, or clears it. -/
theorem expireEntry_eq {e : RouteCacheEntry} {nowMs : UInt32} (h : (expireEntry e nowMs).Valid) :
    expireEntry e nowMs = e := by
  rw [expireEntry] at h ⊢
  split_ifs at h ⊢
  · exact absurd h not_valid_empty
  · rfl

/-- A valid slot that expiry leaves is not expired. -/
theorem not_expired_of_expireEntry {e : RouteCacheEntry} {nowMs : UInt32}
    (h : (expireEntry e nowMs).Valid) : ¬e.Expired nowMs := by
  rw [expireEntry] at h
  split_ifs at h with hexp
  · exact absurd h not_valid_empty
  · exact fun hold => hexp ⟨h, hold⟩

/-! ### The cache -/

/-- `route_cache_t`. -/
structure RouteCache (rcacheSize : ℕ) where
  entries : List RouteCacheEntry
  count : UInt8
  evictHand : UInt8
  length_entries : entries.length = rcacheSize
  evictHand_lt : evictHand.toNat < rcacheSize

/-- `route_cache_init`. -/
def routeCacheInit (rcacheSize : ℕ) [NeZero rcacheSize] : RouteCache rcacheSize where
  entries := List.replicate rcacheSize .empty
  count := 0
  evictHand := 0
  length_entries := List.length_replicate
  evictHand_lt := Nat.pos_of_ne_zero (NeZero.ne rcacheSize)

variable {rcacheSize : ℕ}

/-- The loop of `route_cache_lookup`: the entry it returns and the slots it leaves. -/
def lookupScan (dstId nowMs : UInt32) :
    List RouteCacheEntry → Option RouteCacheEntry × List RouteCacheEntry
  | [] => (none, [])
  | e :: es =>
    if e.dstId = dstId then
      -- an expired entry is removed, and ends the search
      if e.Valid ∧ e.Expired nowMs then (none, .empty :: es)
      else if e.Valid then (some e, e :: es)
      else ((lookupScan dstId nowMs es).1, e :: (lookupScan dstId nowMs es).2)
    else ((lookupScan dstId nowMs es).1, e :: (lookupScan dstId nowMs es).2)

@[simp]
theorem lookupScan_length (dstId nowMs : UInt32) (es : List RouteCacheEntry) :
    (lookupScan dstId nowMs es).2.length = es.length := by
  induction es with
  | nil => rfl
  | cons e es ih =>
    simp only [lookupScan]
    split_ifs <;> simp [ih]

/-- `route_cache_lookup`: the entry, if it is live, and the cache it leaves. -/
def routeCacheLookup (cache : RouteCache rcacheSize) (dstId nowMs : UInt32) :
    Option RouteCacheEntry × RouteCache rcacheSize :=
  if dstId = 0 then (none, cache)
  else
    ((lookupScan dstId nowMs cache.entries).1, { cache with
      entries := (lookupScan dstId nowMs cache.entries).2
      length_entries := by simp [cache.length_entries] })

/-- A report of a route: the arguments of `route_cache_update` but for the time. -/
structure RouteReport where
  dstId : UInt32
  nextHop : UInt32
  hopCount : UInt8
  metric : UInt8
  flags : UInt8
  deriving DecidableEq, Repr

/-- The check of its arguments at the entry of `route_cache_update`. -/
def RouteReport.Usable (r : RouteReport) : Prop := r.dstId ≠ 0 ∧ r.nextHop ≠ 0

/-- The report is better than the route: fewer hops, or as many and a metric that is more than
the hysteresis above. -/
def RouteReport.Better (r : RouteReport) (e : RouteCacheEntry) : Prop :=
  r.hopCount < e.hopCount ∨
    (r.hopCount = e.hopCount ∧ r.metric.toUInt32 > e.metric.toUInt32 + rcacheMetricHysteresis)

instance RouteReport.decidableUsable (r : RouteReport) : Decidable r.Usable :=
  inferInstanceAs (Decidable (_ ∧ _))

instance RouteReport.decidableBetter (r : RouteReport) (e : RouteCacheEntry) :
    Decidable (r.Better e) := inferInstanceAs (Decidable (_ ∨ _))

/-- The entry that stores a report. -/
def RouteReport.stored (r : RouteReport) (nowMs : UInt32) : RouteCacheEntry :=
  ⟨r.dstId, r.nextHop, nowMs, r.hopCount, r.metric, r.flags ||| rcacheFlagValid⟩

/-- A live entry for the destination after a report: replaced if the report is better, and
refreshed in any case. -/
def RouteCacheEntry.refresh (e : RouteCacheEntry) (r : RouteReport) (nowMs : UInt32) :
    RouteCacheEntry :=
  let e := if r.Better e then
      { e with
        nextHop := r.nextHop
        hopCount := r.hopCount
        metric := r.metric
        flags := r.flags ||| rcacheFlagValid }
    else e
  { e with lastSeenMs := nowMs }

/-- The loop of `route_cache_update`: whether it met the destination, and the slots it leaves.
The slots after a match are not looked at. -/
def updateScan (r : RouteReport) (nowMs : UInt32) :
    List RouteCacheEntry → Bool × List RouteCacheEntry
  | [] => (false, [])
  | e :: es =>
    -- every slot on the way is cleared if it has expired
    if (expireEntry e nowMs).dstId = r.dstId ∧ (expireEntry e nowMs).Valid then
      (true, (expireEntry e nowMs).refresh r nowMs :: es)
    else ((updateScan r nowMs es).1, expireEntry e nowMs :: (updateScan r nowMs es).2)

@[simp]
theorem updateScan_length (r : RouteReport) (nowMs : UInt32) (es : List RouteCacheEntry) :
    (updateScan r nowMs es).2.length = es.length := by
  induction es with
  | nil => rfl
  | cons e es ih =>
    simp only [updateScan]
    split_ifs <;> simp [ih]

/-- The first slot that is not valid, `free_idx`. -/
def freeSlot (es : List RouteCacheEntry) : Option ℕ := es.findIdx? fun e => ¬e.Valid

theorem nextHand_lt {hand : UInt8} (h : hand.toNat < rcacheSize) :
    (UInt8.ofNat ((hand.toNat + 1) % rcacheSize)).toNat < rcacheSize := by
  rw [UInt8.toNat_ofNat']
  exact (Nat.mod_le _ _).trans_lt (Nat.mod_lt _ (Nat.zero_lt_of_lt h))

/-- The end of `route_cache_update`, for a destination it did not meet: the report goes into the
first free slot, or else evicts the slot whose turn it is. -/
def RouteCache.insert (cache : RouteCache rcacheSize) (r : RouteReport) (nowMs : UInt32) :
    RouteCache rcacheSize :=
  match freeSlot cache.entries with
  | some idx => { cache with
      entries := cache.entries.set idx (r.stored nowMs)
      count := if cache.count.toNat < rcacheSize then cache.count + 1 else cache.count
      length_entries := by simp [cache.length_entries] }
  | none => { cache with
      entries := cache.entries.set cache.evictHand.toNat (r.stored nowMs)
      evictHand := UInt8.ofNat ((cache.evictHand.toNat + 1) % rcacheSize)
      length_entries := by simp [cache.length_entries]
      evictHand_lt := nextHand_lt cache.evictHand_lt }

/-- `route_cache_update`. -/
def routeCacheUpdate (cache : RouteCache rcacheSize) (r : RouteReport) (nowMs : UInt32) :
    RouteCache rcacheSize :=
  if ¬r.Usable then cache
  else
    let scanned := { cache with
      entries := (updateScan r nowMs cache.entries).2
      length_entries := by simp [cache.length_entries] }
    if (updateScan r nowMs cache.entries).1 then scanned else scanned.insert r nowMs

/-- `link_to_metric`. -/
def linkToMetric (rssiDbm : Int16) (snrDb : Int8) : UInt8 := (linkQuality rssiDbm snrDb).toUInt8

/-- What `route_cache_learn_rx` reports: the sender of a frame heard from it directly, or behind
the relay that delivered the frame; nothing if the relay is not known. -/
def learnRxReport (srcId fromId : UInt32) (hopCount : UInt8) (rssiDbm : Int16) (snrDb : Int8) :
    Option RouteReport :=
  if srcId = 0 then none
  else if hopCount = 0 then
    some ⟨srcId, srcId, 1, linkToMetric rssiDbm snrDb, rcacheFlagValid ||| rcacheFlagDirect⟩
  -- a relayed frame teaches the relay that it came through
  else if fromId ≠ 0 ∧ fromId ≠ srcId then
    some ⟨srcId, fromId, hopCount + 1, linkToMetric rssiDbm snrDb, rcacheFlagValid⟩
  else none

/-- `route_cache_learn_rx`. -/
def routeCacheLearnRx (cache : RouteCache rcacheSize) (srcId fromId : UInt32) (hopCount : UInt8)
    (rssiDbm : Int16) (snrDb : Int8) (nowMs : UInt32) : RouteCache rcacheSize :=
  match learnRxReport srcId fromId hopCount rssiDbm snrDb with
  | none => cache
  | some r => routeCacheUpdate cache r nowMs

/-- `rcache_tx_decision_t`, for the two values the code returns. -/
inductive RcacheTxDecision
  | flood
  | unicast
  deriving DecidableEq, Repr

/-- `route_cache_tx_decide`: the decision, the next hop it writes, and the cache it leaves. -/
def routeCacheTxDecide (cache : RouteCache rcacheSize) (dstId nowMs : UInt32) :
    RcacheTxDecision × UInt32 × RouteCache rcacheSize :=
  match routeCacheLookup cache dstId nowMs with
  | (none, cache) => (.flood, 0, cache)
  | (some e, cache) => (.unicast, e.nextHop, cache)

/-- The slots and the number of cleared ones that `route_cache_expire` leaves. -/
def expireScan (nowMs : UInt32) : List RouteCacheEntry → ℕ × List RouteCacheEntry
  | [] => (0, [])
  | e :: es =>
    if e.Valid ∧ e.Expired nowMs then
      ((expireScan nowMs es).1 + 1, .empty :: (expireScan nowMs es).2)
    else ((expireScan nowMs es).1, e :: (expireScan nowMs es).2)

theorem expireScan_snd (nowMs : UInt32) (es : List RouteCacheEntry) :
    (expireScan nowMs es).2 = es.map fun e => expireEntry e nowMs := by
  induction es with
  | nil => rfl
  | cons e es ih =>
    simp only [expireScan, List.map_cons, expireEntry]
    split_ifs <;> simp [ih, expireEntry]

/-- `route_cache_expire`: the number of cleared entries and the cache it leaves. -/
def routeCacheExpire (cache : RouteCache rcacheSize) (nowMs : UInt32) :
    UInt8 × RouteCache rcacheSize :=
  let evicted := (expireScan nowMs cache.entries).1
  (UInt8.ofNat evicted, { cache with
    entries := (expireScan nowMs cache.entries).2
    count := UInt8.ofNat (cache.count.toNat - evicted)
    length_entries := by simp [expireScan_snd, cache.length_entries] })

/-- `route_cache_can_reply_for_dst`: the answer and the cache it leaves. -/
def routeCacheCanReplyForDst (cache : RouteCache rcacheSize) (dstId nowMs : UInt32) :
    Bool × RouteCache rcacheSize :=
  match routeCacheLookup cache dstId nowMs with
  | (none, cache) => (false, cache)
  | (some e, cache) =>
    (decide (¬e.Pending ∧ ¬e.metric < rcacheReplyMinMetric ∧ ¬e.hopCount > rcacheReplyMaxHops),
      cache)

/-- `rivr_route_t`. -/
structure RivrRoute where
  destId : UInt32
  nextHopId : UInt32
  metric : UInt16
  hopCount : UInt8
  expiresMs : UInt32
  deriving DecidableEq, Repr

/-- The quality of the link to the next hop, applied to a score. -/
def linkPenalty (airtimeRouting : Bool) (n : RivrNeighbor) (score : UInt32) : UInt32 :=
  if airtimeRouting then score * 8 / n.etx else score * (100 - n.lossRate.toUInt32) / 100

/-- `entry_composite_score`: the score and the neighbour table it leaves. -/
def entryCompositeScore (airtimeRouting : Bool) (e : RouteCacheEntry)
    (ntbl : Option RivrNeighborTable) (nowMs : UInt32) : UInt32 × Option RivrNeighborTable :=
  let age := nowMs - e.lastSeenMs
  if age ≥ rcacheExpiryMs then (0, ntbl)
  else
    let score := e.metric.toUInt32
    let score :=
      -- longer routes count less, and so do older ones below
      if e.hopCount ≥ 3 then score * 50 / 100
      else if e.hopCount = 2 then score * 75 / 100
      else score
    let score := score * (rcacheExpiryMs - age) / rcacheExpiryMs
    match ntbl with
    | none => (if score > 100 then 100 else score, none)
    | some tbl =>
      match neighborFind tbl e.nextHop nowMs with
      | (none, tbl) => (if score > 100 then 100 else score, some tbl)
      | (some n, tbl) =>
        let score := linkPenalty airtimeRouting n score
        (if score > 100 then 100 else score, some tbl)

/-- What the first tier of `route_cache_best_hop` carries along: the best entry so far with its
score, and the neighbour table. -/
structure BestSoFar where
  entry : Option RouteCacheEntry
  score : UInt32
  ntbl : Option RivrNeighborTable

/-- The first tier on one more candidate. -/
def BestSoFar.offer (airtimeRouting : Bool) (nowMs : UInt32) (best : BestSoFar)
    (e : RouteCacheEntry) : BestSoFar :=
  let (score, ntbl) := entryCompositeScore airtimeRouting e best.ntbl nowMs
  if score > best.score then ⟨some e, score, ntbl⟩ else { best with ntbl := ntbl }

/-- The loop of the first tier of `route_cache_best_hop`: the best entry and the slots it
leaves. -/
def bestScan (airtimeRouting : Bool) (dstId nowMs : UInt32) :
    List RouteCacheEntry → BestSoFar → BestSoFar × List RouteCacheEntry
  | [], best => (best, [])
  | e :: es, best =>
    if e.dstId ≠ dstId then
      ((bestScan airtimeRouting dstId nowMs es best).1,
        e :: (bestScan airtimeRouting dstId nowMs es best).2)
    else if e.Valid ∧ e.Expired nowMs then
      ((bestScan airtimeRouting dstId nowMs es best).1,
        .empty :: (bestScan airtimeRouting dstId nowMs es best).2)
    -- a pending entry is no route yet
    else if ¬e.Valid ∨ e.Pending then
      ((bestScan airtimeRouting dstId nowMs es best).1,
        e :: (bestScan airtimeRouting dstId nowMs es best).2)
    else
      ((bestScan airtimeRouting dstId nowMs es (best.offer airtimeRouting nowMs e)).1,
        e :: (bestScan airtimeRouting dstId nowMs es (best.offer airtimeRouting nowMs e)).2)

@[simp]
theorem bestScan_length (airtimeRouting : Bool) (dstId nowMs : UInt32)
    (es : List RouteCacheEntry) (best : BestSoFar) :
    (bestScan airtimeRouting dstId nowMs es best).2.length = es.length := by
  induction es generalizing best with
  | nil => rfl
  | cons e es ih =>
    simp only [bestScan]
    split_ifs <;> simp [ih]

/-- The second tier of `route_cache_best_hop`: the best neighbour, if it is a direct one with a
score that will do. -/
def neighborHop (airtimeRouting : Bool) (ntbl : Option RivrNeighborTable) (dstId nowMs : UInt32) :
    Option RivrRoute := do
  let tbl ← ntbl
  let nb ← neighborBest airtimeRouting tbl nowMs
  if nb.flags &&& ntableFlagDirect ≠ 0 ∧ neighborLinkScore nb nowMs ≥ ntableScoreUnicastMin then
    some ⟨dstId, nb.neighborId, (neighborLinkScore nb nowMs).toUInt16, 2,
      nb.lastSeenMs + ntableExpiryMs⟩
  else none

/-- `route_cache_best_hop`: the route, with the cache and the neighbour table it leaves. -/
def routeCacheBestHop (airtimeRouting : Bool) (cache : RouteCache rcacheSize)
    (ntbl : Option RivrNeighborTable) (dstId nowMs : UInt32) :
    Option RivrRoute × RouteCache rcacheSize × Option RivrNeighborTable :=
  if dstId = 0 then (none, cache, ntbl)
  else
    let scan := bestScan airtimeRouting dstId nowMs cache.entries ⟨none, 0, ntbl⟩
    let cache := { cache with
      entries := scan.2
      length_entries := (bestScan_length ..).trans cache.length_entries }
    match scan.1.entry with
    | some e =>
      (some ⟨dstId, e.nextHop, scan.1.score.toUInt16, e.hopCount, e.lastSeenMs + rcacheExpiryMs⟩,
        cache, scan.1.ntbl)
    -- no route: the second tier
    | none => (neighborHop airtimeRouting scan.1.ntbl dstId nowMs, cache, scan.1.ntbl)

theorem learnRxReport_usable {srcId fromId : UInt32} {hopCount : UInt8} {rssiDbm : Int16}
    {snrDb : Int8} {r : RouteReport}
    (h : learnRxReport srcId fromId hopCount rssiDbm snrDb = some r) : r.Usable := by
  rw [learnRxReport] at h
  split_ifs at h with hsrc hhop hfrom
  · obtain rfl := Option.some.inj h
    exact ⟨hsrc, hsrc⟩
  · obtain rfl := Option.some.inj h
    exact ⟨hsrc, hfrom.1⟩

/-! ### What the operations do to the slots -/

theorem lookupScan_shrinks (dstId nowMs : UInt32) (es : List RouteCacheEntry) :
    Shrinks RouteCacheEntry.Valid es (lookupScan dstId nowMs es).2 := by
  induction es with
  | nil => exact Shrinks.refl _
  | cons e es ih =>
    simp only [lookupScan]
    split_ifs
    · exact (Shrinks.refl es).cons fun h => absurd h not_valid_empty
    · exact Shrinks.refl _
    · exact ih.cons fun _ => rfl
    · exact ih.cons fun _ => rfl

/-- A lookup finds a live entry for the destination. -/
theorem lookupScan_eq_some {dstId nowMs : UInt32} {es : List RouteCacheEntry}
    {e : RouteCacheEntry} (h : (lookupScan dstId nowMs es).1 = some e) :
    e ∈ es ∧ e.dstId = dstId ∧ e.Valid ∧ ¬e.Expired nowMs := by
  induction es with
  | nil => simp [lookupScan] at h
  | cons x es ih =>
    have hrest : (lookupScan dstId nowMs es).1 = some e →
        e ∈ x :: es ∧ e.dstId = dstId ∧ e.Valid ∧ ¬e.Expired nowMs :=
      fun h => (ih h).imp_left (List.mem_cons_of_mem _)
    simp only [lookupScan] at h
    split_ifs at h with hdst hexp hvalid
    · obtain rfl : x = e := Option.some.inj h
      exact ⟨List.mem_cons_self, hdst, hvalid, fun hold => hexp ⟨hvalid, hold⟩⟩
    · exact hrest h
    · exact hrest h

theorem routeCacheLookup_shrinks (cache : RouteCache rcacheSize) (dstId nowMs : UInt32) :
    Shrinks RouteCacheEntry.Valid cache.entries
      (routeCacheLookup cache dstId nowMs).2.entries := by
  rw [routeCacheLookup]
  split_ifs
  · exact Shrinks.refl _
  · exact lookupScan_shrinks _ _ _

theorem routeCacheLookup_eq_some {cache : RouteCache rcacheSize} {dstId nowMs : UInt32}
    {e : RouteCacheEntry} (h : (routeCacheLookup cache dstId nowMs).1 = some e) :
    e ∈ cache.entries ∧ e.dstId = dstId ∧ e.Valid ∧ ¬e.Expired nowMs := by
  rw [routeCacheLookup] at h
  split_ifs at h
  exact lookupScan_eq_some h

theorem routeCacheTxDecide_shrinks (cache : RouteCache rcacheSize) (dstId nowMs : UInt32) :
    Shrinks RouteCacheEntry.Valid cache.entries
      (routeCacheTxDecide cache dstId nowMs).2.2.entries := by
  have hshrinks := routeCacheLookup_shrinks cache dstId nowMs
  rw [routeCacheTxDecide]
  split <;> simp_all only

theorem routeCacheCanReplyForDst_shrinks (cache : RouteCache rcacheSize) (dstId nowMs : UInt32) :
    Shrinks RouteCacheEntry.Valid cache.entries
      (routeCacheCanReplyForDst cache dstId nowMs).2.entries := by
  have hshrinks := routeCacheLookup_shrinks cache dstId nowMs
  rw [routeCacheCanReplyForDst]
  split <;> simp_all only

theorem routeCacheExpire_shrinks (cache : RouteCache rcacheSize) (nowMs : UInt32) :
    Shrinks RouteCacheEntry.Valid cache.entries (routeCacheExpire cache nowMs).2.entries := by
  simp only [routeCacheExpire, expireScan_snd]
  exact shrinks_map (fun _ => expireEntry_eq) _

theorem bestScan_shrinks (airtimeRouting : Bool) (dstId nowMs : UInt32)
    (es : List RouteCacheEntry) (best : BestSoFar) :
    Shrinks RouteCacheEntry.Valid es (bestScan airtimeRouting dstId nowMs es best).2 := by
  induction es generalizing best with
  | nil => exact Shrinks.refl _
  | cons e es ih =>
    simp only [bestScan]
    split_ifs
    · exact (ih _).cons fun _ => rfl
    · exact (ih _).cons fun h => absurd h not_valid_empty
    · exact (ih _).cons fun _ => rfl
    · exact (ih _).cons fun _ => rfl

theorem routeCacheBestHop_shrinks (airtimeRouting : Bool) (cache : RouteCache rcacheSize)
    (ntbl : Option RivrNeighborTable) (dstId nowMs : UInt32) :
    Shrinks RouteCacheEntry.Valid cache.entries
      (routeCacheBestHop airtimeRouting cache ntbl dstId nowMs).2.1.entries := by
  rw [routeCacheBestHop]
  split_ifs
  · exact Shrinks.refl _
  · dsimp only
    split <;> exact bestScan_shrinks _ _ _ _ _

/-! ### What an update does to the slots -/

/-- The entry is a live route to the destination. -/
def RouteCacheEntry.LiveFor (e : RouteCacheEntry) (dstId nowMs : UInt32) : Prop :=
  e.dstId = dstId ∧ e.Valid ∧ ¬e.Expired nowMs

instance RouteCacheEntry.decidableLiveFor (e : RouteCacheEntry) (dstId nowMs : UInt32) :
    Decidable (e.LiveFor dstId nowMs) := inferInstanceAs (Decidable (_ ∧ _))

/-- The first live route to the destination. -/
def firstLive (es : List RouteCacheEntry) (dstId nowMs : UInt32) : Option RouteCacheEntry :=
  es.find? fun e => decide (e.LiveFor dstId nowMs)

/-- The cache takes a report: it has no live route to the destination, or a worse one. -/
def RouteCache.Takes (cache : RouteCache rcacheSize) (r : RouteReport) (nowMs : UInt32) : Prop :=
  r.Usable ∧ ∀ e, firstLive cache.entries r.dstId nowMs = some e → r.Better e

theorem firstLive_cons_of_liveFor {x : RouteCacheEntry} {dstId nowMs : UInt32}
    (h : x.LiveFor dstId nowMs) (es : List RouteCacheEntry) :
    firstLive (x :: es) dstId nowMs = some x :=
  List.find?_cons_of_pos (by simpa using h)

theorem firstLive_cons_of_not {x : RouteCacheEntry} {dstId nowMs : UInt32}
    (h : ¬x.LiveFor dstId nowMs) (es : List RouteCacheEntry) :
    firstLive (x :: es) dstId nowMs = firstLive es dstId nowMs :=
  List.find?_cons_of_neg (by simpa using h)

theorem firstLive_eq_some {es : List RouteCacheEntry} {dstId nowMs : UInt32}
    {e : RouteCacheEntry} (h : firstLive es dstId nowMs = some e) :
    e ∈ es ∧ e.LiveFor dstId nowMs :=
  ⟨List.mem_of_find?_eq_some h, by simpa using List.find?_some h⟩

/-- An update meets a slot exactly when it holds a live route to the destination. -/
theorem liveFor_iff_expireEntry {x : RouteCacheEntry} {dstId nowMs : UInt32} :
    x.LiveFor dstId nowMs ↔ (expireEntry x nowMs).dstId = dstId ∧ (expireEntry x nowMs).Valid := by
  constructor
  · rintro ⟨hdst, hvalid, hexp⟩
    rw [expireEntry, if_neg fun hold => hexp hold.2]
    exact ⟨hdst, hvalid⟩
  · rintro ⟨hdst, hvalid⟩
    have heq := expireEntry_eq hvalid
    exact ⟨heq ▸ hdst, heq ▸ hvalid, not_expired_of_expireEntry hvalid⟩

/-- With a live route to the destination, an update writes its slot. -/
theorem updateScan_found {r : RouteReport} {nowMs : UInt32} {es : List RouteCacheEntry}
    {e : RouteCacheEntry} (h : firstLive es r.dstId nowMs = some e) :
    (updateScan r nowMs es).1 = true ∧ ∃ k : ℕ, es[k]? = some e ∧
      Writes RouteCacheEntry.Valid es (updateScan r nowMs es).2 k (e.refresh r nowMs) := by
  induction es with
  | nil => exact nomatch h
  | cons x es ih =>
    rw [updateScan]
    split_ifs with hx
    · rw [firstLive_cons_of_liveFor (liveFor_iff_expireEntry.mpr hx)] at h
      obtain rfl : x = e := Option.some.inj h
      refine ⟨rfl, 0, rfl, ?_⟩
      rw [expireEntry_eq hx.2]
      exact writes_head _ _ _
    · rw [firstLive_cons_of_not fun hlive => hx (liveFor_iff_expireEntry.mp hlive)] at h
      obtain ⟨hmet, k, hk, hwrites⟩ := ih h
      exact ⟨hmet, k + 1, by simpa using hk, hwrites.cons expireEntry_eq⟩

/-- Without one, it expires every slot. -/
theorem updateScan_missed {r : RouteReport} {nowMs : UInt32} {es : List RouteCacheEntry}
    (h : firstLive es r.dstId nowMs = none) :
    (updateScan r nowMs es).1 = false ∧
      Shrinks RouteCacheEntry.Valid es (updateScan r nowMs es).2 ∧
      ∀ x ∈ (updateScan r nowMs es).2, x.Valid → x.dstId ≠ r.dstId := by
  induction es with
  | nil => exact ⟨rfl, Shrinks.refl _, fun x hx => absurd hx List.not_mem_nil⟩
  | cons e es ih =>
    rw [updateScan]
    split_ifs with he
    · rw [firstLive_cons_of_liveFor (liveFor_iff_expireEntry.mpr he)] at h
      exact nomatch h
    · rw [firstLive_cons_of_not fun hlive => he (liveFor_iff_expireEntry.mp hlive)] at h
      obtain ⟨hmissed, hshrinks, hother⟩ := ih h
      refine ⟨hmissed, hshrinks.cons expireEntry_eq, List.forall_mem_cons.mpr ⟨?_, hother⟩⟩
      exact fun hvalid hdst => he ⟨hdst, hvalid⟩

/-- A better report replaces a route as if it were stored anew. -/
theorem refresh_of_better {e : RouteCacheEntry} {r : RouteReport} {nowMs : UInt32}
    (hdst : e.dstId = r.dstId) (h : r.Better e) : e.refresh r nowMs = r.stored nowMs := by
  rw [RouteCacheEntry.refresh, if_pos h, RouteReport.stored, hdst]

/-- A report that is not better brings the time up to date. -/
theorem refresh_of_not_better {e : RouteCacheEntry} {r : RouteReport} {nowMs : UInt32}
    (h : ¬r.Better e) : e.refresh r nowMs = { e with lastSeenMs := nowMs } := by
  rw [RouteCacheEntry.refresh, if_neg h]

theorem freeSlot_lt {es : List RouteCacheEntry} {idx : ℕ} (h : freeSlot es = some idx) :
    idx < es.length := (List.findIdx?_eq_some_iff_findIdx_eq.mp h).1

/-- An insertion writes a slot. -/
theorem insert_spec (cache : RouteCache rcacheSize) (r : RouteReport) (nowMs : UInt32) :
    ∃ idx < cache.entries.length,
      (cache.insert r nowMs).entries = cache.entries.set idx (r.stored nowMs) := by
  rw [RouteCache.insert]
  split
  · rename_i idx hfree
    exact ⟨idx, freeSlot_lt hfree, rfl⟩
  · refine ⟨cache.evictHand.toNat, ?_, rfl⟩
    rw [cache.length_entries]
    exact cache.evictHand_lt

/-- What an update writes: the report, if the cache takes it, and otherwise the live route the
report is not better than, refreshed. -/
inductive Written (cache : RouteCache rcacheSize) (r : RouteReport) (nowMs : UInt32) :
    RouteCacheEntry → Prop
  | stored : cache.Takes r nowMs → Written cache r nowMs (r.stored nowMs)
  | refreshed {e : RouteCacheEntry} : e ∈ cache.entries → e.LiveFor r.dstId nowMs → ¬r.Better e →
      Written cache r nowMs { e with lastSeenMs := nowMs }

theorem Written.dstId {cache : RouteCache rcacheSize} {r : RouteReport} {nowMs : UInt32}
    {x : RouteCacheEntry} (h : Written cache r nowMs x) : x.dstId = r.dstId := by
  rcases h with _ | ⟨-, hlive, -⟩
  · rfl
  · exact hlive.1

theorem Written.lastSeenMs {cache : RouteCache rcacheSize} {r : RouteReport} {nowMs : UInt32}
    {x : RouteCacheEntry} (h : Written cache r nowMs x) : x.lastSeenMs = nowMs := by
  rcases h with _ | _ <;> rfl

/-- **Update.** One slot is written. -/
theorem routeCacheUpdate_writes (cache : RouteCache rcacheSize) {r : RouteReport}
    (hr : r.Usable) (nowMs : UInt32) :
    ∃ k x, Writes RouteCacheEntry.Valid cache.entries (routeCacheUpdate cache r nowMs).entries k x ∧
      Written cache r nowMs x ∧
      ((∃ e, firstLive cache.entries r.dstId nowMs = some e ∧ cache.entries[k]? = some e) ∨
        ∀ ⦃i : ℕ⦄ ⦃y⦄, i ≠ k → (routeCacheUpdate cache r nowMs).entries[i]? = some y → y.Valid →
          y.dstId ≠ r.dstId) := by
  rw [routeCacheUpdate, if_neg (not_not.mpr hr)]
  dsimp only
  rcases hlive : firstLive cache.entries r.dstId nowMs with _ | e
  · obtain ⟨hmissed, hshrinks, hother⟩ := updateScan_missed hlive
    obtain ⟨idx, hidx, hset⟩ := insert_spec { cache with
      entries := (updateScan r nowMs cache.entries).2
      length_entries := by simp [cache.length_entries] } r nowMs
    rw [if_neg (Bool.eq_false_iff.mp hmissed), hset]
    refine ⟨idx, _, hshrinks.writes (writes_set hidx), .stored ⟨hr, ?_⟩, Or.inr ?_⟩
    · exact fun e he => nomatch hlive.symm.trans he
    · intro i y hik hy
      rw [List.getElem?_set_ne (Ne.symm hik)] at hy
      exact hother y (List.mem_of_getElem? hy)
  · -- a live route of the destination: its slot is the one that is written
    obtain ⟨hmet, k, hk, hwrites⟩ := updateScan_found hlive
    rw [if_pos hmet]
    refine ⟨k, _, hwrites, ?_, Or.inl ⟨e, rfl, hk⟩⟩
    have hfor := (firstLive_eq_some hlive).2
    by_cases hbetter : r.Better e
    · rw [refresh_of_better hfor.1 hbetter]
      refine .stored ⟨hr, fun e' he' => ?_⟩
      obtain rfl := Option.some.inj (hlive.symm.trans he')
      exact hbetter
    · rw [refresh_of_not_better hbetter]
      exact .refreshed (List.mem_of_getElem? hk) hfor hbetter

/-- With at most one route for each destination, no other valid slot is for the destination. -/
theorem routeCacheUpdate_spec {cache : RouteCache rcacheSize}
    (hone : OneEach RouteCacheEntry.Valid RouteCacheEntry.dstId cache.entries) {r : RouteReport}
    (hr : r.Usable) (nowMs : UInt32) :
    ∃ k x, Writes RouteCacheEntry.Valid cache.entries (routeCacheUpdate cache r nowMs).entries k x ∧
      (∀ ⦃i : ℕ⦄ ⦃y⦄, i ≠ k → (routeCacheUpdate cache r nowMs).entries[i]? = some y → y.Valid →
        y.dstId ≠ r.dstId) ∧
      Written cache r nowMs x := by
  obtain ⟨k, x, hwrites, hx, ⟨e, hlive, hk⟩ | hothers⟩ := routeCacheUpdate_writes cache hr nowMs
  · refine ⟨k, x, hwrites, fun i y hik hy hvy heq => hik ?_, hx⟩
    obtain ⟨hdst, hvalid, -⟩ := (firstLive_eq_some hlive).2
    exact hone (hwrites.others hik hy hvy) hk hvy hvalid (heq.trans hdst.symm)
  · exact ⟨k, x, hwrites, hothers, hx⟩

/-- Without a usable report nothing changes. -/
theorem routeCacheUpdate_of_not_usable {cache : RouteCache rcacheSize} {r : RouteReport}
    (hr : ¬r.Usable) (nowMs : UInt32) : routeCacheUpdate cache r nowMs = cache := by
  rw [routeCacheUpdate, if_pos hr]

end Rivr
