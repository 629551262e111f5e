import Mathlib.Algebra.Ring.Int.Defs
import Rivr.Firmware.RouteCache
import Rivr.ForMathlib.Checked
import Rivr.ForMathlib.RunningBest

/-!
# The best hop

`route_cache_best_hop` takes the route of greatest score for the destination, or else the best
direct neighbour, or else nothing (`route_cache_best_hop`). While it scores the routes it brings the
stale flags of the neighbour table up to date. No score depends on them, so that all scores are
those of the table it was given. Each score is at most 100, and none of the products and differences
in it wraps: the checked calculations (`checkedCompositeScore`, `checkedLinkScore`) succeed with the
same values.
-/

open Checked RunningBest

namespace Rivr

variable {rcacheSize : ℕ} {airtimeRouting : Bool} {n : RivrNeighbor} {x nowMs : UInt32}

/-! ### Scores, checked -/

/-- The value, if it is an `int32_t`. -/
def asInt32 (v : ℤ) : Option ℤ := if -2 ^ 31 ≤ v ∧ v < 2 ^ 31 then some v else none

/-- `linkQuality`, checked. -/
def checkedLinkQuality (rssiDbm : Int16) (snrDb : Int8) : Option ℕ := do
  let rssi ← asInt32 (rssiDbm.toInt + 140)
  let snr ← asInt32 (snrDb.toInt + 10)
  let base ← asInt32 (clampI32 rssi 0 80 + clampI32 snr 0 20)
  some base.toNat

/-- `linkPenalty`, checked. -/
def checkedPenalty (airtimeRouting : Bool) (n : RivrNeighbor) (score : ℕ) : Option ℕ :=
  if airtimeRouting then ratio (2 ^ 32) score 8 n.etx.toNat
  else do
    let kept ← sub 100 n.lossRate.toNat
    ratio (2 ^ 32) score kept 100

/-- The linear decay of a score with age, checked. -/
def checkedDecay (expiryMs age : UInt32) (score : ℕ) : Option ℕ := do
  let left ← sub expiryMs.toNat age.toNat
  ratio (2 ^ 32) score left expiryMs.toNat

/-- The weight of the hop count in a score, checked. -/
def checkedHops (hopCount : UInt8) (score : ℕ) : Option ℕ :=
  if hopCount ≥ 3 then ratio (2 ^ 32) score 50 100
  else if hopCount = 2 then ratio (2 ^ 32) score 75 100
  else some score

/-- `neighborLinkScoreFull`, checked. -/
def checkedLinkScore (airtimeRouting : Bool) (n : RivrNeighbor) (nowMs : UInt32) : Option ℕ :=
  let age := nowMs - n.lastSeenMs
  if n.neighborId = 0 then some 0
  else if age ≥ ntableExpiryMs then some 0
  else do
    let base ← checkedLinkQuality n.rssiAvg n.snrAvg
    let score ← checkedPenalty airtimeRouting n base
    let score ← checkedDecay ntableExpiryMs age score
    some (min score 100)

/-- `entryCompositeScore`, checked, for a record of the next hop if there is one. -/
def checkedCompositeScore (airtimeRouting : Bool) (e : RouteCacheEntry) (n : Option RivrNeighbor)
    (nowMs : UInt32) : Option ℕ :=
  let age := nowMs - e.lastSeenMs
  if age ≥ rcacheExpiryMs then some 0
  else do
    let score ← checkedHops e.hopCount e.metric.toNat
    let score ← checkedDecay rcacheExpiryMs age score
    let score ← match n with
      | none => some score
      | some n => checkedPenalty airtimeRouting n score
    some (min score 100)

theorem clampI32_mem {lo hi : ℤ} (h : lo ≤ hi) (v : ℤ) :
    lo ≤ clampI32 v lo hi ∧ clampI32 v lo hi ≤ hi := by
  rw [clampI32]
  split_ifs <;> omega

theorem asInt32_eq {v : ℤ} (hlo : -2 ^ 31 ≤ v) (hhi : v < 2 ^ 31) : asInt32 v = some v :=
  if_pos ⟨hlo, hhi⟩

theorem fits_linkQuality (rssiDbm : Int16) (snrDb : Int8) :
    Fits (checkedLinkQuality rssiDbm snrDb) (linkQuality rssiDbm snrDb).toNat 100 := by
  have hrssi := clampI32_mem (show (0 : ℤ) ≤ 80 by decide) (rssiDbm.toInt + 140)
  have hsnr := clampI32_mem (show (0 : ℤ) ≤ 20 by decide) (snrDb.toInt + 10)
  have hrssi16 := rssiDbm.le_toInt
  have hrssi16' := rssiDbm.toInt_lt
  have hsnr8 := snrDb.le_toInt
  have hsnr8' := snrDb.toInt_lt
  have hquality : (linkQuality rssiDbm snrDb).toNat =
      (clampI32 (rssiDbm.toInt + 140) 0 80 + clampI32 (snrDb.toInt + 10) 0 20).toNat := by
    rw [linkQuality, UInt32.toNat_ofNat']
    omega
  refine ⟨?_, by omega⟩
  rw [checkedLinkQuality, asInt32_eq (by omega) (by omega), asInt32_eq (by omega) (by omega)]
  change (asInt32 (clampI32 (rssiDbm.toInt + 140) 0 80 +
    clampI32 (snrDb.toInt + 10) 0 20)).bind (fun base => some base.toNat) = _
  rw [asInt32_eq (by omega) (by omega), hquality]
  rfl

theorem eight_le_etx (n : RivrNeighbor) : 8 ≤ n.etx.toNat := by
  rw [RivrNeighbor.etx, UInt8.toNat_toUInt32]
  split_ifs with h
  · exact UInt8.le_iff_toNat_le.mp h
  · exact Nat.le_refl 8

/-- The quality of the link takes from a score. -/
theorem fits_linkPenalty (hloss : n.lossRate ≤ 100) (hx : x.toNat ≤ 255) (airtimeRouting : Bool) :
    Fits (checkedPenalty airtimeRouting n x.toNat) (linkPenalty airtimeRouting n x).toNat
      x.toNat := by
  rw [UInt8.le_iff_toNat_le] at hloss
  change n.lossRate.toNat ≤ 100 at hloss
  cases airtimeRouting with
  | true =>
    have hetx := eight_le_etx n
    have hvalue : (linkPenalty true n x).toNat = x.toNat * 8 / n.etx.toNat :=
      toNat_ratio (by change x.toNat * 8 < 2 ^ 32; omega)
    rw [hvalue]
    exact fits_ratio (by omega) hetx (by omega)
  | false =>
    have hkept : (100 - n.lossRate.toUInt32).toNat = 100 - n.lossRate.toNat := by
      have hle : n.lossRate.toUInt32 ≤ 100 := by
        rw [UInt32.le_iff_toNat_le, UInt8.toNat_toUInt32]
        exact hloss
      rw [UInt32.toNat_sub_of_le _ _ hle, UInt8.toNat_toUInt32]
      rfl
    have hproduct : x.toNat * (100 - n.lossRate.toNat) ≤ 255 * 100 :=
      Nat.mul_le_mul hx (Nat.sub_le _ _)
    have hvalue : (linkPenalty false n x).toNat = x.toNat * (100 - n.lossRate.toNat) / 100 := by
      rw [← hkept]
      exact toNat_ratio (by rw [hkept]; omega)
    rw [hvalue]
    exact (fits_sub hloss).bind (fits_ratio (by omega) (Nat.sub_le _ _) (by decide))

/-- Age takes from a score. -/
theorem fits_decay {expiryMs age : UInt32} (hage : age < expiryMs)
    (hexpiry : expiryMs.toNat < 2 ^ 24) (hx : x.toNat ≤ 255) :
    Fits (checkedDecay expiryMs age x.toNat) (x * (expiryMs - age) / expiryMs).toNat x.toNat := by
  have hlt := UInt32.lt_iff_toNat_lt.mp hage
  have hleft : (expiryMs - age).toNat = expiryMs.toNat - age.toNat :=
    UInt32.toNat_sub_of_le _ _ (UInt32.le_of_lt hage)
  have hproduct : x.toNat * (expiryMs.toNat - age.toNat) ≤ 255 * 2 ^ 24 :=
    Nat.mul_le_mul hx (by omega)
  have hvalue : (x * (expiryMs - age) / expiryMs).toNat =
      x.toNat * (expiryMs.toNat - age.toNat) / expiryMs.toNat := by
    rw [← hleft]
    exact toNat_ratio (by rw [hleft]; omega)
  rw [hvalue]
  exact (fits_sub hlt.le).bind (fits_ratio (by omega) (Nat.sub_le _ _) (by omega))

/-- Hops take from a score. -/
theorem fits_hops (hopCount : UInt8) (hx : x.toNat ≤ 255) :
    Fits (checkedHops hopCount x.toNat)
      (if hopCount ≥ 3 then x * 50 / 100 else if hopCount = 2 then x * 75 / 100 else x).toNat
      x.toNat := by
  rw [checkedHops]
  split_ifs
  · rw [toNat_ratio (by change x.toNat * 50 < 2 ^ 32; omega)]
    exact fits_ratio (by omega) (by decide) (by decide)
  · rw [toNat_ratio (by change x.toNat * 75 < 2 ^ 32; omega)]
    exact fits_ratio (by omega) (by decide) (by decide)
  · exact fits_some (Nat.le_refl _)

/-- The clamping of a score at 100. -/
def clampScore (x : UInt32) : UInt32 := if x > 100 then 100 else x

theorem toNat_clampScore (x : UInt32) : (clampScore x).toNat = min x.toNat 100 := by
  rw [clampScore]
  split_ifs with h
  · exact (Nat.min_eq_right (UInt32.lt_iff_toNat_lt.mp h).le).symm
  · exact (Nat.min_eq_left (UInt32.le_iff_toNat_le.mp (UInt32.not_lt.mp h))).symm

theorem toNat_clampByte (x : UInt32) :
    (if x > 100 then (100 : UInt8) else x.toUInt8).toNat = min x.toNat 100 := by
  split_ifs with h
  · exact (Nat.min_eq_right (UInt32.lt_iff_toNat_lt.mp h).le).symm
  · have hle : x.toNat ≤ 100 := UInt32.le_iff_toNat_le.mp (UInt32.not_lt.mp h)
    rw [UInt32.toNat_toUInt8]
    omega

theorem fits_clamp (x : UInt32) : Fits (some (min x.toNat 100)) (min x.toNat 100) 100 :=
  fits_some (Nat.min_le_right _ _)

/-- **No score of a neighbour wraps**, and none is above 100. -/
theorem fits_neighborLinkScoreFull (hloss : n.lossRate ≤ 100) (airtimeRouting : Bool)
    (nowMs : UInt32) :
    Fits (checkedLinkScore airtimeRouting n nowMs)
      (neighborLinkScoreFull airtimeRouting n nowMs).toNat 100 := by
  rw [checkedLinkScore, neighborLinkScoreFull]
  dsimp only
  by_cases hid : n.neighborId = 0
  · rw [if_pos hid, if_pos hid]
    exact fits_some (Nat.zero_le _)
  rw [if_neg hid, if_neg hid]
  by_cases hage : nowMs - n.lastSeenMs ≥ ntableExpiryMs
  · rw [if_pos hage, if_pos hage]
    exact fits_some (Nat.zero_le _)
  rw [if_neg hage, if_neg hage, toNat_clampByte]
  have hbase := fits_linkQuality n.rssiAvg n.snrAvg
  have hpenalty := fits_linkPenalty hloss (hbase.le.trans (by decide)) airtimeRouting
  have hdecay := fits_decay (UInt32.not_le.mp hage) (by decide)
    ((hpenalty.le.trans hbase.le).trans (by decide))
  exact hbase.bind (hpenalty.bind (hdecay.bind (fits_clamp _)))

/-- The record of the next hop, if there is one that has not expired. -/
def RouteCacheEntry.nextHopRecord (e : RouteCacheEntry) (ntbl : Option RivrNeighborTable)
    (nowMs : UInt32) : Option RivrNeighbor :=
  ntbl.bind fun tbl => (neighborFind tbl e.nextHop nowMs).1

/-- All loss rates of the table are percentages. -/
def LossInRange (ntbl : Option RivrNeighborTable) : Prop :=
  ∀ tbl ∈ ntbl, ∀ n ∈ tbl.entries, n.lossRate ≤ 100

/-- What is found is a record of the table, up to its stale flag. -/
theorem mem_of_neighborScan {nodeId : UInt32} {ns : List RivrNeighbor}
    (h : (neighborScan nodeId nowMs ns).1 = some n) : ∃ n' ∈ ns, n = n'.refreshStale nowMs := by
  induction ns with
  | nil => simp [neighborScan] at h
  | cons n' ns ih =>
    rw [neighborScan] at h
    split_ifs at h
    · obtain ⟨n'', hmem, heq⟩ := ih h
      exact ⟨n'', List.mem_cons_of_mem _ hmem, heq⟩
    · exact ⟨n', List.mem_cons_self, (Option.some.inj h).symm⟩

theorem lossRate_refreshStale (n : RivrNeighbor) (nowMs : UInt32) :
    (n.refreshStale nowMs).lossRate = n.lossRate := by
  rw [RivrNeighbor.refreshStale]
  split_ifs <;> rfl

theorem LossInRange.neighborFind {tbl : RivrNeighborTable} (h : LossInRange (some tbl))
    {nodeId : UInt32} (hfind : (neighborFind tbl nodeId nowMs).1 = some n) : n.lossRate ≤ 100 := by
  rw [Rivr.neighborFind] at hfind
  split_ifs at hfind
  obtain ⟨n', hmem, rfl⟩ := mem_of_neighborScan hfind
  rw [lossRate_refreshStale]
  exact h tbl rfl n' (List.mem_of_mem_take hmem)

/-- The score of a route, for a record of its next hop if there is one. -/
def RouteCacheEntry.scoreWith (airtimeRouting : Bool) (n : Option RivrNeighbor) (nowMs : UInt32)
    (e : RouteCacheEntry) : UInt32 :=
  let age := nowMs - e.lastSeenMs
  if age ≥ rcacheExpiryMs then 0
  else
    let score := e.metric.toUInt32
    let score :=
      if e.hopCount ≥ 3 then score * 50 / 100
      else if e.hopCount = 2 then score * 75 / 100
      else score
    let score := score * (rcacheExpiryMs - age) / rcacheExpiryMs
    clampScore (n.elim score fun n => linkPenalty airtimeRouting n score)

/-- Scoring a route is a search for its next hop and a calculation. -/
theorem entryCompositeScore_fst (airtimeRouting : Bool) (e : RouteCacheEntry)
    (ntbl : Option RivrNeighborTable) (nowMs : UInt32) :
    (entryCompositeScore airtimeRouting e ntbl nowMs).1 =
      e.scoreWith airtimeRouting (e.nextHopRecord ntbl nowMs) nowMs := by
  rw [entryCompositeScore, RouteCacheEntry.scoreWith]
  dsimp only
  by_cases hage : nowMs - e.lastSeenMs ≥ rcacheExpiryMs
  · rw [if_pos hage, if_pos hage]
  rw [if_neg hage, if_neg hage]
  cases ntbl with
  | none => rfl
  | some tbl =>
    dsimp only [RouteCacheEntry.nextHopRecord, Option.bind_some]
    rcases neighborFind tbl e.nextHop nowMs with ⟨_ | n, tbl'⟩ <;> rfl

/-- Scoring a route changes the table only by the search. -/
theorem entryCompositeScore_snd (airtimeRouting : Bool) (e : RouteCacheEntry)
    (ntbl : Option RivrNeighborTable) (nowMs : UInt32) :
    (entryCompositeScore airtimeRouting e ntbl nowMs).2 = ntbl ∨
      (entryCompositeScore airtimeRouting e ntbl nowMs).2 =
        ntbl.map fun tbl => (neighborFind tbl e.nextHop nowMs).2 := by
  rw [entryCompositeScore]
  dsimp only
  by_cases hage : nowMs - e.lastSeenMs ≥ rcacheExpiryMs
  · rw [if_pos hage]
    exact .inl rfl
  rw [if_neg hage]
  cases ntbl with
  | none => exact .inl rfl
  | some tbl =>
    refine .inr ?_
    dsimp only [Option.map_some]
    rcases neighborFind tbl e.nextHop nowMs with ⟨_ | n, tbl'⟩ <;> rfl

/-- **No score of a route wraps**, and none is above 100. -/
theorem fits_scoreWith {n : Option RivrNeighbor} (hloss : ∀ n' ∈ n, n'.lossRate ≤ 100)
    (airtimeRouting : Bool) (e : RouteCacheEntry) (nowMs : UInt32) :
    Fits (checkedCompositeScore airtimeRouting e n nowMs)
      (e.scoreWith airtimeRouting n nowMs).toNat 100 := by
  rw [checkedCompositeScore, RouteCacheEntry.scoreWith]
  dsimp only
  by_cases hage : nowMs - e.lastSeenMs ≥ rcacheExpiryMs
  · rw [if_pos hage, if_pos hage]
    exact fits_some (Nat.zero_le _)
  rw [if_neg hage, if_neg hage, toNat_clampScore]
  have hmetric : e.metric.toUInt32.toNat ≤ 255 := by
    rw [UInt8.toNat_toUInt32]
    exact Nat.le_of_lt_succ e.metric.toNat_lt
  have hhops := fits_hops e.hopCount hmetric
  have hdecay := fits_decay (UInt32.not_le.mp hage) (by decide) (hhops.le.trans hmetric)
  -- the checked score starts from the metric byte itself
  rw [UInt8.toNat_toUInt32] at hhops
  refine hhops.bind (hdecay.bind ?_)
  cases n with
  | none => exact fits_clamp _
  | some n =>
    have hbyte := (hdecay.le.trans hhops.le).trans (Nat.le_of_lt_succ e.metric.toNat_lt)
    exact (fits_linkPenalty (hloss n rfl) hbyte airtimeRouting).bind (fits_clamp _)

theorem LossInRange.nextHopRecord {ntbl : Option RivrNeighborTable} (h : LossInRange ntbl)
    (e : RouteCacheEntry) (nowMs : UInt32) :
    ∀ n ∈ e.nextHopRecord ntbl nowMs, n.lossRate ≤ 100 := by
  intro n hn
  obtain ⟨tbl, rfl, hfind⟩ := Option.bind_eq_some_iff.mp hn
  exact h.neighborFind hfind

/-! ### What scores do not depend on -/

/-- The record without its stale flag. -/
def RivrNeighbor.quality (n : RivrNeighbor) : RivrNeighbor :=
  { n with flags := n.flags &&& ~~~ntableFlagStale }

/-- The table without the stale flags. -/
def RivrNeighborTable.quality (tbl : RivrNeighborTable) : List RivrNeighbor × UInt8 :=
  (tbl.entries.map RivrNeighbor.quality, tbl.count)

@[simp]
theorem neighborId_quality (n : RivrNeighbor) : n.quality.neighborId = n.neighborId := rfl

@[simp]
theorem lastSeenMs_quality (n : RivrNeighbor) : n.quality.lastSeenMs = n.lastSeenMs := rfl

theorem quality_refreshStale (n : RivrNeighbor) (nowMs : UInt32) :
    (n.refreshStale nowMs).quality = n.quality := by
  have hset : ∀ flags : UInt8, (flags ||| ntableFlagStale) &&& ~~~ntableFlagStale =
      flags &&& ~~~ntableFlagStale := by
    intro flags
    refine UInt8.eq_of_toBitVec_eq (BitVec.eq_of_getElem_eq fun i hi => ?_)
    simp only [UInt8.toBitVec_and, UInt8.toBitVec_or, UInt8.toBitVec_not, BitVec.getElem_and,
      BitVec.getElem_or, BitVec.getElem_not]
    cases flags.toBitVec[i] <;> cases ntableFlagStale.toBitVec[i] <;> rfl
  have hclear : ∀ flags : UInt8, flags &&& ~~~ntableFlagStale &&& ~~~ntableFlagStale =
      flags &&& ~~~ntableFlagStale := by
    intro flags
    rw [UInt8.and_assoc, UInt8.and_self]
  rw [RivrNeighbor.refreshStale]
  split_ifs
  · exact congrArg (fun flags => { n with flags := flags }) (hset n.flags)
  · exact congrArg (fun flags => { n with flags := flags }) (hclear n.flags)

/-- A search changes nothing but stale flags. -/
theorem quality_neighborScan (nodeId nowMs : UInt32) (ns : List RivrNeighbor) :
    (neighborScan nodeId nowMs ns).2.map RivrNeighbor.quality = ns.map RivrNeighbor.quality := by
  induction ns with
  | nil => rfl
  | cons n ns ih =>
    rw [neighborScan]
    split_ifs
    · rw [List.map_cons, ih, List.map_cons]
    · rfl
    · rw [List.map_cons, quality_refreshStale, List.map_cons]

/-- What a search finds does not depend on stale flags. -/
theorem neighborScan_quality (nodeId nowMs : UInt32) (ns : List RivrNeighbor) :
    (neighborScan nodeId nowMs ns).1.map RivrNeighbor.quality =
      ((ns.map RivrNeighbor.quality).find? fun n => n.neighborId = nodeId).filter
        fun n => ¬nowMs - n.lastSeenMs ≥ ntableExpiryMs := by
  induction ns with
  | nil => rfl
  | cons n ns ih =>
    rw [neighborScan, List.map_cons]
    by_cases hid : n.neighborId = nodeId
    · have hfirst : (n.quality :: ns.map RivrNeighbor.quality).find?
          (fun n => n.neighborId = nodeId) = some n.quality :=
        List.find?_cons_of_pos (decide_eq_true hid)
      rw [if_neg (not_not.mpr hid), hfirst]
      split_ifs with hage
      · rw [Option.filter_some_neg (by simpa using hage)]
        rfl
      · rw [Option.filter_some_pos (by simpa using hage), Option.map_some, quality_refreshStale]
    · have hrest : (n.quality :: ns.map RivrNeighbor.quality).find?
          (fun n => n.neighborId = nodeId) =
            (ns.map RivrNeighbor.quality).find? fun n => n.neighborId = nodeId :=
        List.find?_cons_of_neg fun h => hid (of_decide_eq_true h)
      rw [if_pos hid, hrest]
      exact ih

theorem quality_neighborFind (tbl : RivrNeighborTable) (nodeId nowMs : UInt32) :
    (neighborFind tbl nodeId nowMs).2.quality = tbl.quality := by
  rw [neighborFind]
  split_ifs
  · rfl
  · refine Prod.ext ?_ rfl
    change ((neighborScan nodeId nowMs (tbl.entries.take tbl.count.toNat)).2 ++
      tbl.entries.drop tbl.count.toNat).map RivrNeighbor.quality = _
    rw [List.map_append, quality_neighborScan, ← List.map_append, List.take_append_drop]
    rfl

theorem neighborFind_congr {tbl tbl' : RivrNeighborTable} (h : tbl.quality = tbl'.quality)
    (nodeId nowMs : UInt32) :
    (neighborFind tbl nodeId nowMs).1.map RivrNeighbor.quality =
      (neighborFind tbl' nodeId nowMs).1.map RivrNeighbor.quality := by
  obtain ⟨hentries, hcount⟩ := Prod.mk.inj h
  rw [neighborFind, neighborFind]
  split_ifs
  · rfl
  · dsimp only
    rw [neighborScan_quality, neighborScan_quality, List.map_take, List.map_take, hentries, hcount]

/-- Scoring a route changes nothing but stale flags. -/
theorem quality_entryCompositeScore (airtimeRouting : Bool) (e : RouteCacheEntry)
    (ntbl : Option RivrNeighborTable) (nowMs : UInt32) :
    (entryCompositeScore airtimeRouting e ntbl nowMs).2.map RivrNeighborTable.quality =
      ntbl.map RivrNeighborTable.quality := by
  rcases entryCompositeScore_snd airtimeRouting e ntbl nowMs with hsame | hfound
  · rw [hsame]
  · rw [hfound, Option.map_map]
    exact Option.map_congr fun tbl _ => quality_neighborFind tbl e.nextHop nowMs

/-- The record of the next hop does not depend on stale flags, but for its own. -/
theorem nextHopRecord_congr {ntbl ntbl' : Option RivrNeighborTable}
    (h : ntbl.map RivrNeighborTable.quality = ntbl'.map RivrNeighborTable.quality)
    (e : RouteCacheEntry) (nowMs : UInt32) :
    (e.nextHopRecord ntbl nowMs).map RivrNeighbor.quality =
      (e.nextHopRecord ntbl' nowMs).map RivrNeighbor.quality := by
  cases ntbl with
  | none =>
    cases ntbl' with
    | none => rfl
    | some tbl' => exact absurd h (by simp)
  | some tbl =>
    cases ntbl' with
    | none => exact absurd h (by simp)
    | some tbl' => exact neighborFind_congr (Option.some.inj h) e.nextHop nowMs

/-- A score reads the loss rate and the transmission count of the record, and no flag. -/
theorem scoreWith_quality (airtimeRouting : Bool) (n : Option RivrNeighbor) (nowMs : UInt32)
    (e : RouteCacheEntry) :
    e.scoreWith airtimeRouting (n.map RivrNeighbor.quality) nowMs =
      e.scoreWith airtimeRouting n nowMs := by
  cases n <;> rfl

/-- The score of a route does not depend on stale flags. -/
theorem entryCompositeScore_congr {ntbl ntbl' : Option RivrNeighborTable}
    (h : ntbl.map RivrNeighborTable.quality = ntbl'.map RivrNeighborTable.quality)
    (airtimeRouting : Bool) (e : RouteCacheEntry) (nowMs : UInt32) :
    (entryCompositeScore airtimeRouting e ntbl nowMs).1 =
      (entryCompositeScore airtimeRouting e ntbl' nowMs).1 := by
  rw [entryCompositeScore_fst, entryCompositeScore_fst, ← scoreWith_quality,
    nextHopRecord_congr h, scoreWith_quality]

/-! ### The scans find the greatest score -/

/-- A route that the first tier scores. -/
def RouteCacheEntry.Candidate (e : RouteCacheEntry) (dstId nowMs : UInt32) : Prop :=
  e.dstId = dstId ∧ e.Valid ∧ ¬e.Expired nowMs ∧ ¬e.Pending

instance RouteCacheEntry.decidableCandidate (e : RouteCacheEntry) (dstId nowMs : UInt32) :
    Decidable (e.Candidate dstId nowMs) := inferInstanceAs (Decidable (_ ∧ _))

/-- The score of a route with the table as it is given. -/
def RouteCacheEntry.score (airtimeRouting : Bool) (ntbl : Option RivrNeighborTable)
    (nowMs : UInt32) (e : RouteCacheEntry) : ℕ :=
  (entryCompositeScore airtimeRouting e ntbl nowMs).1.toNat

/-- The score of a neighbour. -/
def RivrNeighbor.score (airtimeRouting : Bool) (nowMs : UInt32) (n : RivrNeighbor) : ℕ :=
  (neighborLinkScoreFull airtimeRouting n nowMs).toNat

/-- The best route so far with its score. -/
def BestSoFar.scored (best : BestSoFar) : Option RouteCacheEntry × ℕ :=
  (best.entry, best.score.toNat)

section Scan

variable {ntbl : Option RivrNeighborTable} {best : BestSoFar}

theorem quality_offer (airtimeRouting : Bool) (nowMs : UInt32) (best : BestSoFar)
    (e : RouteCacheEntry) :
    (best.offer airtimeRouting nowMs e).ntbl.map RivrNeighborTable.quality =
      best.ntbl.map RivrNeighborTable.quality := by
  have hquality := quality_entryCompositeScore airtimeRouting e best.ntbl nowMs
  rw [BestSoFar.offer]
  dsimp only
  split_ifs <;> exact hquality

/-- An offer is a step of the scan. -/
theorem scored_offer
    (h : best.ntbl.map RivrNeighborTable.quality = ntbl.map RivrNeighborTable.quality)
    (airtimeRouting : Bool) (nowMs : UInt32) (e : RouteCacheEntry) :
    (best.offer airtimeRouting nowMs e).scored =
      step (RouteCacheEntry.score airtimeRouting ntbl nowMs) best.scored e := by
  have hscore : (entryCompositeScore airtimeRouting e best.ntbl nowMs).1.toNat =
      e.score airtimeRouting ntbl nowMs :=
    congrArg UInt32.toNat (entryCompositeScore_congr h airtimeRouting e nowMs)
  rw [BestSoFar.offer]
  dsimp only
  split_ifs with hbetter
  · rw [step_of_gt (by rw [← hscore]; exact UInt32.lt_iff_toNat_lt.mp hbetter), ← hscore]
    rfl
  · rw [step_of_le (by rw [← hscore]; exact UInt32.le_iff_toNat_le.mp (UInt32.not_lt.mp hbetter))]
    rfl

/-- The first tier scans the candidates. -/
theorem bestScan_eq (airtimeRouting : Bool) (dstId nowMs : UInt32) (es : List RouteCacheEntry)
    (h : best.ntbl.map RivrNeighborTable.quality = ntbl.map RivrNeighborTable.quality) :
    (bestScan airtimeRouting dstId nowMs es best).1.ntbl.map RivrNeighborTable.quality =
        ntbl.map RivrNeighborTable.quality ∧
      (bestScan airtimeRouting dstId nowMs es best).1.scored =
        (es.filter fun e => e.Candidate dstId nowMs).foldl
          (step (RouteCacheEntry.score airtimeRouting ntbl nowMs)) best.scored := by
  induction es generalizing best with
  | nil => exact ⟨h, rfl⟩
  | cons e es ih =>
    rw [bestScan]
    split_ifs with hdst hlapsed hskip
    · rw [List.filter_cons_of_neg (by simpa using fun hcand => hdst hcand.1)]
      exact ih h
    · rw [List.filter_cons_of_neg (by simpa using fun hcand => hcand.2.2.1 hlapsed.2)]
      exact ih h
    · have hnot : ¬e.Candidate dstId nowMs :=
        fun hcand => hskip.elim (fun hv => hv hcand.2.1) hcand.2.2.2
      rw [List.filter_cons_of_neg (by simpa using hnot)]
      exact ih h
    · have hcand : e.Candidate dstId nowMs := by
        obtain ⟨hv, hpending⟩ := not_or.mp hskip
        exact ⟨not_not.mp hdst, not_not.mp hv, fun hexp => hlapsed ⟨not_not.mp hv, hexp⟩, hpending⟩
      rw [List.filter_cons_of_pos (by simpa using hcand), List.foldl_cons, ← scored_offer h]
      exact ih ((quality_offer airtimeRouting nowMs best e).trans h)

end Scan

theorem score_of_expired (h : nowMs - n.lastSeenMs ≥ ntableExpiryMs) :
    n.score airtimeRouting nowMs = 0 := by
  rw [RivrNeighbor.score, neighborLinkScoreFull]
  dsimp only
  split_ifs <;> rfl

theorem score_of_zero (h : n.neighborId = 0) : n.score airtimeRouting nowMs = 0 := by
  rw [RivrNeighbor.score, neighborLinkScoreFull]
  dsimp only
  rw [if_pos h]
  rfl

theorem neighborBestScan_eq (airtimeRouting : Bool) (nowMs : UInt32) (ns : List RivrNeighbor)
    (best : Option RivrNeighbor) (bestScore : UInt8) :
    neighborBestScan airtimeRouting nowMs ns best bestScore =
      (ns.foldl (step (RivrNeighbor.score airtimeRouting nowMs)) (best, bestScore.toNat)).1 := by
  induction ns generalizing best bestScore with
  | nil => rfl
  | cons n ns ih =>
    rw [neighborBestScan, List.foldl_cons]
    split_ifs with hid hage hbetter
    · rw [step_of_le (by rw [score_of_zero hid]; exact Nat.zero_le _)]
      exact ih best bestScore
    · rw [step_of_le (by rw [score_of_expired hage]; exact Nat.zero_le _)]
      exact ih best bestScore
    · rw [step_of_gt (show n.score airtimeRouting nowMs > bestScore.toNat from
        UInt8.lt_iff_toNat_lt.mp hbetter)]
      exact ih (some n) _
    · rw [step_of_le (show n.score airtimeRouting nowMs ≤ bestScore.toNat from
        UInt8.le_iff_toNat_le.mp (UInt8.not_lt.mp hbetter))]
      exact ih best bestScore

/-- **The best neighbour** is the first of those with the greatest score, if any score is not 0. -/
theorem neighborBest_eq (airtimeRouting : Bool) (tbl : RivrNeighborTable) (nowMs : UInt32) :
    neighborBest airtimeRouting tbl nowMs =
      bestAbove (RivrNeighbor.score airtimeRouting nowMs) 0
        (tbl.entries.take tbl.count.toNat) := by
  rw [neighborBest, neighborBestScan_eq]
  change (List.foldl _ (none, 0) _).1 = _
  rw [foldl_step]
  cases bestAbove (RivrNeighbor.score airtimeRouting nowMs) 0
    (tbl.entries.take tbl.count.toNat) <;> rfl

/-! ### The three tiers -/

/-- A neighbour that the second tier takes. -/
def RivrNeighbor.Forwards (nb : RivrNeighbor) (nowMs : UInt32) : Prop :=
  nb.flags &&& ntableFlagDirect ≠ 0 ∧ neighborLinkScore nb nowMs ≥ ntableScoreUnicastMin

instance RivrNeighbor.decidableForwards (nb : RivrNeighbor) (nowMs : UInt32) :
    Decidable (nb.Forwards nowMs) := inferInstanceAs (Decidable (_ ∧ _))

/-- The route through a neighbour. -/
def RivrNeighbor.route (nb : RivrNeighbor) (dstId nowMs : UInt32) : RivrRoute :=
  ⟨dstId, nb.neighborId, (neighborLinkScore nb nowMs).toUInt16, 2, nb.lastSeenMs + ntableExpiryMs⟩

/-- What the second tier makes of the best neighbour. -/
def RivrNeighbor.promote (nb : RivrNeighbor) (dstId nowMs : UInt32) : Option RivrRoute :=
  if nb.Forwards nowMs then some (nb.route dstId nowMs) else none

/-- The route that a cached entry gives. -/
def RouteCacheEntry.route (airtimeRouting : Bool) (ntbl : Option RivrNeighborTable)
    (dstId nowMs : UInt32) (e : RouteCacheEntry) : RivrRoute :=
  ⟨dstId, e.nextHop, (entryCompositeScore airtimeRouting e ntbl nowMs).1.toUInt16, e.hopCount,
    e.lastSeenMs + rcacheExpiryMs⟩

/-- What the three tiers choose. -/
inductive BestHop (airtimeRouting : Bool) (es : List RouteCacheEntry)
    (ntbl : Option RivrNeighborTable) (dstId nowMs : UInt32) : Option RivrRoute → Prop
  | cached {e : RouteCacheEntry} (hmem : e ∈ es) (hcand : e.Candidate dstId nowMs)
      (hscore : 0 < e.score airtimeRouting ntbl nowMs)
      (hgreatest : ∀ e' ∈ es, e'.Candidate dstId nowMs →
        e'.score airtimeRouting ntbl nowMs ≤ e.score airtimeRouting ntbl nowMs) :
      BestHop airtimeRouting es ntbl dstId nowMs (some (e.route airtimeRouting ntbl dstId nowMs))
  | neighbor {tbl : RivrNeighborTable} {nb : RivrNeighbor}
      (hnone : ∀ e ∈ es, e.Candidate dstId nowMs → e.score airtimeRouting ntbl nowMs = 0)
      (htbl : ntbl = some tbl) (hbest : neighborBest airtimeRouting tbl nowMs = some nb)
      (hforwards : nb.Forwards nowMs) :
      BestHop airtimeRouting es ntbl dstId nowMs (some (nb.route dstId nowMs))
  | flood (hnone : ∀ e ∈ es, e.Candidate dstId nowMs → e.score airtimeRouting ntbl nowMs = 0)
      (hno : ∀ tbl nb, ntbl = some tbl → neighborBest airtimeRouting tbl nowMs = some nb →
        ¬nb.Forwards nowMs) :
      BestHop airtimeRouting es ntbl dstId nowMs none

/-- The second tier reads no stale flag. -/
theorem promote_quality (nb : RivrNeighbor) (dstId nowMs : UInt32) :
    nb.quality.promote dstId nowMs = nb.promote dstId nowMs := by
  have hdirect : nb.quality.flags &&& ntableFlagDirect = nb.flags &&& ntableFlagDirect := by
    change nb.flags &&& ~~~ntableFlagStale &&& ntableFlagDirect = _
    rw [UInt8.and_assoc]
    rfl
  have hforwards : nb.quality.Forwards nowMs ↔ nb.Forwards nowMs := by
    rw [RivrNeighbor.Forwards, hdirect]
    rfl
  rw [RivrNeighbor.promote, RivrNeighbor.promote]
  by_cases h : nb.Forwards nowMs
  · rw [if_pos h, if_pos (hforwards.mpr h)]
    rfl
  · rw [if_neg h, if_neg (hforwards.not.mpr h)]

theorem neighborBestScan_quality (airtimeRouting : Bool) (nowMs : UInt32) (ns : List RivrNeighbor)
    (best : Option RivrNeighbor) (bestScore : UInt8) :
    neighborBestScan airtimeRouting nowMs (ns.map RivrNeighbor.quality)
        (best.map RivrNeighbor.quality) bestScore =
      (neighborBestScan airtimeRouting nowMs ns best bestScore).map RivrNeighbor.quality := by
  have hscore : ∀ n : RivrNeighbor, neighborLinkScoreFull airtimeRouting n.quality nowMs =
      neighborLinkScoreFull airtimeRouting n nowMs := fun _ => rfl
  induction ns generalizing best bestScore with
  | nil => rfl
  | cons n ns ih =>
    rw [List.map_cons, neighborBestScan, neighborBestScan, neighborId_quality, lastSeenMs_quality,
      hscore]
    split_ifs
    · exact ih best bestScore
    · exact ih best bestScore
    · exact ih (some n) _
    · exact ih best bestScore

theorem neighborBest_congr {tbl tbl' : RivrNeighborTable} (h : tbl.quality = tbl'.quality)
    (airtimeRouting : Bool) (nowMs : UInt32) :
    (neighborBest airtimeRouting tbl nowMs).map RivrNeighbor.quality =
      (neighborBest airtimeRouting tbl' nowMs).map RivrNeighbor.quality := by
  obtain ⟨hentries, hcount⟩ := Prod.mk.inj h
  rw [neighborBest, neighborBest, ← neighborBestScan_quality, ← neighborBestScan_quality,
    List.map_take, List.map_take, hentries, hcount]

/-- The second tier promotes the best neighbour. -/
theorem neighborHop_some (airtimeRouting : Bool) (tbl : RivrNeighborTable)
    (dstId nowMs : UInt32) :
    neighborHop airtimeRouting (some tbl) dstId nowMs =
      (neighborBest airtimeRouting tbl nowMs).bind fun nb => nb.promote dstId nowMs := rfl

theorem neighborHop_congr {ntbl ntbl' : Option RivrNeighborTable}
    (h : ntbl.map RivrNeighborTable.quality = ntbl'.map RivrNeighborTable.quality)
    (airtimeRouting : Bool) (dstId nowMs : UInt32) :
    neighborHop airtimeRouting ntbl dstId nowMs = neighborHop airtimeRouting ntbl' dstId nowMs := by
  cases ntbl with
  | none =>
    cases ntbl' with
    | none => rfl
    | some tbl' => exact absurd h (by simp)
  | some tbl =>
    cases ntbl' with
    | none => exact absurd h (by simp)
    | some tbl' =>
      have hstale : ∀ nb : Option RivrNeighbor, (nb.bind fun nb => nb.promote dstId nowMs) =
          (nb.map RivrNeighbor.quality).bind fun nb => nb.promote dstId nowMs := by
        rintro (_ | nb)
        · rfl
        · exact (promote_quality nb dstId nowMs).symm
      rw [neighborHop_some, neighborHop_some, hstale, neighborBest_congr (Option.some.inj h),
        ← hstale]

/-- The second and third tier, when the first has found nothing. -/
theorem bestHop_neighborHop {es : List RouteCacheEntry} {ntbl : Option RivrNeighborTable}
    {dstId : UInt32}
    (hnone : ∀ e ∈ es, e.Candidate dstId nowMs → e.score airtimeRouting ntbl nowMs = 0) :
    BestHop airtimeRouting es ntbl dstId nowMs (neighborHop airtimeRouting ntbl dstId nowMs) := by
  cases ntbl with
  | none => exact .flood hnone fun tbl nb htbl => absurd htbl (by simp)
  | some tbl =>
    rw [neighborHop_some]
    cases hbest : neighborBest airtimeRouting tbl nowMs with
    | none =>
      refine .flood hnone fun tbl' nb htbl hnb => ?_
      rw [← Option.some.inj htbl, hbest] at hnb
      exact absurd hnb (by simp)
    | some nb =>
      rw [Option.bind_some, RivrNeighbor.promote]
      split_ifs with hforwards
      · exact .neighbor hnone rfl hbest hforwards
      · refine .flood hnone fun tbl' nb' htbl hnb => ?_
        rw [← Option.some.inj htbl, hbest] at hnb
        rwa [← Option.some.inj hnb]

/-- **The three tiers.** -/
theorem bestHop_routeCacheBestHop (airtimeRouting : Bool) (cache : RouteCache rcacheSize)
    (ntbl : Option RivrNeighborTable) {dstId : UInt32} (hdst : dstId ≠ 0) (nowMs : UInt32) :
    BestHop airtimeRouting cache.entries ntbl dstId nowMs
      (routeCacheBestHop airtimeRouting cache ntbl dstId nowMs).1 := by
  have hstart : (BestSoFar.mk none 0 ntbl).ntbl.map RivrNeighborTable.quality =
      ntbl.map RivrNeighborTable.quality := rfl
  obtain ⟨hquality, hscan⟩ := bestScan_eq airtimeRouting dstId nowMs cache.entries hstart
  rw [routeCacheBestHop, if_neg hdst]
  dsimp only
  generalize (bestScan airtimeRouting dstId nowMs cache.entries ⟨none, 0, ntbl⟩).1 = last
    at hquality hscan ⊢
  change last.scored = List.foldl _ (none, 0) _ at hscan
  rw [foldl_step] at hscan
  cases hbest : bestAbove (RouteCacheEntry.score airtimeRouting ntbl nowMs) 0
      (cache.entries.filter fun e => e.Candidate dstId nowMs) with
  | none =>
    rw [hbest] at hscan
    have hentry : last.entry = none := congrArg Prod.fst hscan
    rw [hentry]
    dsimp only
    rw [neighborHop_congr hquality]
    refine bestHop_neighborHop fun e he hcand => Nat.le_zero.mp ?_
    exact bestAbove_eq_none_iff.mp hbest e (List.mem_filter.mpr ⟨he, decide_eq_true hcand⟩)
  | some e =>
    rw [hbest] at hscan
    obtain ⟨hmem, hpos, hgreatest⟩ := bestAbove_eq_some hbest
    obtain ⟨he, hcand⟩ := List.mem_filter.mp hmem
    have hentry : last.entry = some e := congrArg Prod.fst hscan
    have hscore : last.score = (entryCompositeScore airtimeRouting e ntbl nowMs).1 :=
      UInt32.toNat_inj.mp (congrArg Prod.snd hscan)
    rw [hentry]
    dsimp only
    rw [hscore]
    exact .cached he (of_decide_eq_true hcand) hpos fun e' he' hcand' =>
      hgreatest e' (List.mem_filter.mpr ⟨he', decide_eq_true hcand'⟩)

/-- All scores of the choice are percentages, and nothing in them wraps. -/
structure ScoresFit (airtimeRouting : Bool) (ntbl : Option RivrNeighborTable)
    (nowMs : UInt32) : Prop where
  route : ∀ e : RouteCacheEntry,
    Fits (checkedCompositeScore airtimeRouting e (e.nextHopRecord ntbl nowMs) nowMs)
      (e.score airtimeRouting ntbl nowMs) 100
  neighbor : ∀ tbl ∈ ntbl, ∀ n ∈ tbl.entries,
    Fits (checkedLinkScore airtimeRouting n nowMs) (n.score airtimeRouting nowMs) 100
  /-- Without the airtime metric, as the second tier scores its neighbour. -/
  link : ∀ tbl ∈ ntbl, ∀ n ∈ tbl.entries,
    Fits (checkedLinkScore false n nowMs) (neighborLinkScore n nowMs).toNat 100

/-- **The choice of the best hop**: by three tiers for each destination, nothing for the broadcast
address, and by scores that fit. -/
theorem route_cache_best_hop (airtimeRouting : Bool) (cache : RouteCache rcacheSize)
    {ntbl : Option RivrNeighborTable} (hloss : LossInRange ntbl) (dstId nowMs : UInt32) :
    (dstId ≠ 0 → BestHop airtimeRouting cache.entries ntbl dstId nowMs
        (routeCacheBestHop airtimeRouting cache ntbl dstId nowMs).1) ∧
      (dstId = 0 → (routeCacheBestHop airtimeRouting cache ntbl dstId nowMs).1 = none) ∧
      ScoresFit airtimeRouting ntbl nowMs := by
  refine ⟨fun hdst => bestHop_routeCacheBestHop airtimeRouting cache ntbl hdst nowMs,
    fun hdst => ?_, ?_, ?_, ?_⟩
  · rw [routeCacheBestHop, if_pos hdst]
  · intro e
    rw [RouteCacheEntry.score, entryCompositeScore_fst]
    exact fits_scoreWith (hloss.nextHopRecord e nowMs) airtimeRouting e nowMs
  · exact fun tbl htbl n hn => fits_neighborLinkScoreFull (hloss tbl htbl n hn) airtimeRouting nowMs
  · exact fun tbl htbl n hn => fits_neighborLinkScoreFull (hloss tbl htbl n hn) false nowMs

/-- A table of one direct neighbour. -/
def oneNeighbor : RivrNeighborTable where
  entries := { RivrNeighbor.empty with neighborId := 7, rssiAvg := -60, flags := 1 } ::
    List.replicate 15 .empty
  count := 1
  length_entries := rfl

theorem lossInRange_oneNeighbor : LossInRange (some oneNeighbor) := by
  intro tbl htbl
  obtain rfl := Option.some.inj htbl
  decide

theorem route_cache_best_hop_one :
    BestHop false (routeCacheInit 32).entries (some oneNeighbor) 5 0
      (routeCacheBestHop false (routeCacheInit 32) (some oneNeighbor) 5 0).1 :=
  (route_cache_best_hop false (routeCacheInit 32) lossInRange_oneNeighbor 5 0).1 (by decide)

/-- The broadcast address is turned away even when a neighbour would forward. -/
theorem not_route_cache_best_hop :
    ¬∀ (cache : RouteCache 32) (ntbl : Option RivrNeighborTable) (dstId nowMs : UInt32),
      LossInRange ntbl → (∀ e ∈ cache.entries, e.metric ≤ 100) →
        BestHop false cache.entries ntbl dstId nowMs
          (routeCacheBestHop false cache ntbl dstId nowMs).1 := by
  intro h
  have hzero := h (routeCacheInit 32) (some oneNeighbor) 0 0 lossInRange_oneNeighbor (by decide)
  change BestHop false (routeCacheInit 32).entries (some oneNeighbor) 0 0 none at hzero
  cases hzero with
  | flood _ hno => exact hno oneNeighbor _ rfl rfl (by decide)

end Rivr
