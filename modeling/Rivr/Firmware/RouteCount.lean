import Rivr.Firmware.RouteMap
import Rivr.ForMathlib.Runs
import Rivr.ForMathlib.SlotContents

/-!
# The count of the route cache

`count` is meant to be the number of valid entries. Insertions add to it and `route_cache_expire`
takes from it, but a lookup, an update or a choice of the best hop that clears an expired entry does
not. The count is exact as long as no such call meets an expired entry, with one exception: in a
table whose slots are all taken, an update that clears one entry and inserts another leaves it right
(`route_cache_count_iff`).
-/

open Runs SlotTable

namespace Rivr

variable {rcacheSize : ℕ} {cache : RouteCache rcacheSize} {r : RouteReport} {nowMs : UInt32}

/-- The number of valid slots. -/
def routesIn (es : List RouteCacheEntry) : ℕ := (held RouteCacheEntry.Valid es).length

/-- The count is the number of valid slots. -/
def RouteCache.Exact (cache : RouteCache rcacheSize) : Prop :=
  cache.count.toNat = routesIn cache.entries

instance RouteCache.decidableExact (cache : RouteCache rcacheSize) : Decidable cache.Exact :=
  inferInstanceAs (Decidable (_ = _))

theorem routesIn_cons_of_valid {e : RouteCacheEntry} (hv : e.Valid) (es : List RouteCacheEntry) :
    routesIn (e :: es) = routesIn es + 1 := by
  rw [routesIn, held, List.filter_cons_of_pos (by simpa using hv), List.length_cons]
  rfl

theorem routesIn_cons_of_not {e : RouteCacheEntry} (hv : ¬e.Valid) (es : List RouteCacheEntry) :
    routesIn (e :: es) = routesIn es := by
  rw [routesIn, held, List.filter_cons_of_neg (by simpa using hv)]
  rfl

/-! ### How many routes the scans clear -/

/-- The slot holds an expired route. -/
def RouteCacheEntry.Lapsed (e : RouteCacheEntry) (nowMs : UInt32) : Prop :=
  e.Valid ∧ e.Expired nowMs

instance RouteCacheEntry.decidableLapsed (e : RouteCacheEntry) (nowMs : UInt32) :
    Decidable (e.Lapsed nowMs) := inferInstanceAs (Decidable (_ ∧ _))

/-- The expired routes before the first live one of the destination, which an update meets. -/
def lapsedBefore (dstId nowMs : UInt32) (es : List RouteCacheEntry) : List RouteCacheEntry :=
  (es.takeWhile fun e => ¬e.LiveFor dstId nowMs).filter fun e => e.Lapsed nowMs

theorem lapsedBefore_cons_of_live {dstId nowMs : UInt32} {e : RouteCacheEntry}
    (h : e.LiveFor dstId nowMs) (es : List RouteCacheEntry) :
    lapsedBefore dstId nowMs (e :: es) = [] := by
  rw [lapsedBefore, List.takeWhile_cons_of_neg (by simpa using h), List.filter_nil]

theorem length_lapsedBefore_cons {dstId nowMs : UInt32} {e : RouteCacheEntry}
    (h : ¬e.LiveFor dstId nowMs) (es : List RouteCacheEntry) :
    (lapsedBefore dstId nowMs (e :: es)).length =
      (lapsedBefore dstId nowMs es).length + if e.Lapsed nowMs then 1 else 0 := by
  rw [lapsedBefore, List.takeWhile_cons_of_pos (by simpa using h), List.filter_cons, lapsedBefore]
  simp only [decide_eq_true_eq]
  split_ifs <;> rfl

/-- One slot more, expired or not. -/
theorem routesIn_cons_expireEntry (nowMs : UInt32) (e : RouteCacheEntry)
    {es es' : List RouteCacheEntry} {k : ℕ} (h : routesIn es' + k = routesIn es) :
    routesIn (expireEntry e nowMs :: es') + (k + if e.Lapsed nowMs then 1 else 0) =
      routesIn (e :: es) := by
  by_cases hlapsed : e.Lapsed nowMs
  · have hgone : expireEntry e nowMs = .empty := if_pos hlapsed
    rw [hgone, if_pos hlapsed, routesIn_cons_of_not not_valid_empty,
      routesIn_cons_of_valid hlapsed.1]
    omega
  · have hkept : expireEntry e nowMs = e := if_neg hlapsed
    rw [hkept, if_neg hlapsed]
    by_cases hv : e.Valid
    · rw [routesIn_cons_of_valid hv, routesIn_cons_of_valid hv]
      omega
    · rw [routesIn_cons_of_not hv, routesIn_cons_of_not hv]
      exact h

/-- A refreshed route is valid. -/
theorem valid_refresh {e : RouteCacheEntry} (hdst : e.dstId = r.dstId) (hv : e.Valid)
    (nowMs : UInt32) : (e.refresh r nowMs).Valid := by
  by_cases hbetter : r.Better e
  · rw [refresh_of_better hdst hbetter]
    exact valid_stored r nowMs
  · rw [refresh_of_not_better hbetter]
    exact hv

theorem routesIn_updateScan (r : RouteReport) (nowMs : UInt32) (es : List RouteCacheEntry) :
    routesIn (updateScan r nowMs es).2 + (lapsedBefore r.dstId nowMs es).length = routesIn es := by
  induction es with
  | nil => rfl
  | cons e es ih =>
    rw [updateScan]
    by_cases hlive : e.LiveFor r.dstId nowMs
    · have hmet := liveFor_iff_expireEntry.mp hlive
      rw [if_pos hmet, lapsedBefore_cons_of_live hlive, expireEntry_eq hmet.2,
        routesIn_cons_of_valid (valid_refresh hlive.1 hlive.2.1 nowMs),
        routesIn_cons_of_valid hlive.2.1]
      rfl
    · rw [if_neg fun hmet => hlive (liveFor_iff_expireEntry.mpr hmet),
        length_lapsedBefore_cons hlive]
      exact routesIn_cons_expireEntry nowMs e ih

/-- A lookup clears the route of its destination if it is expired. -/
theorem routesIn_lookupScan (dstId nowMs : UInt32) (es : List RouteCacheEntry) :
    routesIn (lookupScan dstId nowMs es).2 = routesIn es ↔
      ∀ e, SlotTable.lookup RouteCacheEntry.Valid RouteCacheEntry.dstId dstId es = some e →
        ¬e.Expired nowMs := by
  induction es with
  | nil => exact iff_of_true rfl fun e h => absurd h (by simp [SlotTable.lookup])
  | cons e es ih =>
    rw [lookupScan]
    by_cases hroute : e.Valid ∧ e.dstId = dstId
    · rw [if_pos hroute.2, lookup_cons_of_pos hroute.1 hroute.2]
      by_cases hexp : e.Expired nowMs
      · rw [if_pos ⟨hroute.1, hexp⟩, routesIn_cons_of_not not_valid_empty,
          routesIn_cons_of_valid hroute.1]
        exact iff_of_false (by omega) fun h => h e rfl hexp
      · rw [if_neg fun h => hexp h.2, if_pos hroute.1]
        refine iff_of_true rfl fun e' h => ?_
        rwa [← Option.some.inj h]
    · -- the lookup goes past this slot and leaves it
      have hcons : routesIn (e :: (lookupScan dstId nowMs es).2) = routesIn (e :: es) ↔
          routesIn (lookupScan dstId nowMs es).2 = routesIn es := by
        by_cases hv : e.Valid
        · rw [routesIn_cons_of_valid hv, routesIn_cons_of_valid hv, Nat.add_right_cancel_iff]
        · rw [routesIn_cons_of_not hv, routesIn_cons_of_not hv]
      rw [lookup_cons_of_neg hroute, ← ih, ← hcons]
      split_ifs with hdst hexp hv
      · exact absurd ⟨hexp.1, hdst⟩ hroute
      · exact absurd ⟨hv, hdst⟩ hroute
      · rfl
      · rfl

/-- The choice of the best hop clears all expired routes of its destination. -/
theorem routesIn_bestScan (airtimeRouting : Bool) (dstId nowMs : UInt32)
    (es : List RouteCacheEntry) (best : BestSoFar) :
    routesIn (bestScan airtimeRouting dstId nowMs es best).2 +
      (es.filter fun e => e.dstId = dstId ∧ e.Lapsed nowMs).length = routesIn es := by
  induction es generalizing best with
  | nil => rfl
  | cons e es ih =>
    have hkept : ∀ best, ¬(e.dstId = dstId ∧ e.Lapsed nowMs) →
        routesIn (e :: (bestScan airtimeRouting dstId nowMs es best).2) +
          ((e :: es).filter fun e => e.dstId = dstId ∧ e.Lapsed nowMs).length =
            routesIn (e :: es) := by
      intro best hnot
      rw [List.filter_cons_of_neg (by simpa using hnot)]
      have hrest := ih best
      by_cases hv : e.Valid
      · rw [routesIn_cons_of_valid hv, routesIn_cons_of_valid hv]
        omega
      · rw [routesIn_cons_of_not hv, routesIn_cons_of_not hv]
        exact hrest
    rw [bestScan]
    split_ifs with hdst hlapsed hskip
    · exact hkept best fun h => hdst h.1
    · have hrest := ih best
      rw [not_not] at hdst
      rw [List.filter_cons_of_pos (by simpa using ⟨hdst, hlapsed⟩),
        routesIn_cons_of_not not_valid_empty, routesIn_cons_of_valid hlapsed.1, List.length_cons]
      omega
    · exact hkept best fun h => hlapsed h.2
    · exact hkept _ fun h => hlapsed h.2

theorem routesIn_expireScan (nowMs : UInt32) (es : List RouteCacheEntry) :
    routesIn (expireScan nowMs es).2 + (expireScan nowMs es).1 = routesIn es := by
  induction es with
  | nil => rfl
  | cons e es ih =>
    have hcons := routesIn_cons_expireEntry nowMs e ih
    rw [expireEntry] at hcons
    rw [expireScan]
    by_cases hlapsed : e.Valid ∧ e.Expired nowMs
    · rw [if_pos hlapsed]
      rwa [if_pos hlapsed, if_pos (show e.Lapsed nowMs from hlapsed)] at hcons
    · rw [if_neg hlapsed]
      rwa [if_neg hlapsed, if_neg (show ¬e.Lapsed nowMs from hlapsed)] at hcons

/-! ### The count after a call -/

theorem routesIn_le (cache : RouteCache rcacheSize) : routesIn cache.entries ≤ rcacheSize :=
  (length_held_le cache.entries).trans_eq cache.length_entries

theorem exists_of_freeSlot {es : List RouteCacheEntry} {idx : ℕ} (hfree : freeSlot es = some idx) :
    ∃ e, es[idx]? = some e ∧ ¬e.Valid ∧ routesIn es < es.length :=
  exists_of_findIdx?_free (fun _ => decide_eq_true_iff) hfree

theorem valid_of_freeSlot {es : List RouteCacheEntry} (hfree : freeSlot es = none) :
    ∀ e ∈ es, e.Valid :=
  forall_valid_of_findIdx?_free (fun _ => decide_eq_true_iff) hfree

theorem routesIn_of_full {cache : RouteCache rcacheSize} (hfree : freeSlot cache.entries = none) :
    routesIn cache.entries = rcacheSize :=
  (length_held_of_forall (valid_of_freeSlot hfree)).trans cache.length_entries

/-- An insertion adds a route, or replaces one in a full table. -/
theorem routesIn_insert (cache : RouteCache rcacheSize) (r : RouteReport) (nowMs : UInt32) :
    routesIn (cache.insert r nowMs).entries = min rcacheSize (routesIn cache.entries + 1) := by
  rw [RouteCache.insert]
  split
  · rename_i idx hfree
    obtain ⟨x, hslot, hinvalid, hroom⟩ := exists_of_freeSlot hfree
    have hset := (held_set hslot hinvalid (valid_stored r nowMs)).length_eq
    rw [List.length_cons] at hset
    rw [cache.length_entries] at hroom
    rw [routesIn, hset]
    exact (Nat.min_eq_right hroom).symm
  · rename_i hfree
    have hlt : cache.evictHand.toNat < cache.entries.length :=
      cache.length_entries.symm ▸ cache.evictHand_lt
    have hset := length_held_set (List.getElem?_eq_getElem hlt)
      (valid_of_freeSlot hfree _ (List.getElem_mem hlt)) (valid_stored r nowMs)
    have hall := routesIn_of_full hfree
    rw [routesIn, hset]
    change routesIn cache.entries = _
    omega

/-- An insertion counts one more, unless the count has reached the number of slots. -/
theorem count_insert (hsize : rcacheSize < 256) {cache : RouteCache rcacheSize}
    (hge : routesIn cache.entries ≤ cache.count.toNat) (hle : cache.count.toNat ≤ rcacheSize)
    (r : RouteReport) (nowMs : UInt32) :
    (cache.insert r nowMs).count.toNat = min rcacheSize (cache.count.toNat + 1) := by
  rw [RouteCache.insert]
  split
  · dsimp only
    split_ifs with hlt
    · rw [UInt8.toNat_add]
      change (cache.count.toNat + 1) % 256 = _
      omega
    · omega
  · rename_i hfree
    -- a count below the number of slots would be below the number of routes
    have hall := routesIn_of_full hfree
    change cache.count.toNat = _
    omega

/-- The report leaves the count right: it clears no expired route, or exactly one in a full table
that it is inserted into. -/
def RouteCache.CountsReport (cache : RouteCache rcacheSize) (r : RouteReport)
    (nowMs : UInt32) : Prop :=
  lapsedBefore r.dstId nowMs cache.entries = [] ∨
    firstLive cache.entries r.dstId nowMs = none ∧
      (lapsedBefore r.dstId nowMs cache.entries).length = 1 ∧ rcacheSize ≤ cache.count.toNat

/-- The call leaves the count right. -/
def RouteCacheOp.KeepsCount (cache : RouteCache rcacheSize) (nowMs : UInt32) :
    RouteCacheOp → Prop
  | .update r => r.Usable → cache.CountsReport r nowMs
  | .lookup dstId => dstId ≠ 0 → ∀ e, cache.route dstId = some e → ¬e.Expired nowMs
  | .learnRx srcId fromId hopCount rssiDbm snrDb =>
    ∀ r, learnRxReport srcId fromId hopCount rssiDbm snrDb = some r → cache.CountsReport r nowMs
  | .bestHop _ _ dstId => dstId ≠ 0 → ∀ e ∈ cache.entries, ¬(e.dstId = dstId ∧ e.Lapsed nowMs)
  | .expire => True

/-- The call or new start leaves the count right. -/
def RouteCache.KeepsCount (cache : RouteCache rcacheSize) (c : RouteCacheCall) : Prop :=
  match c.action with
  | .init => True
  | .op op => op.KeepsCount cache c.nowMs

theorem exact_init (rcacheSize : ℕ) [NeZero rcacheSize] : (routeCacheInit rcacheSize).Exact := by
  change 0 = routesIn (List.replicate rcacheSize RouteCacheEntry.empty)
  rw [routesIn, held, List.filter_replicate_of_neg (by simpa using not_valid_empty)]
  rfl

/-- What an update does to the count. -/
theorem RouteCache.Exact.update_iff (h : cache.Exact) (hsize : rcacheSize < 256) (hr : r.Usable)
    (nowMs : UInt32) : (routeCacheUpdate cache r nowMs).Exact ↔ cache.CountsReport r nowMs := by
  have hscan := routesIn_updateScan r nowMs cache.entries
  have hle := routesIn_le cache
  rw [RouteCache.Exact] at h
  rw [routeCacheUpdate, if_neg (not_not.mpr hr), CountsReport, ← List.length_eq_zero_iff]
  dsimp only
  cases hlive : firstLive cache.entries r.dstId nowMs with
  | some e =>
    rw [if_pos (updateScan_found hlive).1, RouteCache.Exact]
    dsimp only
    rw [h]
    simp only [reduceCtorEq, false_and, or_false]
    omega
  | none =>
    rw [if_neg (Bool.eq_false_iff.mp (updateScan_missed hlive).1), RouteCache.Exact,
      routesIn_insert, count_insert hsize (by dsimp only; omega) (by dsimp only; omega), h]
    dsimp only
    simp only [true_and]
    omega

/-- What a lookup does to the count. -/
theorem RouteCache.Exact.lookup_iff (h : cache.Exact) (dstId nowMs : UInt32) :
    (routeCacheLookup cache dstId nowMs).2.Exact ↔
      (dstId ≠ 0 → ∀ e, cache.route dstId = some e → ¬e.Expired nowMs) := by
  rw [routeCacheLookup]
  split_ifs with hdst
  · exact iff_of_true h fun hne => absurd hdst hne
  · rw [forall_prop_of_true hdst, RouteCache.route, ← routesIn_lookupScan, RouteCache.Exact]
    dsimp only
    rw [h, eq_comm]

/-- What a choice of the best hop does to the count. -/
theorem RouteCache.Exact.bestHop_iff (h : cache.Exact) (airtimeRouting : Bool)
    (ntbl : Option RivrNeighborTable) (dstId nowMs : UInt32) :
    (routeCacheBestHop airtimeRouting cache ntbl dstId nowMs).2.1.Exact ↔
      (dstId ≠ 0 → ∀ e ∈ cache.entries, ¬(e.dstId = dstId ∧ e.Lapsed nowMs)) := by
  have hscan := routesIn_bestScan airtimeRouting dstId nowMs cache.entries ⟨none, 0, ntbl⟩
  rw [routeCacheBestHop]
  split_ifs with hdst
  · exact iff_of_true h fun hne => absurd hdst hne
  · rw [forall_prop_of_true hdst]
    have hnone : cache.count.toNat =
          routesIn (bestScan airtimeRouting dstId nowMs cache.entries ⟨none, 0, ntbl⟩).2 ↔
        ∀ e ∈ cache.entries, ¬(e.dstId = dstId ∧ e.Lapsed nowMs) := by
      rw [h, ← hscan, Nat.add_eq_left, List.length_eq_zero_iff, List.filter_eq_nil_iff]
      simp only [decide_eq_true_eq]
    dsimp only
    split <;> exact hnone

/-- `route_cache_expire` counts off what it clears. -/
theorem RouteCache.Exact.expire (h : cache.Exact) (hsize : rcacheSize < 256) (nowMs : UInt32) :
    (routeCacheExpire cache nowMs).2.Exact := by
  have hscan := routesIn_expireScan nowMs cache.entries
  have hle := routesIn_le cache
  change (UInt8.ofNat (cache.count.toNat - (expireScan nowMs cache.entries).1)).toNat =
    routesIn (expireScan nowMs cache.entries).2
  rw [h, UInt8.toNat_ofNat']
  omega

/-- **What a call does to the count.** -/
theorem RouteCache.Exact.act_iff [NeZero rcacheSize] (h : cache.Exact) (hsize : rcacheSize < 256)
    (c : RouteCacheCall) : (cache.act c).Exact ↔ cache.KeepsCount c := by
  obtain ⟨nowMs, action⟩ := c
  cases action with
  | init => exact iff_of_true (exact_init rcacheSize) trivial
  | op op =>
    change (op.apply cache nowMs).Exact ↔ op.KeepsCount cache nowMs
    cases op with
    | update r =>
      rw [RouteCacheOp.apply, RouteCacheOp.KeepsCount]
      by_cases hr : r.Usable
      · rw [h.update_iff hsize hr, forall_prop_of_true hr]
      · rw [routeCacheUpdate_of_not_usable hr, forall_prop_of_false hr]
        exact iff_of_true h trivial
    | lookup dstId => exact h.lookup_iff dstId nowMs
    | learnRx srcId fromId hopCount rssiDbm snrDb =>
      rw [RouteCacheOp.apply, RouteCacheOp.KeepsCount, routeCacheLearnRx]
      cases hreport : learnRxReport srcId fromId hopCount rssiDbm snrDb with
      | none => exact iff_of_true h fun r hr => absurd hr (by simp)
      | some r =>
        rw [h.update_iff hsize (learnRxReport_usable hreport)]
        refine ⟨fun hcounts r' hr' => ?_, fun hall => hall r rfl⟩
        rwa [← Option.some.inj hr']
    | bestHop airtimeRouting ntbl dstId => exact h.bestHop_iff airtimeRouting ntbl dstId nowMs
    | expire => exact iff_of_true (h.expire hsize nowMs) trivial

/-- **When the count is exact.** After every call the count is the number of valid entries exactly
if no call clears an expired entry that it does not count off. -/
theorem route_cache_count_iff [NeZero rcacheSize] (hsize : rcacheSize < 256)
    (calls : List RouteCacheCall) :
    (∀ m, (routeCacheAfter rcacheSize (calls.take m)).Exact) ↔
      Allows RouteCache.act RouteCache.KeepsCount (routeCacheInit rcacheSize) calls :=
  forall_take_iff_allows (fun _ c h => h.act_iff hsize c) (exact_init rcacheSize) calls

/-- A cache of 32 slots. -/
theorem route_cache_count_iff_lookup :
    (∀ m, (routeCacheAfter 32 ([⟨0, .op (.update ⟨5, 6, 1, 50, 1⟩)⟩,
        ⟨1000, .op (.lookup 5)⟩].take m)).Exact) ↔
      Allows RouteCache.act RouteCache.KeepsCount (routeCacheInit 32)
        [⟨0, .op (.update ⟨5, 6, 1, 50, 1⟩)⟩, ⟨1000, .op (.lookup 5)⟩] :=
  route_cache_count_iff (by decide) _

/-- A lookup that clears the only route leaves a count of one. -/
theorem not_route_cache_count :
    ¬∀ calls : List RouteCacheCall, (routeCacheAfter 32 calls).Exact := by
  intro h
  have hexact := h [⟨0, .op (.update ⟨5, 6, 1, 50, 1⟩)⟩, ⟨200000, .op (.lookup 5)⟩]
  exact absurd hexact (by decide)

end Rivr
