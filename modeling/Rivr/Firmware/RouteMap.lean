import Rivr.Firmware.RouteFreshness
import Mathlib.Data.List.Induction

/-!
# The route cache as a map

After any calls the cache holds at most one route for each destination, so that it is a map from
destinations to routes (`RouteCache.route`). A report changes the route of its destination alone,
except that routes which are expired may go, and that in a full table the route whose turn it is
goes; a lookup returns the route of its destination unless it is expired (`route_cache_map`).
-/

open SlotTable

namespace Rivr

variable {rcacheSize : ℕ}

/-! ### Runs -/

/-- A call, or a new start. -/
inductive RouteCacheAction
  | init
  | op (op : RouteCacheOp)

/-- An action at a time. -/
structure RouteCacheCall where
  nowMs : UInt32
  action : RouteCacheAction

/-- The cache after an action. -/
def RouteCache.act [NeZero rcacheSize] (cache : RouteCache rcacheSize) (c : RouteCacheCall) :
    RouteCache rcacheSize :=
  match c.action with
  | .init => routeCacheInit rcacheSize
  | .op op => op.apply cache c.nowMs

/-- The cache after a history. -/
def routeCacheAfter (rcacheSize : ℕ) [NeZero rcacheSize] (calls : List RouteCacheCall) :
    RouteCache rcacheSize :=
  calls.foldl RouteCache.act (routeCacheInit rcacheSize)

/-- No two routes are for the same destination. -/
def RouteCache.OneRoute (cache : RouteCache rcacheSize) : Prop :=
  OneEach RouteCacheEntry.Valid RouteCacheEntry.dstId cache.entries

variable {cache : RouteCache rcacheSize} {r : RouteReport} {nowMs : UInt32}

theorem oneRoute_init (rcacheSize : ℕ) [NeZero rcacheSize] :
    (routeCacheInit rcacheSize).OneRoute := by
  intro i j x y hx _ hvx
  have hmem := List.mem_of_getElem? hx
  rw [routeCacheInit, List.mem_replicate] at hmem
  exact absurd hvx (hmem.2 ▸ not_valid_empty)

theorem RouteCache.OneRoute.update (h : cache.OneRoute) (hr : r.Usable) (nowMs : UInt32) :
    (routeCacheUpdate cache r nowMs).OneRoute := by
  obtain ⟨k, x, hwrites, hothers, hx⟩ := routeCacheUpdate_spec h hr nowMs
  exact hwrites.oneEach h fun i y hik hy hvy => hx.dstId ▸ hothers hik hy hvy

theorem RouteCache.OneRoute.apply (h : cache.OneRoute) (op : RouteCacheOp) (nowMs : UInt32) :
    (op.apply cache nowMs).OneRoute := by
  rcases op.apply_cases cache nowMs with ⟨r, -, hr, heq⟩ | ⟨-, hshrinks⟩
  · rw [heq]
    exact h.update hr nowMs
  · exact hshrinks.oneEach h

theorem oneRoute_after [NeZero rcacheSize] (calls : List RouteCacheCall) :
    (routeCacheAfter rcacheSize calls).OneRoute := by
  induction calls using List.reverseRecOn with
  | nil => exact oneRoute_init rcacheSize
  | append_singleton calls c ih =>
    rw [routeCacheAfter, List.foldl_append]
    obtain ⟨nowMs, action⟩ := c
    cases action with
    | init => exact oneRoute_init rcacheSize
    | op op => exact ih.apply op nowMs

/-! ### What is lost -/

/-- The route of a destination. -/
def RouteCache.route (cache : RouteCache rcacheSize) (dstId : UInt32) : Option RouteCacheEntry :=
  SlotTable.lookup RouteCacheEntry.Valid RouteCacheEntry.dstId dstId cache.entries

/-- Every route of the first table is in the second, or is expired. -/
def KeepsFresh (nowMs : UInt32) (es es' : List RouteCacheEntry) : Prop :=
  ∀ e ∈ es, e.Valid → e ∈ es' ∨ e.Expired nowMs

theorem KeepsFresh.cons {es es' : List RouteCacheEntry} {e e' : RouteCacheEntry}
    (he : e.Valid → e' = e ∨ e.Expired nowMs) (h : KeepsFresh nowMs es es') :
    KeepsFresh nowMs (e :: es) (e' :: es') := by
  intro x hx hv
  rcases List.mem_cons.mp hx with rfl | hx
  · refine (he hv).imp_left fun heq => ?_
    rw [heq]
    exact List.mem_cons_self
  · exact (h x hx hv).imp_left (List.mem_cons_of_mem _)

theorem KeepsFresh.refl (es : List RouteCacheEntry) : KeepsFresh nowMs es es :=
  fun _ he _ => .inl he

theorem expireEntry_eq_or (e : RouteCacheEntry) (nowMs : UInt32) :
    expireEntry e nowMs = e ∨ e.Expired nowMs := by
  rw [expireEntry]
  split_ifs with h
  · exact .inr h.2
  · exact .inl rfl

theorem keepsFresh_lookupScan (dstId nowMs : UInt32) (es : List RouteCacheEntry) :
    KeepsFresh nowMs es (lookupScan dstId nowMs es).2 := by
  induction es with
  | nil => exact KeepsFresh.refl _
  | cons e es ih =>
    simp only [lookupScan]
    split_ifs with hdst hexp
    · exact (KeepsFresh.refl es).cons fun _ => .inr hexp.2
    · exact KeepsFresh.refl _
    · exact ih.cons fun _ => .inl rfl
    · exact ih.cons fun _ => .inl rfl

theorem keepsFresh_bestScan (airtimeRouting : Bool) (dstId nowMs : UInt32)
    (es : List RouteCacheEntry) (best : BestSoFar) :
    KeepsFresh nowMs es (bestScan airtimeRouting dstId nowMs es best).2 := by
  induction es generalizing best with
  | nil => exact KeepsFresh.refl _
  | cons e es ih =>
    simp only [bestScan]
    split_ifs with hdst hexp
    · exact (ih _).cons fun _ => .inl rfl
    · exact (ih _).cons fun _ => .inr hexp.2
    · exact (ih _).cons fun _ => .inl rfl
    · exact (ih _).cons fun _ => .inl rfl

theorem keepsFresh_map (nowMs : UInt32) (es : List RouteCacheEntry) :
    KeepsFresh nowMs es (es.map fun e => expireEntry e nowMs) := by
  induction es with
  | nil => exact KeepsFresh.refl _
  | cons e es ih => exact ih.cons fun _ => expireEntry_eq_or e nowMs

/-- The scan of an update keeps the routes of other destinations that are not expired. -/
theorem mem_updateScan {es : List RouteCacheEntry} {e : RouteCacheEntry} (he : e ∈ es)
    (hdst : e.dstId ≠ r.dstId) :
    e ∈ (updateScan r nowMs es).2 ∨ e.Expired nowMs := by
  induction es with
  | nil => exact absurd he List.not_mem_nil
  | cons x es ih =>
    rw [updateScan]
    split_ifs with hmet
    · rcases List.mem_cons.mp he with rfl | he
      · exact absurd (liveFor_iff_expireEntry.mpr hmet).1 hdst
      · exact .inl (List.mem_cons_of_mem _ he)
    · rcases List.mem_cons.mp he with rfl | he
      · refine (expireEntry_eq_or e nowMs).imp_left fun heq => ?_
        rw [heq]
        exact List.mem_cons_self
      · exact (ih he).imp_left (List.mem_cons_of_mem _)

/-- An operation other than a report loses only expired routes. -/
theorem keepsFresh_apply {op : RouteCacheOp} (hop : op.report = none)
    (cache : RouteCache rcacheSize) (nowMs : UInt32) :
    KeepsFresh nowMs cache.entries (op.apply cache nowMs).entries := by
  cases op with
  | update r =>
    have hr : ¬r.Usable := by
      intro hr
      rw [RouteCacheOp.report, if_pos hr] at hop
      exact absurd hop (by simp)
    rw [RouteCacheOp.apply, routeCacheUpdate_of_not_usable hr]
    exact KeepsFresh.refl _
  | lookup dstId =>
    rw [RouteCacheOp.apply, routeCacheLookup]
    split_ifs
    · exact KeepsFresh.refl _
    · exact keepsFresh_lookupScan dstId nowMs cache.entries
  | learnRx srcId fromId hopCount rssiDbm snrDb =>
    rw [RouteCacheOp.report] at hop
    rw [RouteCacheOp.apply, routeCacheLearnRx, hop]
    exact KeepsFresh.refl _
  | bestHop airtimeRouting ntbl dstId =>
    rw [RouteCacheOp.apply, routeCacheBestHop]
    split_ifs
    · exact KeepsFresh.refl _
    · dsimp only
      split <;> exact keepsFresh_bestScan airtimeRouting dstId nowMs cache.entries _
  | expire =>
    rw [RouteCacheOp.apply, routeCacheExpire]
    dsimp only
    rw [expireScan_snd]
    exact keepsFresh_map nowMs cache.entries

/-! ### The laws of the map -/

/-- The route of a destination, unless it is expired. -/
def RouteCache.liveRoute (cache : RouteCache rcacheSize) (dstId nowMs : UInt32) :
    Option RouteCacheEntry :=
  (cache.route dstId).filter fun e => ¬e.Expired nowMs

theorem RouteCache.OneRoute.route_eq_some_iff (h : cache.OneRoute) {dstId : UInt32}
    {e : RouteCacheEntry} :
    cache.route dstId = some e ↔ e ∈ cache.entries ∧ e.Valid ∧ e.dstId = dstId :=
  OneEach.lookup_eq_some_iff h

theorem RouteCache.OneRoute.liveRoute_eq_some_iff (h : cache.OneRoute) {dstId : UInt32}
    {e : RouteCacheEntry} :
    cache.liveRoute dstId nowMs = some e ↔ e ∈ cache.entries ∧ e.LiveFor dstId nowMs := by
  rw [liveRoute, Option.filter_eq_some_iff, h.route_eq_some_iff, decide_eq_true_eq]
  constructor
  · rintro ⟨⟨hmem, hv, hdst⟩, hexp⟩
    exact ⟨hmem, hdst, hv, hexp⟩
  · rintro ⟨hmem, hdst, hv, hexp⟩
    exact ⟨⟨hmem, hv, hdst⟩, hexp⟩

/-- A lookup finds the route of its destination, unless it is expired. -/
theorem lookupScan_fst (dstId nowMs : UInt32) (es : List RouteCacheEntry) :
    (lookupScan dstId nowMs es).1 =
      (SlotTable.lookup RouteCacheEntry.Valid RouteCacheEntry.dstId dstId es).filter
        fun e => ¬e.Expired nowMs := by
  induction es with
  | nil => rfl
  | cons e es ih =>
    rw [lookupScan]
    by_cases hroute : e.Valid ∧ e.dstId = dstId
    · rw [if_pos hroute.2, lookup_cons_of_pos hroute.1 hroute.2]
      by_cases hexp : e.Expired nowMs
      · rw [if_pos ⟨hroute.1, hexp⟩, Option.filter_some_neg (by simpa using hexp)]
      · rw [if_neg fun h => hexp h.2, if_pos hroute.1, Option.filter_some_pos (by simpa using hexp)]
    · rw [lookup_cons_of_neg hroute]
      split_ifs with hdst hexp hv
      · exact absurd ⟨hexp.1, hdst⟩ hroute
      · exact absurd ⟨hv, hdst⟩ hroute
      · exact ih
      · exact ih

theorem valid_stored (r : RouteReport) (nowMs : UInt32) : (r.stored nowMs).Valid := by
  change (r.flags ||| rcacheFlagValid) &&& rcacheFlagValid ≠ 0
  intro hzero
  rw [← UInt8.toNat_inj, UInt8.toNat_and, UInt8.toNat_or] at hzero
  have hbit := congrArg (Nat.testBit · 0) hzero
  simp [rcacheFlagValid] at hbit

/-- **What a report stores**: over a live route of its destination if it is better, and otherwise
only the time. -/
theorem RouteCache.OneRoute.route_update (h : cache.OneRoute) (hr : r.Usable) (nowMs : UInt32) :
    (routeCacheUpdate cache r nowMs).route r.dstId =
      some (match cache.liveRoute r.dstId nowMs with
        | some e => if r.Better e then r.stored nowMs else { e with lastSeenMs := nowMs }
        | none => r.stored nowMs) := by
  obtain ⟨k, x, hwrites, hothers, hx⟩ := routeCacheUpdate_spec h hr nowMs
  have hmem : x ∈ (routeCacheUpdate cache r nowMs).entries := List.mem_of_getElem? hwrites.self
  have hlive : ∀ {e}, e ∈ cache.entries → e.LiveFor r.dstId nowMs →
      firstLive cache.entries r.dstId nowMs = some e := by
    intro e he hfor
    cases hfirst : firstLive cache.entries r.dstId nowMs with
    | none =>
      have hnone := List.find?_eq_none.mp hfirst e he
      exact absurd (by simpa using hfor) hnone
    | some e' =>
      obtain ⟨he', hfor'⟩ := firstLive_eq_some hfirst
      exact congrArg some (h.eq he' he hfor'.2.1 hfor.2.1 (hfor'.1.trans hfor.1.symm))
  have hvalid : x.Valid := by
    cases hx with
    | stored _ => exact valid_stored r nowMs
    | refreshed _ hfor _ => exact hfor.2.1
  rw [(h.update hr nowMs).route_eq_some_iff.mpr ⟨hmem, hvalid, hx.dstId⟩]
  refine congrArg some ?_
  cases hx with
  | stored htakes =>
    cases hroute : cache.liveRoute r.dstId nowMs with
    | none => rfl
    | some e =>
      obtain ⟨he, hfor⟩ := h.liveRoute_eq_some_iff.mp hroute
      exact (if_pos (htakes.2 e (hlive he hfor))).symm
  | refreshed he hfor hworse =>
    rw [h.liveRoute_eq_some_iff.mpr ⟨he, hfor⟩]
    exact (if_neg hworse).symm

/-- A full table without the destination gives up the route whose turn it is. -/
structure RouteCache.Evicts (cache : RouteCache rcacheSize) (r : RouteReport) (nowMs : UInt32)
    (e : RouteCacheEntry) : Prop where
  full : ∀ x ∈ cache.entries, x.Valid ∧ ¬x.Expired nowMs ∧ x.dstId ≠ r.dstId
  turn : cache.entries[cache.evictHand.toNat]? = some e

/-- Without a live route of its destination, an update expires every slot. -/
theorem updateScan_eq_map {es : List RouteCacheEntry}
    (h : firstLive es r.dstId nowMs = none) :
    (updateScan r nowMs es).2 = es.map fun e => expireEntry e nowMs := by
  induction es with
  | nil => rfl
  | cons e es ih =>
    have hlive : ¬e.LiveFor r.dstId nowMs := by
      intro hlive
      rw [firstLive_cons_of_liveFor hlive] at h
      exact absurd h (by simp)
    rw [firstLive_cons_of_not hlive] at h
    rw [updateScan, if_neg fun hmet => hlive (liveFor_iff_expireEntry.mpr hmet), List.map_cons,
      ih h]

/-- The slots after the scan are all valid only if all routes are live and none is for the
destination. -/
theorem full_of_freeSlot {es : List RouteCacheEntry} (hlive : firstLive es r.dstId nowMs = none)
    (hfree : freeSlot (updateScan r nowMs es).2 = none) :
    (∀ x ∈ es, x.Valid ∧ ¬x.Expired nowMs ∧ x.dstId ≠ r.dstId) ∧
      (updateScan r nowMs es).2 = es := by
  rw [updateScan_eq_map hlive] at hfree ⊢
  have hfull : ∀ x ∈ es, x.Valid ∧ ¬x.Expired nowMs ∧ x.dstId ≠ r.dstId := by
    intro x hx
    have hvalid : (expireEntry x nowMs).Valid := by
      have hslot := List.findIdx?_eq_none_iff.mp hfree _ (List.mem_map_of_mem hx)
      simpa using hslot
    have hv : x.Valid := expireEntry_eq hvalid ▸ hvalid
    have hexp := not_expired_of_expireEntry hvalid
    refine ⟨hv, hexp, fun hdst => ?_⟩
    have hnone := List.find?_eq_none.mp hlive x hx
    exact hnone (by simpa using ⟨hdst, hv, hexp⟩)
  refine ⟨hfull, (List.map_congr_left fun x hx => ?_).trans (List.map_id es)⟩
  exact if_neg fun h => (hfull x hx).2.1 h.2

/-- A free slot after the scan is there because not all routes are live. -/
theorem not_full_of_freeSlot {es : List RouteCacheEntry} {idx : ℕ}
    (hlive : firstLive es r.dstId nowMs = none)
    (hfree : freeSlot (updateScan r nowMs es).2 = some idx) :
    ¬∀ x ∈ es, x.Valid ∧ ¬x.Expired nowMs ∧ x.dstId ≠ r.dstId := by
  rw [updateScan_eq_map hlive] at hfree
  intro hfull
  obtain ⟨hlt, hinvalid, -⟩ := List.findIdx?_eq_some_iff_getElem.mp hfree
  rw [List.getElem_map] at hinvalid
  have hx := hfull _ (List.getElem_mem (by simpa using hlt))
  rw [expireEntry, if_neg fun h => hx.2.1 h.2] at hinvalid
  simp [hx.1] at hinvalid

/-- **What a report loses.** A route of another destination stays unless it is expired, or it is its
turn in a full table. -/
theorem mem_routeCacheUpdate {e : RouteCacheEntry} (he : e ∈ cache.entries) (hv : e.Valid)
    (hdst : e.dstId ≠ r.dstId) :
    e ∈ (routeCacheUpdate cache r nowMs).entries ∨ e.Expired nowMs ∨ cache.Evicts r nowMs e := by
  by_cases hr : r.Usable
  · rw [routeCacheUpdate, if_neg (not_not.mpr hr)]
    dsimp only
    cases hlive : firstLive cache.entries r.dstId nowMs with
    | some x =>
      rw [if_pos (updateScan_found hlive).1]
      exact (mem_updateScan he hdst).imp_right .inl
    | none =>
      rw [if_neg (Bool.eq_false_iff.mp (updateScan_missed hlive).1), RouteCache.insert]
      rcases mem_updateScan (r := r) he hdst with hscan | hexp
      · obtain ⟨j, hj⟩ := List.mem_iff_getElem?.mp hscan
        dsimp only
        split
        · rename_i idx hfree
          have hne : idx ≠ j := by
            rintro rfl
            obtain ⟨hlt, hinvalid, -⟩ := List.findIdx?_eq_some_iff_getElem.mp hfree
            rw [List.getElem?_eq_getElem hlt] at hj
            rw [Option.some.inj hj] at hinvalid
            simp [hv] at hinvalid
          exact .inl (List.mem_of_getElem? ((List.getElem?_set_ne hne).trans hj))
        · rename_i hfree
          obtain ⟨hfull, hsame⟩ := full_of_freeSlot hlive hfree
          by_cases hturn : cache.evictHand.toNat = j
          · exact .inr (.inr ⟨hfull, by rw [hturn, ← hsame]; exact hj⟩)
          · exact .inl (List.mem_of_getElem? ((List.getElem?_set_ne hturn).trans hj))
      · exact .inr (.inl hexp)
  · rw [routeCacheUpdate_of_not_usable hr]
    exact .inl he

/-- The turn goes on exactly when a route is evicted. -/
theorem evictHand_routeCacheUpdate (hr : r.Usable) (cache : RouteCache rcacheSize)
    (nowMs : UInt32) :
    ((∃ e, cache.Evicts r nowMs e) → (routeCacheUpdate cache r nowMs).evictHand =
        UInt8.ofNat ((cache.evictHand.toNat + 1) % rcacheSize)) ∧
      ((¬∃ e, cache.Evicts r nowMs e) →
        (routeCacheUpdate cache r nowMs).evictHand = cache.evictHand) := by
  rw [routeCacheUpdate, if_neg (not_not.mpr hr)]
  dsimp only
  cases hlive : firstLive cache.entries r.dstId nowMs with
  | some x =>
    obtain ⟨hx, hfor⟩ := firstLive_eq_some hlive
    rw [if_pos (updateScan_found hlive).1]
    refine ⟨?_, fun _ => rfl⟩
    rintro ⟨e, he⟩
    exact absurd hfor.1 (he.full x hx).2.2
  | none =>
    rw [if_neg (Bool.eq_false_iff.mp (updateScan_missed hlive).1), RouteCache.insert]
    dsimp only
    split
    · rename_i idx hfree
      refine ⟨?_, fun _ => rfl⟩
      rintro ⟨e, he⟩
      exact absurd he.full (not_full_of_freeSlot hlive hfree)
    · rename_i hfree
      obtain ⟨hfull, -⟩ := full_of_freeSlot hlive hfree
      have hlt : cache.evictHand.toNat < cache.entries.length :=
        cache.length_entries.symm ▸ cache.evictHand_lt
      exact ⟨fun _ => rfl, fun h => absurd ⟨_, hfull, List.getElem?_eq_getElem hlt⟩ h⟩

/-- The laws of a map from destinations to routes that expire and, in a full table, give way in
turn. -/
structure RouteCache.IsMap (cache : RouteCache rcacheSize) : Prop where
  oneRoute : cache.OneRoute
  lookup : ∀ dstId nowMs, dstId ≠ 0 →
    (routeCacheLookup cache dstId nowMs).1 = cache.liveRoute dstId nowMs
  update : ∀ r nowMs, r.Usable → (routeCacheUpdate cache r nowMs).route r.dstId =
    some (match cache.liveRoute r.dstId nowMs with
      | some e => if r.Better e then r.stored nowMs else { e with lastSeenMs := nowMs }
      | none => r.stored nowMs)
  update_others : ∀ r nowMs dstId, dstId ≠ r.dstId →
    (routeCacheUpdate cache r nowMs).route dstId = cache.route dstId ∨
      (routeCacheUpdate cache r nowMs).route dstId = none ∧
        ∃ e, cache.route dstId = some e ∧ (e.Expired nowMs ∨ cache.Evicts r nowMs e)
  /-- The turn goes round. -/
  turn : ∀ r nowMs, r.Usable →
    ((∃ e, cache.Evicts r nowMs e) → (routeCacheUpdate cache r nowMs).evictHand =
        UInt8.ofNat ((cache.evictHand.toNat + 1) % rcacheSize)) ∧
      ((¬∃ e, cache.Evicts r nowMs e) →
        (routeCacheUpdate cache r nowMs).evictHand = cache.evictHand)
  /-- Every call is an update with its report, or only loses expired routes. -/
  calls : ∀ (op : RouteCacheOp) (nowMs : UInt32),
    (∃ r, op.report = some r ∧ op.apply cache nowMs = routeCacheUpdate cache r nowMs) ∨
      ∀ dstId, (op.apply cache nowMs).route dstId = cache.route dstId ∨
        (op.apply cache nowMs).route dstId = none ∧
          ∃ e, cache.route dstId = some e ∧ e.Expired nowMs

/-- **The route cache is a map** after any calls at any times. -/
theorem route_cache_map (rcacheSize : ℕ) [NeZero rcacheSize] (calls : List RouteCacheCall) :
    (routeCacheAfter rcacheSize calls).IsMap := by
  have hone : (routeCacheAfter rcacheSize calls).OneRoute := oneRoute_after calls
  refine ⟨hone, fun dstId nowMs hdst => ?_, fun r nowMs hr => hone.route_update hr nowMs,
    fun r nowMs dstId hdst => ?_, fun r nowMs hr => evictHand_routeCacheUpdate hr _ nowMs,
    fun op nowMs => ?_⟩
  · rw [routeCacheLookup, if_neg hdst]
    exact lookupScan_fst dstId nowMs _
  · by_cases hr : r.Usable
    · refine OneEach.lookup_cases hone (fun e he hv hkey => ?_) fun e he hv hkey => ?_
      · obtain ⟨k, x, hwrites, -, hx⟩ := routeCacheUpdate_spec hone hr nowMs
        rcases hwrites.mem he hv with rfl | hmem
        · exact absurd (hkey.symm.trans hx.dstId) hdst
        · exact hmem
      · exact mem_routeCacheUpdate he hv (hkey ▸ hdst)
    · rw [routeCacheUpdate_of_not_usable hr]
      exact .inl rfl
  · rcases op.apply_cases (routeCacheAfter rcacheSize calls) nowMs with
      ⟨r, hreport, -, heq⟩ | ⟨hreport, hshrinks⟩
    · exact .inl ⟨r, hreport, heq⟩
    · refine .inr fun dstId => OneEach.lookup_cases hone (fun e he hv _ => hshrinks.mem he hv)
        fun e he hv _ => keepsFresh_apply hreport _ nowMs e he hv

/-- A route that was reported once. -/
theorem route_cache_map_reported :
    (routeCacheLookup (routeCacheAfter 32 [⟨0, .op (.update ⟨5, 6, 1, 50, 1⟩)⟩]) 5 1000).1 =
      (routeCacheAfter 32 [⟨0, .op (.update ⟨5, 6, 1, 50, 1⟩)⟩]).liveRoute 5 1000 :=
  (route_cache_map 32 [⟨0, .op (.update ⟨5, 6, 1, 50, 1⟩)⟩]).lookup 5 1000 (by decide)

end Rivr
