import Rivr.Firmware.RouteCache

/-!
# How long a route lives

Runs of the route cache's operations at non-decreasing times, with the usable reports that
reached `routeCacheUpdate` as an observer.

A route that a lookup returns was stored by a report through its next hop, and has been kept by
the reports about the destination that came after: none was better, and no two of them, nor the
last of them and the lookup, are further apart than the expiry time (`route_cache_freshness`).
A report that is not better refreshes the route whatever next hop it names, so a next hop can
outlive the reports through it (`not_route_cache_freshness`).
-/

namespace Rivr

open SlotTable

variable {rcacheSize : ℕ}

/-! ### Operations and runs -/

/-- A call into the cache, but for the time. -/
inductive RouteCacheOp
  | update (r : RouteReport)
  | lookup (dstId : UInt32)
  | learnRx (srcId fromId : UInt32) (hopCount : UInt8) (rssiDbm : Int16) (snrDb : Int8)
  | bestHop (airtimeRouting : Bool) (ntbl : Option RivrNeighborTable) (dstId : UInt32)
  | expire

/-- The cache after a call. -/
def RouteCacheOp.apply (cache : RouteCache rcacheSize) (nowMs : UInt32) :
    RouteCacheOp → RouteCache rcacheSize
  | .update r => routeCacheUpdate cache r nowMs
  | .lookup dstId => (routeCacheLookup cache dstId nowMs).2
  | .learnRx srcId fromId hopCount rssiDbm snrDb =>
    routeCacheLearnRx cache srcId fromId hopCount rssiDbm snrDb nowMs
  | .bestHop airtimeRouting ntbl dstId =>
    (routeCacheBestHop airtimeRouting cache ntbl dstId nowMs).2.1
  | .expire => (routeCacheExpire cache nowMs).2

/-- The report a call makes, if it makes one that `route_cache_update` does not turn away. -/
def RouteCacheOp.report : RouteCacheOp → Option RouteReport
  | .update r => if r.Usable then some r else none
  | .learnRx srcId fromId hopCount rssiDbm snrDb =>
    learnRxReport srcId fromId hopCount rssiDbm snrDb
  | _ => none

/-- A report and the time it was made. -/
structure TimedReport where
  nowMs : UInt32
  report : RouteReport
  deriving DecidableEq, Repr

/-- The cache, the time of the last call and, as an observer, the reports, newest first. -/
structure RouteCacheRun (rcacheSize : ℕ) where
  cache : RouteCache rcacheSize
  nowMs : UInt32
  log : List TimedReport

/-- The start of every run. -/
def RouteCacheRun.init (rcacheSize : ℕ) [NeZero rcacheSize] : RouteCacheRun rcacheSize :=
  ⟨routeCacheInit rcacheSize, 0, []⟩

/-- One call. -/
def RouteCacheRun.call (s : RouteCacheRun rcacheSize) (nowMs : UInt32) (op : RouteCacheOp) :
    RouteCacheRun rcacheSize :=
  ⟨op.apply s.cache nowMs, nowMs, (op.report.map (TimedReport.mk nowMs)).toList ++ s.log⟩

/-- The states of the runs whose calls come at non-decreasing times. -/
inductive RouteCacheReach [NeZero rcacheSize] : RouteCacheRun rcacheSize → Prop
  | init : RouteCacheReach (.init rcacheSize)
  | call {s : RouteCacheRun rcacheSize} {nowMs : UInt32} (op : RouteCacheOp)
      (h : RouteCacheReach s) (htime : s.nowMs ≤ nowMs) : RouteCacheReach (s.call nowMs op)

/-- A call either makes one usable report, or only clears slots. -/
theorem RouteCacheOp.apply_cases (op : RouteCacheOp) (cache : RouteCache rcacheSize)
    (nowMs : UInt32) :
    (∃ r, op.report = some r ∧ r.Usable ∧ op.apply cache nowMs = routeCacheUpdate cache r nowMs) ∨
      (op.report = none ∧
        Shrinks RouteCacheEntry.Valid cache.entries (op.apply cache nowMs).entries) := by
  cases op with
  | update r =>
    by_cases hr : r.Usable
    · exact Or.inl ⟨r, if_pos hr, hr, rfl⟩
    · refine Or.inr ⟨if_neg hr, ?_⟩
      rw [RouteCacheOp.apply, routeCacheUpdate_of_not_usable hr]
      exact Shrinks.refl _
  | lookup dstId => exact Or.inr ⟨rfl, routeCacheLookup_shrinks _ _ _⟩
  | learnRx srcId fromId hopCount rssiDbm snrDb =>
    rw [RouteCacheOp.report, RouteCacheOp.apply, routeCacheLearnRx]
    rcases hreport : learnRxReport srcId fromId hopCount rssiDbm snrDb with _ | r
    · exact Or.inr ⟨rfl, Shrinks.refl _⟩
    · exact Or.inl ⟨r, rfl, learnRxReport_usable hreport, rfl⟩
  | bestHop airtimeRouting ntbl dstId => exact Or.inr ⟨rfl, routeCacheBestHop_shrinks _ _ _ _ _⟩
  | expire => exact Or.inr ⟨rfl, routeCacheExpire_shrinks _ _⟩

/-! ### The reports that keep a route -/

/-- The times of the reports about a destination. -/
def reportTimes (dstId : UInt32) (log : List TimedReport) : List UInt32 :=
  (log.filter fun x => x.report.dstId = dstId).map TimedReport.nowMs

/-- The older time is at most the expiry time before the newer one. -/
def WithinExpiry (newer older : UInt32) : Prop :=
  newer.toNat ≤ older.toNat + rcacheExpiryMs.toNat

/-- The report that stored the route, and after it the ones that kept it alive: none about the
destination was better, and they came without a gap, the last of them when the route was last
seen. -/
structure KeptBy (e : RouteCacheEntry) (later : List TimedReport) (first : TimedReport) : Prop where
  dstId : first.report.dstId = e.dstId
  nextHop : first.report.nextHop = e.nextHop
  hopCount : first.report.hopCount = e.hopCount
  metric : first.report.metric = e.metric
  notBetter : ∀ x ∈ later, x.report.dstId = e.dstId → ¬x.report.Better e
  seen : ∃ older, reportTimes e.dstId (later ++ [first]) = e.lastSeenMs :: older
  noGap : (reportTimes e.dstId (later ++ [first])).IsChain WithinExpiry

/-- The log accounts for the route. -/
def Kept (log : List TimedReport) (e : RouteCacheEntry) : Prop :=
  ∃ later first earlier, log = later ++ first :: earlier ∧ KeptBy e later first

/-- A report about another destination leaves the account as it was. -/
theorem Kept.of_other {log : List TimedReport} {e : RouteCacheEntry} (h : Kept log e)
    {x : TimedReport} (hx : x.report.dstId ≠ e.dstId) : Kept (x :: log) e := by
  obtain ⟨later, first, earlier, rfl, hkept⟩ := h
  have htimes : reportTimes e.dstId (x :: later ++ [first]) =
      reportTimes e.dstId (later ++ [first]) := by
    simp [reportTimes, hx]
  refine ⟨x :: later, first, earlier, rfl, { hkept with
    notBetter := List.forall_mem_cons.mpr ⟨fun heq => absurd heq hx, hkept.notBetter⟩
    seen := by rw [htimes]; exact hkept.seen
    noGap := by rw [htimes]; exact hkept.noGap }⟩

/-- A report just stored accounts for its route. -/
theorem kept_stored (log : List TimedReport) (x : TimedReport) :
    Kept (x :: log) (x.report.stored x.nowMs) := by
  have htimes : reportTimes x.report.dstId ([] ++ [x]) = [x.nowMs] := by simp [reportTimes]
  refine ⟨[], x, log, rfl, rfl, rfl, rfl, rfl, fun y hy => absurd hy List.not_mem_nil,
    ⟨[], htimes⟩, ?_⟩
  rw [RouteReport.stored, htimes]
  exact List.IsChain.singleton _

/-- A report that is not better prolongs the account of a live route. -/
theorem Kept.refresh {log : List TimedReport} {e : RouteCacheEntry} (h : Kept log e)
    {x : TimedReport} (hdst : e.dstId = x.report.dstId) (hnot : ¬x.report.Better e)
    (hgap : WithinExpiry x.nowMs e.lastSeenMs) :
    Kept (x :: log) { e with lastSeenMs := x.nowMs } := by
  obtain ⟨later, first, earlier, rfl, hkept⟩ := h
  obtain ⟨older, holder⟩ := hkept.seen
  have htimes : reportTimes e.dstId (x :: later ++ [first]) = x.nowMs :: e.lastSeenMs :: older := by
    rw [← holder]
    simp [reportTimes, hdst]
  refine ⟨x :: later, first, earlier, rfl, hkept.dstId, hkept.nextHop, hkept.hopCount,
    hkept.metric, List.forall_mem_cons.mpr ⟨fun _ => hnot, hkept.notBetter⟩, ⟨_, htimes⟩, ?_⟩
  have hchain := hkept.noGap
  rw [holder] at hchain
  dsimp only
  rw [htimes]
  exact hchain.cons_cons hgap

/-! ### The invariant -/

/-- The log accounts for every route in the cache, and there is one for each destination. -/
structure FreshInv (s : RouteCacheRun rcacheSize) : Prop where
  oneEach : OneEach RouteCacheEntry.Valid RouteCacheEntry.dstId s.cache.entries
  past : ∀ e ∈ s.cache.entries, e.Valid → e.lastSeenMs ≤ s.nowMs
  kept : ∀ e ∈ s.cache.entries, e.Valid → Kept s.log e

/-- For a route seen in the past, not expired means within the expiry time. -/
theorem withinExpiry_of_not_expired {e : RouteCacheEntry} {nowMs : UInt32}
    (hpast : e.lastSeenMs ≤ nowMs) (h : ¬e.Expired nowMs) : WithinExpiry nowMs e.lastSeenMs := by
  have hlt := nowMs.toNat_lt
  have hpast' : e.lastSeenMs.toNat ≤ nowMs.toNat := hpast
  simp only [RouteCacheEntry.Expired, WithinExpiry, rcacheExpiryMs, gt_iff_lt,
    UInt32.lt_iff_toNat_lt, UInt32.toNat_sub, UInt32.reduceToNat] at h ⊢
  omega

theorem freshInv_init [NeZero rcacheSize] : FreshInv (.init rcacheSize) := by
  have hempty : ∀ e ∈ (routeCacheInit rcacheSize).entries, ¬e.Valid := by
    intro e he
    rw [List.eq_of_mem_replicate he]
    exact not_valid_empty
  refine ⟨?_, fun e he hv => absurd hv (hempty e he), fun e he hv => absurd hv (hempty e he)⟩
  exact fun i j x y hx _ hvx => absurd hvx (hempty x (List.mem_of_getElem? hx))

/-- **Step lemma.** -/
theorem FreshInv.call {s : RouteCacheRun rcacheSize} (h : FreshInv s) {nowMs : UInt32}
    (htime : s.nowMs ≤ nowMs) (op : RouteCacheOp) : FreshInv (s.call nowMs op) := by
  have hpast : ∀ e ∈ s.cache.entries, e.Valid → e.lastSeenMs ≤ nowMs :=
    fun e he hv => UInt32.le_trans (h.past e he hv) htime
  rcases op.apply_cases s.cache nowMs with ⟨r, hreport, hr, happly⟩ | ⟨hreport, hshrinks⟩
  · obtain ⟨k, x, hwrites, hothers, hx⟩ := routeCacheUpdate_spec h.oneEach hr nowMs
    have hrun : s.call nowMs op = ⟨routeCacheUpdate s.cache r nowMs, nowMs, ⟨nowMs, r⟩ :: s.log⟩ := by
      rw [RouteCacheRun.call, happly, hreport]
      rfl
    have hxkept : Kept (⟨nowMs, r⟩ :: s.log) x := by
      rcases hx with _ | ⟨he, hlive, hnot⟩
      · exact kept_stored _ ⟨nowMs, r⟩
      · have hgap := withinExpiry_of_not_expired (hpast _ he hlive.2.1) hlive.2.2
        exact (h.kept _ he hlive.2.1).refresh (x := ⟨nowMs, r⟩) hlive.1 hnot hgap
    rw [hrun]
    refine ⟨hwrites.oneEach h.oneEach fun i y hik hy hvy => hx.dstId ▸ hothers hik hy hvy, ?_, ?_⟩
    · intro e he hv
      rcases hwrites.mem he hv with rfl | he
      · exact UInt32.le_of_eq hx.lastSeenMs
      · exact hpast e he hv
    · intro e he hv
      obtain ⟨i, hi⟩ := List.mem_iff_getElem?.mp he
      by_cases hik : i = k
      · rw [hik, hwrites.self] at hi
        exact Option.some.inj hi ▸ hxkept
      · have hold := List.mem_of_getElem? (hwrites.others hik hi hv)
        exact (h.kept e hold hv).of_other (Ne.symm (hothers hik hi hv))
  · have hrun : s.call nowMs op = ⟨op.apply s.cache nowMs, nowMs, s.log⟩ := by
      rw [RouteCacheRun.call, hreport]
      rfl
    rw [hrun]
    exact ⟨hshrinks.oneEach h.oneEach, fun e he hv => hpast e (hshrinks.mem he hv) hv,
      fun e he hv => h.kept e (hshrinks.mem he hv) hv⟩

/-- **Run lemma.** -/
theorem RouteCacheReach.inv [NeZero rcacheSize] {s : RouteCacheRun rcacheSize}
    (h : RouteCacheReach s) : FreshInv s := by
  induction h with
  | init => exact freshInv_init
  | call op _ htime ih => exact ih.call htime op

/-! ### Freshness -/

/-- **Route freshness.** A route that a lookup returns was stored by a report through its next
hop. Since then no report about the destination was better, and from that report on to the
lookup they came no further apart than the expiry time. -/
theorem route_cache_freshness [NeZero rcacheSize] {s : RouteCacheRun rcacheSize}
    (h : RouteCacheReach s) {dstId nowMs : UInt32} (htime : s.nowMs ≤ nowMs) {e : RouteCacheEntry}
    (he : (routeCacheLookup s.cache dstId nowMs).1 = some e) :
    ∃ later first earlier, s.log = later ++ first :: earlier ∧ first.report.dstId = dstId ∧
      first.report.nextHop = e.nextHop ∧
      (∀ x ∈ later, x.report.dstId = dstId → ¬x.report.Better (first.report.stored first.nowMs)) ∧
      (nowMs :: reportTimes dstId (later ++ [first])).IsChain WithinExpiry := by
  obtain ⟨hmem, rfl, hvalid, hexp⟩ := routeCacheLookup_eq_some he
  obtain ⟨later, first, earlier, hlog, hkept⟩ := h.inv.kept e hmem hvalid
  obtain ⟨older, holder⟩ := hkept.seen
  have hpast := UInt32.le_trans (h.inv.past e hmem hvalid) htime
  refine ⟨later, first, earlier, hlog, hkept.dstId, hkept.nextHop, ?_, ?_⟩
  · intro x hx hdst hbetter
    refine hkept.notBetter x hx hdst ?_
    rw [RouteReport.Better, ← hkept.hopCount, ← hkept.metric]
    exact hbetter
  · have hchain := hkept.noGap
    rw [holder] at hchain ⊢
    exact hchain.cons_cons (withinExpiry_of_not_expired hpast hexp)

/-- Node `0xD` is reported through `0xB`, then, with more hops, through `0xC`. -/
def sampleRefreshRun : RouteCacheRun 64 :=
  ((RouteCacheRun.init 64).call 0 (.update ⟨0xD, 0xB, 1, 60, rcacheFlagValid⟩)).call 100000
    (.update ⟨0xD, 0xC, 2, 60, rcacheFlagValid⟩)

theorem routeCacheReach_sampleRefreshRun : RouteCacheReach sampleRefreshRun :=
  .call _ (.call _ .init (by decide)) (by decide)

/-- Two hundred seconds after the only report through it, `0xB` is still the next hop. -/
theorem routeCacheLookup_sampleRefreshRun :
    (routeCacheLookup sampleRefreshRun.cache 0xD 200000).1 =
      some ⟨0xD, 0xB, 100000, 1, 60, rcacheFlagValid⟩ := by
  decide

theorem route_cache_freshness_refreshed :
    ∃ later first earlier, sampleRefreshRun.log = later ++ first :: earlier ∧
      first.report.dstId = 0xD ∧ first.report.nextHop = 0xB ∧
      (∀ x ∈ later, x.report.dstId = 0xD → ¬x.report.Better (first.report.stored first.nowMs)) ∧
      ((200000 : UInt32) :: reportTimes 0xD (later ++ [first])).IsChain WithinExpiry :=
  route_cache_freshness routeCacheReach_sampleRefreshRun (by decide)
    routeCacheLookup_sampleRefreshRun

/-- **A next hop can outlive the reports through it**: one that is not better, through another
next hop, keeps the route alive. -/
theorem not_route_cache_freshness :
    ¬∀ s : RouteCacheRun 64, RouteCacheReach s → ∀ (dstId nowMs : UInt32) (e : RouteCacheEntry),
      s.nowMs ≤ nowMs → (routeCacheLookup s.cache dstId nowMs).1 = some e →
        ∃ x ∈ s.log, x.report.dstId = dstId ∧ x.report.nextHop = e.nextHop ∧
          WithinExpiry nowMs x.nowMs := by
  intro hfresh
  obtain ⟨x, hx, -, hvia, hexpiry⟩ := hfresh sampleRefreshRun routeCacheReach_sampleRefreshRun
    0xD 200000 _ (by decide) routeCacheLookup_sampleRefreshRun
  have hlog : sampleRefreshRun.log = [⟨100000, ⟨0xD, 0xC, 2, 60, rcacheFlagValid⟩⟩,
      ⟨0, ⟨0xD, 0xB, 1, 60, rcacheFlagValid⟩⟩] := rfl
  rw [hlog] at hx
  rcases List.mem_pair.mp hx with rfl | rfl
  · exact absurd hvia (by decide)
  · exact absurd hexpiry (by decide : ¬_ ≤ _)

end Rivr
