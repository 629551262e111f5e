import Rivr.Firmware.Reception

/-!
# What a node learns from a route reply

A lookup right after an update finds the report, or the live route it was not better than
(`routeCacheLookup_routeCacheUpdate`). From this, when what a node stores on a route reply is
sound, that is, farther than the replier said and behind a node heard directly: when the 8-bit sum
of the hop counts does not wrap, and the immediate sender of the reply is known or its source was
heard directly before (`route_rpl_learning_sound_iff`).
-/

namespace Rivr

variable {rcacheSize : ℕ} {cfg : BuildConfig}

/-! ### A lookup after an update -/

theorem not_expired_now {e : RouteCacheEntry} {nowMs : UInt32} (h : e.lastSeenMs = nowMs) :
    ¬e.Expired nowMs := by
  rw [RouteCacheEntry.Expired, h, UInt32.sub_self]
  decide

theorem or_and_rcacheFlagValid (flags : UInt8) :
    (flags ||| rcacheFlagValid) &&& rcacheFlagValid = rcacheFlagValid := by
  apply UInt8.toBitVec_inj.mp
  simp only [UInt8.toBitVec_and, UInt8.toBitVec_or]
  ext i hi
  simp only [BitVec.getElem_and, BitVec.getElem_or]
  cases flags.toBitVec[i] <;> simp

/-- A stored report is live at once. -/
theorem liveFor_stored (r : RouteReport) (nowMs : UInt32) :
    (r.stored nowMs).LiveFor r.dstId nowMs := by
  refine ⟨rfl, ?_, not_expired_now rfl⟩
  rw [RouteCacheEntry.Valid, RouteReport.stored, or_and_rcacheFlagValid]
  decide

/-- A live route is live after a report. -/
theorem liveFor_refresh {e : RouteCacheEntry} {r : RouteReport} {nowMs : UInt32}
    (hdst : e.dstId = r.dstId) (hvalid : e.Valid) : (e.refresh r nowMs).LiveFor r.dstId nowMs := by
  by_cases h : r.Better e
  · rw [refresh_of_better hdst h]
    exact liveFor_stored r nowMs
  · rw [refresh_of_not_better h]
    exact ⟨hdst, hvalid, not_expired_now rfl⟩

theorem lookupScan_cons_of_liveFor {dstId nowMs : UInt32} {x : RouteCacheEntry}
    (h : x.LiveFor dstId nowMs) (es : List RouteCacheEntry) :
    (lookupScan dstId nowMs (x :: es)).1 = some x := by
  obtain ⟨hdst, hvalid, hexp⟩ := h
  rw [lookupScan, if_pos hdst, if_neg fun hold => hexp hold.2, if_pos hvalid]

theorem lookupScan_cons_of_not {dstId nowMs : UInt32} {x : RouteCacheEntry}
    (h : ¬(x.dstId = dstId ∧ x.Valid)) (es : List RouteCacheEntry) :
    (lookupScan dstId nowMs (x :: es)).1 = (lookupScan dstId nowMs es).1 := by
  rw [lookupScan]
  split_ifs with hdst hexp hvalid
  · exact absurd ⟨hdst, hexp.1⟩ h
  · exact absurd ⟨hdst, hvalid⟩ h
  · rfl
  · rfl

/-- A lookup meets an entry that was written where no slot was for its destination. -/
theorem lookupScan_set {dstId nowMs : UInt32} {x : RouteCacheEntry} (hx : x.LiveFor dstId nowMs)
    {es : List RouteCacheEntry} (hother : ∀ y ∈ es, y.Valid → y.dstId ≠ dstId) {idx : ℕ}
    (hidx : idx < es.length) : (lookupScan dstId nowMs (es.set idx x)).1 = some x := by
  induction es generalizing idx with
  | nil => exact absurd hidx (Nat.not_lt_zero _)
  | cons y es ih =>
    obtain ⟨hy, hes⟩ := List.forall_mem_cons.mp hother
    cases idx with
    | zero => exact lookupScan_cons_of_liveFor hx es
    | succ idx =>
      rw [List.set_cons_succ, lookupScan_cons_of_not fun h => hy h.2 h.1]
      exact ih hes (Nat.lt_of_succ_lt_succ hidx)

/-- A lookup meets the live route that an update refreshed. -/
theorem lookupScan_updateScan {r : RouteReport} {nowMs : UInt32} {es : List RouteCacheEntry}
    {e : RouteCacheEntry} (h : firstLive es r.dstId nowMs = some e) :
    (lookupScan r.dstId nowMs (updateScan r nowMs es).2).1 = some (e.refresh r nowMs) := by
  induction es with
  | nil => exact nomatch h
  | cons x es ih =>
    rw [updateScan]
    split_ifs with hx
    · have hlive := liveFor_iff_expireEntry.mpr hx
      rw [firstLive_cons_of_liveFor hlive] at h
      obtain rfl : x = e := Option.some.inj h
      rw [expireEntry_eq hx.2]
      exact lookupScan_cons_of_liveFor (liveFor_refresh hlive.1 hlive.2.1) es
    · rw [firstLive_cons_of_not fun hlive => hx (liveFor_iff_expireEntry.mp hlive)] at h
      rw [lookupScan_cons_of_not hx]
      exact ih h

/-- **A lookup after an update.** -/
theorem routeCacheLookup_routeCacheUpdate (cache : RouteCache rcacheSize) {r : RouteReport}
    (hr : r.Usable) (nowMs : UInt32) :
    (routeCacheLookup (routeCacheUpdate cache r nowMs) r.dstId nowMs).1 =
      some (match firstLive cache.entries r.dstId nowMs with
        | some e => e.refresh r nowMs
        | none => r.stored nowMs) := by
  rw [routeCacheLookup, if_neg hr.1, routeCacheUpdate, if_neg (not_not.mpr hr)]
  dsimp only
  cases hlive : firstLive cache.entries r.dstId nowMs with
  | some e =>
    rw [if_pos (updateScan_found hlive).1]
    exact lookupScan_updateScan hlive
  | none =>
    obtain ⟨hmissed, -, hother⟩ := updateScan_missed hlive
    obtain ⟨idx, hidx, hset⟩ := insert_spec { cache with
      entries := (updateScan r nowMs cache.entries).2
      length_entries := by simp [cache.length_entries] } r nowMs
    rw [if_neg (Bool.eq_false_iff.mp hmissed), hset]
    exact lookupScan_set (liveFor_stored r nowMs) hother hidx

/-- A report the cache takes is what a lookup finds then. -/
theorem RouteCache.Takes.lookup {cache : RouteCache rcacheSize} {r : RouteReport} {nowMs : UInt32}
    (h : cache.Takes r nowMs) :
    (routeCacheLookup (routeCacheUpdate cache r nowMs) r.dstId nowMs).1 =
      some (r.stored nowMs) := by
  rw [routeCacheLookup_routeCacheUpdate cache h.1]
  cases hlive : firstLive cache.entries r.dstId nowMs with
  | none => rfl
  | some e =>
    exact congrArg some (refresh_of_better (firstLive_eq_some hlive).2.1 (h.2 e hlive))

/-! ### Route replies -/

/-- The node was heard directly: it is the immediate sender of one of the frames. -/
def HeardDirectly (rx : List RfRxFrame) (n : UInt32) : Prop :=
  n ≠ 0 ∧ ∃ frame ∈ rx, ∃ hdr pl,
    protocolDecode frame.data (UInt8.ofNat frame.data.length) = some (hdr, pl) ∧
      immediateSender frame hdr = n

/-- A route reply that reaches its handler. -/
structure RadioNode.ReceivesRpl (node : RadioNode cfg) (env : RxVerdicts) (frame : RfRxFrame)
    (hdr : RivrPktHdr) (pl : Option (List UInt8)) (rpl : RouteRpl) (nowMs : UInt32) : Prop where
  accepts : node.Accepts env frame hdr pl nowMs
  type : hdr.pktType = pktRouteRpl
  parsed : parseRouteRpl hdr pl = some rpl

/-- What a node reports to its cache on a route reply, with the metric it computes. -/
def RadioNode.learnedReport (node : RadioNode cfg) (frame : RfRxFrame) (hdr : RivrPktHdr)
    (rpl : RouteRpl) (nowMs : UInt32) : RouteReport :=
  rplReport frame hdr rpl (rplMetric cfg.airtimeRouting
    (neighborFind node.ntbl (effectiveNextHop frame hdr) nowMs).1 frame nowMs)

/-- The cache after a route reply. -/
theorem rfRxFrame_routeCache_of_rpl {node : RadioNode cfg} {env : RxVerdicts} {frame : RfRxFrame}
    {hdr : RivrPktHdr} {pl : Option (List UInt8)} {rpl : RouteRpl} {nowMs : UInt32}
    (h : node.ReceivesRpl env frame hdr pl rpl nowMs) :
    (rfRxFrame node env frame nowMs).1.routeCache =
      routeCacheUpdate (node.received frame hdr nowMs).routeCache
        ((node.received frame hdr nowMs).learnedReport frame hdr rpl nowMs) nowMs := by
  obtain ⟨policy, txQueue, hrelay⟩ := relayed_eq
    ((node.received frame hdr nowMs).handle frame hdr pl nowMs) env frame
    (node.floodDecision frame hdr nowMs) pl nowMs
  obtain ⟨ctrlSeq, txQueue', hack⟩ := sendAck_eq (node.received frame hdr nowMs) hdr
  have hhandle : ((node.received frame hdr nowMs).handle frame hdr pl nowMs).node =
      ((node.received frame hdr nowMs).sendAck hdr).handleRouteRpl frame hdr pl nowMs := by
    rw [RadioNode.handle, h.type]
    rfl
  rw [rfRxFrame_of_accepts h.accepts, hrelay, hhandle, hack, RadioNode.handleRouteRpl, h.parsed]
  rfl

/-- What a node stores on a route reply is sound: a lookup finds a route to the target that is
longer than the one the replier has, behind a node heard directly. -/
def RadioNode.LearnsSoundly (node : RadioNode cfg) (env : RxVerdicts) (frame : RfRxFrame)
    (hdr : RivrPktHdr) (rpl : RouteRpl) (earlier : List RfRxFrame) (nowMs : UInt32) : Prop :=
  (node.received frame hdr nowMs).routeCache.Takes
      ((node.received frame hdr nowMs).learnedReport frame hdr rpl nowMs) nowMs →
    ∃ e, (routeCacheLookup (rfRxFrame node env frame nowMs).1.routeCache rpl.targetId
        nowMs).1 = some e ∧
      rpl.hopCount < e.hopCount ∧ HeardDirectly (frame :: earlier) e.nextHop

/-- What a lookup finds after a route reply that the cache takes. -/
theorem routeCacheLookup_rfRxFrame_of_rpl {node : RadioNode cfg} {env : RxVerdicts}
    {frame : RfRxFrame} {hdr : RivrPktHdr} {pl : Option (List UInt8)} {rpl : RouteRpl}
    {nowMs : UInt32} (h : node.ReceivesRpl env frame hdr pl rpl nowMs)
    (htakes : (node.received frame hdr nowMs).routeCache.Takes
      ((node.received frame hdr nowMs).learnedReport frame hdr rpl nowMs) nowMs) :
    (routeCacheLookup (rfRxFrame node env frame nowMs).1.routeCache rpl.targetId nowMs).1 =
      some (((node.received frame hdr nowMs).learnedReport frame hdr rpl nowMs).stored nowMs) := by
  rw [rfRxFrame_routeCache_of_rpl h]
  exact htakes.lookup

/-- The 8-bit sum of the hop counts exceeds the first exactly when it does not wrap. -/
theorem lt_hop_sum_iff (a b : UInt8) : a < a + b + 1 ↔ a.toNat + b.toNat + 1 ≤ 255 := by
  have ha := a.toNat_lt
  have hb := b.toNat_lt
  rw [UInt8.lt_iff_toNat_lt, UInt8.toNat_add, UInt8.toNat_add]
  simp only [UInt8.reduceToNat]
  omega

/-- The next hop toward a replier was heard directly when its reply names the immediate sender,
and otherwise when the source of the reply was heard directly before. -/
theorem heardDirectly_effectiveNextHop_iff {frame : RfRxFrame} {hdr : RivrPktHdr}
    {pl : Option (List UInt8)}
    (hdec : protocolDecode frame.data (UInt8.ofNat frame.data.length) = some (hdr, pl))
    (earlier : List RfRxFrame) :
    HeardDirectly (frame :: earlier) (effectiveNextHop frame hdr) ↔
      immediateSender frame hdr ≠ 0 ∨ HeardDirectly earlier hdr.srcId := by
  rw [effectiveNextHop]
  split_ifs with hsender
  · refine iff_of_true ⟨hsender, frame, List.mem_cons_self, hdr, pl, hdec, rfl⟩ (Or.inl hsender)
  · constructor
    · rintro ⟨hne, f, hf, hdr', pl', hdec', heq⟩
      rcases List.mem_cons.mp hf with rfl | hf
      · -- the reply itself does not say who sent it
        rw [hdec] at hdec'
        obtain ⟨rfl, rfl⟩ := Prod.mk.inj (Option.some.inj hdec')
        rw [not_not.mp hsender] at heq
        exact absurd heq.symm hne
      · exact Or.inr ⟨hne, f, hf, hdr', pl', hdec', heq⟩
    · rintro (hknown | ⟨hne, f, hf, hrest⟩)
      · exact absurd hknown hsender
      · exact ⟨hne, f, List.mem_cons_of_mem _ hf, hrest⟩

/-- The immediate sender is known when the radio names it, or the frame was not relayed. -/
theorem immediateSender_ne_zero_iff {frame : RfRxFrame} {hdr : RivrPktHdr} :
    immediateSender frame hdr ≠ 0 ↔ frame.fromId ≠ 0 ∨ (hdr.hop = 0 ∧ hdr.srcId ≠ 0) := by
  rw [immediateSender]
  split_ifs with h
  · exact ⟨fun hsrc => Or.inr ⟨h.2, hsrc⟩, fun hor => hor.elim (absurd h.1) And.right⟩
  · refine ⟨Or.inl, fun hor => hor.elim id fun hhop hfrom => h ⟨hfrom, hhop.1⟩⟩

/-- **Learning from route replies.** What a node stores on a route reply is sound exactly when
the sum of the advertised hop count, the hops of the reply and one fits in 8 bits, and the reply
says who transmitted it or comes from a node that was heard directly before. -/
theorem route_rpl_learning_sound_iff {node : RadioNode cfg} {env : RxVerdicts} {frame : RfRxFrame}
    {hdr : RivrPktHdr} {pl : Option (List UInt8)} {rpl : RouteRpl} {nowMs : UInt32}
    (h : node.ReceivesRpl env frame hdr pl rpl nowMs) (earlier : List RfRxFrame) :
    node.LearnsSoundly env frame hdr rpl earlier nowMs ↔
      ((node.received frame hdr nowMs).routeCache.Takes
          ((node.received frame hdr nowMs).learnedReport frame hdr rpl nowMs) nowMs →
        rpl.hopCount.toNat + hdr.hop.toNat + 1 ≤ 255 ∧
          (frame.fromId ≠ 0 ∨ (hdr.hop = 0 ∧ hdr.srcId ≠ 0) ∨
            HeardDirectly earlier hdr.srcId)) := by
  rw [RadioNode.LearnsSoundly]
  refine forall_congr' fun htakes => ?_
  rw [routeCacheLookup_rfRxFrame_of_rpl h htakes, ← lt_hop_sum_iff, ← or_assoc,
    ← immediateSender_ne_zero_iff, ← heardDirectly_effectiveNextHop_iff h.accepts.decoded]
  constructor
  · rintro ⟨e, he, hsound⟩
    obtain rfl := Option.some.inj he
    exact hsound
  · exact fun hsound => ⟨_, rfl, hsound⟩

/-! ### Two replies -/

/-- A reply about a route of so many hops to `0xD`. -/
def sampleRpl (hops : UInt8) : RouteRpl := ⟨0xD, 0xC, hops⟩

/-- Its header, as `0xB` sends it to `0xA`. -/
def sampleRplHdr : RivrPktHdr := controlHdr pktRouteRpl 0xB 0xA 1 1 routeRplPayloadLen

/-- The reply as it is received. -/
def sampleRplFrame (hops : UInt8) : RfRxFrame :=
  ⟨wireFrame sampleRplHdr (sampleRpl hops).bytes, -60, 10, 0⟩

theorem receivesRpl_sampleRplFrame (hops : UInt8) :
    freshClient.ReceivesRpl ⟨true, true, 0⟩ (sampleRplFrame hops) sampleRplHdr
      (some (sampleRpl hops).bytes) (sampleRpl hops) 1000 where
  accepts := {
    decoded := protocolDecode_control (by decide) rfl (by decide) (List.cons_ne_nil _ _) 0xB 0xA 1 1
    network := Or.inl rfl
    bus := rfl
    fresh := by decide }
  type := rfl
  parsed := parseRouteRpl_bytes _ rfl

theorem takes_sampleRplFrame :
    (freshClient.received (sampleRplFrame 255) sampleRplHdr 1000).routeCache.Takes
      ((freshClient.received (sampleRplFrame 255) sampleRplHdr 1000).learnedReport
        (sampleRplFrame 255) sampleRplHdr (sampleRpl 255) 1000) 1000 := by
  have hnone : firstLive
      (freshClient.received (sampleRplFrame 255) sampleRplHdr 1000).routeCache.entries 0xD 1000 =
        none := by decide +kernel
  have husable : (0xD : UInt32) ≠ 0 ∧ (0xB : UInt32) ≠ 0 := by decide
  exact ⟨husable, fun e he => nomatch hnone.symm.trans he⟩

/-- A reply about one hop is learned soundly. -/
theorem learnsSoundly_sampleRpl_one :
    freshClient.LearnsSoundly ⟨true, true, 0⟩ (sampleRplFrame 1) sampleRplHdr (sampleRpl 1) []
      1000 := by
  have hfits : (1 : UInt8).toNat + (0 : UInt8).toNat + 1 ≤ 255 := by decide
  refine (route_rpl_learning_sound_iff (receivesRpl_sampleRplFrame 1) []).mpr fun _ => ⟨hfits, ?_⟩
  exact Or.inr (Or.inl (by decide))

/-- **The failing input.** On a reply about 255 hops a client stores a route of none. -/
theorem not_route_rpl_learning_sound :
    ¬∀ (node : RadioNode clientBuild) (env : RxVerdicts) (frame : RfRxFrame) (hdr : RivrPktHdr)
      (pl : Option (List UInt8)) (rpl : RouteRpl) (earlier : List RfRxFrame) (nowMs : UInt32),
      node.ReceivesRpl env frame hdr pl rpl nowMs →
        node.LearnsSoundly env frame hdr rpl earlier nowMs := by
  intro hall
  have hrpl := receivesRpl_sampleRplFrame 255
  obtain ⟨e, he, hlt, -⟩ := hall _ _ _ _ _ _ [] _ hrpl takes_sampleRplFrame
  rw [routeCacheLookup_rfRxFrame_of_rpl hrpl takes_sampleRplFrame] at he
  obtain rfl := Option.some.inj he
  exact absurd hlt (by decide)

end Rivr
