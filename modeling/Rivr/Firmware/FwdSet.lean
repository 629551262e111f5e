import Mathlib.Tactic.SplitIfs
import Rivr.Firmware.Fabric
import Rivr.Firmware.PendingQueue
import Rivr.Firmware.Sources

/-!
# When a relay is sent

How long `sources_rf_rx_drain` holds a relayed frame back, and whether it queues it at all: the
jitter of `routing.c`, the fabric and the back-pressure of a repeater, and the forward set of
`firmware_core/fwd_set.h`, which looks at the scores of the neighbours. The three delays add up, to
1400 ms at most (`relayVerdicts_delayMs_le`).
-/

namespace Rivr

/-! ### The forward set -/

def fwdsetMax : ℕ := 3
def fwdsetMinRelayScore : UInt8 := 20
def fwdsetHoldoffMidMs : UInt32 := 50
def fwdsetHoldoffLowMs : UInt32 := 120
def fwdsetDensityDenseMs : UInt32 := 80
def fwdsetDensityMedMs : UInt32 := 40

/-- `fwd_candidate_t`. -/
structure FwdCandidate where
  nodeId : UInt32
  score : UInt8
  deriving DecidableEq, Repr

/-- `fwd_set_t`, without the count of its candidates, which is the length of the list. -/
structure FwdSet where
  candidates : List FwdCandidate
  bestDirectScore : UInt8
  directCount : UInt8
  viableCount : UInt8
  deriving DecidableEq, Repr

/-- The set before the scan. -/
def FwdSet.empty : FwdSet := ⟨[], 0, 0, 0⟩

/-- The inner loop of `fwdset_build`: a new last candidate moves up past the weaker ones. The
candidates are listed weakest first. -/
def bubbleUp (x : FwdCandidate) : List FwdCandidate → List FwdCandidate
  | [] => [x]
  | c :: cs => if x.score > c.score then c :: bubbleUp x cs else x :: c :: cs

/-- A candidate joins the set, or takes the place of the weakest one, or neither. -/
def insertCandidate (candidates : List FwdCandidate) (x : FwdCandidate) : List FwdCandidate :=
  if candidates.length < fwdsetMax then (bubbleUp x candidates.reverse).reverse
  else
    match candidates.reverse with
    | [] => candidates
    | weakest :: rest => if x.score > weakest.score then (bubbleUp x rest).reverse else candidates

/-- One neighbour in `fwdset_build`. -/
def FwdSet.consider (airtimeRouting : Bool) (nowMs : UInt32) (fs : FwdSet) (n : RivrNeighbor) :
    FwdSet :=
  if n.neighborId = 0 then fs
  else if nowMs - n.lastSeenMs > ntableStaleMs then fs
  else
    let sc := neighborLinkScoreFull airtimeRouting n nowMs
    let fs := if n.flags &&& ntableFlagDirect ≠ 0 then
        { fs with
          directCount := fs.directCount + 1
          bestDirectScore := if sc > fs.bestDirectScore then sc else fs.bestDirectScore }
      else fs
    let fs := if sc ≥ fwdsetMinRelayScore then { fs with viableCount := fs.viableCount + 1 } else fs
    -- a neighbour below the viable score can still be a candidate
    { fs with candidates := insertCandidate fs.candidates ⟨n.neighborId, sc⟩ }

/-- `fwdset_build`. -/
def fwdsetBuild (airtimeRouting : Bool) (ntbl : RivrNeighborTable) (nowMs : UInt32) : FwdSet :=
  ntbl.entries.foldl (FwdSet.consider airtimeRouting nowMs) .empty

/-- `fwdset_suppress_relay`. -/
def fwdsetSuppressRelay (fs : FwdSet) : Bool :=
  if fs.viableCount = 0 then false else fs.bestDirectScore < fwdsetMinRelayScore

/-- The quality tier of the hold-off. -/
def FwdSet.qualityMs (fs : FwdSet) : UInt32 :=
  if fs.bestDirectScore ≥ 70 then 0
  else if fs.bestDirectScore ≥ 40 then fwdsetHoldoffMidMs
  else if fs.bestDirectScore ≥ fwdsetMinRelayScore then fwdsetHoldoffLowMs
  else 0

/-- The density tier of the hold-off. -/
def FwdSet.densityMs (fs : FwdSet) : UInt32 :=
  if fs.viableCount ≥ 4 then fwdsetDensityDenseMs
  else if fs.viableCount ≥ 2 then fwdsetDensityMedMs
  else 0

/-- `fwdset_extra_holdoff_ms`. -/
def fwdsetExtraHoldoffMs (fs : FwdSet) : UInt32 := fs.qualityMs + fs.densityMs

/-! ### The jitter -/

def forwardJitterMaxMs : UInt32 := 200

/-- `routing_forward_delay_ms`. -/
def routingForwardDelayMs (srcId : UInt32) (pktId : UInt16) (pktType : UInt8) : UInt32 :=
  let x := srcId ^^^ pktId.toUInt32 ^^^ pktType.toUInt32 <<< 24
  let x := x ^^^ x <<< 13
  let x := x ^^^ x >>> 17
  let x := x ^^^ x <<< 5
  x % (forwardJitterMaxMs + 1)

/-! ### The gates of a relay -/

/-- A build, with the switch of the fabric. -/
structure RelayBuild extends BuildConfig where
  fabricRepeater : Bool

/-- `rivr_fabric_decide_relay` of a build, without the window it leaves: that has been advanced
when the frame was counted. -/
def RelayBuild.fabricDecision (build : RelayBuild) (fab : FabricState) (pktType : UInt8)
    (nowMs : UInt32) : FabricDecision :=
  if build.fabricRepeater then (rivrFabricDecideRelay fab pktType nowMs).1 else .sendNow

/-- `pending_queue_pressure`. -/
def pendingQueuePressure (pq : PendingQueue) : UInt8 :=
  (pq.count.toUInt32 * 100 / UInt32.ofNat pendingQueueSize).toUInt8

/-- The back-pressure gate of a repeater stops the relay. -/
def RelayBuild.backpressure (build : RelayBuild) (pq : PendingQueue) (pktType : UInt8) : Bool :=
  build.fabricRepeater && (pktType = pktChat ∨ pktType = pktData) && pendingQueuePressure pq ≥ 75

/-- What step 7 of `sources_rf_rx_drain` decides about the relay of a frame, on the node that the
handlers have left. -/
def relayVerdicts (build : RelayBuild) (fab : FabricState)
    (node : RadioNode build.toBuildConfig) (hdr : RivrPktHdr) (nowMs : UInt32) : RxVerdicts :=
  let fabDec := build.fabricDecision fab hdr.pktType nowMs
  let fs := fwdsetBuild build.airtimeRouting node.ntbl nowMs
  { busAccepts := true
    relayGates := fabDec ≠ .drop && !build.backpressure node.pendingQueue hdr.pktType &&
      !fwdsetSuppressRelay fs
    delayMs := routingForwardDelayMs hdr.srcId hdr.pktId hdr.pktType + fabDec.extraMs +
      fwdsetExtraHoldoffMs fs }

/-! ### Control frames -/

/-- The fabric and the back-pressure look at chat and data frames only. -/
theorem relayVerdicts_relayGates (build : RelayBuild) (fab : FabricState)
    (node : RadioNode build.toBuildConfig) {hdr : RivrPktHdr} (nowMs : UInt32)
    (hchat : hdr.pktType ≠ pktChat) (hdata : hdr.pktType ≠ pktData) :
    (relayVerdicts build fab node hdr nowMs).relayGates =
      !fwdsetSuppressRelay (fwdsetBuild build.airtimeRouting node.ntbl nowMs) := by
  have hfabric : build.fabricDecision fab hdr.pktType nowMs = .sendNow := by
    have hsend : rivrFabricDecideRelay fab hdr.pktType nowMs = (.sendNow, fab) :=
      if_pos ⟨hchat, hdata⟩
    rw [RelayBuild.fabricDecision, hsend]
    split_ifs <;> rfl
  have hpressure : build.backpressure node.pendingQueue hdr.pktType = false := by
    rw [RelayBuild.backpressure]
    simp [hchat, hdata]
  rw [relayVerdicts]
  simp [hfabric, hpressure]

/-- Bringing the stale flag up to date leaves the direct flag alone. -/
theorem refreshStale_direct (n : RivrNeighbor) (nowMs : UInt32) :
    (n.refreshStale nowMs).flags &&& ntableFlagDirect = n.flags &&& ntableFlagDirect := by
  have hset : (n.flags ||| ntableFlagStale) &&& ntableFlagDirect = n.flags &&& ntableFlagDirect := by
    refine UInt8.toBitVec_inj.mp ?_
    rw [UInt8.toBitVec_and, UInt8.toBitVec_or, BitVec.and_or_distrib_right, UInt8.toBitVec_and]
    exact BitVec.or_zero
  have hclear : n.flags &&& ~~~ntableFlagStale &&& ntableFlagDirect =
      n.flags &&& ntableFlagDirect := by
    rw [UInt8.and_assoc]
    rfl
  rw [RivrNeighbor.refreshStale]
  split_ifs
  · exact hset
  · exact hclear

/-- A neighbour counts the same whether its stale flag is up to date or not. -/
theorem consider_refreshStale (airtimeRouting : Bool) (nowMs : UInt32) (fs : FwdSet)
    (n : RivrNeighbor) :
    fs.consider airtimeRouting nowMs (n.refreshStale nowMs) = fs.consider airtimeRouting nowMs n := by
  have hdirect := refreshStale_direct n nowMs
  have hsame : ∃ flags, n.refreshStale nowMs = { n with flags := flags } := by
    rw [RivrNeighbor.refreshStale]
    split_ifs <;> exact ⟨_, rfl⟩
  obtain ⟨flags, hflags⟩ := hsame
  rw [hflags] at hdirect ⊢
  rw [FwdSet.consider, FwdSet.consider, hdirect]
  rfl

theorem foldl_consider_neighborScan (airtimeRouting : Bool) (nodeId nowMs : UInt32)
    (ns : List RivrNeighbor) (fs : FwdSet) :
    (neighborScan nodeId nowMs ns).2.foldl (FwdSet.consider airtimeRouting nowMs) fs =
      ns.foldl (FwdSet.consider airtimeRouting nowMs) fs := by
  induction ns generalizing fs with
  | nil => rfl
  | cons n ns ih =>
    rw [neighborScan]
    split_ifs
    · exact ih _
    · rfl
    · rw [List.foldl_cons, consider_refreshStale, List.foldl_cons]

/-- Looking a neighbour up does not change the forward set. -/
theorem fwdsetBuild_neighborFind (airtimeRouting : Bool) (tbl : RivrNeighborTable)
    (nodeId nowMs : UInt32) :
    fwdsetBuild airtimeRouting (neighborFind tbl nodeId nowMs).2 nowMs =
      fwdsetBuild airtimeRouting tbl nowMs := by
  rw [neighborFind]
  split_ifs
  · rfl
  · rw [fwdsetBuild, fwdsetBuild, List.foldl_append, foldl_consider_neighborScan,
      ← List.foldl_append, List.take_append_drop]

/-! ### How long a relay is held back -/

theorem fwdsetExtraHoldoffMs_toNat_le (fs : FwdSet) : (fwdsetExtraHoldoffMs fs).toNat ≤ 200 := by
  rw [fwdsetExtraHoldoffMs, FwdSet.qualityMs, FwdSet.densityMs]
  split_ifs <;> decide

theorem routingForwardDelayMs_toNat_le (srcId : UInt32) (pktId : UInt16) (pktType : UInt8) :
    (routingForwardDelayMs srcId pktId pktType).toNat ≤ 200 := by
  rw [routingForwardDelayMs, UInt32.toNat_mod]
  exact Nat.le_of_lt_succ (Nat.mod_lt _ (by decide))

theorem RelayBuild.fabricDecision_toNat_le (build : RelayBuild) (fab : FabricState)
    (pktType : UInt8) (nowMs : UInt32) :
    (build.fabricDecision fab pktType nowMs).extraMs.toNat ≤ 1000 := by
  rw [RelayBuild.fabricDecision]
  split_ifs
  · exact UInt32.le_iff_toNat_le.mp (rivrFabricDecideRelay_extraMs_le fab pktType nowMs)
  · exact Nat.zero_le _

/-- **The hold-off.** Jitter, fabric and forward set together delay a relay by 1400 ms at most. -/
theorem relayVerdicts_delayMs_le (build : RelayBuild) (fab : FabricState)
    (node : RadioNode build.toBuildConfig) (hdr : RivrPktHdr) (nowMs : UInt32) :
    (relayVerdicts build fab node hdr nowMs).delayMs.toNat ≤ 1400 := by
  have hjitter := routingForwardDelayMs_toNat_le hdr.srcId hdr.pktId hdr.pktType
  have hfabric := build.fabricDecision_toNat_le fab hdr.pktType nowMs
  have hset := fwdsetExtraHoldoffMs_toNat_le (fwdsetBuild build.airtimeRouting node.ntbl nowMs)
  rw [relayVerdicts]
  dsimp only
  rw [UInt32.toNat_add, UInt32.toNat_add]
  omega

end Rivr
