import Mathlib.Tactic.SplitIfs
import Rivr.Firmware.Protocol

/-!
# The congestion fabric

`firmware_core/rivr_fabric`, compiled into repeaters: a window of sixty one-second buckets that
count receptions, failed transmissions and transmissions refused by the duty cycle, the congestion
score of these counts, and what the score means for the relay of a chat or data frame. Other types
are never held back.
-/

namespace Rivr

def fabricBuckets : ℕ := 60

def rivrFabricDropThreshold : UInt8 := 80
def rivrFabricDelayThreshold : UInt8 := 50
def rivrFabricLightDelayThreshold : UInt8 := 20
def rivrFabricMaxExtraDelayMs : UInt32 := 1000
def rivrFabricBlackoutGuardScore : UInt8 := 95

/-- The counts of `fabric_bucket_t` that the score depends on. -/
structure FabricBucket where
  rxCount : UInt16
  txFailCount : UInt16
  txBlockedDc : UInt16
  deriving DecidableEq, Repr

/-- A zeroed bucket. -/
def FabricBucket.zero : FabricBucket := ⟨0, 0, 0⟩

/-- `fabric_state_t`. -/
structure FabricState where
  buckets : List FabricBucket
  lastBucketSec : UInt32
  length_buckets : buckets.length = fabricBuckets

/-- `rivr_fabric_init`. -/
def rivrFabricInit : FabricState where
  buckets := List.replicate fabricBuckets .zero
  lastBucketSec := 0
  length_buckets := List.length_replicate

/-! ### The window -/

/-- The loop of `fabric_advance`: zeroes the next `delta` buckets after that of `sec`. -/
def zeroBuckets : ℕ → UInt32 → List FabricBucket → List FabricBucket
  | 0, _, buckets => buckets
  | delta + 1, sec, buckets =>
    zeroBuckets delta (sec + 1) (buckets.set ((sec + 1) % 60).toNat .zero)

@[simp]
theorem zeroBuckets_length (delta : ℕ) (sec : UInt32) (buckets : List FabricBucket) :
    (zeroBuckets delta sec buckets).length = buckets.length := by
  induction delta generalizing sec buckets with
  | zero => rfl
  | succ delta ih => rw [zeroBuckets, ih, List.length_set]

/-- `fabric_advance`. -/
def fabricAdvance (fab : FabricState) (nowMs : UInt32) : FabricState :=
  let nowSec := nowMs / 1000
  if nowSec = fab.lastBucketSec then fab
  else
    let delta := nowSec - fab.lastBucketSec
    let delta := if delta > 60 then 60 else delta
    { buckets := zeroBuckets delta.toNat fab.lastBucketSec fab.buckets
      lastBucketSec := nowSec
      length_buckets := by simp [fab.length_buckets] }

/-- A change of the bucket that `fabric_current` points to. -/
def FabricState.count (fab : FabricState) (nowMs : UInt32) (f : FabricBucket → FabricBucket) :
    FabricState :=
  let fab := fabricAdvance fab nowMs
  { fab with
    buckets := fab.buckets.modify (fab.lastBucketSec % 60).toNat f
    length_buckets := by simp [fab.length_buckets] }

/-- `rivr_fabric_on_rx`. -/
def rivrFabricOnRx (fab : FabricState) (nowMs : UInt32) : FabricState :=
  fab.count nowMs fun b => { b with rxCount := b.rxCount + 1 }

/-- `rivr_fabric_on_tx_fail`. -/
def rivrFabricOnTxFail (fab : FabricState) (nowMs : UInt32) : FabricState :=
  fab.count nowMs fun b => { b with txFailCount := b.txFailCount + 1 }

/-- `rivr_fabric_on_tx_blocked_dc`. -/
def rivrFabricOnTxBlockedDc (fab : FabricState) (nowMs : UInt32) : FabricState :=
  fab.count nowMs fun b => { b with txBlockedDc := b.txBlockedDc + 1 }

/-! ### The score -/

/-- A count of all buckets. -/
def FabricState.total (fab : FabricState) (field : FabricBucket → UInt16) : UInt32 :=
  fab.buckets.foldl (fun sum b => sum + (field b).toUInt32) 0

/-- A hundred times a count per second of the window. -/
def FabricState.perSecX100 (fab : FabricState) (field : FabricBucket → UInt16) : UInt32 :=
  fab.total field * 100 / 60

/-- `fabric_score`, once the window has been advanced. -/
def FabricState.score (fab : FabricState) : UInt8 :=
  let score100 := fab.perSecX100 FabricBucket.rxCount * 2 +
    fab.perSecX100 FabricBucket.txBlockedDc * 25 + fab.perSecX100 FabricBucket.txFailCount * 10
  let score100 := if score100 > 10000 then 10000 else score100
  (score100 / 100).toUInt8

/-- `fabric_score`: the score, and the window it leaves. -/
def fabricScore (fab : FabricState) (nowMs : UInt32) : UInt8 × FabricState :=
  ((fabricAdvance fab nowMs).score, fabricAdvance fab nowMs)

/-! ### The decision about a relay -/

/-- `fabric_decision_t`, a delay with its length. -/
inductive FabricDecision
  | sendNow | delay (extraMs : UInt32) | drop
  deriving DecidableEq, Repr

/-- What a score means for the relay of a chat or data frame. -/
def decideByScore (score : UInt8) : FabricDecision :=
  if score ≥ rivrFabricBlackoutGuardScore then .delay rivrFabricMaxExtraDelayMs
  else if score ≥ rivrFabricDropThreshold then .drop
  else if score ≥ rivrFabricDelayThreshold then
    let extra := 250 + (score - rivrFabricDelayThreshold).toUInt32 * 10
    .delay (if extra > rivrFabricMaxExtraDelayMs then rivrFabricMaxExtraDelayMs else extra)
  else if score ≥ rivrFabricLightDelayThreshold then
    let extra := (score - rivrFabricLightDelayThreshold).toUInt32 * 10
    .delay (if extra > 300 then 300 else extra)
  else .sendNow

/-- `rivr_fabric_decide_relay` of a repeater: the decision, and the window it leaves. -/
def rivrFabricDecideRelay (fab : FabricState) (pktType : UInt8) (nowMs : UInt32) :
    FabricDecision × FabricState :=
  if pktType ≠ pktChat ∧ pktType ≠ pktData then (.sendNow, fab)
  else (decideByScore (fabricScore fab nowMs).1, (fabricScore fab nowMs).2)

/-- By how much a decision delays a relay. -/
def FabricDecision.extraMs : FabricDecision → UInt32
  | .delay extraMs => extraMs
  | _ => 0

/-- No score holds a relay back for longer than a second. -/
theorem decideByScore_extraMs_le (score : UInt8) :
    (decideByScore score).extraMs ≤ rivrFabricMaxExtraDelayMs := by
  rw [decideByScore]
  dsimp only
  split_ifs with _ _ _ hmax _ hlight
  · exact UInt32.le_refl _
  · exact UInt32.zero_le
  · exact UInt32.le_refl _
  · exact UInt32.not_lt.mp hmax
  · exact UInt32.le_iff_toNat_le.mpr (by decide)
  · exact UInt32.le_trans (UInt32.not_lt.mp hlight) (UInt32.le_iff_toNat_le.mpr (by decide))
  · exact UInt32.zero_le

theorem rivrFabricDecideRelay_extraMs_le (fab : FabricState) (pktType : UInt8) (nowMs : UInt32) :
    (rivrFabricDecideRelay fab pktType nowMs).1.extraMs ≤ rivrFabricMaxExtraDelayMs := by
  rw [rivrFabricDecideRelay]
  split_ifs
  · exact UInt32.zero_le
  · exact decideByScore_extraMs_le _

end Rivr
