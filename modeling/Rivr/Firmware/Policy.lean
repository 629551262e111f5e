import Rivr.Firmware.Protocol
import Mathlib.Tactic.SplitIfs

/-!
# The relay policy

`firmware_core/policy.c`: a cap on the TTL of relayed chat and data frames, and a bucket of
tokens for each class of sources. Control frames pass.
-/

namespace Rivr

def policyTtlChat : UInt8 := 12
def policyTtlMetrics : UInt8 := 6
def policyTtlBulk : UInt8 := 4
def policyBucketCount : ℕ := 16
def policyBucketInitTokens : UInt8 := 4
def policyRefillTokensPerS : UInt32 := 1
def policyMaxTokens : UInt32 := 4

/-- `rivr_class_t`. -/
inductive RivrClass
  | control | chat | metrics | bulk
  deriving DecidableEq, Repr

/-- `policy_classify`. -/
def policyClassify (pktType : UInt8) : RivrClass :=
  if pktType = pktChat then .chat else if pktType = pktData then .bulk else .control

/-- The TTL cap of a class; 0 is no cap. -/
def RivrClass.ttlCap : RivrClass → UInt8
  | .control => 0
  | .chat => policyTtlChat
  | .metrics => policyTtlMetrics
  | .bulk => policyTtlBulk

/-- `policy_bucket_t`. -/
structure PolicyBucket where
  tokens : UInt8
  lastRefill : UInt32
  deriving DecidableEq, Repr

/-- `policy_state_t`. -/
structure PolicyState where
  buckets : List PolicyBucket
  length_buckets : buckets.length = policyBucketCount

/-- `policy_init`. -/
def policyInit : PolicyState where
  buckets := List.replicate policyBucketCount ⟨policyBucketInitTokens, 0⟩
  length_buckets := List.length_replicate

/-- The refill of a bucket: a token for each whole second since the last one. -/
def PolicyBucket.refill (b : PolicyBucket) (nowMs : UInt32) : PolicyBucket :=
  if nowMs ≥ b.lastRefill then
    let elapsedS := (nowMs - b.lastRefill) / 1000
    if elapsedS > 0 then
      let newTok := b.tokens.toUInt32 + elapsedS * policyRefillTokensPerS
      ⟨(if newTok > policyMaxTokens then policyMaxTokens else newTok).toUInt8,
        b.lastRefill + elapsedS * 1000⟩
    else b
  else { b with lastRefill := nowMs }

/-- `rivr_policy_verdict_t`. -/
inductive RivrPolicyVerdict
  | pass | ttlClamp | drop
  deriving DecidableEq, Repr

/-- The TTL half of `policy_check`: the verdict, and the TTL to relay with. -/
def policyTtl (hdr : RivrPktHdr) : RivrPolicyVerdict × UInt8 :=
  let cap := (policyClassify hdr.pktType).ttlCap
  if cap > 0 ∧ hdr.ttl > cap then (.ttlClamp, cap) else (.pass, hdr.ttl)

/-- `policy_check`: the verdict, the TTL it leaves, and the state it leaves. -/
def policyCheck (ps : PolicyState) (hdr : RivrPktHdr) (nowMs : UInt32) :
    RivrPolicyVerdict × UInt8 × PolicyState :=
  let (verdict, ttl) := policyTtl hdr
  if policyClassify hdr.pktType = .control then (verdict, ttl, ps)
  else
    let idx := hdr.srcId.toNat % policyBucketCount
    let b := (ps.buckets.getD idx ⟨0, 0⟩).refill nowMs
    if b.tokens = 0 then
      (.drop, ttl, ⟨ps.buckets.set idx b, by simp [ps.length_buckets]⟩)
    else
      (verdict, ttl,
        ⟨ps.buckets.set idx { b with tokens := b.tokens - 1 }, by simp [ps.length_buckets]⟩)

/-- The policy never raises a TTL. -/
theorem policyCheck_ttl_le (ps : PolicyState) (hdr : RivrPktHdr) (nowMs : UInt32) :
    (policyCheck ps hdr nowMs).2.1 ≤ hdr.ttl := by
  have hle : (policyTtl hdr).2 ≤ hdr.ttl := by
    simp only [policyTtl]
    split_ifs with h
    · exact UInt8.le_of_lt h.2
    · exact UInt8.le_refl _
  simp only [policyCheck]
  split_ifs <;> exact hle

end Rivr
