import Rivr.Firmware.Fabric
import Rivr.ForMathlib.BucketRing

/-!
# What the congestion score counts

The window of the fabric against the history of a repeater: after any events at non-decreasing
times, the sums of the ring are the numbers of events in the last sixty seconds, and the score is
the weighted formula of them (`fabric_congestion`). A second law compares two scores: the decision
is more restrictive for the higher one, except that the blackout guard turns drops into delays, and
that the heavy delays begin below the end of the light ones (`fabric_monotone`).
-/

open BucketRing

namespace Rivr

/-! ### Histories -/

/-- The counts that the score reads. -/
inductive FabricCounter
  | rx | txFail | txBlockedDc
  deriving DecidableEq, Repr

/-- The field of a bucket. -/
def FabricCounter.field : FabricCounter → FabricBucket → UInt16
  | .rx => FabricBucket.rxCount
  | .txFail => FabricBucket.txFailCount
  | .txBlockedDc => FabricBucket.txBlockedDc

/-- What a repeater tells the fabric. -/
inductive FabricEvent
  /-- An event that is counted for the score. -/
  | counted (counter : FabricCounter)
  /-- `rivr_fabric_tick`, or a transmission that was enqueued or sent, which the score ignores. -/
  | ignored
  /-- `rivr_fabric_decide_relay`. -/
  | decideRelay (pktType : UInt8)
  deriving DecidableEq, Repr

/-- A call of the fabric. -/
structure FabricCall where
  nowMs : UInt32
  event : FabricEvent
  deriving DecidableEq, Repr

/-- The second of a call. -/
def FabricCall.sec (c : FabricCall) : ℕ := c.nowMs.toNat / 1000

/-- The window after a call. -/
def FabricState.call (fab : FabricState) (c : FabricCall) : FabricState :=
  match c.event with
  | .counted .rx => rivrFabricOnRx fab c.nowMs
  | .counted .txFail => rivrFabricOnTxFail fab c.nowMs
  | .counted .txBlockedDc => rivrFabricOnTxBlockedDc fab c.nowMs
  | .ignored => fabricAdvance fab c.nowMs
  | .decideRelay pktType => (rivrFabricDecideRelay fab pktType c.nowMs).2

/-- The window after a history. -/
def fabricAfter (calls : List FabricCall) : FabricState :=
  calls.foldl FabricState.call rivrFabricInit

/-- The seconds in which an event was counted, newest first. -/
def secsOf (counter : FabricCounter) (calls : List FabricCall) : List ℕ :=
  ((calls.filter fun c => c.event = .counted counter).map FabricCall.sec).reverse

/-- How often an event was counted in the last sixty seconds. -/
def recentCount (counter : FabricCounter) (calls : List FabricCall) (nowMs : UInt32) : ℕ :=
  calls.countP fun c => c.event = .counted counter ∧ nowMs.toNat / 1000 < c.sec + 60

/-! ### The window -/

/-- The ring of a counter. -/
def FabricState.ring (fab : FabricState) (counter : FabricCounter) : List ℕ :=
  fab.buckets.map fun b => (counter.field b).toNat

variable {fab : FabricState} {counter : FabricCounter} {secs : List ℕ} {nowMs : UInt32}

/-- The ring of a counter holds its events. -/
def FabricState.Counts (fab : FabricState) (counter : FabricCounter) (secs : List ℕ) : Prop :=
  Holds 60 fab.lastBucketSec.toNat secs (fab.ring counter)

theorem field_zero (counter : FabricCounter) : counter.field .zero = 0 := by
  cases counter <;> rfl

/-- The loop of `fabric_advance` clears the buckets of the seconds that pass. -/
theorem holds_zeroBuckets (delta : ℕ) {sec : UInt32} {buckets : List FabricBucket}
    (hsec : sec.toNat + delta < 2 ^ 32)
    (h : Holds 60 sec.toNat secs (buckets.map fun b => (counter.field b).toNat)) :
    Holds 60 (sec.toNat + delta) secs
      ((zeroBuckets delta sec buckets).map fun b => (counter.field b).toNat) := by
  induction delta generalizing sec buckets with
  | zero => exact h
  | succ delta ih =>
    have hnext : (sec + 1).toNat = sec.toNat + 1 := by
      rw [UInt32.toNat_add, UInt32.toNat_one, Nat.mod_eq_of_lt (by omega)]
    have hstep := h.next
    rw [zeroBuckets, Nat.add_comm delta, ← Nat.add_assoc, ← hnext]
    refine ih (by omega) ?_
    rw [hnext, List.map_set, field_zero, UInt32.toNat_mod, hnext]
    exact hstep

/-- **Advancing** keeps the ring, at a time that is not before the last one. -/
theorem FabricState.Counts.advance (h : fab.Counts counter secs)
    (hle : fab.lastBucketSec.toNat ≤ nowMs.toNat / 1000) :
    (fabricAdvance fab nowMs).Counts counter secs ∧
      (fabricAdvance fab nowMs).lastBucketSec.toNat = nowMs.toNat / 1000 := by
  have hnowSec : (nowMs / 1000).toNat = nowMs.toNat / 1000 := by
    rw [UInt32.toNat_div]
    rfl
  have hnow := nowMs.toNat_lt
  rw [fabricAdvance]
  dsimp only
  split_ifs with hsame hlong
  · exact ⟨h, hsame ▸ hnowSec⟩
  · -- longer than the ring: all buckets are cleared
    refine ⟨?_, hnowSec⟩
    have hsixty : (60 : UInt32).toNat = 60 := rfl
    have hclear := holds_zeroBuckets (60 : UInt32).toNat (by omega) h
    have hleft : ∀ t ∈ secs, t + 60 ≤ fab.lastBucketSec.toNat + (60 : UInt32).toNat :=
      fun t ht => Nat.add_le_add_right (h.past t ht) _
    rw [gt_iff_lt, UInt32.lt_iff_toNat_lt, UInt32.toNat_sub_of_le _ _
      (by rw [UInt32.le_iff_toNat_le, hnowSec]; exact hle), hnowSec] at hlong
    have hlater : fab.lastBucketSec.toNat + (60 : UInt32).toNat ≤ (nowMs / 1000).toNat := by
      omega
    rw [FabricState.Counts, FabricState.ring]
    dsimp only
    exact hclear.later hleft hlater
  · -- the buckets of the seconds in between are cleared, one by one
    refine ⟨?_, hnowSec⟩
    have hdelta : (nowMs / 1000 - fab.lastBucketSec).toNat =
        nowMs.toNat / 1000 - fab.lastBucketSec.toNat := by
      rw [UInt32.toNat_sub_of_le _ _ (by rw [UInt32.le_iff_toNat_le, hnowSec]; exact hle), hnowSec]
    have hclear := holds_zeroBuckets (nowMs / 1000 - fab.lastBucketSec).toNat (by omega) h
    have hend : fab.lastBucketSec.toNat + (nowMs / 1000 - fab.lastBucketSec).toNat =
        (nowMs / 1000).toNat := by
      omega
    rw [hend] at hclear
    exact hclear

/-- A bucket with one more event. -/
def FabricCounter.bump : FabricCounter → FabricBucket → FabricBucket
  | .rx, b => { b with rxCount := b.rxCount + 1 }
  | .txFail, b => { b with txFailCount := b.txFailCount + 1 }
  | .txBlockedDc, b => { b with txBlockedDc := b.txBlockedDc + 1 }

theorem call_counted (fab : FabricState) (nowMs : UInt32) (counter : FabricCounter) :
    fab.call ⟨nowMs, .counted counter⟩ = fab.count nowMs counter.bump := by
  cases counter <;> rfl

theorem field_bump (counter : FabricCounter) (b : FabricBucket) :
    counter.field (counter.bump b) = counter.field b + 1 := by
  cases counter <;> rfl

theorem field_bump_of_ne {counter counter' : FabricCounter} (h : counter ≠ counter')
    (b : FabricBucket) : counter.field (counter'.bump b) = counter.field b := by
  cases counter <;> cases counter' <;> first | rfl | exact absurd rfl h

/-- The bucket of the current second holds the events of that second. -/
theorem slot_le_count {last : ℕ} {ring : List ℕ} (h : Holds 60 last secs ring) {k : ℕ}
    (hk : ring[last % 60]? = some k) : k ≤ secs.count last := by
  have hslot := h.slot (last % 60) (Nat.mod_lt _ (by decide))
  obtain rfl := Option.some.inj (hk.symm.trans hslot)
  refine List.countP_mono_left fun t ht hin => ?_
  have hpast := h.past t ht
  have hin' := of_decide_eq_true hin
  rw [beq_iff_eq]
  omega

/-- **An event** is counted in its bucket, as long as the bucket has room. -/
theorem FabricState.Counts.count (h : fab.Counts counter secs)
    (hle : fab.lastBucketSec.toNat ≤ nowMs.toNat / 1000)
    (hroom : secs.count (nowMs.toNat / 1000) + 1 < 2 ^ 16) :
    (fab.count nowMs counter.bump).Counts counter (nowMs.toNat / 1000 :: secs) := by
  obtain ⟨hadvanced, hlast⟩ := h.advance hle
  have hidx : ((fabricAdvance fab nowMs).lastBucketSec % 60).toNat = nowMs.toNat / 1000 % 60 := by
    rw [UInt32.toNat_mod, hlast]
    rfl
  rw [FabricState.Counts, hlast] at hadvanced
  have hcounted := hadvanced.count
  have hring : (fab.count nowMs counter.bump).ring counter =
      ((fabricAdvance fab nowMs).ring counter).modify (nowMs.toNat / 1000 % 60) (· + 1) := by
    refine List.ext_getElem? fun i => ?_
    simp only [FabricState.ring, FabricState.count, hidx, List.getElem?_map, List.getElem?_modify,
      Option.map_eq_map, Option.map_map]
    cases hb : (fabricAdvance fab nowMs).buckets[i]? with
    | none => rfl
    | some b =>
      simp only [Option.map_some, Function.comp_apply]
      split_ifs with hslot
      · have hk : ((fabricAdvance fab nowMs).ring counter)[nowMs.toNat / 1000 % 60]? =
            some (counter.field b).toNat := by
          rw [FabricState.ring, List.getElem?_map, hslot, hb, Option.map_some]
        -- the bucket holds no more events than the second had, so it has room
        have hle := slot_le_count hadvanced hk
        rw [field_bump, UInt16.toNat_add, UInt16.toNat_one, Nat.mod_eq_of_lt (by omega)]
      · rfl
  have hlast' : (fab.count nowMs counter.bump).lastBucketSec.toNat = nowMs.toNat / 1000 := hlast
  rw [FabricState.Counts, hring, hlast']
  exact hcounted

/-- The buckets of the other counters stay. -/
theorem FabricState.Counts.count_of_ne (h : fab.Counts counter secs)
    (hle : fab.lastBucketSec.toNat ≤ nowMs.toNat / 1000) {counter' : FabricCounter}
    (hne : counter ≠ counter') : (fab.count nowMs counter'.bump).Counts counter secs := by
  obtain ⟨hadvanced, -⟩ := h.advance hle
  have hring : (fab.count nowMs counter'.bump).ring counter =
      (fabricAdvance fab nowMs).ring counter := by
    refine List.ext_getElem? fun i => ?_
    simp only [FabricState.ring, FabricState.count, List.getElem?_map, List.getElem?_modify]
    cases (fabricAdvance fab nowMs).buckets[i]? with
    | none => rfl
    | some b =>
      simp only [Option.map_eq_map, Option.map_some]
      split_ifs
      · rw [field_bump_of_ne hne]
      · rfl
  rw [FabricState.Counts, hring]
  exact hadvanced

/-! ### Runs -/

/-- A history at non-decreasing times, with fewer than 65536 events of a kind in a second. -/
structure FabricHistory (calls : List FabricCall) : Prop where
  sorted : calls.Pairwise fun c c' => c.nowMs ≤ c'.nowMs
  few : ∀ counter sec,
    (calls.countP fun c => c.event = .counted counter ∧ c.sec = sec) < 2 ^ 16

variable {calls : List FabricCall} {c : FabricCall}

theorem count_secsOf (counter : FabricCounter) (calls : List FabricCall) (sec : ℕ) :
    (secsOf counter calls).count sec =
      calls.countP fun c => c.event = .counted counter ∧ c.sec = sec := by
  rw [secsOf, List.count_reverse, List.count, List.countP_map, List.countP_filter]
  refine List.countP_congr fun c _ => ?_
  simp [and_comm]

theorem secsOf_append (counter : FabricCounter) (calls : List FabricCall) (c : FabricCall) :
    secsOf counter (calls ++ [c]) =
      if c.event = .counted counter then c.sec :: secsOf counter calls
      else secsOf counter calls := by
  rw [secsOf, List.filter_append, List.map_append, List.reverse_append]
  split_ifs with h
  · simp [h, secsOf]
  · simp [h, secsOf]

/-- **One call** keeps the counts of every event. -/
theorem FabricState.Counts.call (h : fab.Counts counter secs)
    (hle : fab.lastBucketSec.toNat ≤ c.sec)
    (hroom : c.event = .counted counter → secs.count c.sec + 1 < 2 ^ 16) :
    (fab.call c).Counts counter (if c.event = .counted counter then c.sec :: secs else secs) ∧
      (fab.call c).lastBucketSec.toNat ≤ c.sec := by
  obtain ⟨nowMs, event⟩ := c
  obtain ⟨hadvanced, hlast⟩ := h.advance hle
  cases event with
  | counted counter' =>
    rw [call_counted]
    refine ⟨?_, hlast.le⟩
    by_cases hsame : counter = counter'
    · subst hsame
      rw [if_pos rfl]
      exact h.count hle (hroom rfl)
    · rw [if_neg fun heq => hsame (FabricEvent.counted.inj heq).symm]
      exact h.count_of_ne hle hsame
  | ignored => exact ⟨hadvanced, hlast.le⟩
  | decideRelay pktType =>
    rw [FabricState.call, if_neg FabricEvent.noConfusion]
    dsimp only
    rw [rivrFabricDecideRelay]
    split_ifs
    · exact ⟨h, hle⟩
    · exact ⟨hadvanced, hlast.le⟩

theorem FabricHistory.of_append (h : FabricHistory (calls ++ [c])) :
    FabricHistory calls ∧ (∀ c' ∈ calls, c'.nowMs ≤ c.nowMs) ∧
      ∀ counter, c.event = .counted counter →
        (secsOf counter calls).count c.sec + 1 < 2 ^ 16 := by
  obtain ⟨hcalls, -, hlast⟩ := List.pairwise_append.mp h.sorted
  refine ⟨⟨hcalls, fun counter sec => ?_⟩, fun c' hc' => hlast c' hc' c List.mem_cons_self,
    fun counter hevent => ?_⟩
  · have hfew := h.few counter sec
    rw [List.countP_append] at hfew
    omega
  · have hfew := h.few counter c.sec
    rw [List.countP_append, List.countP_cons_of_pos (by simpa using hevent),
      List.countP_nil] at hfew
    rw [count_secsOf]
    exact hfew

/-- **A history** is counted. -/
theorem counts_fabricAfter (h : FabricHistory calls) (counter : FabricCounter) :
    (fabricAfter calls).Counts counter (secsOf counter calls) ∧
      ∀ nowMs : UInt32, (∀ c ∈ calls, c.nowMs ≤ nowMs) →
        (fabricAfter calls).lastBucketSec.toNat ≤ nowMs.toNat / 1000 := by
  induction calls using List.reverseRecOn with
  | nil =>
    refine ⟨?_, fun _ _ => Nat.zero_le _⟩
    have hring : rivrFabricInit.ring counter = List.replicate 60 0 := by
      rw [FabricState.ring, rivrFabricInit, List.map_replicate, field_zero]
      rfl
    rw [FabricState.Counts, fabricAfter, List.foldl_nil, hring]
    exact holds_nil 60 0
  | append_singleton calls c ih =>
    obtain ⟨hcalls, hlast, hroom⟩ := h.of_append
    obtain ⟨hcounts, hle⟩ := ih hcalls
    obtain ⟨hnext, hnextLe⟩ := hcounts.call (hle c.nowMs hlast) (hroom counter)
    rw [fabricAfter, List.foldl_append, secsOf_append]
    refine ⟨hnext, fun nowMs hnow => hnextLe.trans ?_⟩
    have hle' := hnow c (List.mem_append_right _ List.mem_cons_self)
    exact Nat.div_le_div_right (UInt32.le_iff_toNat_le.mp hle')

/-! ### The sums and the score -/

/-- The sum over the buckets does not overflow. -/
theorem toNat_total (fab : FabricState) (counter : FabricCounter) :
    (fab.total counter.field).toNat = (fab.ring counter).sum ∧
      (fab.ring counter).sum ≤ 60 * 65535 := by
  have hfold : ∀ (buckets : List FabricBucket) (sum : UInt32),
      sum.toNat + buckets.length * 65535 < 2 ^ 32 →
        (buckets.foldl (fun sum b => sum + (counter.field b).toUInt32) sum).toNat =
            sum.toNat + (buckets.map fun b => (counter.field b).toNat).sum ∧
          (buckets.map fun b => (counter.field b).toNat).sum ≤ buckets.length * 65535 := by
    intro buckets
    induction buckets with
    | nil => exact fun sum _ => ⟨rfl, le_rfl⟩
    | cons b buckets ih =>
      intro sum hroom
      have hfield := (counter.field b).toNat_lt
      rw [List.length_cons] at hroom
      have hsum : (sum + (counter.field b).toUInt32).toNat =
          sum.toNat + (counter.field b).toNat := by
        rw [UInt32.toNat_add, UInt16.toNat_toUInt32, Nat.mod_eq_of_lt (by omega)]
      obtain ⟨heq, hle⟩ := ih (sum + (counter.field b).toUInt32) (by omega)
      rw [List.foldl_cons, heq, hsum, List.map_cons, List.sum_cons, List.length_cons]
      omega
  have hlen := fab.length_buckets
  rw [fabricBuckets] at hlen
  have h := hfold fab.buckets 0 (by rw [hlen]; decide)
  rw [hlen, UInt32.toNat_zero, Nat.zero_add] at h
  exact h

/-- The weighted formula, from the counts of a minute: in hundredths, cut to 10000. -/
def congestionScore (rx blockedDc txFail : ℕ) : ℕ :=
  min 10000 (rx * 100 / 60 * 2 + blockedDc * 100 / 60 * 25 + txFail * 100 / 60 * 10) / 100

/-- Before the cut, the formula falls short of the one over the rationals by less than 1.4, which is
what its divisions lose. -/
theorem congestionScore_spec (rx blockedDc txFail : ℕ) :
    congestionScore rx blockedDc txFail ≤ 100 ∧
      60 * congestionScore rx blockedDc txFail ≤ rx * 2 + blockedDc * 25 + txFail * 10 ∧
        (congestionScore rx blockedDc txFail < 100 →
          rx * 2 + blockedDc * 25 + txFail * 10 <
            60 * congestionScore rx blockedDc txFail + 84) := by
  rw [congestionScore]
  omega

/-- A rate for each second, in hundredths, does not wrap. -/
theorem toNat_perSecX100 (fab : FabricState) (counter : FabricCounter) :
    (fab.perSecX100 counter.field).toNat = (fab.ring counter).sum * 100 / 60 ∧
      (fab.ring counter).sum ≤ 60 * 65535 := by
  obtain ⟨htotal, hle⟩ := toNat_total fab counter
  refine ⟨?_, hle⟩
  rw [FabricState.perSecX100, UInt32.toNat_div, UInt32.toNat_mul, htotal]
  change (fab.ring counter).sum * 100 % 2 ^ 32 / 60 = _
  rw [Nat.mod_eq_of_lt (by omega)]

/-- The cut of the score at 100. -/
theorem toNat_cutScore (score100 : UInt32) :
    ((if score100 > 10000 then 10000 else score100) / 100).toUInt8.toNat =
      min 10000 score100.toNat / 100 := by
  have hmax : (10000 : UInt32).toNat = 10000 := rfl
  rw [UInt32.toNat_toUInt8, UInt32.toNat_div]
  split_ifs with hlong
  · rw [gt_iff_lt, UInt32.lt_iff_toNat_lt, hmax] at hlong
    rw [Nat.min_eq_left hlong.le]
    rfl
  · rw [gt_iff_lt, UInt32.lt_iff_toNat_lt, hmax, Nat.not_lt] at hlong
    rw [Nat.min_eq_right hlong]
    change score100.toNat / 100 % 2 ^ 8 = _
    omega

/-- No step of the score overflows. -/
theorem toNat_score (fab : FabricState) :
    fab.score.toNat = congestionScore (fab.ring .rx).sum (fab.ring .txBlockedDc).sum
      (fab.ring .txFail).sum := by
  obtain ⟨hrx, hrxLe⟩ := toNat_perSecX100 fab .rx
  obtain ⟨hblocked, hblockedLe⟩ := toNat_perSecX100 fab .txBlockedDc
  obtain ⟨hfail, hfailLe⟩ := toNat_perSecX100 fab .txFail
  have hsum : (fab.perSecX100 FabricBucket.rxCount * 2 +
      fab.perSecX100 FabricBucket.txBlockedDc * 25 +
        fab.perSecX100 FabricBucket.txFailCount * 10).toNat =
      (fab.ring .rx).sum * 100 / 60 * 2 + (fab.ring .txBlockedDc).sum * 100 / 60 * 25 +
        (fab.ring .txFail).sum * 100 / 60 * 10 := by
    change (fab.perSecX100 FabricBucket.rxCount).toNat = _ at hrx
    change (fab.perSecX100 FabricBucket.txBlockedDc).toNat = _ at hblocked
    change (fab.perSecX100 FabricBucket.txFailCount).toNat = _ at hfail
    rw [UInt32.toNat_add, UInt32.toNat_add, UInt32.toNat_mul, UInt32.toNat_mul, UInt32.toNat_mul,
      hrx, hblocked, hfail]
    simp only [UInt32.reduceToNat]
    omega
  rw [FabricState.score, toNat_cutScore, hsum, congestionScore]

/-- **The score is the formula of the last minute.** After any history, the sums of the ring are the
numbers of events in the last sixty seconds, the score is the weighted formula of them, and frames
of other types than chat and data are sent at once. -/
theorem fabric_congestion (calls : List FabricCall) (h : FabricHistory calls) (nowMs : UInt32)
    (hnow : ∀ c ∈ calls, c.nowMs ≤ nowMs) :
    (∀ counter : FabricCounter,
        ((fabricAdvance (fabricAfter calls) nowMs).total counter.field).toNat =
          recentCount counter calls nowMs) ∧
      (fabricScore (fabricAfter calls) nowMs).1.toNat =
        congestionScore (recentCount .rx calls nowMs) (recentCount .txBlockedDc calls nowMs)
          (recentCount .txFail calls nowMs) ∧
      ∀ pktType, pktType ≠ pktChat → pktType ≠ pktData →
        (rivrFabricDecideRelay (fabricAfter calls) pktType nowMs).1 = .sendNow := by
  have hsum : ∀ counter : FabricCounter,
      ((fabricAdvance (fabricAfter calls) nowMs).ring counter).sum =
        recentCount counter calls nowMs := by
    intro counter
    obtain ⟨hcounts, hle⟩ := counts_fabricAfter h counter
    obtain ⟨hadvanced, hlast⟩ := hcounts.advance (hle nowMs hnow)
    have hring := Holds.sum_eq hadvanced (by decide)
    rw [hring, hlast, secsOf, List.countP_reverse, List.countP_map, List.countP_filter, recentCount]
    refine List.countP_congr fun c _ => ?_
    simp [and_comm]
  refine ⟨fun counter => ?_, ?_, fun pktType hchat hdata => ?_⟩
  · rw [(toNat_total _ counter).1, hsum]
  · rw [fabricScore, toNat_score, hsum, hsum, hsum]
  · rw [rivrFabricDecideRelay, if_pos ⟨hchat, hdata⟩]

/-- A reception and a refused transmission, a minute apart. -/
theorem fabric_congestion_minute :
    (fabricScore (fabricAfter [⟨500, .counted .rx⟩, ⟨60500, .counted .txBlockedDc⟩])
      60900).1.toNat = congestionScore 0 1 0 :=
  (fabric_congestion _ ⟨by decide, fun _ _ => List.countP_le_length.trans_lt (by decide)⟩ 60900
    (by decide)).2.1.trans (by decide)

/-! ### Two scores -/

/-- How restrictive a decision is. -/
def FabricDecision.rank : FabricDecision → ℕ
  | .sendNow => 0
  | .delay _ => 1
  | .drop => 2

/-- The bands of the score. -/
theorem decideByScore_cases (score : UInt8) :
    (score.toNat < 20 ∧ decideByScore score = .sendNow) ∨
      (20 ≤ score.toNat ∧ score.toNat < 50 ∧
        ∃ extra, decideByScore score = .delay extra ∧ extra.toNat = (score.toNat - 20) * 10) ∨
      (50 ≤ score.toNat ∧ score.toNat < 80 ∧
        ∃ extra, decideByScore score = .delay extra ∧
          extra.toNat = 250 + (score.toNat - 50) * 10) ∨
      (80 ≤ score.toNat ∧ score.toNat < 95 ∧ decideByScore score = .drop) ∨
      (95 ≤ score.toNat ∧ decideByScore score = .delay 1000) := by
  have hguard : rivrFabricBlackoutGuardScore.toNat = 95 := rfl
  have hdrop : rivrFabricDropThreshold.toNat = 80 := rfl
  have hdelay : rivrFabricDelayThreshold.toNat = 50 := rfl
  have hlight : rivrFabricLightDelayThreshold.toNat = 20 := rfl
  have hmax : rivrFabricMaxExtraDelayMs.toNat = 1000 := rfl
  rw [decideByScore]
  dsimp only
  by_cases h95 : score ≥ rivrFabricBlackoutGuardScore
  · rw [if_pos h95]
    rw [ge_iff_le, UInt8.le_iff_toNat_le, hguard] at h95
    exact .inr (.inr (.inr (.inr ⟨h95, rfl⟩)))
  rw [if_neg h95]
  rw [ge_iff_le, UInt8.le_iff_toNat_le, hguard, Nat.not_le] at h95
  by_cases h80 : score ≥ rivrFabricDropThreshold
  · rw [if_pos h80]
    rw [ge_iff_le, UInt8.le_iff_toNat_le, hdrop] at h80
    exact .inr (.inr (.inr (.inl ⟨h80, h95, rfl⟩)))
  rw [if_neg h80]
  rw [ge_iff_le, UInt8.le_iff_toNat_le, hdrop, Nat.not_le] at h80
  by_cases h50 : score ≥ rivrFabricDelayThreshold
  · rw [if_pos h50]
    have hextra : (250 + (score - rivrFabricDelayThreshold).toUInt32 * 10).toNat =
        250 + (score.toNat - 50) * 10 := by
      rw [UInt32.toNat_add, UInt32.toNat_mul, UInt8.toNat_toUInt32,
        UInt8.toNat_sub_of_le _ _ h50, hdelay]
      simp only [UInt32.reduceToNat]
      omega
    rw [ge_iff_le, UInt8.le_iff_toNat_le, hdelay] at h50
    -- the cut at the maximum is above the band
    rw [if_neg (by rw [gt_iff_lt, UInt32.lt_iff_toNat_lt, hextra, hmax]; omega)]
    exact .inr (.inr (.inl ⟨h50, h80, _, rfl, hextra⟩))
  rw [if_neg h50]
  rw [ge_iff_le, UInt8.le_iff_toNat_le, hdelay, Nat.not_le] at h50
  by_cases h20 : score ≥ rivrFabricLightDelayThreshold
  · rw [if_pos h20]
    have hextra : ((score - rivrFabricLightDelayThreshold).toUInt32 * 10).toNat =
        (score.toNat - 20) * 10 := by
      rw [UInt32.toNat_mul, UInt8.toNat_toUInt32, UInt8.toNat_sub_of_le _ _ h20, hlight]
      simp only [UInt32.reduceToNat]
      omega
    rw [ge_iff_le, UInt8.le_iff_toNat_le, hlight] at h20
    have hcap : (300 : UInt32).toNat = 300 := rfl
    rw [if_neg (by rw [gt_iff_lt, UInt32.lt_iff_toNat_lt, hextra, hcap]; omega)]
    exact .inr (.inl ⟨h20, h50, _, rfl, hextra⟩)
  · rw [if_neg h20]
    rw [ge_iff_le, UInt8.le_iff_toNat_le, hlight, Nat.not_le] at h20
    exact .inl ⟨h20, rfl⟩

/-- **More congestion, more restriction**, except that the blackout guard delays where a lower score
drops. -/
theorem rank_decideByScore_le_iff {score score' : UInt8} (h : score ≤ score') :
    (decideByScore score).rank ≤ (decideByScore score').rank ↔
      ¬(80 ≤ score.toNat ∧ score.toNat < 95 ∧ 95 ≤ score'.toNat) := by
  rw [UInt8.le_iff_toNat_le] at h
  rcases decideByScore_cases score with ⟨h₁, heq⟩ | ⟨h₁, h₂, e, heq, -⟩ | ⟨h₁, h₂, e, heq, -⟩ |
    ⟨h₁, h₂, heq⟩ | ⟨h₁, heq⟩ <;>
  rcases decideByScore_cases score' with ⟨h₁', heq'⟩ | ⟨h₁', h₂', e', heq', -⟩ |
    ⟨h₁', h₂', e', heq', -⟩ | ⟨h₁', h₂', heq'⟩ | ⟨h₁', heq'⟩ <;>
  rw [heq, heq'] <;>
  simp only [FabricDecision.rank] <;>
  omega

/-- The delays by themselves: those of a band, and the longest one above it. -/
theorem decideByScore_eq_delay {score : UInt8} {extra : UInt32}
    (h : decideByScore score = .delay extra) :
    (20 ≤ score.toNat ∧ score.toNat < 50 ∧ extra.toNat = (score.toNat - 20) * 10) ∨
      (50 ≤ score.toNat ∧ score.toNat < 80 ∧ extra.toNat = 250 + (score.toNat - 50) * 10) ∨
      (95 ≤ score.toNat ∧ extra.toNat = 1000) := by
  rcases decideByScore_cases score with ⟨-, heq⟩ | ⟨h₁, h₂, e, heq, he⟩ | ⟨h₁, h₂, e, heq, he⟩ |
    ⟨-, -, heq⟩ | ⟨h₁, heq⟩
  · exact absurd (h.symm.trans heq) FabricDecision.noConfusion
  · obtain rfl := FabricDecision.delay.inj (h.symm.trans heq)
    exact .inl ⟨h₁, h₂, he⟩
  · obtain rfl := FabricDecision.delay.inj (h.symm.trans heq)
    exact .inr (.inl ⟨h₁, h₂, he⟩)
  · exact absurd (h.symm.trans heq) FabricDecision.noConfusion
  · obtain rfl := FabricDecision.delay.inj (h.symm.trans heq)
    exact .inr (.inr ⟨h₁, rfl⟩)

/-- **More congestion, longer delays**, except that the heavy delays begin below the end of the
light ones. -/
theorem delay_decideByScore_le_iff {score score' : UInt8} (h : score ≤ score')
    {extra extra' : UInt32} (hdelay : decideByScore score = .delay extra)
    (hdelay' : decideByScore score' = .delay extra') :
    extra ≤ extra' ↔
      ¬(score.toNat < 50 ∧ 50 ≤ score'.toNat ∧ score'.toNat < score.toNat + 5) := by
  rw [UInt8.le_iff_toNat_le] at h
  rw [UInt32.le_iff_toNat_le]
  rcases decideByScore_eq_delay hdelay with ⟨h₁, h₂, he⟩ | ⟨h₁, h₂, he⟩ | ⟨h₁, he⟩ <;>
  rcases decideByScore_eq_delay hdelay' with ⟨h₁', h₂', he'⟩ | ⟨h₁', h₂', he'⟩ | ⟨h₁', he'⟩ <;>
  omega

/-- **Two repeaters** that decide about a chat or data frame, the second with the higher score. -/
theorem fabric_monotone (fab fab' : FabricState) (nowMs nowMs' : UInt32) (pktType : UInt8)
    (htype : pktType = pktChat ∨ pktType = pktData)
    (hscore : (fabricScore fab nowMs).1 ≤ (fabricScore fab' nowMs').1) :
    ((rivrFabricDecideRelay fab pktType nowMs).1.rank ≤
          (rivrFabricDecideRelay fab' pktType nowMs').1.rank ↔
        ¬(80 ≤ (fabricScore fab nowMs).1.toNat ∧ (fabricScore fab nowMs).1.toNat < 95 ∧
          95 ≤ (fabricScore fab' nowMs').1.toNat)) ∧
      ∀ extra extra', (rivrFabricDecideRelay fab pktType nowMs).1 = .delay extra →
        (rivrFabricDecideRelay fab' pktType nowMs').1 = .delay extra' →
          (extra ≤ extra' ↔
            ¬((fabricScore fab nowMs).1.toNat < 50 ∧ 50 ≤ (fabricScore fab' nowMs').1.toNat ∧
              (fabricScore fab' nowMs').1.toNat < (fabricScore fab nowMs).1.toNat + 5)) := by
  have hdecide : ∀ fab nowMs, (rivrFabricDecideRelay fab pktType nowMs).1 =
      decideByScore (fabricScore fab nowMs).1 := by
    intro fab nowMs
    rw [rivrFabricDecideRelay, if_neg fun h => htype.elim h.1 h.2]
  rw [hdecide, hdecide]
  exact ⟨rank_decideByScore_le_iff hscore, fun extra extra' => delay_decideByScore_le_iff hscore⟩

/-- A window in which so many transmissions were refused in the first second. -/
def blockedWindow (blockedDc : UInt16) : FabricState :=
  { rivrFabricInit with
    buckets := ⟨0, 0, blockedDc⟩ :: List.replicate 59 .zero
    length_buckets := by rw [List.length_cons, List.length_replicate]; rfl }

theorem score_blockedWindow (blockedDc : UInt16) :
    (fabricScore (blockedWindow blockedDc) 0).1.toNat = congestionScore 0 blockedDc.toNat 0 := by
  have hadvance : fabricAdvance (blockedWindow blockedDc) 0 = blockedWindow blockedDc := rfl
  have hring : ∀ counter : FabricCounter, (blockedWindow blockedDc).ring counter =
      (counter.field ⟨0, 0, blockedDc⟩).toNat :: List.replicate 59 0 := by
    intro counter
    rw [FabricState.ring, blockedWindow, List.map_cons, List.map_replicate, field_zero]
    rfl
  have hsum : ∀ counter : FabricCounter, ((blockedWindow blockedDc).ring counter).sum =
      (counter.field ⟨0, 0, blockedDc⟩).toNat := by
    intro counter
    rw [hring, List.sum_cons, List.sum_replicate_nat, Nat.mul_zero, Nat.add_zero]
  rw [fabricScore, hadvance, toNat_score, hsum, hsum, hsum]
  rfl

theorem fabric_monotone_blocked :
    (rivrFabricDecideRelay (blockedWindow 60) pktChat 0).1.rank ≤
      (rivrFabricDecideRelay (blockedWindow 192) pktChat 0).1.rank := by
  have hscore : (fabricScore (blockedWindow 60) 0).1.toNat = 25 := score_blockedWindow 60
  have hscore' : (fabricScore (blockedWindow 192) 0).1.toNat = 80 := score_blockedWindow 192
  refine (fabric_monotone (blockedWindow 60) (blockedWindow 192) 0 0 pktChat (.inl rfl) ?_).1.mpr ?_
  · rw [UInt8.le_iff_toNat_le, hscore, hscore']
    decide
  · rw [hscore]
    omega

/-- The blackout guard relays later what a lower score drops. -/
theorem not_fabric_monotone : ¬∀ (fab fab' : FabricState) (nowMs nowMs' : UInt32) (pktType : UInt8),
    pktType = pktChat ∨ pktType = pktData →
      (fabricScore fab nowMs).1 ≤ (fabricScore fab' nowMs').1 →
        (rivrFabricDecideRelay fab pktType nowMs).1.rank ≤
          (rivrFabricDecideRelay fab' pktType nowMs').1.rank := by
  intro h
  have hscore : (fabricScore (blockedWindow 192) 0).1.toNat = 80 := score_blockedWindow 192
  have hscore' : (fabricScore (blockedWindow 228) 0).1.toNat = 95 := score_blockedWindow 228
  have hrank := h (blockedWindow 192) (blockedWindow 228) 0 0 pktChat (.inl rfl)
    (by rw [UInt8.le_iff_toNat_le, hscore, hscore']; decide)
  have hdecide : ∀ n, (rivrFabricDecideRelay (blockedWindow n) pktChat 0).1 =
      decideByScore (fabricScore (blockedWindow n) 0).1 := by
    intro n
    rw [rivrFabricDecideRelay, if_neg fun h => h.1 rfl]
  rw [hdecide, hdecide] at hrank
  have hlimit := (rank_decideByScore_le_iff
    (by rw [UInt8.le_iff_toNat_le, hscore, hscore']; decide)).mp hrank
  omega

end Rivr
