import Rivr.Firmware.Policy
import Rivr.ForMathlib.TokenBucket

/-!
# The rate of the relay policy

`policy_check` gives a bucket a token for each whole second since its last refill, and keeps the
rest of the second. Counted in thousandths of a token, with that rest as part of the level, the
bucket gains one unit a millisecond and holds at most 4999 (`PolicyBucket.level`), so the frames it
lets through in any interval are bounded by its tokens and the seconds of the interval, a second
begun counting whole (`policy_rate`).
-/

open TokenBucket

namespace Rivr

/-! ### Runs -/

/-- A call of `policy_check`. -/
structure PolicyCall where
  hdr : RivrPktHdr
  nowMs : UInt32

/-- The bucket that pays for the frame. -/
def PolicyCall.bucket (c : PolicyCall) : ℕ := c.hdr.srcId.toNat % policyBucketCount

/-- The state, and the calls that a bucket has paid for, newest first. -/
structure PolicyLog where
  ps : PolicyState
  passed : List PolicyCall

def PolicyLog.init : PolicyLog := ⟨policyInit, []⟩

/-- One call. Control frames pass without a bucket. -/
def PolicyLog.call (l : PolicyLog) (c : PolicyCall) : PolicyLog where
  ps := (policyCheck l.ps c.hdr c.nowMs).2.2
  passed :=
    if policyClassify c.hdr.pktType ≠ .control ∧ (policyCheck l.ps c.hdr c.nowMs).1 ≠ .drop then
      c :: l.passed
    else l.passed

/-- After the calls. -/
def PolicyLog.after (calls : List PolicyCall) : PolicyLog := calls.foldl PolicyLog.call .init

/-- How many frames the bucket let through in an interval. -/
def PolicyLog.passedIn (l : PolicyLog) (idx t₁ t₂ : ℕ) : ℕ :=
  l.passed.countP fun c => c.bucket = idx ∧ t₁ ≤ c.nowMs.toNat ∧ c.nowMs.toNat ≤ t₂

/-! ### The level of a bucket -/

/-- The tokens of a bucket in thousandths, with the part of a second that is not yet one. -/
def PolicyBucket.level (b : PolicyBucket) (since : ℕ) : ℕ :=
  1000 * b.tokens.toNat + (since - b.lastRefill.toNat)

/-- The bucket has its tokens of the time `since`. -/
structure PolicyBucket.Refilled (b : PolicyBucket) (since : ℕ) : Prop where
  tokens_le : b.tokens.toNat ≤ 4
  last_le : b.lastRefill.toNat ≤ since
  lt_last : since < b.lastRefill.toNat + 1000

theorem PolicyBucket.Refilled.level_le {b : PolicyBucket} {since : ℕ} (h : b.Refilled since) :
    b.level since ≤ 4999 := by
  have h₁ := h.tokens_le
  have h₂ := h.lt_last
  rw [PolicyBucket.level]
  omega

/-- **A refill** gains at most a thousandth for each millisecond. -/
theorem PolicyBucket.Refilled.refill {b : PolicyBucket} {since : ℕ} (h : b.Refilled since)
    {nowMs : UInt32} (hnow : since ≤ nowMs.toNat) :
    (b.refill nowMs).Refilled nowMs.toNat ∧
      (b.refill nowMs).level nowMs.toNat ≤ b.level since + 1 * (nowMs.toNat - since) := by
  obtain ⟨htokens, hlast, hlt⟩ := h
  have hge : nowMs ≥ b.lastRefill := UInt32.le_iff_toNat_le.mpr (hlast.trans hnow)
  have helapsed : ((nowMs - b.lastRefill) / 1000).toNat =
      (nowMs.toNat - b.lastRefill.toNat) / 1000 := by
    rw [UInt32.toNat_div, UInt32.toNat_sub_of_le _ _ hge]
    rfl
  have hnowLt := nowMs.toNat_lt
  rw [PolicyBucket.refill, if_pos hge]
  dsimp only
  by_cases hpos : (nowMs - b.lastRefill) / 1000 > 0
  · -- whole seconds have passed
    have hnewTok : (b.tokens.toUInt32 +
        (nowMs - b.lastRefill) / 1000 * policyRefillTokensPerS).toNat =
          b.tokens.toNat + (nowMs.toNat - b.lastRefill.toNat) / 1000 := by
      rw [policyRefillTokensPerS, UInt32.mul_one, UInt32.toNat_add, UInt8.toNat_toUInt32, helapsed,
        Nat.mod_eq_of_lt (by omega)]
    have hnewLast : (b.lastRefill + (nowMs - b.lastRefill) / 1000 * 1000).toNat =
        b.lastRefill.toNat + (nowMs.toNat - b.lastRefill.toNat) / 1000 * 1000 := by
      rw [UInt32.toNat_add, UInt32.toNat_mul, helapsed]
      change (b.lastRefill.toNat + (nowMs.toNat - b.lastRefill.toNat) / 1000 * 1000 % 2 ^ 32) %
        2 ^ 32 = _
      rw [Nat.mod_eq_of_lt (by omega), Nat.mod_eq_of_lt (by omega)]
    have hcut : ∀ newTok : UInt32, (if newTok > policyMaxTokens then policyMaxTokens
        else newTok).toUInt8.toNat = min 4 newTok.toNat := by
      intro newTok
      split_ifs with hmax
      · rw [gt_iff_lt, UInt32.lt_iff_toNat_lt] at hmax
        exact (Nat.min_eq_left hmax.le).symm
      · rw [gt_iff_lt, UInt32.lt_iff_toNat_lt, Nat.not_lt] at hmax
        have hmax' : newTok.toNat ≤ 4 := hmax
        rw [UInt32.toNat_toUInt8, Nat.mod_eq_of_lt (by omega), Nat.min_eq_right hmax']
    rw [if_pos hpos]
    refine ⟨⟨?_, ?_, ?_⟩, ?_⟩
    · rw [hcut]
      exact Nat.min_le_left _ _
    · rw [hnewLast]
      omega
    · rw [hnewLast]
      omega
    · rw [PolicyBucket.level, PolicyBucket.level, hcut, hnewTok, hnewLast]
      omega
  · -- less than a second has passed: the bucket stays, and the level counts the time
    rw [if_neg hpos]
    rw [gt_iff_lt, UInt32.lt_iff_toNat_lt, helapsed, UInt32.toNat_zero] at hpos
    refine ⟨⟨htokens, hlast.trans hnow, by omega⟩, ?_⟩
    rw [PolicyBucket.level, PolicyBucket.level]
    omega

/-! ### The invariant -/

/-- What a bucket was charged, in thousandths of a token. -/
def PolicyLog.charges (l : PolicyLog) (idx : ℕ) : List (ℕ × ℕ) :=
  (l.passed.filter fun c => c.bucket = idx).map fun c => (c.nowMs.toNat, 1000)

/-- A bucket of the policy, as a token bucket. -/
def PolicyLog.BucketSpends (l : PolicyLog) (now idx : ℕ) : Prop :=
  ∃ b since, l.ps.buckets[idx]? = some b ∧ since ≤ now ∧ b.Refilled since ∧
    Spends 4999 1 (b.level since) since (l.charges idx) []

variable {l : PolicyLog} {now idx : ℕ} {c : PolicyCall}

theorem PolicyLog.BucketSpends.later {now' : ℕ} (h : l.BucketSpends now idx) (hnow : now ≤ now') :
    l.BucketSpends now' idx := by
  obtain ⟨b, since, hb, hsince, hspends⟩ := h
  exact ⟨b, since, hb, hsince.trans hnow, hspends⟩

theorem bucketSpends_init (hidx : idx < policyBucketCount) : PolicyLog.init.BucketSpends 0 idx := by
  refine ⟨⟨policyBucketInitTokens, 0⟩, 0, ?_, le_rfl, ⟨by decide, le_rfl, by decide⟩,
    spends_init (by decide)⟩
  exact List.getElem?_replicate_of_lt hidx

theorem policyTtl_ne_drop (hdr : RivrPktHdr) : (policyTtl hdr).1 ≠ .drop := by
  rw [policyTtl]
  split_ifs <;> exact RivrPolicyVerdict.noConfusion

/-- A control frame leaves the buckets alone. -/
theorem PolicyLog.call_control (hcls : policyClassify c.hdr.pktType = .control) : l.call c = l := by
  rw [PolicyLog.call, if_neg fun h => h.1 hcls]
  simp only [policyCheck, if_pos hcls]

/-- **A call** that a bucket has to pay for refills it; it pays if it can. -/
theorem PolicyLog.call_cases (hcls : policyClassify c.hdr.pktType ≠ .control) {b : PolicyBucket}
    (hb : l.ps.buckets[c.bucket]? = some b) :
    ((l.call c).ps.buckets = l.ps.buckets.set c.bucket (b.refill c.nowMs) ∧
        (l.call c).passed = l.passed) ∨
      ((b.refill c.nowMs).tokens ≠ 0 ∧
        (l.call c).ps.buckets = l.ps.buckets.set c.bucket
          { b.refill c.nowMs with tokens := (b.refill c.nowMs).tokens - 1 } ∧
        (l.call c).passed = c :: l.passed) := by
  have hget : l.ps.buckets.getD (c.hdr.srcId.toNat % policyBucketCount) ⟨0, 0⟩ = b := by
    rw [List.getD_eq_getElem?_getD, ← PolicyCall.bucket, hb, Option.getD_some]
  by_cases hzero : (b.refill c.nowMs).tokens = 0
  · have hdrop : (policyCheck l.ps c.hdr c.nowMs).1 = .drop := by
      simp only [policyCheck, if_neg hcls, hget, if_pos hzero]
    refine .inl ⟨?_, if_neg fun h => h.2 hdrop⟩
    simp only [PolicyLog.call, policyCheck, if_neg hcls, hget, if_pos hzero, PolicyCall.bucket]
  · have hpass : (policyCheck l.ps c.hdr c.nowMs).1 ≠ .drop := by
      simp only [policyCheck, if_neg hcls, hget, if_neg hzero]
      exact policyTtl_ne_drop _
    refine .inr ⟨hzero, ?_, if_pos ⟨hcls, hpass⟩⟩
    simp only [PolicyLog.call, policyCheck, if_neg hcls, hget, if_neg hzero, PolicyCall.bucket]

/-- A bucket that can pay for a frame. -/
theorem PolicyBucket.Refilled.pay {b : PolicyBucket} {since : ℕ} (h : b.Refilled since)
    (hpos : b.tokens ≠ 0) :
    ({ b with tokens := b.tokens - 1 } : PolicyBucket).Refilled since ∧ 1000 ≤ b.level since ∧
      ({ b with tokens := b.tokens - 1 } : PolicyBucket).level since = b.level since - 1000 := by
  have hne : b.tokens.toNat ≠ 0 := fun hzero => hpos (UInt8.toNat_inj.mp hzero)
  have hsub : (b.tokens - 1).toNat = b.tokens.toNat - 1 :=
    UInt8.toNat_sub_of_le _ _ (UInt8.le_iff_toNat_le.mpr (Nat.one_le_iff_ne_zero.mpr hne))
  obtain ⟨htokens, hlast, hlt⟩ := h
  refine ⟨⟨?_, hlast, hlt⟩, ?_, ?_⟩
  · rw [hsub]
    omega
  · rw [PolicyBucket.level]
    omega
  · rw [PolicyBucket.level, PolicyBucket.level, hsub]
    dsimp only
    omega

/-- **A call** at a later time keeps the invariant of every bucket. -/
theorem PolicyLog.BucketSpends.call (h : l.BucketSpends now idx) (hnow : now ≤ c.nowMs.toNat) :
    (l.call c).BucketSpends c.nowMs.toNat idx := by
  by_cases hcls : policyClassify c.hdr.pktType = .control
  · rw [PolicyLog.call_control hcls]
    exact h.later hnow
  obtain ⟨b, since, hb, hsince, hrefilled, hspends⟩ := h
  have hlen := (List.getElem?_eq_some_iff.mp hb).1
  by_cases hidx : c.bucket = idx
  · -- the bucket that pays
    subst hidx
    obtain ⟨hnext, hgain⟩ := hrefilled.refill (hsince.trans hnow)
    have hrefill := hspends.refill (hsince.trans hnow) hnext.level_le hgain
    rcases PolicyLog.call_cases hcls hb with ⟨hbuckets, hpassed⟩ | ⟨hpos, hbuckets, hpassed⟩
    · refine ⟨_, c.nowMs.toNat, ?_, le_rfl, hnext, ?_⟩
      · rw [hbuckets, List.getElem?_set_self hlen]
      · rwa [PolicyLog.charges, hpassed]
    · obtain ⟨hpaid, hcost, hlevel⟩ := hnext.pay hpos
      refine ⟨_, c.nowMs.toNat, ?_, le_rfl, hpaid, ?_⟩
      · rw [hbuckets, List.getElem?_set_self hlen]
      · rw [hlevel, PolicyLog.charges, hpassed, List.filter_cons_of_pos (by simp), List.map_cons]
        exact hrefill.spend hcost
  · -- another bucket
    have hpayer : c.bucket < l.ps.buckets.length := by
      rw [l.ps.length_buckets]
      exact Nat.mod_lt _ (by decide)
    have hsame : (l.call c).ps.buckets[idx]? = l.ps.buckets[idx]? ∧
        (l.call c).charges idx = l.charges idx := by
      rcases PolicyLog.call_cases hcls (List.getElem?_eq_getElem hpayer) with
        ⟨hbuckets, hpassed⟩ | ⟨-, hbuckets, hpassed⟩
      · rw [PolicyLog.charges, hpassed, hbuckets, List.getElem?_set_ne hidx]
        exact ⟨rfl, rfl⟩
      · rw [PolicyLog.charges, hpassed, hbuckets, List.getElem?_set_ne hidx,
          List.filter_cons_of_neg (by simpa using hidx)]
        exact ⟨rfl, rfl⟩
    exact ⟨b, since, hsame.1.trans hb, hsince.trans hnow, hrefilled, hsame.2 ▸ hspends⟩

/-- **A run** at non-decreasing times keeps it. -/
theorem bucketSpends_after {calls : List PolicyCall}
    (hsorted : calls.Pairwise fun c c' => c.nowMs ≤ c'.nowMs) (hidx : idx < policyBucketCount) :
    ∃ now, (∀ c : PolicyCall, (∀ c' ∈ calls, c'.nowMs ≤ c.nowMs) → now ≤ c.nowMs.toNat) ∧
      (PolicyLog.after calls).BucketSpends now idx := by
  induction calls using List.reverseRecOn with
  | nil => exact ⟨0, fun _ _ => Nat.zero_le _, bucketSpends_init hidx⟩
  | append_singleton calls c ih =>
    obtain ⟨hcalls, -, hlast⟩ := List.pairwise_append.mp hsorted
    obtain ⟨now, hnow, hspends⟩ := ih hcalls
    have hle : now ≤ c.nowMs.toNat := hnow c fun c' hc' => hlast c' hc' c List.mem_cons_self
    refine ⟨c.nowMs.toNat, fun c' hc' => ?_, ?_⟩
    · exact UInt32.le_iff_toNat_le.mp (hc' c (List.mem_append_right _ List.mem_cons_self))
    · rw [PolicyLog.after, List.foldl_append]
      exact hspends.call hle

/-! ### The law -/

theorem spentIn_charges (l : PolicyLog) (idx t₁ t₂ : ℕ) :
    spentIn t₁ t₂ (l.charges idx) = 1000 * l.passedIn idx t₁ t₂ := by
  rw [PolicyLog.charges, PolicyLog.passedIn]
  induction l.passed with
  | nil => rfl
  | cons c passed ih =>
    rw [List.filter_cons, List.countP_cons]
    by_cases hidx : c.bucket = idx
    · rw [if_pos (by simpa using hidx), List.map_cons, spentIn_cons, ih]
      simp only [hidx, true_and, decide_eq_true_eq]
      split_ifs <;> omega
    · rw [if_neg (by simpa using hidx), ih]
      simp [hidx]

/-- **The rate of a bucket.** In any run of calls at non-decreasing times, whatever the frames are,
a bucket lets through in an interval at most its tokens and a refill for every second begun. -/
theorem policy_rate (calls : List PolicyCall)
    (hsorted : calls.Pairwise fun c c' => c.nowMs ≤ c'.nowMs) (idx t₁ t₂ : ℕ) (ht : t₁ ≤ t₂) :
    (PolicyLog.after calls).passedIn idx t₁ t₂ ≤
      policyMaxTokens.toNat + (t₂ - t₁ + 999) / 1000 * policyRefillTokensPerS.toNat := by
  by_cases hidx : idx < policyBucketCount
  · obtain ⟨now, -, b, since, -, -, -, hspends⟩ := bucketSpends_after hsorted hidx
    have hlaw := hspends.law t₁ t₂ ht
    rw [spentIn_charges, countIn_nil] at hlaw
    have hmax : policyMaxTokens.toNat = 4 := rfl
    have hrate : policyRefillTokensPerS.toNat = 1 := rfl
    rw [hmax, hrate]
    omega
  · -- no frame is charged to such a bucket
    rw [PolicyLog.passedIn, List.countP_eq_zero.mpr]
    · exact Nat.zero_le _
    · intro c _ hc
      have hbucket : c.bucket = idx := (of_decide_eq_true hc).1
      exact hidx (hbucket ▸ Nat.mod_lt _ (by decide))

/-- Two chat frames in the first second. -/
theorem policy_rate_twoChats :
    (PolicyLog.after [⟨{ sampleChatHdr with srcId := 7 }, 10⟩,
      ⟨{ sampleChatHdr with srcId := 23 }, 400⟩]).passedIn 7 0 999 ≤ 5 :=
  policy_rate _ (by decide) 7 0 999 (by decide)

end Rivr
