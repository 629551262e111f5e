import Mathlib.Algebra.Ring.Nat
import Rivr.Firmware.PolicyParams

/-!
# The beacon scheduler

`firmware_core/beacon_sched.c`: two beacons at the start, and then one whenever the interval and a
jitter have passed since the last. The gap is a sum of 32 bits, and `rivr_policy_set_param` accepts
intervals up to the end of them. Beacons are an interval apart in every run exactly when the largest
jitter still fits above the interval (`beacon_spacing_iff`).
-/

namespace Rivr

/-! ### The code -/

def beaconStartupCount : UInt8 := 2
def beaconStartupWindowMs : UInt32 := 300000
def beaconSuppressMinNeighbors : UInt8 := 2

/-- `beacon_sched_result_t`. -/
inductive BeaconResult
  | txStartup | txScheduled | suppressNeighbors | suppressInterval
  deriving DecidableEq, Repr

/-- `beacon_sched_t`; a last beacon at the time 0 is none. -/
structure BeaconSched where
  lastTxMs : UInt32
  nextMinTxMs : UInt32
  startupCount : UInt8
  startupDone : Bool
  deriving DecidableEq, Repr

/-- The scheduler in zeroed memory. -/
def BeaconSched.zero : BeaconSched := ⟨0, 0, 0, false⟩

/-- `beacon_sched_set_initial_tx`. -/
def beaconSchedSetInitialTx (sched : BeaconSched) (nowMs : UInt32) : BeaconSched :=
  { sched with lastTxMs := nowMs }

/-- The jitter of a beacon. -/
def beaconJitter (jitterMaxMs entropy : UInt32) : UInt32 :=
  if jitterMaxMs > 0 then entropy % jitterMaxMs else 0

/-- The state behind a beacon. -/
def BeaconSched.sent (sched : BeaconSched) (nowMs intervalMs jitterMaxMs entropy : UInt32) :
    BeaconSched :=
  { sched with
    lastTxMs := nowMs
    nextMinTxMs := intervalMs + beaconJitter jitterMaxMs entropy }

/-- `beacon_sched_tick`. -/
def beaconSchedTick (sched : BeaconSched) (nowMs intervalMs jitterMaxMs : UInt32)
    (liveNeighborCount : UInt8) (entropy : UInt32) : BeaconResult × BeaconSched :=
  let sched :=
    if !sched.startupDone ∧
        (nowMs ≥ beaconStartupWindowMs ∨ sched.startupCount ≥ beaconStartupCount) then
      { sched with startupDone := true }
    else sched
  if !sched.startupDone then
    let sched := { sched with startupCount := sched.startupCount + 1 }
    let sched :=
      if sched.startupCount ≥ beaconStartupCount then { sched with startupDone := true } else sched
    (.txStartup, sched.sent nowMs intervalMs jitterMaxMs entropy)
  else if liveNeighborCount ≥ beaconSuppressMinNeighbors then (.suppressNeighbors, sched)
  else if sched.lastTxMs ≠ 0 ∧ nowMs - sched.lastTxMs < sched.nextMinTxMs then
    (.suppressInterval, sched)
  else (.txScheduled, sched.sent nowMs intervalMs jitterMaxMs entropy)

/-! ### Runs -/

/-- A poll of the scheduler. -/
structure BeaconPoll where
  nowMs : UInt32
  liveNeighborCount : UInt8
  entropy : UInt32

/-- A poll with fixed parameters. -/
def BeaconSched.poll (intervalMs jitterMaxMs : UInt32) (sched : BeaconSched) (p : BeaconPoll) :
    BeaconResult × BeaconSched :=
  beaconSchedTick sched p.nowMs intervalMs jitterMaxMs p.liveNeighborCount p.entropy

/-- When the polls of a run result in `BEACON_TX_SCHEDULED`. -/
def scheduledTimes (intervalMs jitterMaxMs : UInt32) : BeaconSched → List BeaconPoll → List UInt32
  | _, [] => []
  | sched, p :: polls =>
    let (result, sched) := sched.poll intervalMs jitterMaxMs p
    let rest := scheduledTimes intervalMs jitterMaxMs sched polls
    if result = .txScheduled then p.nowMs :: rest else rest

/-- Each time comes an interval after the one before it. -/
def IntervalApart (intervalMs : UInt32) (times : List UInt32) : Prop :=
  times.IsChain fun t t' => t.toNat + intervalMs.toNat ≤ t'.toNat

/-- The scheduler at the start, before or after the beacon at boot. -/
def BeaconSched.Initial (sched : BeaconSched) : Prop :=
  sched = .zero ∨ ∃ nowMs, sched = beaconSchedSetInitialTx .zero nowMs

/-- `rivr_policy_set_param` takes the values for the interval and the jitter. -/
def BeaconParamsAccepted (intervalMs jitterMaxMs : UInt32) : Prop :=
  (∀ p, (rivrPolicySetParam p .beaconInterval intervalMs).beaconIntervalMs = intervalMs) ∧
    ∀ p, (rivrPolicySetParam p .beaconJitter jitterMaxMs).beaconJitterMs = jitterMaxMs

theorem beaconParamsAccepted_iff {intervalMs jitterMaxMs : UInt32} :
    BeaconParamsAccepted intervalMs jitterMaxMs ↔ 60000 ≤ intervalMs ∧ jitterMaxMs ≤ 600000 := by
  refine and_congr ⟨fun h => ?_, fun h p => ?_⟩ ⟨fun h => ?_, fun h p => ?_⟩
  · by_contra hsmall
    have hset := h { rivrPolicyInit .client with beaconIntervalMs := 60000 }
    rw [rivrPolicySetParam, if_pos (UInt32.not_le.mp hsmall)] at hset
    exact hsmall (hset ▸ UInt32.le_refl _)
  · rw [rivrPolicySetParam, if_neg (UInt32.not_lt.mpr h)]
  · by_contra hlarge
    have hset := h { rivrPolicyInit .client with beaconJitterMs := 0 }
    rw [rivrPolicySetParam, if_pos (UInt32.not_le.mp hlarge)] at hset
    exact hlarge (hset ▸ by decide)
  · rw [rivrPolicySetParam, if_neg (UInt32.not_lt.mpr h)]

variable {intervalMs jitterMaxMs : UInt32} {sched : BeaconSched} {p : BeaconPoll}
  {polls : List BeaconPoll} {last : UInt32}

/-! ### The gap -/

/-- The jitter fits above the interval. -/
theorem le_interval_add_jitter (hfits : intervalMs.toNat + jitterMaxMs.toNat ≤ 2 ^ 32)
    (entropy : UInt32) : intervalMs.toNat ≤ (intervalMs + beaconJitter jitterMaxMs entropy).toNat := by
  have hinterval := intervalMs.toNat_lt
  rw [UInt32.toNat_add, beaconJitter]
  split_ifs with hpos
  · rw [gt_iff_lt, UInt32.lt_iff_toNat_lt, UInt32.toNat_zero] at hpos
    have hjitter := Nat.mod_lt entropy.toNat hpos
    rw [UInt32.toNat_mod, Nat.mod_eq_of_lt (by omega)]
    exact Nat.le_add_right _ _
  · rw [UInt32.toNat_zero, Nat.add_zero, Nat.mod_eq_of_lt hinterval]

/-- The scheduler behind a scheduled beacon at the time `last`. -/
structure BeaconSched.Behind (intervalMs : UInt32) (sched : BeaconSched) (last : UInt32) : Prop where
  done : sched.startupDone = true
  last_eq : sched.lastTxMs = last
  last_ne : last ≠ 0
  gap : intervalMs.toNat ≤ sched.nextMinTxMs.toNat

/-- A poll schedules no beacon, or it does, and the gap behind it has begun. -/
theorem poll_scheduled (hfits : intervalMs.toNat + jitterMaxMs.toNat ≤ 2 ^ 32) (hne : p.nowMs ≠ 0)
    (h : (sched.poll intervalMs jitterMaxMs p).1 = .txScheduled) :
    (sched.poll intervalMs jitterMaxMs p).2.Behind intervalMs p.nowMs := by
  rw [BeaconSched.poll, beaconSchedTick] at h ⊢
  dsimp only at h ⊢
  generalize hwindow : (if !sched.startupDone ∧ (p.nowMs ≥ beaconStartupWindowMs ∨
    sched.startupCount ≥ beaconStartupCount) then { sched with startupDone := true } else sched) =
      started at h ⊢
  split_ifs at h ⊢ with hdone hmany hearly
  exact ⟨by simpa [BeaconSched.sent] using hdone, rfl, hne, le_interval_add_jitter hfits _⟩

/-- Behind a scheduled beacon, the polls before the gap is over change nothing. -/
theorem BeaconSched.Behind.poll (h : sched.Behind intervalMs last) (jitterMaxMs : UInt32)
    (hle : last ≤ p.nowMs) :
    ((sched.poll intervalMs jitterMaxMs p).1 ≠ .txScheduled ∧
        (sched.poll intervalMs jitterMaxMs p).2 = sched) ∨
      ((sched.poll intervalMs jitterMaxMs p).1 = .txScheduled ∧
        last.toNat + intervalMs.toNat ≤ p.nowMs.toNat) := by
  have hstarted : (if !sched.startupDone ∧ (p.nowMs ≥ beaconStartupWindowMs ∨
      sched.startupCount ≥ beaconStartupCount) then { sched with startupDone := true } else sched) =
        sched := by
    rw [h.done]
    exact if_neg fun hdone => Bool.false_ne_true hdone.1
  rw [BeaconSched.poll, beaconSchedTick]
  dsimp only
  rw [hstarted, h.done, h.last_eq, if_neg (by simp)]
  split_ifs with hmany hearly
  · exact .inl ⟨BeaconResult.noConfusion, rfl⟩
  · exact .inl ⟨BeaconResult.noConfusion, rfl⟩
  · refine .inr ⟨rfl, ?_⟩
    have hover : ¬p.nowMs - last < sched.nextMinTxMs := fun hlt => hearly ⟨h.last_ne, hlt⟩
    rw [UInt32.not_lt, UInt32.le_iff_toNat_le, UInt32.toNat_sub_of_le _ _ hle] at hover
    have hle' := UInt32.le_iff_toNat_le.mp hle
    have hgap := h.gap
    have hpos : last.toNat ≠ 0 := fun hzero => h.last_ne (UInt32.toNat_inj.mp hzero)
    omega

/-- **Behind a scheduled beacon** the others follow an interval apart. -/
theorem BeaconSched.Behind.intervalApart (hfits : intervalMs.toNat + jitterMaxMs.toNat ≤ 2 ^ 32)
    (h : sched.Behind intervalMs last) (hsorted : polls.Pairwise fun p p' => p.nowMs ≤ p'.nowMs)
    (hle : ∀ p ∈ polls, last ≤ p.nowMs) (hne : ∀ p ∈ polls, p.nowMs ≠ 0) :
    IntervalApart intervalMs (last :: scheduledTimes intervalMs jitterMaxMs sched polls) := by
  induction polls generalizing sched last with
  | nil => exact List.isChain_singleton _
  | cons p polls ih =>
    obtain ⟨hfirst, hrest⟩ := List.pairwise_cons.mp hsorted
    have hle' := fun q hq => hle q (List.mem_cons_of_mem p hq)
    have hne' := fun q hq => hne q (List.mem_cons_of_mem p hq)
    rw [scheduledTimes]
    dsimp only
    rcases h.poll jitterMaxMs (hle p List.mem_cons_self) with
      ⟨hnot, hsame⟩ | ⟨hscheduled, hgap⟩
    · rw [if_neg hnot, hsame]
      exact ih h hrest hle' hne'
    · rw [if_pos hscheduled]
      have hnext := poll_scheduled hfits (hne p List.mem_cons_self) hscheduled
      exact .cons_cons hgap (ih hnext hrest hfirst hne')

/-- **A run** from any state. -/
theorem intervalApart_scheduledTimes (hfits : intervalMs.toNat + jitterMaxMs.toNat ≤ 2 ^ 32)
    (hsorted : polls.Pairwise fun p p' => p.nowMs ≤ p'.nowMs) (hne : ∀ p ∈ polls, p.nowMs ≠ 0) :
    IntervalApart intervalMs (scheduledTimes intervalMs jitterMaxMs sched polls) := by
  induction polls generalizing sched with
  | nil => exact List.isChain_nil
  | cons p polls ih =>
    obtain ⟨hfirst, hrest⟩ := List.pairwise_cons.mp hsorted
    have hne' := fun q hq => hne q (List.mem_cons_of_mem p hq)
    rw [scheduledTimes]
    dsimp only
    split_ifs with hscheduled
    · have hnext := poll_scheduled hfits (hne p List.mem_cons_self) hscheduled
      exact hnext.intervalApart hfits hrest hfirst hne'
    · exact ih hrest hne'

/-! ### A gap that overflows -/

/-- The poll at the end of the start, with the largest jitter, and the one at the end of the gap. -/
def overflowPolls (intervalMs jitterMaxMs : UInt32) : List BeaconPoll :=
  [⟨300000, 0, jitterMaxMs - 1⟩, ⟨300000 + (intervalMs + (jitterMaxMs - 1)), 0, 0⟩]

/-- The gap behind the first of them is short. -/
theorem toNat_overflow_gap (hjitter : jitterMaxMs ≤ 600000)
    (hover : 2 ^ 32 < intervalMs.toNat + jitterMaxMs.toNat) :
    (intervalMs + (jitterMaxMs - 1)).toNat + 2 ^ 32 + 1 = intervalMs.toNat + jitterMaxMs.toNat := by
  have hinterval := intervalMs.toNat_lt
  have hjitter' : jitterMaxMs.toNat ≤ 600000 := UInt32.le_iff_toNat_le.mp hjitter
  have hone : (1 : UInt32) ≤ jitterMaxMs := by
    rw [UInt32.le_iff_toNat_le, UInt32.toNat_one]
    omega
  rw [UInt32.toNat_add, UInt32.toNat_sub_of_le _ _ hone, UInt32.toNat_one]
  omega

theorem scheduledTimes_overflow (hover : 2 ^ 32 < intervalMs.toNat + jitterMaxMs.toNat) :
    scheduledTimes intervalMs jitterMaxMs .zero (overflowPolls intervalMs jitterMaxMs) =
      [300000, 300000 + (intervalMs + (jitterMaxMs - 1))] := by
  have hinterval := intervalMs.toNat_lt
  have hpos : jitterMaxMs > 0 := by
    rw [gt_iff_lt, UInt32.lt_iff_toNat_lt, UInt32.toNat_zero]
    omega
  have hone : (1 : UInt32) ≤ jitterMaxMs := by
    rw [UInt32.le_iff_toNat_le, UInt32.toNat_one]
    exact UInt32.lt_iff_toNat_lt.mp hpos
  have hdraw : beaconJitter jitterMaxMs (jitterMaxMs - 1) = jitterMaxMs - 1 := by
    rw [beaconJitter, if_pos hpos, ← UInt32.toNat_inj, UInt32.toNat_mod,
      UInt32.toNat_sub_of_le _ _ hone, UInt32.toNat_one]
    exact Nat.mod_eq_of_lt (by omega)
  have hfirst : BeaconSched.zero.poll intervalMs jitterMaxMs ⟨300000, 0, jitterMaxMs - 1⟩ =
      (.txScheduled, ⟨300000, intervalMs + (jitterMaxMs - 1), 0, true⟩) := by
    simp [BeaconSched.poll, beaconSchedTick, BeaconSched.zero, BeaconSched.sent, hdraw,
      beaconStartupWindowMs, beaconSuppressMinNeighbors]
  have hsecond : (BeaconSched.poll intervalMs jitterMaxMs
      ⟨300000, intervalMs + (jitterMaxMs - 1), 0, true⟩
        ⟨300000 + (intervalMs + (jitterMaxMs - 1)), 0, 0⟩).1 = .txScheduled := by
    simp [BeaconSched.poll, beaconSchedTick, beaconSuppressMinNeighbors, UInt32.add_comm 300000]
  rw [overflowPolls, scheduledTimes, hfirst]
  dsimp only
  rw [if_pos rfl, scheduledTimes]
  dsimp only
  rw [if_pos hsecond, scheduledTimes]

/-- **Beacons are an interval apart** in every run, polled after the time 0, exactly when the
largest jitter fits above the interval. -/
theorem beacon_spacing_iff (intervalMs jitterMaxMs : UInt32)
    (haccepted : BeaconParamsAccepted intervalMs jitterMaxMs) :
    (∀ (sched : BeaconSched) (polls : List BeaconPoll), sched.Initial →
        polls.Pairwise (fun p p' => p.nowMs ≤ p'.nowMs) → (∀ p ∈ polls, p.nowMs ≠ 0) →
          IntervalApart intervalMs (scheduledTimes intervalMs jitterMaxMs sched polls)) ↔
      intervalMs.toNat + jitterMaxMs.toNat ≤ 2 ^ 32 := by
  constructor
  · intro h
    by_contra hover
    have hover' := Nat.not_le.mp hover
    have hjitter := (beaconParamsAccepted_iff.mp haccepted).2
    have hjitter' : jitterMaxMs.toNat ≤ 600000 := UInt32.le_iff_toNat_le.mp hjitter
    have hgap := toNat_overflow_gap hjitter hover'
    have hinterval := intervalMs.toNat_lt
    have hstart : (300000 : UInt32).toNat = 300000 := rfl
    have hsecond : (300000 + (intervalMs + (jitterMaxMs - 1))).toNat =
        300000 + (intervalMs + (jitterMaxMs - 1)).toNat := by
      rw [UInt32.toNat_add, hstart, Nat.mod_eq_of_lt (by omega)]
    have hle : (300000 : UInt32) ≤ 300000 + (intervalMs + (jitterMaxMs - 1)) := by
      rw [UInt32.le_iff_toNat_le, hsecond, hstart]
      exact Nat.le_add_right _ _
    have happart := h .zero (overflowPolls intervalMs jitterMaxMs) (.inl rfl)
      (by simpa [overflowPolls] using hle) (by
        simp only [overflowPolls, List.mem_cons, List.not_mem_nil, or_false, forall_eq_or_imp,
          forall_eq]
        refine ⟨by decide, fun hzero => ?_⟩
        rw [hzero] at hle
        exact absurd hle (by decide))
    rw [scheduledTimes_overflow hover', IntervalApart, List.isChain_pair, hsecond,
      hstart] at happart
    omega
  · exact fun hfits sched polls _ hsorted hne => intervalApart_scheduledTimes hfits hsorted hne

/-- An hour, with a jitter of at most a minute. -/
theorem beacon_spacing_iff_hour :
    (∀ (sched : BeaconSched) (polls : List BeaconPoll), sched.Initial →
        polls.Pairwise (fun p p' => p.nowMs ≤ p'.nowMs) → (∀ p ∈ polls, p.nowMs ≠ 0) →
          IntervalApart 3600000 (scheduledTimes 3600000 60000 sched polls)) ↔
      (3600000 : UInt32).toNat + (60000 : UInt32).toNat ≤ 2 ^ 32 :=
  beacon_spacing_iff _ _ (beaconParamsAccepted_iff.mpr (by decide))

/-- The longest interval, with a jitter of ten minutes, lets beacons through after less than
that. -/
theorem not_beacon_spacing : ¬∀ (intervalMs jitterMaxMs : UInt32),
    BeaconParamsAccepted intervalMs jitterMaxMs → ∀ (sched : BeaconSched) (polls : List BeaconPoll),
      sched.Initial → polls.Pairwise (fun p p' => p.nowMs ≤ p'.nowMs) →
        IntervalApart intervalMs (scheduledTimes intervalMs jitterMaxMs sched polls) := by
  intro h
  have happart := h 0xFFFFFFFF 600000 (beaconParamsAccepted_iff.mpr (by decide)) .zero
    (overflowPolls 0xFFFFFFFF 600000) (.inl rfl) (by simp [overflowPolls])
  rw [scheduledTimes_overflow (by decide), IntervalApart, List.isChain_pair] at happart
  exact absurd happart (by decide)

end Rivr
