import Rivr.Firmware.FloodForward
import Rivr.ForMathlib.Runs

/-!
# The forward budget

How much `routingFloodForward` lets through between two resets of its windows. The counters are
kept for the packet types below `fwdbudgetPktTypes`, and they are sums of 32-bit numbers; the
decoder admits four types more, and a frame of one of those is forwarded without being counted
(`not_forward_budget_caps`). In a run in which every frame that comes to the budget is of a counted
type, and no sum overflows, the counters are the true totals (`Tallies`), so the caps hold
(`forward_budget_caps`).
-/

namespace Rivr

open Runs

/-! ### What was forwarded -/

/-- A frame that was forwarded. -/
structure Forwarded where
  pktType : UInt8
  toaUs : UInt32
  deriving DecidableEq, Repr

/-- The forwarded frames of a type. -/
def ofType (pktType : UInt8) (frames : List Forwarded) : List Forwarded :=
  frames.filter fun f => f.pktType = pktType

/-- The airtime of the frames. -/
def airtimeUs (frames : List Forwarded) : ℕ := (frames.map fun f => f.toaUs.toNat).sum

@[simp]
theorem airtimeUs_nil : airtimeUs [] = 0 := rfl

@[simp]
theorem airtimeUs_cons (f : Forwarded) (frames : List Forwarded) :
    airtimeUs (f :: frames) = f.toaUs.toNat + airtimeUs frames := rfl

@[simp]
theorem ofType_nil (pktType : UInt8) : ofType pktType [] = [] := rfl

theorem ofType_cons (pktType : UInt8) (f : Forwarded) (frames : List Forwarded) :
    ofType pktType (f :: frames) =
      if f.pktType = pktType then f :: ofType pktType frames else ofType pktType frames := by
  simp [ofType, List.filter_cons]

/-! ### Runs of the flood forwarder -/

/-- A frame handed to the flood forwarder, some time after the one before. -/
structure FloodCall where
  pkt : RivrPktHdr
  toaUs : UInt32
  afterMs : ℕ

/-- The cache and the budget, and, as observers, what was forwarded since the last reset of either
window, newest first. -/
structure FloodLog where
  cache : DedupeCache
  fb : ForwardBudget
  nowMs : ℕ
  minute : List Forwarded
  hour : List Forwarded

/-- The state after `routing_init`. -/
def FloodLog.init (role : NodeRole) : FloodLog :=
  ⟨routingDedupeInit, routingFwdbudgetInit role, 0, [], []⟩

/-- What the flood forwarder does with a frame. -/
def FloodLog.outcome (l : FloodLog) (c : FloodCall) : FloodOutcome :=
  routingFloodForward l.cache (some l.fb) c.pkt c.toaUs (UInt32.ofNat (l.nowMs + c.afterMs))

/-- The frame, if it was forwarded. -/
def FloodLog.forwarded (l : FloodLog) (c : FloodCall) : List Forwarded :=
  if (l.outcome c).result = .forward then [⟨c.pkt.pktType, c.toaUs⟩] else []

/-- One call. A window was reset when its start has changed. -/
def FloodLog.call (l : FloodLog) (c : FloodCall) : FloodLog :=
  let fb := (l.outcome c).fb.getD l.fb
  { cache := (l.outcome c).cache
    fb := fb
    nowMs := l.nowMs + c.afterMs
    minute := l.forwarded c ++ if fb.windowStartMs = l.fb.windowStartMs then l.minute else []
    hour := l.forwarded c ++ if fb.hourWindowStartMs = l.fb.hourWindowStartMs then l.hour else [] }

/-- What was forwarded since the last resets is within the caps of the role, for every type that
the decoder admits. -/
structure FloodLog.WithinCaps (role : NodeRole) (l : FloodLog) : Prop where
  count : ∀ pktType, 1 ≤ pktType → pktType ≤ pktMetrics →
    (ofType pktType l.minute).length ≤ role.maxFwd.toNat
  air : ∀ pktType, 1 ≤ pktType → pktType ≤ pktMetrics →
    airtimeUs (ofType pktType l.minute) ≤ role.maxAirUs.toNat
  hour : airtimeUs l.hour ≤ fwdbudgetMaxHourAirUs.toNat

/-! ### The windows -/

theorem rollMinute_of_lt {fb : ForwardBudget} {nowMs : UInt32}
    (h : nowMs - fb.windowStartMs < fwdbudgetWindowMs) : rollMinute fb nowMs = fb :=
  if_neg (UInt32.not_le.mpr h)

theorem rollHour_of_lt {fb : ForwardBudget} {nowMs : UInt32}
    (h : nowMs - fb.hourWindowStartMs < fwdbudgetHourWindowMs) : rollHour fb nowMs = fb :=
  if_neg (UInt32.not_le.mpr h)

/-- Right after a look at the clock neither window is due. -/
theorem windowStartMs_rollMinute_lt (fb : ForwardBudget) (nowMs : UInt32) :
    nowMs - (rollMinute fb nowMs).windowStartMs < fwdbudgetWindowMs := by
  rw [rollMinute]
  split_ifs with hdue
  · rw [UInt32.sub_self]
    decide
  · exact UInt32.not_le.mp hdue

theorem hourWindowStartMs_rollHour_lt (fb : ForwardBudget) (nowMs : UInt32) :
    nowMs - (rollHour fb nowMs).hourWindowStartMs < fwdbudgetHourWindowMs := by
  rw [rollHour]
  split_ifs with hdue
  · rw [UInt32.sub_self]
    decide
  · exact UInt32.not_le.mp hdue

theorem windowStartMs_rollHour (fb : ForwardBudget) (nowMs : UInt32) :
    (rollHour fb nowMs).windowStartMs = fb.windowStartMs := by
  rw [rollHour]
  split_ifs <;> rfl

/-- Looking at the clock twice at the same time changes nothing more. -/
theorem fwdbudgetRollWindow_self (fb : ForwardBudget) (nowMs : UInt32) :
    fwdbudgetRollWindow (fwdbudgetRollWindow fb nowMs) nowMs = fwdbudgetRollWindow fb nowMs := by
  have hminute : rollMinute (fwdbudgetRollWindow fb nowMs) nowMs =
      fwdbudgetRollWindow fb nowMs := by
    refine rollMinute_of_lt ?_
    rw [fwdbudgetRollWindow, windowStartMs_rollHour]
    exact windowStartMs_rollMinute_lt fb nowMs
  rw [fwdbudgetRollWindow, hminute]
  exact rollHour_of_lt (hourWindowStartMs_rollHour_lt _ nowMs)

/-- A window that is due starts now, which is not when it started before. -/
theorem ne_of_window_le {window startMs nowMs : UInt32} (hpos : 0 < window)
    (h : nowMs - startMs ≥ window) : nowMs ≠ startMs := by
  rintro rfl
  rw [UInt32.sub_self] at h
  exact absurd (UInt32.lt_of_lt_of_le hpos h) (UInt32.lt_irrefl 0)

/-! ### The counters -/

/-- The counters are the totals of what was forwarded. -/
structure ForwardBudget.Tallies (fb : ForwardBudget) (minute hour : List Forwarded) : Prop where
  counted : ∀ f ∈ minute, f.pktType < fwdbudgetPktTypes
  count : ∀ pktType < fwdbudgetPktTypes,
    (ofType pktType minute).length = (fb.fwdCount.getD pktType.toNat 0).toNat
  air : ∀ pktType < fwdbudgetPktTypes,
    airtimeUs (ofType pktType minute) = (fb.fwdAirUs.getD pktType.toNat 0).toNat
  hour : airtimeUs hour = fb.hourTotalAirUs.toNat

/-- The counters are within the caps. -/
structure ForwardBudget.Capped (role : NodeRole) (fb : ForwardBudget) : Prop where
  maxFwdCount : fb.maxFwdCount = role.maxFwd
  maxAirUs : fb.maxAirUs = role.maxAirUs
  maxHourAirUs : fb.maxHourAirUs = fwdbudgetMaxHourAirUs
  count : ∀ pktType < fwdbudgetPktTypes, fb.fwdCount.getD pktType.toNat 0 ≤ role.maxFwd
  air : ∀ pktType < fwdbudgetPktTypes, fb.fwdAirUs.getD pktType.toNat 0 ≤ role.maxAirUs
  hour : fb.hourTotalAirUs ≤ fwdbudgetMaxHourAirUs

theorem getD_replicate_zero {α : Type*} [OfNat α 0] (i : ℕ) :
    (Vector.replicate 8 (0 : α)).getD i 0 = 0 := by
  rw [Vector.getD, Array.getD_eq_getD_getElem?]
  by_cases hi : i < 8
  · simp [hi]
  · simp [hi]

theorem getD_setIfInBounds {α : Type*} [OfNat α 0] (v : Vector α 8) {i : ℕ} (hi : i < 8) (j : ℕ)
    (x : α) : (v.setIfInBounds i x).getD j 0 = if i = j then x else v.getD j 0 := by
  have hgetD : ∀ w : Vector α 8, w.getD j 0 = w[j]?.getD 0 := by
    intro w
    rw [Vector.getD, Array.getD_eq_getD_getElem?]
    simp
  rw [hgetD, hgetD, Vector.getElem?_setIfInBounds, if_pos hi]
  split_ifs <;> rfl

/-- A window that is not reset keeps its totals, and one that is reset starts again from none. -/
theorem ForwardBudget.Tallies.roll {fb : ForwardBudget} {minute hour : List Forwarded}
    (h : fb.Tallies minute hour) (nowMs : UInt32) :
    (fwdbudgetRollWindow fb nowMs).Tallies
      (if (fwdbudgetRollWindow fb nowMs).windowStartMs = fb.windowStartMs then minute else [])
      (if (fwdbudgetRollWindow fb nowMs).hourWindowStartMs = fb.hourWindowStartMs then hour
        else []) := by
  have hstart : (fwdbudgetRollWindow fb nowMs).windowStartMs =
      (rollMinute fb nowMs).windowStartMs := windowStartMs_rollHour _ nowMs
  have hcounts : (fwdbudgetRollWindow fb nowMs).fwdCount = (rollMinute fb nowMs).fwdCount ∧
      (fwdbudgetRollWindow fb nowMs).fwdAirUs = (rollMinute fb nowMs).fwdAirUs := by
    rw [fwdbudgetRollWindow, rollHour]
    split_ifs <;> exact ⟨rfl, rfl⟩
  rw [hstart]
  have hminute : (∀ f ∈ if (rollMinute fb nowMs).windowStartMs = fb.windowStartMs then minute
        else [], f.pktType < fwdbudgetPktTypes) ∧
      ∀ pktType < fwdbudgetPktTypes,
        (ofType pktType (if (rollMinute fb nowMs).windowStartMs = fb.windowStartMs then minute
            else [])).length = ((rollMinute fb nowMs).fwdCount.getD pktType.toNat 0).toNat ∧
          airtimeUs (ofType pktType (if (rollMinute fb nowMs).windowStartMs = fb.windowStartMs
            then minute else [])) = ((rollMinute fb nowMs).fwdAirUs.getD pktType.toNat 0).toNat := by
    rw [rollMinute]
    split_ifs with hdue hsame hother
    · exact absurd hsame (ne_of_window_le (by decide) hdue)
    · refine ⟨by simp, fun pktType _ => ?_⟩
      simp only [getD_replicate_zero]
      exact ⟨rfl, rfl⟩
    · exact ⟨h.counted, fun pktType ht => ⟨h.count pktType ht, h.air pktType ht⟩⟩
    · exact absurd rfl hother
  refine ⟨hminute.1, ?_, ?_, ?_⟩
  · intro pktType ht
    rw [hcounts.1]
    exact (hminute.2 pktType ht).1
  · intro pktType ht
    rw [hcounts.2]
    exact (hminute.2 pktType ht).2
  · have hhour : (rollMinute fb nowMs).hourWindowStartMs = fb.hourWindowStartMs ∧
        (rollMinute fb nowMs).hourTotalAirUs = fb.hourTotalAirUs := by
      rw [rollMinute]
      split_ifs <;> exact ⟨rfl, rfl⟩
    rw [fwdbudgetRollWindow, rollHour]
    split_ifs with hdue hsame hother
    · rw [hhour.1] at hdue
      exact absurd hsame (ne_of_window_le (by decide) hdue)
    · rfl
    · rw [hhour.2]
      exact h.hour
    · exact absurd hhour.1 hother

theorem ForwardBudget.Capped.roll {role : NodeRole} {fb : ForwardBudget} (h : fb.Capped role)
    (nowMs : UInt32) : (fwdbudgetRollWindow fb nowMs).Capped role := by
  have hminute : (rollMinute fb nowMs).Capped role := by
    rw [rollMinute]
    split_ifs
    · refine ⟨h.maxFwdCount, h.maxAirUs, h.maxHourAirUs, ?_, ?_, h.hour⟩
      · intro pktType _
        simp only [getD_replicate_zero]
        exact UInt16.zero_le
      · intro pktType _
        simp only [getD_replicate_zero]
        exact UInt32.zero_le
    · exact h
  rw [fwdbudgetRollWindow, rollHour]
  split_ifs
  · exact ⟨hminute.maxFwdCount, hminute.maxAirUs, hminute.maxHourAirUs, hminute.count, hminute.air,
      UInt32.zero_le⟩
  · exact hminute

/-! ### A frame that comes to the budget -/

/-- The frame is new and has hops left in both counters, so the budget decides. -/
def FloodLog.Budgeted (l : FloodLog) (c : FloodCall) : Prop :=
  (routingDedupeCheck l.cache c.pkt.srcId c.pkt.pktId (UInt32.ofNat (l.nowMs + c.afterMs))).1 =
    true ∧ c.pkt.ttl ≠ 0 ∧ c.pkt.hop < rivrPktDefaultTtl

/-- The budget when the frame comes to it. -/
def FloodLog.rolled (l : FloodLog) (c : FloodCall) : ForwardBudget :=
  fwdbudgetRollWindow l.fb (UInt32.ofNat (l.nowMs + c.afterMs))

/-- If the frame comes to the budget, then its type is counted, and its airtime does not overflow
the counters it is added to. -/
def FloodLog.Charges (l : FloodLog) (c : FloodCall) : Prop :=
  l.Budgeted c → c.pkt.pktType < fwdbudgetPktTypes ∧
    ((l.rolled c).fwdAirUs.getD c.pkt.pktType.toNat 0).toNat + c.toaUs.toNat < 2 ^ 32 ∧
    (l.rolled c).hourTotalAirUs.toNat + c.toaUs.toNat < 2 ^ 32

/-- A frame that does not come to the budget leaves it as it was. -/
theorem outcome_of_not_budgeted {l : FloodLog} {c : FloodCall} (h : ¬l.Budgeted c) :
    (l.outcome c).result ≠ .forward ∧ (l.outcome c).fb = some l.fb := by
  rw [FloodLog.outcome, routingFloodForward]
  dsimp only
  split_ifs with hnew httl hhop hwithin
  · exact ⟨by simp, rfl⟩
  · exact ⟨by simp, rfl⟩
  · exact ⟨by simp, rfl⟩
  all_goals exact absurd ⟨by simpa using hnew, httl, UInt8.not_le.mp hhop⟩ h

/-- The verdict of the budget on a frame of a counted type. -/
def FloodLog.within (l : FloodLog) (c : FloodCall) : Bool :=
  (routingFwdbudgetCheck l.fb c.pkt.pktType c.toaUs (UInt32.ofNat (l.nowMs + c.afterMs))).1

theorem outcome_of_budgeted {l : FloodLog} {c : FloodCall} (h : l.Budgeted c) :
    (l.outcome c).result = (if l.within c then .forward else .dropBudget) ∧
      (l.outcome c).fb = some (if l.within c then
          routingFwdbudgetRecord (routingFwdbudgetCheck l.fb c.pkt.pktType c.toaUs
            (UInt32.ofNat (l.nowMs + c.afterMs))).2 c.pkt.pktType c.toaUs
            (UInt32.ofNat (l.nowMs + c.afterMs))
        else countFwdDrop (routingFwdbudgetCheck l.fb c.pkt.pktType c.toaUs
          (UInt32.ofNat (l.nowMs + c.afterMs))).2 c.pkt.pktType) := by
  obtain ⟨hnew, httl, hhop⟩ := h
  have hhop' : ¬c.pkt.hop ≥ rivrPktDefaultTtl := UInt8.not_le.mpr hhop
  rw [FloodLog.outcome, FloodLog.within, routingFloodForward]
  simp only [hnew, httl, hhop', floodBudget, Bool.not_true, Bool.false_eq_true, if_false]
  split_ifs <;> simp_all

theorem routingFwdbudgetCheck_snd {fb : ForwardBudget} {pktType : UInt8}
    (ht : pktType < fwdbudgetPktTypes) (toaUs nowMs : UInt32) :
    (routingFwdbudgetCheck fb pktType toaUs nowMs).2 = fwdbudgetRollWindow fb nowMs := by
  rw [routingFwdbudgetCheck, if_neg (UInt8.not_le.mpr ht)]
  dsimp only
  split_ifs <;> rfl

/-- What the budget's approval says. -/
theorem of_routingFwdbudgetCheck {fb : ForwardBudget} {pktType : UInt8} {toaUs nowMs : UInt32}
    (ht : pktType < fwdbudgetPktTypes)
    (h : (routingFwdbudgetCheck fb pktType toaUs nowMs).1 = true) :
    let b := fwdbudgetRollWindow fb nowMs
    b.fwdCount.getD pktType.toNat 0 < b.maxFwdCount ∧
      b.fwdAirUs.getD pktType.toNat 0 + toaUs ≤ b.maxAirUs ∧
      b.hourTotalAirUs + toaUs ≤ b.maxHourAirUs := by
  rw [routingFwdbudgetCheck, if_neg (UInt8.not_le.mpr ht)] at h
  dsimp only at h ⊢
  split_ifs at h with hcount hair hhour
  exact ⟨UInt16.not_le.mp hcount, UInt32.not_lt.mp hair, UInt32.not_lt.mp hhour⟩

theorem toNat_lt_of_lt_fwdbudgetPktTypes {pktType : UInt8} (ht : pktType < fwdbudgetPktTypes) :
    pktType.toNat < 8 := ht

/-- The counters of the budget that a forwarded frame leaves. -/
theorem routingFwdbudgetRecord_eq {b : ForwardBudget} {pktType : UInt8}
    (ht : pktType < fwdbudgetPktTypes) {nowMs : UInt32}
    (hrolled : fwdbudgetRollWindow b nowMs = b) (toaUs : UInt32) :
    routingFwdbudgetRecord b pktType toaUs nowMs = { b with
      fwdCount := b.fwdCount.setIfInBounds pktType.toNat (b.fwdCount.getD pktType.toNat 0 + 1)
      fwdAirUs := b.fwdAirUs.setIfInBounds pktType.toNat (b.fwdAirUs.getD pktType.toNat 0 + toaUs)
      hourTotalAirUs := b.hourTotalAirUs + toaUs } := by
  rw [routingFwdbudgetRecord, if_neg (UInt8.not_le.mpr ht), hrolled]

theorem maxFwd_toNat_lt (role : NodeRole) : role.maxFwd.toNat < 65535 := by
  cases role <;> decide

/-- **Step lemma.** A frame that the budget approves, and whose airtime overflows nothing, is
counted, and the caps hold. -/
theorem ForwardBudget.Tallies.record {role : NodeRole} {b : ForwardBudget}
    {minute hour : List Forwarded} (h : b.Tallies minute hour) (hcap : b.Capped role)
    {pktType : UInt8} (ht : pktType < fwdbudgetPktTypes) {toaUs : UInt32}
    (hair : (b.fwdAirUs.getD pktType.toNat 0).toNat + toaUs.toNat < 2 ^ 32)
    (hhour : b.hourTotalAirUs.toNat + toaUs.toNat < 2 ^ 32)
    (hcount : b.fwdCount.getD pktType.toNat 0 < b.maxFwdCount)
    (hair' : b.fwdAirUs.getD pktType.toNat 0 + toaUs ≤ b.maxAirUs)
    (hhour' : b.hourTotalAirUs + toaUs ≤ b.maxHourAirUs) {nowMs : UInt32}
    (hrolled : fwdbudgetRollWindow b nowMs = b) :
    (routingFwdbudgetRecord b pktType toaUs nowMs).Tallies (⟨pktType, toaUs⟩ :: minute)
        (⟨pktType, toaUs⟩ :: hour) ∧
      (routingFwdbudgetRecord b pktType toaUs nowMs).Capped role := by
  have ht' := toNat_lt_of_lt_fwdbudgetPktTypes ht
  rw [routingFwdbudgetRecord_eq ht hrolled]
  rw [hcap.maxFwdCount] at hcount
  rw [hcap.maxAirUs] at hair'
  rw [hcap.maxHourAirUs] at hhour'
  have hsum : ∀ x : UInt32, x.toNat + toaUs.toNat < 2 ^ 32 →
      (x + toaUs).toNat = x.toNat + toaUs.toNat := by
    intro x hx
    rw [UInt32.toNat_add]
    exact Nat.mod_eq_of_lt hx
  have hsucc : (b.fwdCount.getD pktType.toNat 0 + 1).toNat =
      (b.fwdCount.getD pktType.toNat 0).toNat + 1 := by
    have hlt := UInt16.lt_iff_toNat_lt.mp hcount
    have hmax := maxFwd_toNat_lt role
    rw [UInt16.toNat_add]
    exact Nat.mod_eq_of_lt (Nat.lt_of_le_of_lt hlt (by omega))
  constructor
  · refine ⟨?_, ?_, ?_, ?_⟩
    · rintro f hf
      rcases List.mem_cons.mp hf with rfl | hf
      · exact ht
      · exact h.counted f hf
    · intro t htt
      dsimp only
      rw [getD_setIfInBounds _ ht', ofType_cons]
      dsimp only
      by_cases heq : pktType = t
      · rw [if_pos heq, if_pos (congrArg UInt8.toNat heq), hsucc, List.length_cons, heq,
          h.count t htt]
      · rw [if_neg heq, if_neg fun hn => heq (UInt8.toNat_inj.mp hn), h.count t htt]
    · intro t htt
      dsimp only
      rw [getD_setIfInBounds _ ht', ofType_cons]
      dsimp only
      by_cases heq : pktType = t
      · rw [if_pos heq, if_pos (congrArg UInt8.toNat heq), airtimeUs_cons,
          hsum _ hair, heq, h.air t htt, Nat.add_comm]
      · rw [if_neg heq, if_neg fun hn => heq (UInt8.toNat_inj.mp hn), h.air t htt]
    · rw [airtimeUs_cons, hsum _ hhour, h.hour, Nat.add_comm]
  · refine ⟨hcap.maxFwdCount, hcap.maxAirUs, hcap.maxHourAirUs, ?_, ?_, hhour'⟩
    · intro t htt
      dsimp only
      rw [getD_setIfInBounds _ ht']
      split_ifs
      · rw [UInt16.le_iff_toNat_le, hsucc]
        exact hcount
      · exact hcap.count t htt
    · intro t htt
      dsimp only
      rw [getD_setIfInBounds _ ht']
      split_ifs
      · exact hair'
      · exact hcap.air t htt

/-! ### The caps over runs -/

/-- The counters are the true totals, and within the caps. -/
structure FloodLog.Counted (role : NodeRole) (l : FloodLog) : Prop where
  tallies : l.fb.Tallies l.minute l.hour
  capped : l.fb.Capped role

theorem counted_init (role : NodeRole) : (FloodLog.init role).Counted role := by
  refine ⟨⟨by simp [FloodLog.init], ?_, ?_, rfl⟩, ⟨rfl, rfl, rfl, ?_, ?_, UInt32.zero_le⟩⟩ <;>
    intro pktType _ <;>
    simp only [FloodLog.init, routingFwdbudgetInit, getD_replicate_zero]
  · rfl
  · rfl
  · exact UInt16.zero_le
  · exact UInt32.zero_le

theorem FloodLog.Counted.call {role : NodeRole} {l : FloodLog} {c : FloodCall}
    (h : l.Counted role) (hc : l.Charges c) : (l.call c).Counted role := by
  by_cases hbudget : l.Budgeted c
  · obtain ⟨ht, hair, hhour⟩ := hc hbudget
    obtain ⟨hresult, hfb⟩ := outcome_of_budgeted hbudget
    have htallies := h.tallies.roll (UInt32.ofNat (l.nowMs + c.afterMs))
    have hcapped := h.capped.roll (UInt32.ofNat (l.nowMs + c.afterMs))
    rw [routingFwdbudgetCheck_snd ht] at hfb
    by_cases hwithin : l.within c = true
    · -- approved: the observers get the frame, the counters its airtime
      rw [if_pos hwithin] at hresult hfb
      obtain ⟨hcount, hair', hhour'⟩ := of_routingFwdbudgetCheck ht hwithin
      have hself := fwdbudgetRollWindow_self l.fb (UInt32.ofNat (l.nowMs + c.afterMs))
      obtain ⟨htallies', hcapped'⟩ := htallies.record hcapped ht hair hhour hcount hair' hhour' hself
      rw [FloodLog.call, hfb, FloodLog.forwarded, if_pos hresult]
      rw [routingFwdbudgetRecord_eq ht hself] at htallies' hcapped' ⊢
      exact ⟨htallies', hcapped'⟩
    · rw [if_neg hwithin] at hresult hfb
      have hdrop : (l.outcome c).result ≠ .forward := by
        rw [hresult]
        exact nofun
      rw [FloodLog.call, hfb, FloodLog.forwarded, if_neg hdrop]
      exact ⟨⟨htallies.counted, htallies.count, htallies.air, htallies.hour⟩,
        ⟨hcapped.maxFwdCount, hcapped.maxAirUs, hcapped.maxHourAirUs, hcapped.count, hcapped.air,
          hcapped.hour⟩⟩
  · obtain ⟨hdrop, hfb⟩ := outcome_of_not_budgeted hbudget
    rw [FloodLog.call, hfb, FloodLog.forwarded, if_neg hdrop]
    dsimp only [Option.getD_some]
    rw [if_pos rfl, if_pos rfl]
    exact ⟨h.tallies, h.capped⟩

/-- True totals within the caps are what the caps are for; of the types that are not counted,
nothing was forwarded. -/
theorem FloodLog.Counted.withinCaps {role : NodeRole} {l : FloodLog} (h : l.Counted role) :
    l.WithinCaps role := by
  have hnone : ∀ pktType, ¬pktType < fwdbudgetPktTypes → ofType pktType l.minute = [] := by
    intro pktType ht
    rw [ofType, List.filter_eq_nil_iff]
    intro f hf heq
    have hf' := h.tallies.counted f hf
    rw [of_decide_eq_true heq] at hf'
    exact ht hf'
  refine ⟨?_, ?_, ?_⟩
  · intro pktType _ _
    by_cases ht : pktType < fwdbudgetPktTypes
    · rw [h.tallies.count pktType ht]
      exact UInt16.le_iff_toNat_le.mp (h.capped.count pktType ht)
    · rw [hnone pktType ht]
      exact Nat.zero_le _
  · intro pktType _ _
    by_cases ht : pktType < fwdbudgetPktTypes
    · rw [h.tallies.air pktType ht]
      exact UInt32.le_iff_toNat_le.mp (h.capped.air pktType ht)
    · rw [hnone pktType ht]
      exact Nat.zero_le _
  · rw [h.tallies.hour]
    exact UInt32.le_iff_toNat_le.mp h.capped.hour

/-- **The caps of the forward budget.** In a run in which every frame that comes to the budget is of
a counted type, and overflows no counter, what is forwarded between two resets stays within the
caps. -/
theorem forward_budget_caps {role : NodeRole} {l : FloodLog}
    (run : Run FloodLog.call FloodLog.Charges (FloodLog.init role) l) : l.WithinCaps role :=
  (run.invariant (counted_init role) fun _ _ h hc => h.call hc).withinCaps

/-! ### Types that are not counted -/

/-- A frame heard from its source. -/
def heardFrame (pktType : UInt8) (pktId : UInt16) : FloodCall where
  pkt := { sampleChatHdr with pktType := pktType, pktId := pktId }
  toaUs := 100000
  afterMs := 0

/-- Two chat frames. -/
theorem forward_budget_caps_chat :
    ((FloodLog.init .client).call (heardFrame pktChat 1) |>.call
      (heardFrame pktChat 2)).WithinCaps .client := by
  have hrun : Run FloodLog.call FloodLog.Charges (FloodLog.init .client)
      ([heardFrame pktChat 1, heardFrame pktChat 2].foldl FloodLog.call (FloodLog.init .client)) :=
    run_foldl ⟨fun _ => by decide +kernel, fun _ => by decide +kernel, trivial⟩
  exact forward_budget_caps hrun

/-- **A type that is not counted.** A client forwards 21 telemetry frames at once, where the cap is
20 a minute. -/
theorem not_forward_budget_caps :
    ¬∀ (role : NodeRole) (l : FloodLog),
      Run FloodLog.call (fun _ _ => True) (FloodLog.init role) l → l.WithinCaps role := by
  intro hcaps
  have hrun := run_foldl (allows_true FloodLog.call (FloodLog.init .client)
    ((List.range 21).map fun i => heardFrame pktTelemetry (UInt16.ofNat i)))
  have hcount := (hcaps .client _ hrun).count pktTelemetry (by decide) (by decide)
  exact absurd hcount (by decide +kernel)

end Rivr
