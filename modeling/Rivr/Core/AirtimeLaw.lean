import Rivr.Core.Feed
import Rivr.ForMathlib.TumblingQuota

/-!
# The airtime budgets over an interval

`AirtimeBudget` and `ToaBudget` keep one counter and the start of the window it belongs to. The
window tumbles: past its end it is cut anew from the start of time, so the windows are
`[k * width, (k + 1) * width)`, and every one of them has the whole budget. What is forwarded in
an interval of the width of a window is therefore what the rest of one window and the beginning of
the next one admit, and it can be twice the budget.

When the start of the window and its width do not fit into 64 bits together, the sum wraps and
every arrival rolls the window, which then admits as if nothing had been used.
-/

namespace Rivr.Core

open TumblingQuota

variable {checks : Bool}

/-! ### The window -/

/-- What a roll leaves: a window that starts at a multiple of the width and holds the tick. It is
the old one, kept, unless the tick is past its end or its end does not fit into 64 bits. -/
theorem rollWindow_spec {tick start width : UInt64} {rolled : Option UInt64} {k : ℕ}
    (h : rollWindow checks tick start width = .ok rolled) (hk : start.toNat = k * width.toNat)
    (hle : start ≤ tick) :
    ∃ j, (rolled.getD start).toNat = j * width.toNat ∧ j * width.toNat ≤ tick.toNat ∧
      tick.toNat < (j + 1) * width.toNat ∧
      (rolled = none → (j + 1) * width.toNat < 2 ^ 64) ∧
      (rolled.isSome → (k + 1) * width.toNat ≤ j * width.toNat ∨
        2 ^ 64 ≤ (j + 1) * width.toNat) := by
  obtain ⟨deadline, hdeadline, h⟩ := Except.of_bind_eq_ok h
  rw [UInt64.le_iff_toNat_le] at hle
  have hsum : deadline.toNat = (start.toNat + width.toNat) % 2 ^ 64 := by
    rw [addU64_eq hdeadline, UInt64.toNat_add]
  have hstart := start.toNat_lt
  have htick := tick.toNat_lt
  have hnext : ∀ j, (j + 1) * width.toNat = j * width.toNat + width.toNat := fun j =>
    Nat.succ_mul j _
  split_ifs at h with hpast
  · obtain ⟨elapsed, helapsed, h⟩ := Except.of_bind_eq_ok h
    obtain ⟨advance, hadvance, h⟩ := Except.of_bind_eq_ok h
    obtain ⟨jump, hjump, h⟩ := Except.of_bind_eq_ok h
    obtain ⟨next, hnextStart, h⟩ := Except.of_bind_eq_ok h
    obtain rfl : some next = rolled := Except.ok.inj h
    obtain ⟨hwidth, rfl⟩ := divU64_eq hadvance
    have hpos : 0 < width.toNat := by
      rw [Nat.pos_iff_ne_zero]
      exact fun h0 => hwidth (UInt64.toNat_inj.mp h0)
    have helapsed' : elapsed.toNat = tick.toNat - start.toNat := by
      rw [subU64_eq helapsed, UInt64.toNat_sub_of_le _ _ (UInt64.le_iff_toNat_le.mpr hle)]
    have hdiv := Nat.div_mul_le_self elapsed.toNat width.toNat
    have hmod := Nat.lt_div_mul_add (a := elapsed.toNat) hpos
    have hnext' : next.toNat = (k + elapsed.toNat / width.toNat) * width.toNat := by
      rw [addU64_eq hnextStart, UInt64.toNat_add, mulU64_eq hjump, UInt64.toNat_mul,
        UInt64.toNat_div, Nat.add_mul, ← hk, Nat.mod_eq_of_lt (by omega),
        Nat.mod_eq_of_lt (by omega)]
    -- the start moves by whole windows, so it stays a multiple of the width
    refine ⟨k + elapsed.toNat / width.toNat, hnext', ?_, ?_, by simp, fun _ => ?_⟩
    · rw [Nat.add_mul, ← hk]
      omega
    · rw [hnext, Nat.add_mul, ← hk]
      omega
    · by_cases hover : start.toNat + width.toNat < 2 ^ 64
      · -- the tick is past the end, so the window moves on by at least one
        left
        rw [Nat.mod_eq_of_lt hover] at hsum
        rw [UInt64.le_iff_toNat_le, hsum] at hpast
        refine Nat.mul_le_mul_right _ (Nat.add_le_add_left ?_ k)
        exact (Nat.one_le_div_iff hpos).mpr (by omega)
      · right
        rw [hnext, Nat.add_mul, ← hk]
        omega
  · obtain rfl : none = rolled := Except.ok.inj h
    rw [UInt64.le_iff_toNat_le, hsum] at hpast
    have hover : start.toNat + width.toNat < 2 ^ 64 := by
      by_contra hover
      -- a sum that wrapped would lie below the start, and so below the tick
      have hwidth := width.toNat_lt
      rw [Nat.mod_eq_sub_mod (by omega), Nat.mod_eq_of_lt (by omega)] at hpast
      omega
    rw [Nat.mod_eq_of_lt hover] at hpast
    refine ⟨k, hk, by omega, ?_, fun _ => ?_, by simp⟩
    · rw [hnext]
      omega
    · rw [hnext]
      omega

/-! ### The counter -/

/-- The rule of an operator's `k`-th window: one more is admitted when the counter, `level n` after
`n` admitted events, allows it. A window whose end does not fit into 64 bits is rolled at every
arrival, and its counter is always the one of a fresh window. -/
def windowRule (width : ℕ) (level : ℕ → ℕ) (fits : ℕ → Prop) (k n : ℕ) : Prop :=
  fits (level (if (k + 1) * width < 2 ^ 64 then n else 0))

instance (width : ℕ) (level : ℕ → ℕ) (fits : ℕ → Prop) [DecidablePred fits] (k : ℕ) :
    DecidablePred (windowRule width level fits k) := fun _ => inferInstanceAs (Decidable (fits _))

section Metered

variable {width : UInt64} {level : ℕ → ℕ} {fits : ℕ → Prop} [DecidablePred fits]
  {done sent : List Event} {start used : UInt64}

/-- The counter and the window of an operator after the events `done`, of which it has sent
`sent`. -/
structure Metered (width : UInt64) (level : ℕ → ℕ) (fits : ℕ → Prop) [DecidablePred fits]
    (done sent : List Event) (start used : UInt64) : Prop where
  served : Served width.toNat (windowRule width.toNat level fits) (ticks done) (ticks sent)
  start_le : ∀ tick, (∀ e ∈ done, e.stamp.tick ≤ tick) → start ≤ tick
  window : ∃ k, start.toNat = k * width.toNat ∧
    (∀ e ∈ done, e.stamp.tick.toNat < (k + 1) * width.toNat) ∧
    ((k + 1) * width.toNat < 2 ^ 64 →
      used.toNat = level (quota (windowRule width.toNat level fits k)
        (countIn (k * width.toNat) ((k + 1) * width.toNat) (ticks done))))

theorem metered_init (hlevel : level 0 = 0) : Metered width level fits [] [] 0 0 where
  served := served_nil
  start_le _ _ := UInt64.le_iff_toNat_le.mpr (Nat.zero_le _)
  window := ⟨0, by simp, by simp, fun _ => by simp [quota, hlevel]⟩

/-- The counter the next event meets, once the window is rolled. -/
theorem Metered.roll (h : Metered width level fits done sent start used) (hlevel : level 0 = 0)
    {tick : UInt64} (hlast : ∀ e ∈ done, e.stamp.tick ≤ tick) {rolled : Option UInt64}
    (hroll : rollWindow checks tick start width = .ok rolled) :
    ∃ j, (rolled.getD start).toNat = j * width.toNat ∧ j * width.toNat ≤ tick.toNat ∧
      tick.toNat < (j + 1) * width.toNat ∧
      (if rolled.isSome then 0 else used).toNat =
        level (if (j + 1) * width.toNat < 2 ^ 64 then
          quota (windowRule width.toNat level fits j)
            (countIn (j * width.toNat) ((j + 1) * width.toNat) (ticks done)) else 0) := by
  obtain ⟨k, hk, hended, hused⟩ := h.window
  obtain ⟨j, hj, hjt, htj, hnone, hsome⟩ := rollWindow_spec hroll hk (h.start_le _ hlast)
  refine ⟨j, hj, hjt, htj, ?_⟩
  cases rolled with
  | none =>
    obtain rfl : k = j := by
      have hpos : 0 < width.toNat := by
        rw [Nat.pos_iff_ne_zero]
        intro h0
        rw [h0] at htj
        omega
      exact Nat.eq_of_mul_eq_mul_right hpos (hk.symm.trans hj)
    rw [if_pos (hnone rfl)]
    exact hused (hnone rfl)
  | some next =>
    rcases hsome rfl with hmoved | hover
    · -- nothing that came before is in the new window
      have hempty : countIn (j * width.toNat) ((j + 1) * width.toNat) (ticks done) = 0 := by
        refine countIn_eq_zero fun t ht => ?_
        obtain ⟨e, he, rfl⟩ := List.mem_map.mp ht
        exact (hended e he).trans_le hmoved
      rw [hempty]
      simp [quota, hlevel]
    · rw [if_neg (Nat.not_lt.mpr hover), hlevel]
      rfl

/-- One more event: it is sent if the counter allows it, and the counter moves on then. -/
theorem Metered.snoc (h : Metered width level fits done sent start used) (hlevel : level 0 = 0)
    {ev : Event} (hlast : ∀ e ∈ done, e.stamp.tick ≤ ev.stamp.tick) {rolled : Option UInt64}
    (hroll : rollWindow checks ev.stamp.tick start width = .ok rolled) {used' : UInt64}
    {out : List Event}
    (hpass : fits (if rolled.isSome then 0 else used).toNat → out = [ev] ∧
      ∀ n, (if rolled.isSome then 0 else used).toNat = level n → used'.toNat = level (n + 1))
    (hdrop : ¬fits (if rolled.isSome then 0 else used).toNat → out = [] ∧
      used' = if rolled.isSome then 0 else used) :
    Metered width level fits (done ++ [ev]) (sent ++ out) (rolled.getD start) used' := by
  obtain ⟨j, hj, hjt, htj, hlev⟩ := h.roll hlevel hlast hroll
  set n := quota (windowRule width.toNat level fits j)
    (countIn (j * width.toNat) ((j + 1) * width.toNat) (ticks done)) with hn
  have hfits : fits (if rolled.isSome then 0 else used).toNat ↔
      windowRule width.toNat level fits j n := by rw [hlev, windowRule]
  have hticks : ∀ t ∈ ticks done, t ≤ ev.stamp.tick.toNat := by
    intro t ht
    obtain ⟨e, he, rfl⟩ := List.mem_map.mp ht
    exact UInt64.le_iff_toNat_le.mp (hlast e he)
  have hserved := h.served.snoc hticks hjt htj
  refine ⟨?_, ?_, j, hj, ?_, fun hfit => ?_⟩
  · rw [ticks_append, ticks_append, ticks_singleton]
    by_cases hif : fits (if rolled.isSome then 0 else used).toNat
    · rw [if_pos (hfits.mp hif)] at hserved
      rw [(hpass hif).1]
      exact hserved
    · rw [if_neg (mt hfits.mpr hif)] at hserved
      rw [(hdrop hif).1]
      exact hserved
  · intro tick htick
    have hev := htick ev (by simp)
    rw [UInt64.le_iff_toNat_le] at hev ⊢
    omega
  · intro e he
    rcases List.mem_append.mp he with he | he
    · have := hlast e he
      rw [UInt64.le_iff_toNat_le] at this
      omega
    · rw [List.mem_singleton.mp he]
      exact htj
  · -- the window is an ordinary one, so the counter is that of the events it admitted
    rw [if_pos hfit] at hlev
    rw [ticks_append, ticks_singleton, countIn_append, countIn_singleton, if_pos ⟨hjt, htj⟩, quota,
      ← hn]
    by_cases hif : fits (if rolled.isSome then 0 else used).toNat
    · rw [if_pos (hfits.mp hif)]
      exact (hpass hif).2 n hlev
    · rw [if_neg (mt hfits.mpr hif), (hdrop hif).2]
      exact hlev

end Metered

/-! ### The two operators -/

/-- The rule of an airtime budget: each event costs one unit. -/
abbrev airtimeRule (width budget : ℕ) : ℕ → ℕ → Prop := windowRule width id (· < budget)

/-- The rule of a time-on-air budget: the counter and its next value are sums of 64 bits. -/
abbrev toaRule (width budget cost : ℕ) : ℕ → ℕ → Prop :=
  windowRule width (fun n => n * cost % 2 ^ 64) fun used => (used + cost) % 2 ^ 64 ≤ budget

theorem AirtimeBudget.metered_process {b b' : AirtimeBudget} {done sent out : List Event}
    {ev : Event} (h : Metered b.windowTicks id (· < b.budgetPerWindow.toNat) done sent
      b.windowStart b.used) (hlast : ∀ e ∈ done, e.stamp.tick ≤ ev.stamp.tick)
    (hprocess : b.process checks ev = .ok (out, b')) :
    b'.windowTicks = b.windowTicks ∧ b'.budgetPerWindow = b.budgetPerWindow ∧
      Metered b.windowTicks id (· < b.budgetPerWindow.toNat) (done ++ [ev]) (sent ++ out)
        b'.windowStart b'.used := by
  rw [AirtimeBudget.process_eq] at hprocess
  obtain ⟨roll, hroll, hprocess⟩ := Except.of_bind_eq_ok hprocess
  split_ifs at hprocess with hif <;> obtain ⟨sum, hsum, hprocess⟩ := Except.of_bind_eq_ok hprocess
    <;> cases hprocess <;> rw [UInt64.lt_iff_toNat_lt] at hif
  · refine ⟨rfl, rfl, h.snoc rfl hlast hroll (fun _ => ⟨rfl, fun n hn => ?_⟩) fun h => absurd hif h⟩
    -- the counter is below the budget, so it has room for one more
    have hbudget := b.budgetPerWindow.toNat_lt
    have hn' : (b.rolled roll).used.toNat = n := hn
    rw [addU64_eq hsum, UInt64.toNat_add, UInt64.toNat_one, Nat.mod_eq_of_lt (by omega), hn', id]
  · exact ⟨rfl, rfl, h.snoc rfl hlast hroll (fun h => absurd h hif) fun _ => ⟨rfl, rfl⟩⟩

theorem ToaBudget.metered_process {b b' : ToaBudget} {done sent out : List Event}
    {ev : Event} (h : Metered b.windowMs (fun n => n * b.toaUsPerEvent.toNat % 2 ^ 64)
      (fun used => (used + b.toaUsPerEvent.toNat) % 2 ^ 64 ≤ b.budgetUs.toNat) done sent
      b.windowStart b.usedUs) (hlast : ∀ e ∈ done, e.stamp.tick ≤ ev.stamp.tick)
    (hprocess : b.process checks ev = .ok (out, b')) :
    b'.windowMs = b.windowMs ∧ b'.budgetUs = b.budgetUs ∧ b'.toaUsPerEvent = b.toaUsPerEvent ∧
      Metered b.windowMs (fun n => n * b.toaUsPerEvent.toNat % 2 ^ 64)
        (fun used => (used + b.toaUsPerEvent.toNat) % 2 ^ 64 ≤ b.budgetUs.toNat) (done ++ [ev])
        (sent ++ out) b'.windowStart b'.usedUs := by
  rw [ToaBudget.process_eq] at hprocess
  obtain ⟨roll, hroll, hprocess⟩ := Except.of_bind_eq_ok hprocess
  obtain ⟨sum, hsum, hprocess⟩ := Except.of_bind_eq_ok hprocess
  have hlevel : 0 * b.toaUsPerEvent.toNat % 2 ^ 64 = 0 := by rw [Nat.zero_mul, Nat.zero_mod]
  have hsum' : sum.toNat = ((if roll.isSome then 0 else b.usedUs).toNat + b.toaUsPerEvent.toNat)
      % 2 ^ 64 := by
    rw [addU64_eq hsum, UInt64.toNat_add]
    rfl
  split_ifs at hprocess with hif <;> rw [UInt64.le_iff_toNat_le, hsum'] at hif
  · cases hprocess
    refine ⟨rfl, rfl, rfl,
      h.snoc hlevel hlast hroll (fun _ => ⟨rfl, fun n hn => ?_⟩) fun h => absurd hif h⟩
    rw [hsum', hn, Nat.succ_mul, Nat.mod_add_mod]
  · obtain ⟨dropped, -, hprocess⟩ := Except.of_bind_eq_ok hprocess
    cases hprocess
    exact ⟨rfl, rfl, rfl, h.snoc hlevel hlast hroll (fun h => absurd h hif) fun _ => ⟨rfl, rfl⟩⟩

/-! ### Runs -/

/-- An airtime budget as the compiler makes it. -/
def airtimeBudgetNode (window budget : UInt64) : NodeKind := .airtimeBudget ⟨window, budget, 0, 0, 0⟩

/-- A time-on-air budget as the compiler makes it. -/
def toaBudgetNode (window budget cost : UInt64) : NodeKind :=
  .toaBudget ⟨window, budget, 0, 0, cost, 0⟩

variable {window budget cost : UInt64} {evs out : List Event} {kind : NodeKind}

theorem airtimeBudgetNode_metered (hsorted : TickSorted evs)
    (h : (airtimeBudgetNode window budget).feed checks evs = .ok (out, kind)) :
    ∃ start used, Metered window id (· < budget.toNat) evs out start used := by
  have hfeed := NodeKind.feed_invariant
    (fun done sent kind => ∃ b, kind = .airtimeBudget b ∧ b.windowTicks = window ∧
      b.budgetPerWindow = budget ∧
      Metered window id (· < budget.toNat) done sent b.windowStart b.used)
    ?_ ⟨_, rfl, rfl, rfl, metered_init rfl⟩ hsorted h
  · obtain ⟨b, -, -, -, hb⟩ := hfeed
    exact ⟨_, _, hb⟩
  · rintro done sent _ kind' ev out ⟨b, rfl, rfl, rfl, hb⟩ hlast hprocess
    obtain ⟨⟨out, b'⟩, hbudget, hout⟩ := Except.of_map_eq_ok hprocess
    cases hout
    obtain ⟨hwindow, hbudget, hb'⟩ := AirtimeBudget.metered_process hb hlast hbudget
    exact ⟨b', rfl, hwindow, hbudget, hb'⟩

theorem toaBudgetNode_metered (hsorted : TickSorted evs)
    (h : (toaBudgetNode window budget cost).feed checks evs = .ok (out, kind)) :
    ∃ start used, Metered window (fun n => n * cost.toNat % 2 ^ 64)
      (fun used => (used + cost.toNat) % 2 ^ 64 ≤ budget.toNat) evs out start used := by
  have hfeed := NodeKind.feed_invariant
    (fun done sent kind => ∃ b, kind = .toaBudget b ∧ b.windowMs = window ∧ b.budgetUs = budget ∧
      b.toaUsPerEvent = cost ∧ Metered window (fun n => n * cost.toNat % 2 ^ 64)
        (fun used => (used + cost.toNat) % 2 ^ 64 ≤ budget.toNat) done sent b.windowStart b.usedUs)
    ?_ ⟨_, rfl, rfl, rfl, rfl, metered_init (by rw [Nat.zero_mul, Nat.zero_mod])⟩ hsorted h
  · obtain ⟨b, -, -, -, -, hb⟩ := hfeed
    exact ⟨_, _, hb⟩
  · rintro done sent _ kind' ev out ⟨b, rfl, rfl, rfl, rfl, hb⟩ hlast hprocess
    obtain ⟨⟨out, b'⟩, hbudget, hout⟩ := Except.of_map_eq_ok hprocess
    cases hout
    obtain ⟨hwindow, hbudget, hcost, hb'⟩ := ToaBudget.metered_process hb hlast hbudget
    exact ⟨b', rfl, hwindow, hbudget, hcost, hb'⟩

/-- In the build that wraps, a roll fails for no window but an empty one. -/
theorem rollWindow_ok (tick start : UInt64) {width : UInt64} (hwidth : width ≠ 0) :
    ∃ rolled, rollWindow false tick start width = .ok rolled := by
  simp only [rollWindow, addU64, subU64, mulU64, divU64, if_neg hwidth, Bool.false_and,
    Bool.false_eq_true, if_false, bind, Except.bind]
  split_ifs
  · exact ⟨_, rfl⟩
  · exact ⟨_, rfl⟩

/-- The build that wraps gets through every sequence. -/
theorem budgetNodes_feed_ok (hwindow : window ≠ 0) (evs : List Event) :
    (∀ b : AirtimeBudget, b.windowTicks = window →
      ∃ out kind, (NodeKind.airtimeBudget b).feed false evs = .ok (out, kind)) ∧
    ∀ b : ToaBudget, b.windowMs = window →
      ∃ out kind, (NodeKind.toaBudget b).feed false evs = .ok (out, kind) := by
  induction evs with
  | nil => exact ⟨fun b _ => ⟨[], _, rfl⟩, fun b _ => ⟨[], _, rfl⟩⟩
  | cons ev evs ih =>
    constructor
    · intro b hb
      obtain ⟨roll, hroll⟩ := rollWindow_ok ev.stamp.tick b.windowStart (hb ▸ hwindow)
      have hprocess : ∃ out b', b.process false ev = .ok (out, b') ∧ b'.windowTicks = window := by
        rw [AirtimeBudget.process_eq, hroll]
        by_cases hif : (b.rolled roll).used < b.budgetPerWindow
        · exact ⟨_, _, if_pos hif, hb⟩
        · exact ⟨_, _, if_neg hif, hb⟩
      obtain ⟨out, b', hprocess, hb'⟩ := hprocess
      obtain ⟨rest, kind, hrest⟩ := ih.1 b' hb'
      exact ⟨out ++ rest, kind, by
        simp [NodeKind.feed, NodeKind.process, hprocess, hrest, Except.map, bind, Except.bind]⟩
    · intro b hb
      obtain ⟨roll, hroll⟩ := rollWindow_ok ev.stamp.tick b.windowStart (hb ▸ hwindow)
      have hprocess : ∃ out b', b.process false ev = .ok (out, b') ∧ b'.windowMs = window := by
        rw [ToaBudget.process_eq, hroll]
        by_cases hif : (b.rolled roll).usedUs + b.toaUsPerEvent ≤ b.budgetUs
        · exact ⟨_, _, if_pos hif, hb⟩
        · exact ⟨_, _, if_neg hif, hb⟩
      obtain ⟨out, b', hprocess, hb'⟩ := hprocess
      obtain ⟨rest, kind, hrest⟩ := ih.2 b' hb'
      exact ⟨out ++ rest, kind, by
        simp [NodeKind.feed, NodeKind.process, hprocess, hrest, Except.map, bind, Except.bind]⟩

/-! ### The law of an interval -/

/-- The airtime that the events use whose ticks lie in `[x, x + width)`. -/
def spentIn (cost width x : ℕ) (sent : List Event) : ℕ := cost * countIn x (x + width) (ticks sent)

/-- **The budget is not straddled.** Wherever an interval of the width of a window starts, what the
rule admits of the arrivals in the rest of its first window and in its part of the next window costs
no more than the budget. -/
def NotStraddled (budget cost width : ℕ) (rule : ℕ → ℕ → Prop) [∀ k, DecidablePred (rule k)]
    (arrivals : List ℕ) : Prop :=
  ∀ x, cost *
    (quota (rule (x / width)) (countIn (x / width * width) ((x / width + 1) * width) arrivals)
      - quota (rule (x / width)) (countIn (x / width * width) x arrivals)
      + quota (rule (x / width + 1)) (countIn ((x / width + 1) * width) (x + width) arrivals))
    ≤ budget

/-- In a window of an airtime budget whose end fits into 64 bits, the first arrivals are admitted,
up to the budget. -/
theorem quota_airtimeRule {w k : ℕ} (hw : (k + 1) * w < 2 ^ 64) (b n : ℕ) :
    quota (airtimeRule w b k) n = min n b := by
  refine quota_eq_min _ (fun m _ => ?_) n
  rw [airtimeRule, windowRule, if_pos hw, id]

/-- In a window of a time-on-air budget the first arrivals are admitted, as many as their costs
fit into the budget, when neither the window nor one more cost overflows. -/
theorem quota_toaRule {w k b c : ℕ} (hw : (k + 1) * w < 2 ^ 64) (hc : 0 < c) (hb : b + c < 2 ^ 64)
    (n : ℕ) : quota (toaRule w b c k) n = min n (b / c) := by
  refine quota_eq_min _ (fun m hm => ?_) n
  have hmul : m * c ≤ b := (Nat.mul_le_mul_right c hm).trans (Nat.div_mul_le_self b c)
  rw [toaRule, windowRule, if_pos hw, Nat.mod_eq_of_lt (by omega), Nat.mod_eq_of_lt (by omega),
    ← Nat.succ_mul, ← Nat.succ_le_iff, Nat.le_div_iff_mul_le hc]

theorem Metered.law {level : ℕ → ℕ} {fits : ℕ → Prop} [DecidablePred fits] {start used : UInt64}
    (h : Metered window level fits evs out start used) (b c : ℕ) :
    (∀ x, spentIn c window.toNat x out ≤ b) ↔
      NotStraddled b c window.toNat (windowRule window.toNat level fits) (ticks evs) := by
  rcases Nat.eq_zero_or_pos window.toNat with hzero | hpos
  · -- with a width of zero nothing can have come through
    obtain ⟨k, -, hended, -⟩ := h.window
    have hnone : evs = [] := by
      rw [List.eq_nil_iff_forall_not_mem]
      intro e he
      have := hended e he
      rw [hzero] at this
      omega
    have hsent : ∀ x, spentIn c window.toNat x out = 0 := by
      intro x
      rw [spentIn, hzero, countIn, List.countP_eq_zero.mpr, Nat.mul_zero]
      intro t _
      simp
    simp [hsent, NotStraddled, hnone, quota]
  · refine forall_congr' fun x => ?_
    rw [spentIn, h.served.countIn_interval hpos]

/-- **Airtime budgets over an interval.** Of any sequence of events in the order of their ticks that
a budget node gets through, the events it forwards in an interval of the width of its window cost
no more than its budget, wherever the interval lies, exactly when the arrivals do not straddle the
budget. -/
theorem budget_interval_iff (checks : Bool) (window budget cost : UInt64) (evs : List Event)
    (hsorted : TickSorted evs) :
    (∀ out kind, (airtimeBudgetNode window budget).feed checks evs = .ok (out, kind) →
      ((∀ x, spentIn 1 window.toNat x out ≤ budget.toNat) ↔
        NotStraddled budget.toNat 1 window.toNat (airtimeRule window.toNat budget.toNat)
          (ticks evs))) ∧
    ∀ out kind, (toaBudgetNode window budget cost).feed checks evs = .ok (out, kind) →
      ((∀ x, spentIn cost.toNat window.toNat x out ≤ budget.toNat) ↔
        NotStraddled budget.toNat cost.toNat window.toNat
          (toaRule window.toNat budget.toNat cost.toNat) (ticks evs)) := by
  constructor
  · intro out kind h
    obtain ⟨start, used, hmetered⟩ := airtimeBudgetNode_metered hsorted h
    exact hmetered.law _ _
  · intro out kind h
    obtain ⟨start, used, hmetered⟩ := toaBudgetNode_metered hsorted h
    exact hmetered.law _ _

/-- Four events on both sides of the end of a window of ten ticks. -/
def straddlingEvents : List Event :=
  [8, 9, 10, 11].map fun tick => Event.new ⟨0, tick⟩ (.int 0)

theorem budget_interval_iff_sample :
    (∃ out kind, (airtimeBudgetNode 10 2).feed true straddlingEvents = .ok (out, kind) ∧
      ((∀ x, spentIn 1 10 x out ≤ 2) ↔
        NotStraddled 2 1 10 (airtimeRule 10 2) (ticks straddlingEvents))) ∧
    ∃ out kind, (toaBudgetNode 10 800 400).feed true straddlingEvents = .ok (out, kind) ∧
      ((∀ x, spentIn 400 10 x out ≤ 800) ↔
        NotStraddled 800 400 10 (toaRule 10 800 400) (ticks straddlingEvents)) :=
  have hsorted : TickSorted straddlingEvents := by unfold TickSorted; decide
  ⟨⟨_, _, rfl, (budget_interval_iff true 10 2 400 straddlingEvents hsorted).1 _ _ rfl⟩,
    _, _, rfl, (budget_interval_iff true 10 800 400 straddlingEvents hsorted).2 _ _ rfl⟩

/-- Both budgets can be spent twice within one interval of their window's width. -/
theorem not_budget_interval :
    (¬∀ (window budget : UInt64) (evs out : List Event) (kind : NodeKind), window ≠ 0 →
      TickSorted evs → (airtimeBudgetNode window budget).feed true evs = .ok (out, kind) →
      ∀ x, spentIn 1 window.toNat x out ≤ budget.toNat) ∧
    ¬∀ (window budget cost : UInt64) (evs out : List Event) (kind : NodeKind), window ≠ 0 →
      TickSorted evs → (toaBudgetNode window budget cost).feed true evs = .ok (out, kind) →
      ∀ x, spentIn cost.toNat window.toNat x out ≤ budget.toNat := by
  have hsorted : TickSorted straddlingEvents := by unfold TickSorted; decide
  constructor
  · intro h
    have hspent := h 10 2 straddlingEvents _ _ (by decide) hsorted rfl 8
    revert hspent
    decide
  · intro h
    have hspent := h 10 800 400 straddlingEvents _ _ (by decide) hsorted rfl 8
    revert hspent
    decide

end Rivr.Core
