import Mathlib.Algebra.Ring.Nat
import Rivr.Firmware.RmlThreads

/-!
# What a rejected message leaves

Each check of `rml_policy_decide` can reject a message, and the table of the newest statuses is
written between two of them. A rejected message leaves the caches as they were, but for texts whose
time is over, unless it is a status that a check after this table turns down
(`leavesNoTrace_iff`): that status is too old for the table when it comes again. The check of the
airtime computes a percentage in 32 bits (`rmlAirtimeAllowed_exact_iff`).
-/

namespace Rivr

variable {s : RmlState} {msg : RmlMessage} {ctx : RmlContext}

/-! ### The floor of the airtime -/

/-- The share of the budget that is left, rounded down, is not below the floor. -/
def AboveFloor (ctx : RmlContext) (policy : RmlIntentPolicy) : Prop :=
  policy.airtimeFloorPct.toNat ≤ ctx.dutyRemainingUs.toNat * 100 / ctx.dutyBudgetUs.toNat

/-- The product of 32 bits does not fall below the floor where the product of the integers is not
below it. -/
def FloorKept (ctx : RmlContext) (policy : RmlIntentPolicy) : Prop :=
  ctx.dutyRemainingUs.toNat * 100 < policy.airtimeFloorPct.toNat * ctx.dutyBudgetUs.toNat ∨
    policy.airtimeFloorPct.toNat * ctx.dutyBudgetUs.toNat ≤ ctx.dutyRemainingUs.toNat * 100 % 2 ^ 32

instance (ctx : RmlContext) (policy : RmlIntentPolicy) : Decidable (FloorKept ctx policy) :=
  inferInstanceAs (Decidable (_ ∨ _))

theorem rmlAirtimeAllowed_eq_true_iff {policy : RmlIntentPolicy} (hbudget : ctx.dutyBudgetUs ≠ 0) :
    rmlAirtimeAllowed ctx policy = true ↔
      policy.airtimeFloorPct.toNat * ctx.dutyBudgetUs.toNat ≤
        ctx.dutyRemainingUs.toNat * 100 % 2 ^ 32 := by
  have hpos : 0 < ctx.dutyBudgetUs.toNat := by
    rw [Nat.pos_iff_ne_zero, ← UInt32.toNat_zero]
    exact fun h => hbudget (UInt32.toNat.inj h)
  rw [rmlAirtimeAllowed]
  split_ifs with hfree
  · rw [hfree.resolve_left hbudget]
    simp
  · rw [decide_eq_true_eq, ge_iff_le, UInt32.le_iff_toNat_le, UInt32.toNat_div, UInt32.toNat_mul,
      Nat.le_div_iff_mul_le hpos]
    rfl

/-- **The floor of the airtime** is what the check compares with exactly where the product does not
wrap to less than the floor. -/
theorem rmlAirtimeAllowed_exact_iff (ctx : RmlContext) (policy : RmlIntentPolicy)
    (hbudget : ctx.dutyBudgetUs ≠ 0) :
    (rmlAirtimeAllowed ctx policy = true ↔ AboveFloor ctx policy) ↔ FloorKept ctx policy := by
  have hpos : 0 < ctx.dutyBudgetUs.toNat := by
    rw [Nat.pos_iff_ne_zero, ← UInt32.toNat_zero]
    exact fun h => hbudget (UInt32.toNat.inj h)
  have hle : ctx.dutyRemainingUs.toNat * 100 % 2 ^ 32 ≤ ctx.dutyRemainingUs.toNat * 100 :=
    Nat.mod_le _ _
  rw [rmlAirtimeAllowed_eq_true_iff hbudget, AboveFloor, FloorKept, Nat.le_div_iff_mul_le hpos]
  constructor
  · intro h
    rw [h, ← Nat.not_le]
    exact (em _).symm
  · rintro (hbelow | hkept)
    · exact iff_of_false (by omega) (by omega)
    · exact iff_of_true hkept (hkept.trans hle)

/-- A quarter of an hour's budget of 36 s. -/
theorem rmlAirtimeAllowed_exact_iff_quarter :
    (rmlAirtimeAllowed
        { sampleRmlContext 1 with dutyBudgetUs := 36000000, dutyRemainingUs := 9000000 }
        chatIntentPolicy = true ↔
      AboveFloor { sampleRmlContext 1 with dutyBudgetUs := 36000000, dutyRemainingUs := 9000000 }
        chatIntentPolicy) ↔
      FloorKept { sampleRmlContext 1 with dutyBudgetUs := 36000000, dutyRemainingUs := 9000000 }
        chatIntentPolicy :=
  rmlAirtimeAllowed_exact_iff _ _ (by decide)

/-- **A full budget is turned down.** With the largest budget, all of it left, the percentage is
0. -/
theorem not_rmlAirtimeAllowed_exact : ¬∀ (ctx : RmlContext) (policy : RmlIntentPolicy),
    ctx.dutyBudgetUs ≠ 0 → (rmlAirtimeAllowed ctx policy = true ↔ AboveFloor ctx policy) := by
  intro hall
  have hfull := hall { sampleRmlContext 1 with
    dutyBudgetUs := 0xFFFFFFFF, dutyRemainingUs := 0xFFFFFFFF } chatIntentPolicy (by decide)
  rw [AboveFloor] at hfull
  exact absurd (hfull.mpr (by decide)) (by decide)

/-! ### The checks, one after the other -/

/-- The message passes the checks before the one of its status. -/
structure RmlMessage.Presentable (msg : RmlMessage) (s : RmlState) (ctx : RmlContext) : Prop where
  magic : msg.magic = rmlMagic
  version : msg.version = rmlVersion
  length : msg.payload.length ≤ rmlMaxPayload
  fresh : rmlSeen s.seen msg.msgId = false
  inTime : ¬(ctx.hasTime = true ∧ msg.expiresS ≠ 0 ∧ ctx.nowS > msg.expiresS.toUInt32)

/-- What the table of statuses says, and what becomes of it. -/
def RmlMessage.statusCheck (msg : RmlMessage) (status : List RmlStatusSlot) :
    Bool × List RmlStatusSlot :=
  if msg.intent = rmlIntentStatus then rmlStatusIsCurrentOrNewer status msg else (true, status)

/-- The queue is under pressure and the message not urgent. -/
def RmlMessage.Yields (msg : RmlMessage) (ctx : RmlContext) : Prop :=
  (rmlPolicyForIntent msg.intent).dropUnderPressure = true ∧ rmlQueuePressure ctx ≥ 85 ∧
    rmlEffectivePriority msg ctx (rmlPolicyForIntent msg.intent) < 6

instance (msg : RmlMessage) (ctx : RmlContext) : Decidable (msg.Yields ctx) :=
  inferInstanceAs (Decidable (_ ∧ _))

/-- A delta whose text cannot be rebuilt from these texts. -/
def RmlMessage.Baseless (msg : RmlMessage) (threads : RmlThreadCache) : Prop :=
  msg.type = rmlTypeDelta ∧ (msg.prevId = 0 ∨
    ∀ text, rmlRebuild threads msg = some text → rmlThreadTextMax < text.length)

/-- One of these checks turns the message down, whatever the other tables hold. -/
theorem rmlPolicyDecide_of_not_presentable (h : ¬msg.Presentable s ctx) :
    ∃ reason ≠ .replacedByNewerStatus, ∀ s', s'.seen = s.seen →
      rmlPolicyDecide s' msg ctx = (rmlDecision false false 0 0 reason, s') := by
  by_cases hmagic : msg.magic ≠ rmlMagic
  · exact ⟨.expired, by decide, fun s' _ => by rw [rmlPolicyDecide, if_pos hmagic]⟩
  by_cases hversion : msg.version ≠ rmlVersion
  · exact ⟨.expired, by decide, fun s' _ => by rw [rmlPolicyDecide, if_neg hmagic, if_pos hversion]⟩
  by_cases hlength : msg.payload.length > rmlMaxPayload
  · exact ⟨.expired, by decide, fun s' _ => by
      rw [rmlPolicyDecide, if_neg hmagic, if_neg hversion, if_pos hlength]⟩
  by_cases hseen : rmlSeen s.seen msg.msgId = true
  · refine ⟨.seen, by decide, fun s' hs' => ?_⟩
    rw [rmlPolicyDecide, if_neg hmagic, if_neg hversion, if_neg hlength, hs', if_pos hseen]
  by_cases hlate : ctx.hasTime = true ∧ msg.expiresS ≠ 0 ∧ ctx.nowS > msg.expiresS.toUInt32
  · refine ⟨.expired, by decide, fun s' hs' => ?_⟩
    rw [rmlPolicyDecide, if_neg hmagic, if_neg hversion, if_neg hlength, hs', if_neg hseen,
      if_pos hlate]
  · exact absurd ⟨not_not.mp hmagic, not_not.mp hversion, Nat.le_of_not_lt hlength,
      Bool.eq_false_iff.mpr hseen, hlate⟩ h

/-- The rest of the decision. -/
theorem rmlPolicyDecide_of_presentable (h : msg.Presentable s ctx) :
    rmlPolicyDecide s msg ctx =
      if (msg.statusCheck s.status).1 = false then
        (rmlDecision false false 0 0 .replacedByNewerStatus,
          { s with status := (msg.statusCheck s.status).2 })
      else if msg.Yields ctx then
        (rmlDecision false false 0 0 .queueFull,
          { s with status := (msg.statusCheck s.status).2 })
      else
        let handled := rmlHandleThreadState { s with status := (msg.statusCheck s.status).2 } msg ctx
        if handled.1.accept = false then handled
        else
          (rmlRelayDecision msg ctx (rmlPolicyForIntent msg.intent)
              (rmlEffectivePriority msg ctx (rmlPolicyForIntent msg.intent)) handled.1,
            { handled.2 with seen := rmlMarkSeen handled.2.seen msg.msgId }) := by
  have hseen : ¬rmlSeen s.seen msg.msgId = true := Bool.eq_false_iff.mp h.fresh
  rw [rmlPolicyDecide, if_neg (not_not_intro h.magic), if_neg (not_not_intro h.version),
    if_neg (Nat.not_lt.mpr h.length), if_neg hseen, if_neg h.inTime]
  simp only [RmlMessage.statusCheck, RmlMessage.Yields, Bool.not_eq_true']
  rfl

/-- Handling the state of the thread leaves the two tables alone. -/
theorem rmlHandleThreadState_tables (s : RmlState) (msg : RmlMessage) (ctx : RmlContext) :
    (rmlHandleThreadState s msg ctx).2.seen = s.seen ∧
      (rmlHandleThreadState s msg ctx).2.status = s.status := by
  unfold rmlHandleThreadState
  dsimp only
  split_ifs
  · split <;> exact ⟨rfl, rfl⟩
  · exact ⟨rfl, rfl⟩
  · split
    · exact ⟨rfl, rfl⟩
    · split <;> exact ⟨rfl, rfl⟩
  · exact ⟨rfl, rfl⟩

theorem rmlThreadStore_eq_none_iff {cache : RmlThreadCache} {text : List UInt8} {nowMs : UInt32} :
    rmlThreadStore cache msg text nowMs = none ↔ rmlThreadTextMax < text.length := by
  rw [rmlThreadStore]
  by_cases hlong : text.length > rmlThreadTextMax
  · exact iff_of_true (if_pos hlong) hlong
  · rw [if_neg hlong]
    refine iff_of_false ?_ hlong
    dsimp only
    split <;> simp

/-- The decoded delta applied and stored, in terms of the rebuilt text. -/
theorem bind_store_eq_none_iff {cache : RmlThreadCache} {slot : ℕ} {nowMs : UInt32}
    (hslot : rmlThreadFindMsg cache msg.senderId msg.threadId msg.prevId = some slot) :
    ((rmlDeltaPayloadDecode msg.payload).bind fun delta =>
      (rmlApplyDelta (cache.entries.getD slot .empty) delta).bind fun rebuilt =>
        rmlThreadStore cache msg rebuilt nowMs) = none ↔
      ∀ text, rmlRebuild cache msg = some text → rmlThreadTextMax < text.length := by
  have hrebuild : rmlRebuild cache msg = (rmlDeltaPayloadDecode msg.payload).bind fun delta =>
      rmlApplyDelta (cache.entries.getD slot .empty) delta := by
    rw [rmlRebuild, hslot]
    rfl
  rw [← Option.bind_assoc, ← hrebuild, Option.bind_eq_none_iff]
  exact forall₂_congr fun text _ => rmlThreadStore_eq_none_iff

/-- **What handling turns down** is a delta without its base, and all it leaves is that the texts
whose time is over are gone. -/
theorem rmlHandleThreadState_accept (hlength : msg.payload.length ≤ rmlMaxPayload) :
    (rmlHandleThreadState s msg ctx).1.accept = false ↔
      msg.Baseless (rmlThreadExpire s.threads ctx.nowMs) := by
  have hshort : ¬rmlThreadTextMax < msg.payload.length := Nat.not_lt.mpr hlength
  unfold rmlHandleThreadState RmlMessage.Baseless
  dsimp only
  split_ifs with htext hdelta hprev
  · have hother : msg.type ≠ rmlTypeDelta := by
      rintro heq
      rw [heq] at htext
      exact absurd htext (by decide)
    split
    · rename_i hstore
      exact absurd (rmlThreadStore_eq_none_iff.mp hstore) hshort
    · exact iff_of_false (by simp [rmlDecision]) fun h => hother h.1
  · exact iff_of_true rfl ⟨hdelta, .inl hprev⟩
  · split
    · rename_i hfind
      refine iff_of_true rfl ⟨hdelta, .inr fun text htext => ?_⟩
      rw [rmlRebuild, hfind] at htext
      cases htext
    · rename_i slot hfind
      rw [and_iff_right hdelta, or_iff_right hprev, ← bind_store_eq_none_iff hfind]
      split
      · rename_i hnone
        exact iff_of_true rfl hnone
      · rename_i threads hsome
        rw [hsome]
        exact iff_of_false (by simp [rmlDecision]) (by simp)
  · exact iff_of_false (by simp [rmlDecision]) fun h => hdelta h.1

theorem rmlHandleThreadState_threads_of_rejected
    (h : (rmlHandleThreadState s msg ctx).1.accept = false) :
    (rmlHandleThreadState s msg ctx).2.threads = rmlThreadExpire s.threads ctx.nowMs := by
  revert h
  unfold rmlHandleThreadState
  dsimp only
  split_ifs
  · split
    · exact fun _ => rfl
    · exact fun h => absurd h (by simp [rmlDecision])
  · exact fun _ => rfl
  · split
    · exact fun _ => rfl
    · split
      · exact fun _ => rfl
      · exact fun h => absurd h (by simp [rmlDecision])
  · exact fun h => absurd h (by simp [rmlDecision])

theorem rmlRelayDecision_accept (msg : RmlMessage) (ctx : RmlContext) (policy : RmlIntentPolicy)
    (effectivePriority : UInt8) (state : RmlDecision) :
    (rmlRelayDecision msg ctx policy effectivePriority state).accept = true := by
  unfold rmlRelayDecision
  split_ifs <;> rfl

/-- A status that the table takes is written to it. -/
theorem statusIsCurrentOrNewer_ne {status : List RmlStatusSlot}
    (hlen : status.length = rmlStatusCacheSize)
    (h : (rmlStatusIsCurrentOrNewer status msg).1 = true) :
    (rmlStatusIsCurrentOrNewer status msg).2 ≠ status := by
  intro hsame
  rw [rmlStatusIsCurrentOrNewer] at h hsame
  split at h
  · rename_i i hfind
    obtain ⟨hi, -, -⟩ := List.findIdx?_eq_some_iff_getElem.mp hfind
    rw [hfind] at hsame
    dsimp only at h hsame
    split_ifs at h hsame with hold
    have hget := congrArg (·[i]?) hsame
    dsimp only at hget
    rw [List.getElem?_set_self hi, List.getElem?_eq_getElem hi, Option.some.injEq] at hget
    rw [List.getD_eq_getElem _ _ hi, ← hget] at hold
    exact hold (UInt32.le_refl _)
  · rename_i hfind
    rw [hfind] at hsame
    dsimp only at hsame
    have hslot : (status.findIdx? fun s => !s.used).getD
        (msg.senderId.toNat % rmlStatusCacheSize) < status.length := by
      rcases hfree : status.findIdx? (fun s => !s.used) with _ | j
      · rw [hfree, Option.getD_none, hlen]
        exact Nat.mod_lt _ (by decide)
      · rw [hfree]
        exact (List.findIdx?_eq_some_iff_getElem.mp hfree).1
    -- an unchanged table would hold the status already, but the search found none
    have hmem : (⟨msg.senderId, msg.stateType, msg.msgId, true⟩ : RmlStatusSlot) ∈ status := by
      rw [← hsame]
      exact List.mem_set hslot _
    have hnot := List.findIdx?_eq_none_iff.mp hfind _ hmem
    simp at hnot

theorem rmlHandleThreadState_reason (s : RmlState) (msg : RmlMessage) (ctx : RmlContext) :
    (rmlHandleThreadState s msg ctx).1.reason ≠ .seen ∧
      (rmlHandleThreadState s msg ctx).1.reason ≠ .replacedByNewerStatus := by
  unfold rmlHandleThreadState
  dsimp only
  split_ifs
  · split <;> exact ⟨by simp [rmlDecision], by simp [rmlDecision]⟩
  · exact ⟨by simp [rmlRepairDecision, rmlDecision], by simp [rmlRepairDecision, rmlDecision]⟩
  · split
    · exact ⟨by simp [rmlRepairDecision, rmlDecision], by simp [rmlRepairDecision, rmlDecision]⟩
    · split <;> exact ⟨by simp [rmlDecision], by simp [rmlDecision]⟩
  · exact ⟨by simp [rmlDecision], by simp [rmlDecision]⟩

theorem rmlRelayDecision_reason (msg : RmlMessage) (ctx : RmlContext) (policy : RmlIntentPolicy)
    (effectivePriority : UInt8) (state : RmlDecision) :
    (rmlRelayDecision msg ctx policy effectivePriority state).reason ≠ .seen ∧
      (rmlRelayDecision msg ctx policy effectivePriority state).reason ≠
        .replacedByNewerStatus := by
  unfold rmlRelayDecision
  dsimp only
  split_ifs <;> exact ⟨by simp [rmlDecision], by simp [rmlDecision]⟩

/-- A message that passes the check of its status is not called seen or replaced. -/
theorem reason_of_current (h : msg.Presentable s ctx) (hcurrent : (msg.statusCheck s.status).1 = true) :
    (rmlPolicyDecide s msg ctx).1.reason ≠ .seen ∧
      (rmlPolicyDecide s msg ctx).1.reason ≠ .replacedByNewerStatus := by
  rw [rmlPolicyDecide_of_presentable h, if_neg (by simp [hcurrent])]
  dsimp only
  split_ifs
  · exact ⟨by simp [rmlDecision], by simp [rmlDecision]⟩
  · exact rmlHandleThreadState_reason _ _ _
  · exact rmlRelayDecision_reason _ _ _ _ _

/-- **Seen or replaced** is a message on account of two tables alone. -/
theorem reason_congr {s' : RmlState} (hseen : s'.seen = s.seen) (hstatus : s'.status = s.status)
    {reason : RmlReason} (hreason : reason = .seen ∨ reason = .replacedByNewerStatus)
    (h : (rmlPolicyDecide s' msg ctx).1.reason = reason) :
    (rmlPolicyDecide s msg ctx).1.reason = reason := by
  by_cases hpres : msg.Presentable s ctx
  · have hpres' : msg.Presentable s' ctx := { hpres with fresh := hseen ▸ hpres.fresh }
    have hold : (msg.statusCheck s.status).1 = false := by
      rw [← Bool.not_eq_true]
      intro hcurrent
      have hne := reason_of_current hpres' (hstatus ▸ hcurrent)
      rw [h] at hne
      exact hreason.elim hne.1 hne.2
    rw [rmlPolicyDecide_of_presentable hpres', hstatus, if_pos hold] at h
    rw [rmlPolicyDecide_of_presentable hpres, if_pos hold]
    exact h
  · obtain ⟨early, -, heq⟩ := rmlPolicyDecide_of_not_presentable hpres
    rw [heq s' hseen] at h
    rw [heq s rfl]
    exact h

/-! ### The law -/

/-- The caches are as they were, but for texts whose time is over; and the message is not too late
on account of this when it comes again. -/
structure LeavesNoTrace (s : RmlState) (msg : RmlMessage) (ctx : RmlContext) : Prop where
  seen : (rmlPolicyDecide s msg ctx).2.seen = s.seen
  status : (rmlPolicyDecide s msg ctx).2.status = s.status
  threads : (rmlPolicyDecide s msg ctx).2.threads = s.threads ∨
    (rmlPolicyDecide s msg ctx).2.threads = rmlThreadExpire s.threads ctx.nowMs
  again : ∀ (ctx' : RmlContext) (reason : RmlReason), reason = .seen ∨ reason = .replacedByNewerStatus →
    (rmlPolicyDecide (rmlPolicyDecide s msg ctx).2 msg ctx').1.reason = reason →
      (rmlPolicyDecide s msg ctx').1.reason = reason

/-- A status that is taken by the table and turned down by a check after it. -/
structure RejectedAfterStatus (s : RmlState) (msg : RmlMessage) (ctx : RmlContext) : Prop where
  presentable : msg.Presentable s ctx
  intent : msg.intent = rmlIntentStatus
  current : (rmlStatusIsCurrentOrNewer s.status msg).1 = true
  rejected : msg.Yields ctx ∨ msg.Baseless (rmlThreadExpire s.threads ctx.nowMs)

/-- What a message leaves that the check of its status turns down, or one before it. -/
theorem leavesNoTrace_of_eq (h : (rmlPolicyDecide s msg ctx).2.seen = s.seen)
    (h' : (rmlPolicyDecide s msg ctx).2.status = s.status)
    (hthreads : (rmlPolicyDecide s msg ctx).2.threads = s.threads ∨
      (rmlPolicyDecide s msg ctx).2.threads = rmlThreadExpire s.threads ctx.nowMs) :
    LeavesNoTrace s msg ctx :=
  ⟨h, h', hthreads, fun _ _ hreason heq => reason_congr h h' hreason heq⟩

theorem statusIsCurrentOrNewer_of_old {status : List RmlStatusSlot}
    (h : (rmlStatusIsCurrentOrNewer status msg).1 = false) :
    (rmlStatusIsCurrentOrNewer status msg).2 = status := by
  rw [rmlStatusIsCurrentOrNewer] at h ⊢
  split at h
  · split_ifs at h with hold
    exact congrArg Prod.snd (if_pos hold)
  · cases h

theorem statusCheck_of_old {status : List RmlStatusSlot} (h : (msg.statusCheck status).1 = false) :
    (msg.statusCheck status).2 = status := by
  rw [RmlMessage.statusCheck] at h ⊢
  split_ifs at h ⊢
  exact statusIsCurrentOrNewer_of_old h

/-- A status that is turned down after it was taken is rejected, and stays in the table. -/
theorem RejectedAfterStatus.trace (hlen : s.status.length = rmlStatusCacheSize)
    (h : RejectedAfterStatus s msg ctx) : (rmlPolicyDecide s msg ctx).1.accept = false ∧
      (rmlPolicyDecide s msg ctx).2.status ≠ s.status := by
  have hcheck : msg.statusCheck s.status = rmlStatusIsCurrentOrNewer s.status msg := if_pos h.intent
  have hne := statusIsCurrentOrNewer_ne hlen h.current
  rw [rmlPolicyDecide_of_presentable h.presentable, hcheck, if_neg (by simp [h.current])]
  by_cases hyields : msg.Yields ctx
  · rw [if_pos hyields]
    exact ⟨rfl, hne⟩
  · have haccept := (rmlHandleThreadState_accept (s := { s with
      status := (rmlStatusIsCurrentOrNewer s.status msg).2 }) h.presentable.length).mpr
        (h.rejected.resolve_left hyields)
    rw [if_neg hyields]
    dsimp only
    rw [if_pos haccept]
    exact ⟨haccept, by rwa [(rmlHandleThreadState_tables _ _ _).2]⟩

/-- **A rejected message leaves no trace** exactly if it is not a status that is turned down after
the table of the statuses has taken it. -/
theorem leavesNoTrace_iff (s : RmlState) (msg : RmlMessage) (ctx : RmlContext)
    (hlen : s.status.length = rmlStatusCacheSize) :
    ((rmlPolicyDecide s msg ctx).1.accept = false → LeavesNoTrace s msg ctx) ↔
      ¬RejectedAfterStatus s msg ctx := by
  constructor
  · intro h hlate
    obtain ⟨hreject, hne⟩ := hlate.trace hlen
    exact hne (h hreject).status
  intro hnot hreject
  by_cases hpres : msg.Presentable s ctx
  · have heq := rmlPolicyDecide_of_presentable hpres
    by_cases hold : (msg.statusCheck s.status).1 = false
    · rw [if_pos hold, statusCheck_of_old hold] at heq
      exact leavesNoTrace_of_eq (by rw [heq]) (by rw [heq]) (.inl (by rw [heq]))
    rw [if_neg hold] at heq
    -- only a status is written to the table by the check
    have hstatus : (msg.Yields ctx ∨ msg.Baseless (rmlThreadExpire s.threads ctx.nowMs)) →
        (msg.statusCheck s.status).2 = s.status := by
      intro hrejected
      by_cases hintent : msg.intent = rmlIntentStatus
      · have hcheck : msg.statusCheck s.status = rmlStatusIsCurrentOrNewer s.status msg :=
          if_pos hintent
        rw [hcheck, Bool.not_eq_false] at hold
        exact absurd ⟨hpres, hintent, hold, hrejected⟩ hnot
      · rw [RmlMessage.statusCheck, if_neg hintent]
    by_cases hyields : msg.Yields ctx
    · rw [if_pos hyields, hstatus (.inl hyields)] at heq
      exact leavesNoTrace_of_eq (by rw [heq]) (by rw [heq]) (.inl (by rw [heq]))
    · rw [if_neg hyields] at heq
      dsimp only at heq
      split_ifs at heq with haccept
      · have hbase := (rmlHandleThreadState_accept hpres.length).mp haccept
        obtain ⟨hseen, hkept⟩ := rmlHandleThreadState_tables
          { s with status := (msg.statusCheck s.status).2 } msg ctx
        refine leavesNoTrace_of_eq ?_ ?_ (.inr ?_)
        · rw [heq]
          exact hseen
        · rw [heq, hkept]
          exact hstatus (.inr hbase)
        · rw [heq]
          exact rmlHandleThreadState_threads_of_rejected haccept
      · rw [heq, rmlRelayDecision_accept] at hreject
        cases hreject
  · obtain ⟨_, -, heq⟩ := rmlPolicyDecide_of_not_presentable hpres
    have hsame := heq s rfl
    exact leavesNoTrace_of_eq (by rw [hsame]) (by rw [hsame]) (.inl (by rw [hsame]))

/-- A status of node 2 that waits behind a queue under pressure. -/
def pressedStatus : RmlMessage :=
  { sampleRmlMessage rmlTypeStatus 5 0 [] with intent := rmlIntentStatus }

/-- The law for a status that is not under pressure. -/
theorem leavesNoTrace_iff_pressedStatus :
    ((rmlPolicyDecide rmlInit pressedStatus (sampleRmlContext 1)).1.accept = false →
        LeavesNoTrace rmlInit pressedStatus (sampleRmlContext 1)) ↔
      ¬RejectedAfterStatus rmlInit pressedStatus (sampleRmlContext 1) :=
  leavesNoTrace_iff rmlInit pressedStatus (sampleRmlContext 1) List.length_replicate

/-- **A status that is lost.** It is turned down while the queue is under pressure, and is too old
for the table when it comes again. -/
theorem not_leavesNoTrace : ¬∀ (s : RmlState) (msg : RmlMessage) (ctx : RmlContext),
    s.status.length = rmlStatusCacheSize → (rmlPolicyDecide s msg ctx).1.accept = false →
      LeavesNoTrace s msg ctx := by
  intro hall
  have htrace := hall rmlInit pressedStatus { sampleRmlContext 1 with queuePressure := 90 }
    List.length_replicate (by decide)
  have hagain := htrace.again (sampleRmlContext 2) .replacedByNewerStatus (.inr rfl) (by decide)
  exact absurd hagain (by decide)

end Rivr
