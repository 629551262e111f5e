import Rivr.Firmware.Rml
import Rivr.ForMathlib.LastMax

/-!
# The text that a relayed delta becomes

When the policy decides that the text rebuilt from a delta is to be sent on, the relay looks the
text up again, as the newest of its thread. Newest goes by the millisecond counter and, among equal
times, by the slot. So the lookup finds the text that was decided on unless the cache holds one of
the thread that seems newer: from before the counter wrapped, or of the same millisecond in a later
slot (`rml_reconstructed_iff`, `not_rml_reconstructed`).
-/

namespace Rivr

open LastMax

/-! ### Reachable states -/

/-- The states of the policy that decisions lead to. -/
inductive RmlReach : RmlState → Prop
  | init : RmlReach rmlInit
  | decide {s : RmlState} (msg : RmlMessage) (ctx : RmlContext) (h : RmlReach s) :
      RmlReach (rmlPolicyDecide s msg ctx).2

/-- The entry holds the text of a message. -/
def RmlThreadEntry.IsMsg (entry : RmlThreadEntry) (senderId : UInt16) (threadId msgId : UInt32) :
    Prop := entry.OfThread senderId threadId ∧ entry.msgId = msgId

instance (entry : RmlThreadEntry) (senderId : UInt16) (threadId msgId : UInt32) :
    Decidable (entry.IsMsg senderId threadId msgId) := inferInstanceAs (Decidable (_ ∧ _))

/-- The cache has its size, and holds one text for each message. -/
structure RmlThreadCache.Wf (cache : RmlThreadCache) : Prop where
  length : cache.entries.length = rmlThreadCacheSize
  next_lt : cache.nextSlot < rmlThreadCacheSize
  unique : ∀ (i j : ℕ) (a b : RmlThreadEntry) (senderId : UInt16) (threadId msgId : UInt32),
    cache.entries[i]? = some a → cache.entries[j]? = some b →
    a.IsMsg senderId threadId msgId → b.IsMsg senderId threadId msgId → i = j

/-! ### Expiry and clearing -/

theorem not_ofThread_empty (senderId : UInt16) (threadId : UInt32) :
    ¬RmlThreadEntry.empty.OfThread senderId threadId := fun h => nomatch h.1

/-- Emptying some of the slots keeps the invariant. -/
theorem RmlThreadCache.Wf.of_map {cache : RmlThreadCache} (h : cache.Wf)
    {f : RmlThreadEntry → RmlThreadEntry} (hf : ∀ entry, f entry = entry ∨ f entry = .empty) :
    (⟨cache.entries.map f, cache.nextSlot⟩ : RmlThreadCache).Wf := by
  have hkeep : ∀ (i : ℕ) (a : RmlThreadEntry) (senderId : UInt16) (threadId msgId : UInt32),
      (cache.entries.map f)[i]? = some a → a.IsMsg senderId threadId msgId →
      cache.entries[i]? = some a := by
    intro i a senderId threadId msgId ha hmsg
    rw [List.getElem?_map] at ha
    obtain ⟨a', ha', rfl⟩ := Option.map_eq_some_iff.mp ha
    rcases hf a' with hsame | hempty
    · rw [hsame, ha']
    · rw [hempty] at hmsg
      exact absurd hmsg.1 (not_ofThread_empty _ _)
  constructor
  · rw [List.length_map]
    exact h.length
  · exact h.next_lt
  · intro i j a b senderId threadId msgId ha hb hamsg hbmsg
    exact h.unique i j a b senderId threadId msgId (hkeep i a _ _ _ ha hamsg)
      (hkeep j b _ _ _ hb hbmsg) hamsg hbmsg

theorem RmlThreadCache.Wf.expire {cache : RmlThreadCache} (h : cache.Wf) (nowMs : UInt32) :
    (rmlThreadExpire cache nowMs).Wf := by
  rw [rmlThreadExpire]
  split_ifs
  · exact h
  · refine h.of_map fun entry => ?_
    split_ifs
    · exact Or.inr rfl
    · exact Or.inl rfl

/-- The slots before the new text is written: a new version clears the old ones. -/
def rmlClearOld (cache : RmlThreadCache) (msg : RmlMessage) : List RmlThreadEntry :=
  if rmlThreadFindMsg cache msg.senderId msg.threadId msg.msgId = none ∧ msg.supersedes = true then
    cache.entries.map fun old =>
      if old.OfThread msg.senderId msg.threadId then .empty else old
  else cache.entries

/-- The slot that the new text is written to. -/
def rmlThreadSlot (cache : RmlThreadCache) (msg : RmlMessage) : ℕ :=
  (rmlThreadFindMsg cache msg.senderId msg.threadId msg.msgId).getD cache.nextSlot

theorem RmlThreadCache.Wf.clearOld {cache : RmlThreadCache} (h : cache.Wf) (msg : RmlMessage) :
    (⟨rmlClearOld cache msg, cache.nextSlot⟩ : RmlThreadCache).Wf := by
  rw [rmlClearOld]
  split_ifs
  · refine h.of_map fun old => ?_
    split_ifs
    · exact Or.inr rfl
    · exact Or.inl rfl
  · exact h

/-! ### Storing -/

/-- The entry that is stored. -/
def rmlNewEntry (msg : RmlMessage) (payload : List UInt8) (nowMs : UInt32) : RmlThreadEntry where
  used := true
  senderId := msg.senderId
  threadId := msg.threadId
  msgId := msg.msgId
  prevId := msg.prevId
  timestampMs := nowMs
  softExpireMs := if msg.softTtlS = 0 then 0 else nowMs + msg.softTtlS.toUInt32 * 1000
  payload := payload

theorem isMsg_rmlNewEntry (msg : RmlMessage) (payload : List UInt8) (nowMs : UInt32) :
    (rmlNewEntry msg payload nowMs).IsMsg msg.senderId msg.threadId msg.msgId :=
  ⟨⟨rfl, rfl, rfl⟩, rfl⟩

/-- What storing a text leaves. -/
theorem rmlThreadStore_eq {cache cache' : RmlThreadCache} {msg : RmlMessage}
    {payload : List UInt8} {nowMs : UInt32}
    (h : rmlThreadStore cache msg payload nowMs = some cache') :
    cache'.entries =
        (rmlClearOld cache msg).set (rmlThreadSlot cache msg) (rmlNewEntry msg payload nowMs) ∧
      (cache'.nextSlot = cache.nextSlot ∨
        cache'.nextSlot = (cache.nextSlot + 1) % rmlThreadCacheSize) := by
  rw [rmlThreadStore] at h
  by_cases hlen : payload.length > rmlThreadTextMax
  · rw [if_pos hlen] at h
    exact nomatch h
  rw [if_neg hlen] at h
  dsimp only at h
  rw [rmlClearOld, rmlThreadSlot]
  rcases hfind : rmlThreadFindMsg cache msg.senderId msg.threadId msg.msgId with _ | slot
  · rw [hfind] at h
    obtain rfl := Option.some.inj h
    refine ⟨?_, Or.inr rfl⟩
    simp only [true_and]
    rfl
  · rw [hfind] at h
    obtain rfl := Option.some.inj h
    refine ⟨?_, Or.inl rfl⟩
    have hboth : ¬(some slot = none ∧ msg.supersedes = true) := fun h => nomatch h.1
    simp only [if_neg hboth]
    rfl

/-- The slot is in the cache, and every slot that holds the message is it. -/
theorem RmlThreadCache.Wf.slot {cache : RmlThreadCache} (h : cache.Wf) (msg : RmlMessage) :
    rmlThreadSlot cache msg < rmlThreadCacheSize ∧
      ∀ (j : ℕ) (e : RmlThreadEntry), cache.entries[j]? = some e →
        e.IsMsg msg.senderId msg.threadId msg.msgId → j = rmlThreadSlot cache msg := by
  rw [rmlThreadSlot]
  rcases hfind : rmlThreadFindMsg cache msg.senderId msg.threadId msg.msgId with _ | slot
  · refine ⟨h.next_lt, fun j e he hmsg => ?_⟩
    have hno := List.findIdx?_eq_none_iff.mp hfind e (List.mem_of_getElem? he)
    exact absurd hmsg (of_decide_eq_false hno)
  · obtain ⟨hlt, hslot, -⟩ := List.findIdx?_eq_some_iff_getElem.mp hfind
    refine ⟨h.length ▸ hlt, fun j e he hmsg => ?_⟩
    exact h.unique j slot e _ _ _ _ he (List.getElem?_eq_getElem hlt) hmsg
      (of_decide_eq_true hslot)

theorem RmlThreadCache.Wf.store {cache cache' : RmlThreadCache} (h : cache.Wf) {msg : RmlMessage}
    {payload : List UInt8} {nowMs : UInt32}
    (hstore : rmlThreadStore cache msg payload nowMs = some cache') : cache'.Wf := by
  obtain ⟨hentries, hnext⟩ := rmlThreadStore_eq hstore
  obtain ⟨hslot, honly⟩ := (h.clearOld msg).slot msg
  obtain ⟨hslot, honly'⟩ := h.slot msg
  have hclear := h.clearOld msg
  -- a slot of the cleared cache that holds the message is the one that is written
  have hwritten : ∀ (j : ℕ) (e : RmlThreadEntry), (rmlClearOld cache msg)[j]? = some e →
      e.IsMsg msg.senderId msg.threadId msg.msgId → j = rmlThreadSlot cache msg := by
    intro j e he hmsg
    rw [rmlClearOld] at he
    split_ifs at he
    · rw [List.getElem?_map] at he
      obtain ⟨old, hold, rfl⟩ := Option.map_eq_some_iff.mp he
      split_ifs at hmsg
      · exact absurd hmsg.1 (not_ofThread_empty _ _)
      · exact honly' j old hold hmsg
    · exact honly' j e he hmsg
  have hcases : ∀ (j : ℕ) (e : RmlThreadEntry), cache'.entries[j]? = some e →
      (j = rmlThreadSlot cache msg ∧ e = rmlNewEntry msg payload nowMs) ∨
        (j ≠ rmlThreadSlot cache msg ∧ (rmlClearOld cache msg)[j]? = some e) := by
    intro j e he
    rw [hentries] at he
    by_cases hj : j = rmlThreadSlot cache msg
    · subst hj
      rw [List.getElem?_set_self (by rw [hclear.length]; exact hslot)] at he
      exact Or.inl ⟨rfl, (Option.some.inj he).symm⟩
    · rw [List.getElem?_set_ne (Ne.symm hj)] at he
      exact Or.inr ⟨hj, he⟩
  constructor
  · rw [hentries, List.length_set]
    exact hclear.length
  · rcases hnext with hnext | hnext
    · rw [hnext]
      exact h.next_lt
    · rw [hnext]
      exact Nat.mod_lt _ (by decide)
  · intro i j a b senderId threadId msgId ha hb hamsg hbmsg
    have hsame : ∀ {e : RmlThreadEntry}, e = rmlNewEntry msg payload nowMs →
        e.IsMsg senderId threadId msgId →
        senderId = msg.senderId ∧ threadId = msg.threadId ∧ msgId = msg.msgId := by
      rintro e rfl ⟨⟨-, hsender, hthread⟩, hid⟩
      exact ⟨hsender.symm, hthread.symm, hid.symm⟩
    rcases hcases i a ha with ⟨rfl, hnew⟩ | ⟨hi, ha⟩ <;>
      rcases hcases j b hb with ⟨rfl, hnew'⟩ | ⟨hj, hb⟩
    · rfl
    · obtain ⟨rfl, rfl, rfl⟩ := hsame hnew hamsg
      exact absurd (hwritten j b hb hbmsg) hj
    · obtain ⟨rfl, rfl, rfl⟩ := hsame hnew' hbmsg
      exact absurd (hwritten i a ha hamsg) hi
    · exact hclear.unique i j a b _ _ _ ha hb hamsg hbmsg

/-! ### The decision -/

/-- The text that a delta makes of the text before it. -/
def rmlRebuild (cache : RmlThreadCache) (msg : RmlMessage) : Option (List UInt8) := do
  let slot ← rmlThreadFindMsg cache msg.senderId msg.threadId msg.prevId
  let delta ← rmlDeltaPayloadDecode msg.payload
  rmlApplyDelta (cache.entries.getD slot .empty) delta

/-- What handling the state of the thread leaves in the cache. -/
theorem rmlHandleThreadState_threads (s : RmlState) (msg : RmlMessage) (ctx : RmlContext) :
    (rmlHandleThreadState s msg ctx).2.threads = rmlThreadExpire s.threads ctx.nowMs ∨
      ∃ text, rmlThreadStore (rmlThreadExpire s.threads ctx.nowMs) msg text ctx.nowMs =
        some (rmlHandleThreadState s msg ctx).2.threads := by
  unfold rmlHandleThreadState
  dsimp only
  split_ifs with htext hdelta hprev
  · split
    · exact Or.inl rfl
    · next threads hstore => exact Or.inr ⟨msg.payload, hstore⟩
  · exact Or.inl rfl
  · split
    · exact Or.inl rfl
    · next slot hslot =>
      split
      · exact Or.inl rfl
      · next threads hthreads =>
        obtain ⟨delta, -, hrest⟩ := Option.bind_eq_some_iff.mp hthreads
        obtain ⟨rebuilt, -, hstore⟩ := Option.bind_eq_some_iff.mp hrest
        exact Or.inr ⟨rebuilt, hstore⟩
  · exact Or.inl rfl

/-- When it asks for the rebuilt text to be sent on, it has stored that text. -/
theorem rmlHandleThreadState_forward {s : RmlState} {msg : RmlMessage} {ctx : RmlContext}
    (h : (rmlHandleThreadState s msg ctx).1.forwardReconstructed = true) :
    ∃ text, rmlRebuild (rmlThreadExpire s.threads ctx.nowMs) msg = some text ∧
      rmlThreadStore (rmlThreadExpire s.threads ctx.nowMs) msg text ctx.nowMs =
        some (rmlHandleThreadState s msg ctx).2.threads := by
  revert h
  unfold rmlHandleThreadState
  dsimp only
  split_ifs with htext hdelta hprev
  · split
    · exact fun h => nomatch h
    · exact fun h => nomatch h
  · exact fun h => nomatch h
  · split
    · exact fun h => nomatch h
    · next slot hslot =>
      split
      · exact fun h => nomatch h
      · next threads hthreads =>
        intro _
        obtain ⟨delta, hdelta, hrest⟩ := Option.bind_eq_some_iff.mp hthreads
        obtain ⟨rebuilt, hrebuilt, hstore⟩ := Option.bind_eq_some_iff.mp hrest
        refine ⟨rebuilt, ?_, hstore⟩
        rw [rmlRebuild, hslot, hdelta]
        exact hrebuilt
  · exact fun h => nomatch h

/-- The end of a decision only passes the wish on. -/
theorem rmlRelayDecision_forward {msg : RmlMessage} {ctx : RmlContext} {policy : RmlIntentPolicy}
    {effectivePriority : UInt8} {state : RmlDecision}
    (h : (rmlRelayDecision msg ctx policy effectivePriority state).forwardReconstructed = true) :
    state.forwardReconstructed = true := by
  unfold rmlRelayDecision at h
  by_cases httl : msg.ttl = 0
  · rw [if_pos httl] at h
    exact nomatch h
  rw [if_neg httl] at h
  by_cases hduty : !ctx.hardRadioOk ∨ ctx.dutyCycleBlocked ∨ !rmlAirtimeAllowed ctx policy
  · rw [if_pos hduty] at h
    exact nomatch h
  rw [if_neg hduty] at h
  by_cases hfull : rmlQueueFull ctx = true
  · rw [if_pos hfull] at h
    exact nomatch h
  rw [if_neg hfull] at h
  exact (Bool.and_eq_true_iff.mp h).2

/-- A decision leaves the texts alone, or what handling the state of the thread makes of them; only
the latter asks for a rebuilt text to be sent on. -/
theorem rmlPolicyDecide_threads (s : RmlState) (msg : RmlMessage) (ctx : RmlContext) :
    ((rmlPolicyDecide s msg ctx).2.threads = s.threads ∧
        (rmlPolicyDecide s msg ctx).1.forwardReconstructed = false) ∨
      ∃ s₁ : RmlState, s₁.threads = s.threads ∧
        (rmlPolicyDecide s msg ctx).2.threads = (rmlHandleThreadState s₁ msg ctx).2.threads ∧
        ((rmlPolicyDecide s msg ctx).1.forwardReconstructed = true →
          (rmlHandleThreadState s₁ msg ctx).1.forwardReconstructed = true) := by
  unfold rmlPolicyDecide
  dsimp only
  generalize (if msg.intent = rmlIntentStatus then rmlStatusIsCurrentOrNewer s.status msg
    else (true, s.status)) = r
  split_ifs
  · exact Or.inl ⟨rfl, rfl⟩
  · exact Or.inl ⟨rfl, rfl⟩
  · exact Or.inl ⟨rfl, rfl⟩
  · exact Or.inl ⟨rfl, rfl⟩
  · exact Or.inl ⟨rfl, rfl⟩
  · exact Or.inl ⟨rfl, rfl⟩
  · exact Or.inl ⟨rfl, rfl⟩
  · exact Or.inr ⟨{ s with status := r.2 }, rfl, rfl, id⟩
  · exact Or.inr ⟨{ s with status := r.2 }, rfl, rfl, rmlRelayDecision_forward⟩

theorem RmlReach.threads_wf {s : RmlState} (h : RmlReach s) : s.threads.Wf := by
  induction h with
  | init =>
    refine ⟨List.length_replicate, by decide, ?_⟩
    intro i j a b senderId threadId msgId ha hb hamsg hbmsg
    have hempty : a = .empty := List.eq_of_mem_replicate (List.mem_of_getElem? ha)
    rw [hempty] at hamsg
    exact absurd hamsg.1 (not_ofThread_empty _ _)
  | @decide s msg ctx h ih =>
    rcases rmlPolicyDecide_threads s msg ctx with ⟨hsame, -⟩ | ⟨s₁, hs₁, hthreads, -⟩
    · rw [hsame]
      exact ih
    · rw [hthreads]
      rcases rmlHandleThreadState_threads s₁ msg ctx with hexpire | ⟨text, hstore⟩
      · rw [hexpire, hs₁]
        exact ih.expire _
      · rw [hs₁] at hstore
        exact (ih.expire _).store hstore

/-! ### The lookup -/

/-- Beside the slot for the new text, no text of the thread is newer than now, nor one in a later
slot as new. -/
def RmlThreadCache.NewestAt (cache : RmlThreadCache) (msg : RmlMessage) (nowMs : UInt32) : Prop :=
  ∀ (j : ℕ) (e : RmlThreadEntry), (rmlClearOld cache msg)[j]? = some e →
    e.OfThread msg.senderId msg.threadId → j ≠ rmlThreadSlot cache msg →
    e.timestampMs ≤ nowMs ∧ (rmlThreadSlot cache msg < j → e.timestampMs < nowMs)

/-- The lookup is a scan for the last of the newest. -/
theorem rmlThreadCacheGet_eq_some_iff {cache : RmlThreadCache} {senderId : UInt16}
    {threadId : UInt32} {entry : RmlThreadEntry} :
    rmlThreadCacheGet cache senderId threadId = some entry ↔
      ∃ k, IsLastMax (fun e : RmlThreadEntry => e.OfThread senderId threadId)
        (fun e => e.timestampMs.toNat) cache.entries k entry := by
  have hscan : rmlThreadCacheGet cache senderId threadId =
      lastMax (fun e : RmlThreadEntry => e.OfThread senderId threadId)
        (fun e => e.timestampMs.toNat) cache.entries := by
    refine congrArg (fun step => cache.entries.foldl step none) ?_
    funext best entry
    rcases best with _ | b
    · rfl
    · simp only [better, ge_iff_le, UInt32.le_iff_toNat_le]
  rw [hscan]
  exact lastMax_eq_some_iff

/-- **After storing**, the lookup finds the new text if and only if nothing of the thread seems
newer. -/
theorem RmlThreadCache.Wf.get_store_iff {cache cache' : RmlThreadCache} (h : cache.Wf)
    {msg : RmlMessage} {payload : List UInt8} {nowMs : UInt32}
    (hstore : rmlThreadStore cache msg payload nowMs = some cache') :
    (∃ entry, rmlThreadCacheGet cache' msg.senderId msg.threadId = some entry ∧
      entry.msgId = msg.msgId ∧ entry.payload = payload) ↔ cache.NewestAt msg nowMs := by
  obtain ⟨hentries, -⟩ := rmlThreadStore_eq hstore
  have hslot : rmlThreadSlot cache msg < (rmlClearOld cache msg).length := by
    rw [(h.clearOld msg).length]
    exact (h.slot msg).1
  have hself : cache'.entries[rmlThreadSlot cache msg]? = some (rmlNewEntry msg payload nowMs) := by
    rw [hentries, List.getElem?_set_self hslot]
  have hother : ∀ j ≠ rmlThreadSlot cache msg,
      cache'.entries[j]? = (rmlClearOld cache msg)[j]? := by
    intro j hj
    rw [hentries, List.getElem?_set_ne hj.symm]
  constructor
  · rintro ⟨entry, hget, hid, -⟩
    obtain ⟨k, hmax⟩ := rmlThreadCacheGet_eq_some_iff.mp hget
    -- there is one slot for the message, so the entry that was found is the new one
    have hk : k = rmlThreadSlot cache msg :=
      (h.store hstore).unique k _ entry _ _ _ _ hmax.get hself ⟨hmax.wanted, hid⟩
        (isMsg_rmlNewEntry msg payload nowMs)
    subst hk
    obtain rfl : rmlNewEntry msg payload nowMs = entry :=
      Option.some.inj (hself.symm.trans hmax.get)
    intro j e he hthread hj
    rw [← hother j hj] at he
    exact ⟨hmax.le j e he hthread, hmax.lt j e he hthread⟩
  · intro hnewest
    refine ⟨rmlNewEntry msg payload nowMs, rmlThreadCacheGet_eq_some_iff.mpr
      ⟨rmlThreadSlot cache msg, ?_⟩, rfl, rfl⟩
    have hall : ∀ (j : ℕ) (e : RmlThreadEntry), cache'.entries[j]? = some e →
        e.OfThread msg.senderId msg.threadId →
        e.timestampMs ≤ nowMs ∧ (rmlThreadSlot cache msg < j → e.timestampMs < nowMs) := by
      intro j e he hthread
      by_cases hj : j = rmlThreadSlot cache msg
      · subst hj
        rw [hself] at he
        obtain rfl := Option.some.inj he
        exact ⟨UInt32.le_refl nowMs, fun hlt => absurd hlt (lt_irrefl _)⟩
      · rw [hother j hj] at he
        exact hnewest j e he hthread hj
    constructor
    · exact hself
    · exact ⟨rfl, rfl, rfl⟩
    · exact fun j e he ht => (hall j e he ht).1
    · exact fun j e he ht => (hall j e he ht).2

/-- **A reconstructed relay.** When a decision asks for the rebuilt text to be sent on, the lookup
of the relay finds the message with that text if and only if no other text of the thread that is
left in the cache has a later time, or the same time in a later slot. -/
theorem rml_reconstructed_iff {s : RmlState} (hreach : RmlReach s) (msg : RmlMessage)
    (ctx : RmlContext) (h : (rmlPolicyDecide s msg ctx).1.forwardReconstructed = true) :
    ∃ text, rmlRebuild (rmlThreadExpire s.threads ctx.nowMs) msg = some text ∧
      ((∃ entry, rmlThreadCacheGet (rmlPolicyDecide s msg ctx).2.threads msg.senderId
          msg.threadId = some entry ∧ entry.msgId = msg.msgId ∧ entry.payload = text) ↔
        (rmlThreadExpire s.threads ctx.nowMs).NewestAt msg ctx.nowMs) := by
  rcases rmlPolicyDecide_threads s msg ctx with ⟨-, hfalse⟩ | ⟨s₁, hs₁, hthreads, hforward⟩
  · rw [hfalse] at h
    exact nomatch h
  · obtain ⟨text, hrebuild, hstore⟩ := rmlHandleThreadState_forward (hforward h)
    rw [hs₁] at hrebuild hstore
    rw [hthreads]
    exact ⟨text, hrebuild, (hreach.threads_wf.expire _).get_store_iff hstore⟩

/-! ### After the counter has wrapped -/

/-- A node with time, a free queue and airtime to spare. -/
def sampleRmlContext (nowMs : UInt32) : RmlContext where
  localId := 1
  nowS := 0
  nowMs := nowMs
  hasTime := true
  hardRadioOk := true
  dutyCycleBlocked := false
  dutyBudgetUs := 0
  dutyRemainingUs := 0
  rssiDbm := -60
  snrDb := 10
  queueDepth := 0
  queueCapacity := 8
  queuePressure := 0
  routeHintValid := false
  targetHintUseful := false

/-- A message of thread 7 from node 2 to everyone. -/
def sampleRmlMessage (type : UInt8) (msgId prevId : UInt32) (payload : List UInt8) : RmlMessage where
  magic := rmlMagic
  version := rmlVersion
  type := type
  flags := 0
  msgId := msgId
  threadId := 7
  prevId := prevId
  senderId := 2
  targetId := 0
  intent := rmlIntentChat
  priority := 3
  ttl := 8
  reliability := 0
  expiresS := 0
  supersedes := false
  stateType := 7
  softTtlS := 0
  createdMs := 0
  payload := payload

/-- The text "Hi". -/
def sampleText : RmlMessage := sampleRmlMessage rmlTypeChat 1 0 [72, 105]

/-- The delta that appends "!" to it. -/
def sampleEdit : RmlMessage := sampleRmlMessage rmlTypeDelta 2 1 [1, 0, 0, 0, 0, 1, 0, 33]

/-- The state after the text has come, at a given time. -/
def rmlAfterText (nowMs : UInt32) : RmlState :=
  (rmlPolicyDecide rmlInit sampleText (sampleRmlContext nowMs)).2

theorem rmlReach_afterText (nowMs : UInt32) : RmlReach (rmlAfterText nowMs) := RmlReach.init.decide _ _

/-- The text came just before the millisecond counter wrapped, the delta just after: the relay finds
the old text. -/
theorem not_rml_reconstructed :
    ¬∀ (s : RmlState) (msg : RmlMessage) (ctx : RmlContext), RmlReach s →
      (rmlPolicyDecide s msg ctx).1.forwardReconstructed = true →
      ∃ entry, rmlThreadCacheGet (rmlPolicyDecide s msg ctx).2.threads msg.senderId
          msg.threadId = some entry ∧ entry.msgId = msg.msgId ∧
        rmlRebuild (rmlThreadExpire s.threads ctx.nowMs) msg = some entry.payload := by
  intro hall
  obtain ⟨entry, hget, hid, -⟩ := hall (rmlAfterText 0xFFFFFFFF) sampleEdit (sampleRmlContext 5)
    (rmlReach_afterText _) (by decide +kernel)
  have hold : (rmlThreadCacheGet (rmlPolicyDecide (rmlAfterText 0xFFFFFFFF) sampleEdit
      (sampleRmlContext 5)).2.threads 2 7).map RmlThreadEntry.msgId = some 1 := by decide +kernel
  have hnew : some entry.msgId = some 1 := by
    rw [← hold]
    exact (congrArg (Option.map RmlThreadEntry.msgId) hget).symm
  rw [hid] at hnew
  exact absurd hnew (by decide)

theorem rml_reconstructed_iff_sample :
    ∃ text, rmlRebuild (rmlThreadExpire (rmlAfterText 4).threads 5) sampleEdit = some text ∧
      ((∃ entry, rmlThreadCacheGet (rmlPolicyDecide (rmlAfterText 4) sampleEdit
          (sampleRmlContext 5)).2.threads 2 7 = some entry ∧ entry.msgId = 2 ∧
          entry.payload = text) ↔
        (rmlThreadExpire (rmlAfterText 4).threads 5).NewestAt sampleEdit 5) :=
  rml_reconstructed_iff (rmlReach_afterText 4) sampleEdit (sampleRmlContext 5) (by decide +kernel)

end Rivr
