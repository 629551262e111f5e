import Rivr.Firmware.Protocol

/-!
# The RIVR message layer

`firmware_core/rml`: the second wire format that shares the radio, its codec, and the policy that
decides about each message: the caches of seen messages, of the newest status of each sender and of
the texts of threads, the reconstruction of a text from a delta, and the relay decision.

A payload is the list of its `payload_len` bytes. `rml_policy_decide` always gets a context.
-/

namespace Rivr

open LittleEndian

/-! ### Constants -/

def rmlMagic : UInt8 := 0xA7
def rmlVersion : UInt8 := 1
def rmlWireHdrLen : ℕ := 28
def rmlFlagSupersedes : UInt8 := 0x01
def rmlMaxPayload : ℕ := 160
def rmlSeenCacheSize : ℕ := 64
def rmlStatusCacheSize : ℕ := 16
def rmlThreadCacheSize : ℕ := 16
def rmlThreadTextMax : ℕ := 160
def rmlRepairCacheSize : ℕ := 8

def rmlTypeChat : UInt8 := 1
def rmlTypeStatus : UInt8 := 2
def rmlTypeDelta : UInt8 := 3
def rmlTypeThreadSync : UInt8 := 5

def rmlDeltaAppend : UInt8 := 1
def rmlDeltaReplace : UInt8 := 2
def rmlDeltaDeleteRange : UInt8 := 3

def rmlIntentChat : UInt8 := 1
def rmlIntentPrivate : UInt8 := 2
def rmlIntentGroup : UInt8 := 3
def rmlIntentEmergency : UInt8 := 4
def rmlIntentTelemetry : UInt8 := 5
def rmlIntentStatus : UInt8 := 6
def rmlIntentSystem : UInt8 := 7

/-! ### The codec -/

/-- `rml_message_t`. -/
structure RmlMessage where
  magic : UInt8
  version : UInt8
  type : UInt8
  flags : UInt8
  msgId : UInt32
  threadId : UInt32
  prevId : UInt32
  senderId : UInt16
  targetId : UInt16
  intent : UInt8
  priority : UInt8
  ttl : UInt8
  reliability : UInt8
  expiresS : UInt16
  supersedes : Bool
  stateType : UInt16
  softTtlS : UInt16
  createdMs : UInt32
  payload : List UInt8
  deriving DecidableEq, Repr

/-- The flags byte that `rml_encode` writes. -/
def RmlMessage.wireFlags (msg : RmlMessage) : UInt8 :=
  if msg.supersedes then msg.flags ||| rmlFlagSupersedes else msg.flags

/-- The 28 header bytes of `rml_encode`. -/
def rmlHeader (msg : RmlMessage) : List UInt8 :=
  [rmlMagic, rmlVersion, msg.type, msg.wireFlags,
    u32Byte msg.msgId 0, u32Byte msg.msgId 8, u32Byte msg.msgId 16, u32Byte msg.msgId 24,
    u32Byte msg.threadId 0, u32Byte msg.threadId 8, u32Byte msg.threadId 16,
    u32Byte msg.threadId 24,
    u32Byte msg.prevId 0, u32Byte msg.prevId 8, u32Byte msg.prevId 16, u32Byte msg.prevId 24,
    u16Byte msg.senderId 0, u16Byte msg.senderId 8, u16Byte msg.targetId 0, u16Byte msg.targetId 8,
    msg.intent, msg.priority, msg.ttl, msg.reliability,
    u16Byte msg.expiresS 0, u16Byte msg.expiresS 8,
    u16Byte (UInt16.ofNat msg.payload.length) 0, u16Byte (UInt16.ofNat msg.payload.length) 8]

/-- `rml_encode`. -/
def rmlEncode (msg : RmlMessage) (outCap : ℕ) : Option (List UInt8) :=
  if msg.payload.length > rmlMaxPayload then none
  else if outCap < rmlWireHdrLen + msg.payload.length then none
  else some (rmlHeader msg ++ msg.payload)

/-- The bytes of a buffer at an offset, as the `get_u16` and `get_u32` of the codec read them. -/
def getU16 (buf : List UInt8) (i : ℕ) : UInt16 := u16OfBytes (buf.getD i 0) (buf.getD (i + 1) 0)

def getU32 (buf : List UInt8) (i : ℕ) : UInt32 :=
  u32OfBytes (buf.getD i 0) (buf.getD (i + 1) 0) (buf.getD (i + 2) 0) (buf.getD (i + 3) 0)

/-- `rml_decode`. -/
def rmlDecode (buf : List UInt8) : Option RmlMessage :=
  if buf.length < rmlWireHdrLen then none
  else if buf.getD 0 0 ≠ rmlMagic then none
  else if buf.getD 1 0 ≠ rmlVersion then none
  else
    let payloadLen := (getU16 buf 26).toNat
    if payloadLen > rmlMaxPayload then none
    -- bytes after the announced payload are ignored
    else if buf.length < rmlWireHdrLen + payloadLen then none
    else some
      { magic := buf.getD 0 0
        version := buf.getD 1 0
        type := buf.getD 2 0
        flags := buf.getD 3 0
        msgId := getU32 buf 4
        threadId := getU32 buf 8
        prevId := getU32 buf 12
        senderId := getU16 buf 16
        targetId := getU16 buf 18
        intent := buf.getD 20 0
        priority := buf.getD 21 0
        ttl := buf.getD 22 0
        reliability := buf.getD 23 0
        expiresS := getU16 buf 24
        supersedes := buf.getD 3 0 &&& rmlFlagSupersedes ≠ 0
        stateType := (getU32 buf 8).toUInt16
        softTtlS := 0
        createdMs := 0
        payload := (buf.drop rmlWireHdrLen).take payloadLen }

/-- `rml_delta_t`. -/
structure RmlDelta where
  op : UInt8
  offset : UInt16
  deleteLen : UInt16
  data : List UInt8
  deriving DecidableEq, Repr

/-- `rml_delta_payload_decode`. -/
def rmlDeltaPayloadDecode (buf : List UInt8) : Option RmlDelta :=
  if buf.length < 7 then none
  else
    let dataLen := (getU16 buf 5).toNat
    if dataLen > rmlMaxPayload ∨ buf.length < 7 + dataLen then none
    else some ⟨buf.getD 0 0, getU16 buf 1, getU16 buf 3, (buf.drop 7).take dataLen⟩

/-! ### The caches -/

/-- The ring of `rml_seen.c`. -/
structure RmlSeenCache where
  seen : List UInt32
  next : ℕ

def rmlSeenReset : RmlSeenCache := ⟨List.replicate rmlSeenCacheSize 0, 0⟩

/-- `rml_seen`. -/
def rmlSeen (cache : RmlSeenCache) (msgId : UInt32) : Bool := msgId ≠ 0 ∧ msgId ∈ cache.seen

/-- `rml_mark_seen`. -/
def rmlMarkSeen (cache : RmlSeenCache) (msgId : UInt32) : RmlSeenCache :=
  if msgId = 0 ∨ rmlSeen cache msgId then cache
  else ⟨cache.seen.set cache.next msgId, (cache.next + 1) % rmlSeenCacheSize⟩

/-- `rml_status_slot_t`. -/
structure RmlStatusSlot where
  senderId : UInt16
  stateType : UInt16
  newestMsgId : UInt32
  used : Bool

/-- `rml_status_is_current_or_newer`. -/
def rmlStatusIsCurrentOrNewer (status : List RmlStatusSlot) (msg : RmlMessage) :
    Bool × List RmlStatusSlot :=
  match status.findIdx? fun s =>
    s.used ∧ s.senderId = msg.senderId ∧ s.stateType = msg.stateType with
  | some i =>
    if msg.msgId ≤ (status.getD i ⟨0, 0, 0, false⟩).newestMsgId then (false, status)
    else (true, status.set i ⟨msg.senderId, msg.stateType, msg.msgId, true⟩)
  | none =>
    -- without a free slot, the sender's own index is overwritten
    let slot := (status.findIdx? fun s => !s.used).getD (msg.senderId.toNat % rmlStatusCacheSize)
    (true, status.set slot ⟨msg.senderId, msg.stateType, msg.msgId, true⟩)

/-- `rml_thread_entry_t`. -/
structure RmlThreadEntry where
  used : Bool
  senderId : UInt16
  threadId : UInt32
  msgId : UInt32
  prevId : UInt32
  timestampMs : UInt32
  softExpireMs : UInt32
  payload : List UInt8

/-- A zeroed entry. -/
def RmlThreadEntry.empty : RmlThreadEntry := ⟨false, 0, 0, 0, 0, 0, 0, []⟩

/-- `rml_thread_cache_t`. -/
structure RmlThreadCache where
  entries : List RmlThreadEntry
  nextSlot : ℕ

def rmlThreadCacheReset : RmlThreadCache := ⟨List.replicate rmlThreadCacheSize .empty, 0⟩

/-- The entry holds a text of the thread. -/
def RmlThreadEntry.OfThread (entry : RmlThreadEntry) (senderId : UInt16) (threadId : UInt32) : Prop :=
  entry.used = true ∧ entry.senderId = senderId ∧ entry.threadId = threadId

instance (entry : RmlThreadEntry) (senderId : UInt16) (threadId : UInt32) :
    Decidable (entry.OfThread senderId threadId) := inferInstanceAs (Decidable (_ ∧ _))

/-- `rml_thread_expire`. -/
def rmlThreadExpire (cache : RmlThreadCache) (nowMs : UInt32) : RmlThreadCache :=
  if nowMs = 0 then cache
  else { cache with entries := cache.entries.map fun entry =>
    if entry.used ∧ entry.softExpireMs ≠ 0 ∧ nowMs ≥ entry.softExpireMs then .empty else entry }

/-- `rml_thread_cache_get`: the newest text of the thread. -/
def rmlThreadCacheGet (cache : RmlThreadCache) (senderId : UInt16) (threadId : UInt32) :
    Option RmlThreadEntry :=
  cache.entries.foldl (fun best entry =>
    if entry.OfThread senderId threadId then
      match best with
      | none => some entry
      -- of two texts of one time the later slot wins
      | some b => if entry.timestampMs ≥ b.timestampMs then some entry else best
    else best) none

/-- `rml_thread_find_msg`: its slot. -/
def rmlThreadFindMsg (cache : RmlThreadCache) (senderId : UInt16) (threadId msgId : UInt32) :
    Option ℕ :=
  cache.entries.findIdx? fun entry => entry.OfThread senderId threadId ∧ entry.msgId = msgId

/-- `rml_thread_store`. -/
def rmlThreadStore (cache : RmlThreadCache) (msg : RmlMessage) (payload : List UInt8)
    (nowMs : UInt32) : Option RmlThreadCache :=
  if payload.length > rmlThreadTextMax then none
  else
    let entry : RmlThreadEntry :=
      { used := true
        senderId := msg.senderId
        threadId := msg.threadId
        msgId := msg.msgId
        prevId := msg.prevId
        timestampMs := nowMs
        softExpireMs := if msg.softTtlS = 0 then 0 else nowMs + msg.softTtlS.toUInt32 * 1000
        payload := payload }
    match rmlThreadFindMsg cache msg.senderId msg.threadId msg.msgId with
    -- a message that is there already is replaced in its slot
    | some slot => some { cache with entries := cache.entries.set slot entry }
    | none =>
      let entries :=
        -- a message that supersedes drops the older texts of its thread
        if msg.supersedes then cache.entries.map fun old =>
          if old.OfThread msg.senderId msg.threadId then .empty else old
        else cache.entries
      some ⟨entries.set cache.nextSlot entry, (cache.nextSlot + 1) % rmlThreadCacheSize⟩

/-- `rml_apply_delta`. -/
def rmlApplyDelta (base : RmlThreadEntry) (delta : RmlDelta) : Option (List UInt8) :=
  let off := delta.offset.toNat
  let tailOff := delta.offset.toNat + delta.deleteLen.toNat
  if delta.data.length > rmlMaxPayload ∨ off > base.payload.length then none
  else if delta.op = rmlDeltaAppend then
    if base.payload.length + delta.data.length > rmlThreadTextMax then none
    else some (base.payload ++ delta.data)
  else if delta.op = rmlDeltaReplace then
    if tailOff > base.payload.length then none
    else if off + delta.data.length + (base.payload.length - tailOff) > rmlThreadTextMax then none
    else some (base.payload.take off ++ delta.data ++ base.payload.drop tailOff)
  else if delta.op = rmlDeltaDeleteRange then
    if tailOff > base.payload.length ∨ ¬delta.data.isEmpty then none
    else some (base.payload.take off ++ base.payload.drop tailOff)
  else none

/-! ### The policy -/

/-- `rml_reason_t`. -/
inductive RmlReason
  | ok | seen | expired | ttlZero | dutyBlocked | queueFull | replacedByNewerStatus | missingPrev
  | deltaApplied | deltaFailed | repairNeeded
  deriving DecidableEq, Repr

/-- `rml_repair_request_t`. -/
structure RmlRepairRequest where
  missingMsgId : UInt32
  threadId : UInt32
  senderId : UInt16
  deriving DecidableEq, Repr

/-- `rml_policy_decision_t`; a repair is wanted where `repair` is present. -/
structure RmlDecision where
  accept : Bool
  relay : Bool
  delayMs : UInt16
  nextTtl : UInt8
  reason : RmlReason
  repairDelayMs : UInt16
  forwardReconstructed : Bool
  repair : Option RmlRepairRequest
  deriving DecidableEq, Repr

/-- `rml_decision`. -/
def rmlDecision (accept relay : Bool) (delayMs : UInt16) (nextTtl : UInt8) (reason : RmlReason) :
    RmlDecision :=
  ⟨accept, relay, delayMs, nextTtl, reason, 0, false, none⟩

/-- The static state of `rml_policy.c` and `rml_seen.c`. -/
structure RmlState where
  seen : RmlSeenCache
  status : List RmlStatusSlot
  threads : RmlThreadCache
  repairs : List RmlRepairRequest
  repairNext : ℕ

/-- `rml_init`. -/
def rmlInit : RmlState where
  seen := rmlSeenReset
  status := List.replicate rmlStatusCacheSize ⟨0, 0, 0, false⟩
  threads := rmlThreadCacheReset
  repairs := List.replicate rmlRepairCacheSize ⟨0, 0, 0⟩
  repairNext := 0

/-- `rml_repair_decision`. -/
def rmlRepairDecision (s : RmlState) (missingMsgId threadId : UInt32) (senderId : UInt16)
    (reason : RmlReason) : RmlDecision × RmlState :=
  let repair : RmlRepairRequest := ⟨missingMsgId, threadId, senderId⟩
  ({ rmlDecision false false 0 0 reason with repairDelayMs := 750, repair := some repair },
    { s with
      repairs := s.repairs.set s.repairNext repair
      repairNext := (s.repairNext + 1) % rmlRepairCacheSize })

/-- `rml_intent_policy_t`. -/
structure RmlIntentPolicy where
  intent : UInt8
  maxRelayTtl : UInt8
  minPriority : UInt8
  baseDelayMs : UInt16
  jitterMs : UInt16
  airtimeFloorPct : UInt8
  relayByDefault : Bool
  dropUnderPressure : Bool
  deriving DecidableEq, Repr

/-- The first row of `s_intent_policy`. -/
def chatIntentPolicy : RmlIntentPolicy := ⟨rmlIntentChat, 8, 3, 90, 330, 15, true, false⟩

/-- `s_intent_policy`. -/
def intentPolicies : List RmlIntentPolicy := [
  chatIntentPolicy,
  ⟨rmlIntentPrivate, 8, 4, 60, 220, 12, false, false⟩,
  ⟨rmlIntentGroup, 4, 4, 120, 260, 20, true, false⟩,
  ⟨rmlIntentEmergency, 8, 9, 0, 35, 1, true, false⟩,
  ⟨rmlIntentTelemetry, 3, 1, 450, 700, 35, true, true⟩,
  ⟨rmlIntentStatus, 2, 2, 500, 600, 30, true, true⟩,
  ⟨rmlIntentSystem, 3, 5, 80, 160, 10, true, false⟩]

/-- `rml_policy_for_intent`. -/
def rmlPolicyForIntent (intent : UInt8) : RmlIntentPolicy :=
  (intentPolicies.find? fun policy => policy.intent = intent).getD chatIntentPolicy

/-- `rml_context_t`. -/
structure RmlContext where
  localId : UInt16
  nowS : UInt32
  nowMs : UInt32
  hasTime : Bool
  hardRadioOk : Bool
  dutyCycleBlocked : Bool
  dutyBudgetUs : UInt32
  dutyRemainingUs : UInt32
  rssiDbm : Int16
  snrDb : Int8
  queueDepth : UInt8
  queueCapacity : UInt8
  queuePressure : UInt8
  routeHintValid : Bool
  targetHintUseful : Bool

/-- `rml_mix32`. -/
def rmlMix32 (v : UInt32) : UInt32 :=
  let v := v ^^^ (v >>> 16)
  let v := v * 0x7feb352d
  let v := v ^^^ (v >>> 15)
  let v := v * 0x846ca68b
  v ^^^ (v >>> 16)

/-- `rml_delay_for`. -/
def rmlDelayFor (msg : RmlMessage) (ctx : RmlContext) (policy : RmlIntentPolicy)
    (effectivePriority : UInt8) : UInt16 :=
  let seed : UInt32 := msg.msgId ^^^ (msg.threadId * (2654435761 : UInt32)) ^^^
    (msg.senderId.toUInt32 <<< 16) ^^^ msg.targetId.toUInt32 ^^^ ctx.nowMs ^^^
    (ctx.rssiDbm.toUInt16.toUInt8.toUInt32 <<< 8) ^^^ ctx.snrDb.toUInt8.toUInt32
  let jitter :=
    if policy.jitterMs > 0 then (rmlMix32 seed % (policy.jitterMs.toUInt32 + 1)).toUInt16 else 0
  let delay := policy.baseDelayMs + jitter
  if effectivePriority ≥ 8 then delay / 4
  else if effectivePriority ≥ 6 then delay / 2
  else delay

/-- `rml_queue_pressure`. -/
def rmlQueuePressure (ctx : RmlContext) : UInt8 :=
  if ctx.queuePressure ≠ 0 then (if ctx.queuePressure > 100 then 100 else ctx.queuePressure)
  else if ctx.queueCapacity = 0 then 0
  else (ctx.queueDepth.toUInt32 * 100 / ctx.queueCapacity.toUInt32).toUInt8

/-- `rml_queue_full`. -/
def rmlQueueFull (ctx : RmlContext) : Bool :=
  ctx.queueCapacity ≠ 0 ∧ ctx.queueDepth ≥ ctx.queueCapacity

/-- `rml_effective_priority`. -/
def rmlEffectivePriority (msg : RmlMessage) (ctx : RmlContext) (policy : RmlIntentPolicy) : UInt8 :=
  let priority := if msg.priority > policy.minPriority then msg.priority else policy.minPriority
  if msg.intent = rmlIntentEmergency then 255
  else if msg.createdMs ≠ 0 ∧ ctx.nowMs > msg.createdMs then
    let ageMin := (ctx.nowMs - msg.createdMs) / 60000
    -- each minute of age costs one step of priority
    if ageMin ≥ priority.toUInt32 then 0 else priority - ageMin.toUInt8
  else priority

/-- `rml_airtime_allowed`; the product is one of 32 bits. -/
def rmlAirtimeAllowed (ctx : RmlContext) (policy : RmlIntentPolicy) : Bool :=
  if ctx.dutyBudgetUs = 0 ∨ policy.airtimeFloorPct = 0 then true
  else decide (ctx.dutyRemainingUs * 100 / ctx.dutyBudgetUs ≥ policy.airtimeFloorPct.toUInt32)

/-- `rml_handle_thread_state`. -/
def rmlHandleThreadState (s : RmlState) (msg : RmlMessage) (ctx : RmlContext) :
    RmlDecision × RmlState :=
  let s := { s with threads := rmlThreadExpire s.threads ctx.nowMs }
  if msg.type = rmlTypeChat ∨ msg.type = rmlTypeStatus ∨ msg.type = rmlTypeThreadSync then
    match rmlThreadStore s.threads msg msg.payload ctx.nowMs with
    | none => (rmlDecision false false 0 0 .deltaFailed, s)
    | some threads => (rmlDecision true false 0 0 .ok, { s with threads := threads })
  else if msg.type = rmlTypeDelta then
    -- a delta that names no base is answered by a request for message 0
    if msg.prevId = 0 then rmlRepairDecision s 0 msg.threadId msg.senderId .missingPrev
    else
      match rmlThreadFindMsg s.threads msg.senderId msg.threadId msg.prevId with
      | none => rmlRepairDecision s msg.prevId msg.threadId msg.senderId .repairNeeded
      | some slot =>
        match (rmlDeltaPayloadDecode msg.payload).bind fun delta =>
            (rmlApplyDelta (s.threads.entries.getD slot .empty) delta).bind fun rebuilt =>
              rmlThreadStore s.threads msg rebuilt ctx.nowMs with
        | none => (rmlDecision false false 0 0 .deltaFailed, s)
        | some threads =>
          ({ rmlDecision true false 0 0 .deltaApplied with forwardReconstructed := true },
            { s with threads := threads })
  else (rmlDecision true false 0 0 .ok, s)

/-- The end of `rml_policy_decide`, on a message that was accepted with the decision `state`. -/
def rmlRelayDecision (msg : RmlMessage) (ctx : RmlContext) (policy : RmlIntentPolicy)
    (effectivePriority : UInt8) (state : RmlDecision) : RmlDecision :=
  if msg.ttl = 0 then rmlDecision true false 0 0 .ttlZero
  else if !ctx.hardRadioOk ∨ ctx.dutyCycleBlocked ∨ !rmlAirtimeAllowed ctx policy then
    rmlDecision true false 0 0 .dutyBlocked
  else if rmlQueueFull ctx then rmlDecision true false 0 0 .queueFull
  else
    let relay := policy.relayByDefault
    -- a later assignment overrides an earlier one
    let relay := if ctx.localId ≠ 0 ∧ msg.targetId = ctx.localId then false else relay
    let relay := if msg.intent = rmlIntentPrivate then ctx.routeHintValid && ctx.targetHintUseful
      else relay
    let relay := if msg.intent = rmlIntentEmergency then true else relay
    let relay := if state.forwardReconstructed then true else relay
    let relay := if effectivePriority = 0 then false else relay
    let nextTtl := if msg.ttl - 1 > policy.maxRelayTtl then policy.maxRelayTtl else msg.ttl - 1
    let relay := if nextTtl = 0 then false else relay
    { rmlDecision true relay (if relay then rmlDelayFor msg ctx policy effectivePriority else 0)
        nextTtl (if state.reason = .deltaApplied then .deltaApplied else .ok) with
      forwardReconstructed := relay && state.forwardReconstructed }

/-- `rml_policy_decide`. -/
def rmlPolicyDecide (s : RmlState) (msg : RmlMessage) (ctx : RmlContext) :
    RmlDecision × RmlState :=
  if msg.magic ≠ rmlMagic then (rmlDecision false false 0 0 .expired, s)
  else if msg.version ≠ rmlVersion then (rmlDecision false false 0 0 .expired, s)
  else if msg.payload.length > rmlMaxPayload then (rmlDecision false false 0 0 .expired, s)
  -- a message is marked as seen only once it has been accepted
  else if rmlSeen s.seen msg.msgId then (rmlDecision false false 0 0 .seen, s)
  else if ctx.hasTime ∧ msg.expiresS ≠ 0 ∧ ctx.nowS > msg.expiresS.toUInt32 then
    (rmlDecision false false 0 0 .expired, s)
  else
    let (current, status) :=
      if msg.intent = rmlIntentStatus then rmlStatusIsCurrentOrNewer s.status msg
      else (true, s.status)
    let s := { s with status := status }
    if !current then (rmlDecision false false 0 0 .replacedByNewerStatus, s)
    else
      let policy := rmlPolicyForIntent msg.intent
      let effectivePriority := rmlEffectivePriority msg ctx policy
      if policy.dropUnderPressure ∧ rmlQueuePressure ctx ≥ 85 ∧ effectivePriority < 6 then
        (rmlDecision false false 0 0 .queueFull, s)
      else
        -- the thread cache is written before the relay decision, which can still be negative
        let (state, s) := rmlHandleThreadState s msg ctx
        if !state.accept then (state, s)
        else
          (rmlRelayDecision msg ctx policy effectivePriority state,
            { s with seen := rmlMarkSeen s.seen msg.msgId })

end Rivr
