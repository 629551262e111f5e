import Rivr.Firmware.AirtimeSched
import Rivr.Firmware.FrameFlow
import Rivr.Firmware.Rml

/-!
# What the airtime gate takes for control traffic

The gate reads the packet type of a queued frame from one byte, and lets control traffic pass for
free. Two wire formats share the transmit queue: a relayed RIVR frame has its packet type in that
byte, a message of the RIVR message layer its flags.

Every frame that is relayed and passes for free is a RIVR frame of a control type
(`relay_airtime_sound`). For the message layer this is so because its relay is never taken: the
context it is given has a budget of `UINT32_MAX`, and the share of it that remains overflows to 0
(`rmlAirtimeAllowed_of_max`). Its encoder alone would not keep to the law (`exempt_rmlEncode_iff`).
-/

namespace Rivr

variable {cfg : BuildConfig}

/-! ### Frames that pass for free -/

/-- The gate lets the frame pass at no cost, whatever is left in the buckets. -/
def ExemptFromAirtime (data : List UInt8) : Prop :=
  ∀ ctx toaUs nowMs,
    airtimeSchedCheckConsume ctx ⟨some data, UInt8.ofNat data.length⟩ toaUs nowMs = (true, ctx)

/-- If the frame passes for free, it is a RIVR frame of a control type. -/
def AirtimeSound (data : List UInt8) : Prop :=
  ExemptFromAirtime data →
    ∃ hdr pl, protocolDecode data (UInt8.ofNat data.length) = some (hdr, pl) ∧
      rivrPktClassify hdr.pktType = .control

/-- The byte that the gate classifies. -/
def typeByte (data : List UInt8) : UInt8 :=
  AirtimeFrame.pktType ⟨some data, UInt8.ofNat data.length⟩

theorem typeByte_eq {data : List UInt8} (hmin : 4 ≤ data.length) (hmax : data.length ≤ 255) :
    typeByte data = data.getD 3 0 := by
  have hlt : UInt8.ofNat data.length > pktTypeByteOffset := by
    rw [gt_iff_lt, UInt8.lt_iff_toNat_lt,
      UInt8.toNat_ofNat_of_lt' (by simp only [UInt8.size]; omega)]
    exact hmin
  rw [typeByte, AirtimeFrame.pktType, AirtimeFrame.byte, if_pos hlt]
  rfl

/-- A context whose global bucket is empty. -/
def spentAirtime : AirtimeCtx := { airtimeSchedInit with tokensUs := 0, tokens_le := by decide }

theorem exempt_iff (data : List UInt8) :
    ExemptFromAirtime data ↔ rivrPktClassify (typeByte data) = .control := by
  constructor
  · intro h
    by_contra hcls
    -- an empty bucket refuses what it has to pay for
    have hspent := h spentAirtime 1 0
    rw [typeByte] at hcls
    rw [airtimeSchedCheckConsume, if_neg hcls] at hspent
    have hnone : (globalRefill spentAirtime 0).consume 1 = none := rfl
    simp only [hnone] at hspent
    exact absurd (congrArg Prod.fst hspent) Bool.false_ne_true
  · intro hcls ctx toaUs nowMs
    exact if_pos hcls

/-! ### The message layer's relay -/

/-- The context that `source_handle_rml_frame` gives to the policy. -/
def rmlContextFor (node : RadioNode cfg) (frame : RfRxFrame) (msg : RmlMessage) (nowMs : UInt32) :
    RmlContext :=
  let local16 := node.myNodeId.toUInt16
  { localId := local16
    nowS := nowMs / 1000
    nowMs := nowMs
    hasTime := true
    hardRadioOk := true
    dutyCycleBlocked := false
    dutyBudgetUs := 0xFFFFFFFF
    dutyRemainingUs := 0xFFFFFFFF
    rssiDbm := frame.rssiDbm
    snrDb := frame.snrDb
    queueDepth := UInt8.ofNat node.txQueue.items.length
    queueCapacity := UInt8.ofNat rfTxQueueCap
    queuePressure := 0
    routeHintValid := msg.targetId ≠ 0
    targetHintUseful := msg.targetId ≠ 0 ∧ msg.targetId ≠ local16 }

/-- The message that is relayed: a delta is replaced by the text it gives. -/
def rmlRelayMessage (threads : RmlThreadCache) (msg : RmlMessage) (decision : RmlDecision) :
    Option RmlMessage :=
  if decision.forwardReconstructed then
    match rmlThreadCacheGet threads msg.senderId msg.threadId with
    | none => none
    | some entry =>
      if entry.payload.length ≤ rmlMaxPayload then
        some { msg with
          type := rmlTypeThreadSync
          prevId := entry.prevId
          payload := entry.payload
          supersedes := true
          ttl := decision.nextTtl }
      else none
  else some { msg with ttl := decision.nextTtl }

/-- The frame of `source_handle_rml_frame` for the transmit queue. -/
def rmlRelayRequest (cfg : BuildConfig) (threads : RmlThreadCache) (msg : RmlMessage)
    (decision : RmlDecision) (nowMs : UInt32) : Option RfTxRequest := do
  let relay ← rmlRelayMessage threads msg decision
  let data ← rmlEncode relay rfMaxPayloadLen.toNat
  if data.length ≤ 255 then
    some ⟨data, cfg.toaApproxUs data,
      if decision.delayMs = 0 then 0 else nowMs + decision.delayMs.toUInt32⟩
  else none

/-- `source_handle_rml_frame`: what it leaves, if the frame is one of the message layer. -/
def sourceHandleRmlFrame (rml : RmlState) (node : RadioNode cfg) (frame : RfRxFrame)
    (nowMs : UInt32) : Option (RmlState × RadioNode cfg) :=
  if frame.data.head? ≠ some rmlMagic then none
  else
    match rmlDecode frame.data with
    | none => some (rml, node)
    | some msg =>
      if msg.senderId = node.myNodeId.toUInt16 then some (rml, node)
      else
        let (decision, rml) := rmlPolicyDecide rml msg (rmlContextFor node frame msg nowMs)
        if decision.accept ∧ decision.relay then
          match rmlRelayRequest cfg rml.threads msg decision nowMs with
          | none => some (rml, node)
          | some req => some (rml, (node.push req).2)
        else some (rml, node)

/-! ### The share that remains -/

/-- With a budget of `UINT32_MAX` the product overflows, and nothing seems to remain. -/
theorem rmlAirtimeAllowed_of_max {ctx : RmlContext} (hbudget : ctx.dutyBudgetUs = 0xFFFFFFFF)
    (hremaining : ctx.dutyRemainingUs = 0xFFFFFFFF) (intent : UInt8) :
    rmlAirtimeAllowed ctx (rmlPolicyForIntent intent) = false := by
  have hfloor : ∀ policy ∈ intentPolicies, policy.airtimeFloorPct ≠ 0 ∧
      ¬(0 : UInt32) ≥ policy.airtimeFloorPct.toUInt32 := by decide
  have hmem : rmlPolicyForIntent intent ∈ intentPolicies := by
    rw [rmlPolicyForIntent]
    rcases hfind : intentPolicies.find? fun policy => policy.intent = intent with _ | policy
    · rw [hfind]
      exact List.mem_cons_self
    · rw [hfind]
      exact List.mem_of_find?_eq_some hfind
  obtain ⟨hne, hzero⟩ := hfloor _ hmem
  have hshare : (0xFFFFFFFF : UInt32) * 100 / 0xFFFFFFFF = 0 := by decide
  rw [rmlAirtimeAllowed, hbudget, hremaining, hshare, if_neg]
  · exact decide_eq_false hzero
  · rintro (h | h)
    · exact absurd h (by decide)
    · exact hne h

/-- Handling the state of the thread never decides to relay. -/
theorem rmlHandleThreadState_relay (s : RmlState) (msg : RmlMessage) (ctx : RmlContext) :
    (rmlHandleThreadState s msg ctx).1.relay = false := by
  unfold rmlHandleThreadState
  dsimp only
  split_ifs
  · split <;> rfl
  · rfl
  · split
    · rfl
    · split <;> rfl
  · rfl

/-- Without airtime, no message is relayed. -/
theorem rmlPolicyDecide_relay (s : RmlState) (msg : RmlMessage) {ctx : RmlContext}
    (hair : ∀ intent, rmlAirtimeAllowed ctx (rmlPolicyForIntent intent) = false) :
    (rmlPolicyDecide s msg ctx).1.relay = false := by
  have hend : ∀ effectivePriority state, (rmlRelayDecision msg ctx (rmlPolicyForIntent msg.intent)
      effectivePriority state).relay = false := by
    intro effectivePriority state
    rw [rmlRelayDecision]
    by_cases httl : msg.ttl = 0
    · rw [if_pos httl]
      rfl
    · rw [if_neg httl, if_pos (by simp [hair])]
      rfl
  unfold rmlPolicyDecide
  dsimp only
  generalize (if msg.intent = rmlIntentStatus then rmlStatusIsCurrentOrNewer s.status msg
    else (true, s.status)) = r
  split_ifs
  · rfl
  · rfl
  · rfl
  · rfl
  · rfl
  · rfl
  · rfl
  · exact rmlHandleThreadState_relay _ _ _
  · exact hend _ _

/-- The relay of the message layer is never taken. -/
theorem sourceHandleRmlFrame_node {rml rml' : RmlState} {node node' : RadioNode cfg}
    {frame : RfRxFrame} {nowMs : UInt32}
    (h : sourceHandleRmlFrame rml node frame nowMs = some (rml', node')) : node' = node := by
  rw [sourceHandleRmlFrame] at h
  split_ifs at h with hmagic
  split at h
  · exact (Prod.mk.inj (Option.some.inj h)).2.symm
  · next msg hmsg =>
    split_ifs at h with hown
    · exact (Prod.mk.inj (Option.some.inj h)).2.symm
    · have hair : ∀ intent, rmlAirtimeAllowed (rmlContextFor node frame msg nowMs)
          (rmlPolicyForIntent intent) = false := rmlAirtimeAllowed_of_max rfl rfl
      have hrelay := rmlPolicyDecide_relay rml msg hair
      dsimp only at h
      rw [if_neg fun hboth => by simp [hrelay] at hboth] at h
      exact (Prod.mk.inj (Option.some.inj h)).2.symm

/-! ### What the encoder alone would do -/

/-- An encoded message would pass for free if its flags were the code of a control type. -/
theorem exempt_rmlEncode_iff {msg : RmlMessage} {outCap : ℕ} {data : List UInt8}
    (h : rmlEncode msg outCap = some data) :
    ExemptFromAirtime data ↔ rivrPktClassify msg.wireFlags = .control := by
  rw [rmlEncode] at h
  split_ifs at h with hmax hcap
  obtain rfl := Option.some.inj h
  have hmax' : msg.payload.length ≤ 160 := Nat.not_lt.mp hmax
  have hlen : (rmlHeader msg ++ msg.payload).length = 28 + msg.payload.length :=
    List.length_append
  have htype : typeByte (rmlHeader msg ++ msg.payload) = msg.wireFlags := by
    rw [typeByte_eq (by omega) (by omega)]
    rfl
  rw [exempt_iff, htype]

/-! ### Soundness -/

/-- The relay step of the message layer pushes the request. -/
def RmlRelayPushes (rml : RmlState) (node : RadioNode cfg) (frame : RfRxFrame) (nowMs : UInt32)
    (req : RfTxRequest) : Prop :=
  ∃ rml' node', sourceHandleRmlFrame rml node frame nowMs = some (rml', node') ∧
    node'.txQueue.items = node.txQueue.items ++ [req]

/-- A frame is a RIVR frame, so the byte that is classified is its packet type. -/
theorem airtimeSound_wireFrame (hdr : RivrPktHdr) {payload : List UInt8}
    (htype : 1 ≤ hdr.pktType ∧ hdr.pktType ≤ pktMetrics) (hlen : payload.length ≤ 230) :
    AirtimeSound (wireFrame hdr payload) := by
  intro hexempt
  refine ⟨_, _, (isFrame_wireFrame hdr htype hlen).decode, ?_⟩
  have hbyte : typeByte (wireFrame hdr payload) = hdr.pktType := by
    have hall := wireFrame_length hdr payload
    rw [typeByte_eq (by omega) (by omega)]
    rfl
  rw [exempt_iff, hbyte] at hexempt
  exact hexempt

/-- **Airtime classification.** A relayed frame that passes the airtime gate for free is a RIVR
frame of a control type. -/
theorem relay_airtime_sound (rml : RmlState) {node : RadioNode cfg} {env : RxVerdicts}
    {frame : RfRxFrame} {nowMs : UInt32} {req : RfTxRequest}
    (h : node.RelayPushes env frame nowMs req ∨ RmlRelayPushes rml node frame nowMs req) :
    AirtimeSound req.data := by
  rcases h with h | ⟨rml', node', hrml, hitems⟩
  · obtain ⟨hdr, pl, hacc, -⟩ := id h
    obtain ⟨payload, rfl, hframe⟩ := isFrame_of_protocolDecode hacc.decoded
    obtain ⟨-, ttl, -, hdata⟩ := h.data hframe
    rw [hdata]
    exact airtimeSound_wireFrame _ hframe.type hframe.length_le
  · rw [sourceHandleRmlFrame_node hrml] at hitems
    exact absurd hitems (by simp)

/-- A route request from `0xA1`, heard from itself. -/
def heardRouteReq : RfRxFrame where
  data := wireFrame { sampleChatHdr with netId := 0, pktType := pktRouteReq } []
  rssiDbm := -80
  snrDb := 5
  fromId := 0

/-- What a client makes of it. -/
def relayedRouteReq : RfTxRequest where
  data := wireFrame { relayHdr { sampleChatHdr with netId := 0, pktType := pktRouteReq } with
    ttl := 6 } []
  toaUs := clientBuild.toaApproxUs heardRouteReq.data
  dueMs := 100

/-- A client relays a route request. -/
theorem relay_airtime_sound_routeReq : AirtimeSound relayedRouteReq.data := by
  have hacc : freshClient.accepted ⟨true, true, 0⟩ heardRouteReq 100 =
      some (RivrPktHdr.onWire { sampleChatHdr with netId := 0, pktType := pktRouteReq } 0, none) := by
    decide +kernel
  have hpushes : freshClient.RelayPushes ⟨true, true, 0⟩ heardRouteReq 100 relayedRouteReq :=
    ⟨_, _, accepted_eq_some_iff.mp hacc, by decide +kernel, by decide +kernel⟩
  exact relay_airtime_sound rmlInit (Or.inl hpushes)

end Rivr
