import Rivr.Firmware.FrameFlow

/-!
# Frames that are sent in a changed form

Every path of the firmware that holds a frame changes it before it sends it: the retry table takes a
new packet id for each attempt and turns the last one into a flood, the pending queue and the sink
address the frame to the next hop, and the sink asks for an acknowledgement. They patch bytes and
recompute the CRC, or encode the frame again.

`rewrites_reframed`: what they push is always the frame that `protocol_encode` gives for the stored
header with just the fields of that path changed, and for the stored payload. `protocol_decode`
reads these fields and this payload from it exactly when the packet type is one that it knows; since
`protocol_encode` takes any type, the sink also sends frames that no node accepts
(`not_rewrites_accepted`).
-/

namespace Rivr

variable {cfg : BuildConfig} {retryTableSize : ℕ}

/-! ### Frames of the encoder -/

/-- `protocol_encode` wrote `data` for the header; `payload` are the bytes that it put behind it.
The two buffers can be read as far as it is told to. -/
def Encoded (data : List UInt8) (hdr : RivrPktHdr) (payload : List UInt8) : Prop :=
  ∃ (p : Option (List UInt8)) (n : UInt8) (outBuf : List UInt8) (outCap : UInt8),
    (∀ bytes, p = some bytes → n.toNat ≤ bytes.length) ∧ outCap.toNat ≤ outBuf.length ∧
      protocolEncode hdr p n outBuf outCap = some data ∧ payload = payloadRegion p n outBuf

/-- `protocol_decode` reads the header and the payload from the bytes. -/
def Accepted (data : List UInt8) (hdr : RivrPktHdr) (payload : List UInt8) : Prop :=
  protocolDecode data (UInt8.ofNat data.length) =
    some (hdr.onWire (UInt8.ofNat payload.length), payloadPtr payload)

/-- The packet type is one that `protocol_decode` knows. -/
def RivrPktHdr.KnownType (hdr : RivrPktHdr) : Prop := 1 ≤ hdr.pktType ∧ hdr.pktType ≤ pktMetrics

instance RivrPktHdr.decidableKnownType (hdr : RivrPktHdr) : Decidable hdr.KnownType :=
  inferInstanceAs (Decidable (_ ∧ _))

/-- The bytes are the frame of the encoder for the header and the payload, which the decoder reads
from it if it knows the type and else refuses. -/
structure Reframed (data : List UInt8) (hdr : RivrPktHdr) (payload : List UInt8) : Prop where
  encoded : Encoded data hdr payload
  accepted : hdr.KnownType → Accepted data hdr payload
  refused : ¬hdr.KnownType → protocolDecode data (UInt8.ofNat data.length) = none

/-- A frame of the encoder is packed header, payload and CRC. -/
theorem Encoded.eq_wireFrame {data payload : List UInt8} {hdr : RivrPktHdr}
    (h : Encoded data hdr payload) : data = wireFrame hdr payload ∧ payload.length ≤ 230 := by
  obtain ⟨p, n, outBuf, outCap, hp, hout, henc, rfl⟩ := h
  obtain ⟨hdata, hlen, hmax⟩ := eq_wireFrame_of_protocolEncode hp hout henc
  exact ⟨hdata, hlen.trans_le hmax⟩

/-- The decoder refuses a type that it does not know. -/
theorem protocolDecode_wireFrame_of_not_known {hdr : RivrPktHdr} {payload : List UInt8}
    (h : ¬hdr.KnownType) (len : UInt8) : protocolDecode (wireFrame hdr payload) len = none := by
  rw [protocolDecode]
  rcases hvalid : validateWireFrame (wireFrame hdr payload) len with _ | n
  · rfl
  · -- the type is byte 3 of the frame
    obtain ⟨-, -, -, htype, -⟩ := validateWireFrame_eq_some_iff.mp hvalid
    exact absurd htype h

/-- The frame of a header and a payload that is not too long. -/
theorem reframed_wireFrame (hdr : RivrPktHdr) {payload : List UInt8} (hlen : payload.length ≤ 230) :
    Reframed (wireFrame hdr payload) hdr payload := by
  have hcap : 25 + payload.length ≤ rfMaxPayloadLen.toNat := Nat.add_le_add_left hlen 25
  obtain ⟨hn, -⟩ := payloadLen_ofNat hlen
  constructor
  · refine ⟨some payload, UInt8.ofNat payload.length, List.replicate rfMaxPayloadLen.toNat 0,
      rfMaxPayloadLen, ?_, (List.length_replicate).ge, ?_, ?_⟩
    · rintro bytes ⟨⟩
      exact hn.le
    · exact protocolEncode_eq_some (.inl rfl) hlen hcap hdr _
    · exact (payloadRegion_of_pointsTo (.inl rfl) hn.symm _).symm
  · exact fun hknown => (isFrame_wireFrame hdr hknown hlen).decode
  · exact fun hunknown => protocolDecode_wireFrame_of_not_known hunknown _

/-- What the decoder reads from a frame of the encoder. -/
theorem Encoded.isFrame {data payload : List UInt8} {hdr : RivrPktHdr}
    (h : Encoded data hdr payload) (hknown : hdr.KnownType) :
    IsFrame data (hdr.onWire (UInt8.ofNat payload.length)) payload := by
  obtain ⟨rfl, hlen⟩ := h.eq_wireFrame
  exact isFrame_wireFrame hdr hknown hlen

/-- A frame of the encoder that the decoder reads has a type that it knows. -/
theorem Encoded.known_of_isFrame {data payload payload' : List UInt8} {hdr hdr' : RivrPktHdr}
    (h : Encoded data hdr payload) (hframe : IsFrame data hdr' payload') : hdr.KnownType := by
  obtain ⟨rfl, -⟩ := h.eq_wireFrame
  by_contra hunknown
  have hdec := hframe.decode
  rw [protocolDecode_wireFrame_of_not_known hunknown] at hdec
  exact nomatch hdec

/-! ### The retry table -/

/-- The entry was registered by one of the calls, with the frame `stored`. -/
def RegisteredBy (calls : List RetryCall) (e : RetryEntry) (stored : List UInt8) : Prop :=
  ∃ c ∈ calls, ∃ curPktId,
    c.action = .enqueue e.ackSrcId curPktId e.dstId e.nextHop stored e.toaUs

/-- What a tick of the retry table pushes after any calls: of an entry with attempts left the frame
that was registered with another packet id, of an entry without the flood that replaces it. -/
def RetryRewrites (P : List UInt8 → RivrPktHdr → List UInt8 → Prop) : Prop :=
  ∀ (retryTableSize : ℕ) (calls : List RetryCall) (txQueue : TxQueue) (pktIdCounter nowMs : UInt32),
    ∀ req ∈ (retryTableTick (RetryLog.after retryTableSize calls).rt txQueue pktIdCounter
        nowMs).txQueue.items,
      req ∈ txQueue.items ∨
        ∃ e ∈ (RetryLog.after retryTableSize calls).rt.entries, e.valid = true ∧ e.Due nowMs ∧
          ∃ stored, RegisteredBy calls e stored ∧ ∀ hdr payload, Encoded stored hdr payload →
            ∃ pktId, P req.data
              (if e.retriesLeft > 0 then { hdr with pktId := pktId } else expiredHdr hdr pktId)
              payload

/-- The entry holds the frame that was registered, up to the packet id. -/
def Keeps (calls : List RetryCall) (e : RetryEntry) : Prop :=
  ∃ stored, RegisteredBy calls e stored ∧ ∀ hdr payload, Encoded stored hdr payload →
    ∃ pktId, e.data = wireFrame { hdr with pktId := pktId } payload

/-- A tick keeps what the slots keep. -/
theorem Keeps.resend {calls : List RetryCall} {e : RetryEntry} (h : Keeps calls e)
    (newPktId : UInt16) (nowMs : UInt32) : Keeps calls (e.resend newPktId nowMs) := by
  obtain ⟨stored, hreg, hdata⟩ := h
  refine ⟨stored, hreg, fun hdr payload henc => ⟨newPktId, ?_⟩⟩
  obtain ⟨pktId, hdata⟩ := hdata hdr payload henc
  rw [RetryEntry.resend, hdata]
  exact patchPktIdAndCrc_wireFrame henc.eq_wireFrame.2 _ _

theorem Keeps.later {calls calls' : List RetryCall} {e : RetryEntry} (h : Keeps calls e)
    (hsub : calls ⊆ calls') : Keeps calls' e := by
  obtain ⟨stored, ⟨c, hc, hreg⟩, hdata⟩ := h
  exact ⟨stored, ⟨c, hsub hc, hreg⟩, hdata⟩

/-- One call keeps what the slots keep, and a registered frame is kept as it is. -/
theorem keeps_after {rt : RetryTable retryTableSize} {calls : List RetryCall} {c : RetryCall}
    (hc : c ∈ calls) (hrt : ∀ e ∈ rt.entries, e.valid = true → Keeps calls e) (nowMs : UInt32) :
    ∀ e ∈ (rt.after c.action nowMs).entries, e.valid = true → Keeps calls e := by
  intro e he hvalid
  rcases haction : c.action with ⟨ackSrcId, curPktId, dstId, nextHop, data, toaUs⟩ |
    ⟨ackSrcId, ackPktId⟩ | ⟨txQueue, pktIdCounter⟩ <;> rw [haction] at he
  · rcases retryTableEnqueue_cases rt ackSrcId curPktId dstId nextHop data toaUs nowMs with
      hsame | ⟨i, e₀, -, -, hset, -⟩
    · rw [RetryTable.after, hsame] at he
      exact hrt e he hvalid
    · rw [RetryTable.after, hset] at he
      rcases List.mem_or_eq_of_mem_set he with hold | rfl
      · exact hrt e hold hvalid
      · exact ⟨data, ⟨c, hc, curPktId, haction⟩, fun hdr payload henc =>
          ⟨hdr.pktId, henc.eq_wireFrame.1⟩⟩
  · rcases retryTableAck_cases rt ackSrcId ackPktId with hsame | ⟨i, e₀, -, -, hset, -⟩
    · rw [RetryTable.after, hsame] at he
      exact hrt e he hvalid
    · rw [RetryTable.after, hset] at he
      rcases List.mem_or_eq_of_mem_set he with hold | rfl
      · exact hrt e hold hvalid
      · cases hvalid
  · obtain ⟨e₀, he₀, hvalid₀, rfl | ⟨pktId, -, rfl⟩⟩ := mem_tickScan he hvalid
    · exact hrt _ he₀ hvalid₀
    · exact (hrt e₀ he₀ hvalid₀).resend pktId nowMs

/-- After any calls every slot keeps a frame that one of them registered. -/
theorem keeps_of_mem_after (calls : List RetryCall) :
    ∀ e ∈ (RetryLog.after retryTableSize calls).rt.entries, e.valid = true → Keeps calls e := by
  induction calls using List.reverseRecOn with
  | nil =>
    intro e he hvalid
    rw [List.eq_of_mem_replicate he] at hvalid
    exact nomatch hvalid
  | append_singleton calls c ih =>
    rw [RetryLog.after, List.foldl_append]
    refine keeps_after (List.mem_append_right _ List.mem_cons_self) (fun e he hvalid => ?_) _
    exact (ih e he hvalid).later (List.subset_append_left _ _)

theorem retryRewrites_reframed : RetryRewrites Reframed := by
  intro retryTableSize calls txQueue pktIdCounter nowMs req hreq
  refine (mem_tickScan_txQueue hreq).imp_right ?_
  rintro ⟨k, e, t, he, -, hvalid, hdue, hdata⟩
  obtain ⟨stored, hreg, hkeeps⟩ := keeps_of_mem_after calls e (List.mem_of_getElem? he) hvalid
  refine ⟨e, List.mem_of_getElem? he, hvalid, hdue, stored, hreg, fun hdr payload henc => ?_⟩
  obtain ⟨pktId, hframe⟩ := hkeeps hdr payload henc
  have hlen := henc.eq_wireFrame.2
  refine ⟨t.freshPktId, ?_⟩
  rw [hdata, tickFrame, hframe]
  split_ifs with hleft
  · rw [patchPktIdAndCrc_wireFrame hlen]
    exact reframed_wireFrame _ hlen
  · rw [buildFallbackFlood_wireFrame hlen]
    exact reframed_wireFrame _ hlen

/-! ### The pending queue -/

/-- A call of one of the operations of the pending queue. A drain finds the transmit queue as it is
then. -/
inductive PendingAction
  | enqueue (dstId : UInt32) (data : List UInt8) (toaUs : UInt32)
  | expire
  | drain (dstId nextHop : UInt32) (txQueue : TxQueue)

/-- A call, and the time it is made. -/
structure PendingCall where
  action : PendingAction
  nowMs : UInt32

/-- The queue after the call. -/
def PendingQueue.after (pq : PendingQueue) (c : PendingCall) : PendingQueue :=
  match c.action with
  | .enqueue dstId data toaUs => (pendingQueueEnqueue pq dstId data toaUs c.nowMs).2
  | .expire => (pendingQueueExpire pq c.nowMs).2
  | .drain dstId nextHop txQueue =>
    (pendingQueueDrainForDst pq dstId nextHop txQueue c.nowMs).2.1

/-- A frame was saved by one of the calls; its length is a byte. -/
def SavedBy (calls : List PendingCall) (stored : List UInt8) : Prop :=
  ∃ c ∈ calls, ∃ dstId data toaUs, c.action = .enqueue dstId data toaUs ∧
    stored = data.take rfMaxPayloadLen.toNat

/-- What a drain of the pending queue pushes after any calls: a saved frame, for the next hop. -/
def PendingRewrites (P : List UInt8 → RivrPktHdr → List UInt8 → Prop) : Prop :=
  ∀ (calls : List PendingCall) (dstId nextHop : UInt32) (txQueue : TxQueue) (nowMs : UInt32),
    ∀ req ∈ (pendingQueueDrainForDst (calls.foldl PendingQueue.after pendingQueueInit) dstId nextHop
        txQueue nowMs).2.2.items,
      req ∈ txQueue.items ∨ ∃ stored, SavedBy calls stored ∧ ∀ hdr payload,
        Encoded stored hdr payload → P req.data { hdr with dstId := nextHop, ttl := 1 } payload

theorem SavedBy.later {calls calls' : List PendingCall} {stored : List UInt8}
    (h : SavedBy calls stored) (hsub : calls ⊆ calls') : SavedBy calls' stored := by
  obtain ⟨c, hc, hsaved⟩ := h
  exact ⟨c, hsub hc, hsaved⟩

/-- One call leaves what waits as it is, or saves its frame. -/
theorem savedBy_after {pq : PendingQueue} {calls : List PendingCall} {c : PendingCall}
    (hc : c ∈ calls) (hpq : ∀ e ∈ pq.entries, e.valid = true → SavedBy calls e.data) :
    ∀ e ∈ (pq.after c).entries, e.valid = true → SavedBy calls e.data := by
  intro e he hvalid
  rw [PendingQueue.after] at he
  split at he
  · rename_i dstId data toaUs haction
    rcases mem_pendingQueueEnqueue he hvalid with hold | hnew
    · exact hpq e hold hvalid
    · exact ⟨c, hc, dstId, data, toaUs, haction, hnew⟩
  · exact hpq e (mem_pendingExpireScan he hvalid) hvalid
  · exact hpq e ((pendingQueueDrainForDst_spec pq _ _ _ c.nowMs).1 e he hvalid) hvalid

/-- After any calls every slot holds a frame that one of them saved. -/
theorem savedBy_of_mem_after (calls : List PendingCall) :
    ∀ e ∈ (calls.foldl PendingQueue.after pendingQueueInit).entries, e.valid = true →
      SavedBy calls e.data := by
  induction calls using List.reverseRecOn with
  | nil =>
    intro e he hvalid
    rw [List.eq_of_mem_replicate he] at hvalid
    exact nomatch hvalid
  | append_singleton calls c ih =>
    rw [List.foldl_append]
    refine savedBy_after (List.mem_append_right _ List.mem_cons_self) fun e he hvalid => ?_
    exact (ih e he hvalid).later (List.subset_append_left _ _)

theorem pendingRewrites_reframed : PendingRewrites Reframed := by
  intro calls dstId nextHop txQueue nowMs req hreq
  refine ((pendingQueueDrainForDst_spec _ _ _ _ _).2 req hreq).imp_right ?_
  rintro ⟨e, he, hvalid, hsent⟩
  refine ⟨e.data, savedBy_of_mem_after calls e he hvalid, fun hdr payload henc => ?_⟩
  -- what could not be decoded was not sent
  obtain ⟨hdr', payload', hframe⟩ := isFrame_of_reencodeAsUnicastHop hsent
  have hframe := henc.isFrame (henc.known_of_isFrame hframe)
  rw [reencodeAsUnicastHop_of_isFrame hframe] at hsent
  rw [← Option.some.inj hsent]
  exact reframed_wireFrame { hdr with dstId := nextHop, ttl := 1 } hframe.length_le

/-! ### The sink -/

/-- What the sink may push for a frame with the header and the payload. -/
inductive SinkSends (P : List UInt8 → RivrPktHdr → List UInt8 → Prop) (node : RadioNode cfg)
    (hdr : RivrPktHdr) (payload : List UInt8) (nowMs : UInt32) (data : List UInt8) : Prop
  /-- A flood, and a frame of a type that it does not know, go out as they are. -/
  | unchanged (hflood : hdr.KnownType → hdr.dstId = 0) (hsent : P data hdr payload)
  /-- A frame with a route goes to the next hop. -/
  | unicast (hknown : hdr.KnownType) (hdst : hdr.dstId ≠ 0) (route : RivrRoute)
      (hroute : node.chosenRoute hdr.dstId nowMs = some route)
      (hsent : P data (unicastHdr hdr route.nextHopId) payload)
  /-- A frame without one waits, and a route request of the node goes out. -/
  | routeReq (hknown : hdr.KnownType) (hdst : hdr.dstId ≠ 0)
      (hroute : node.chosenRoute hdr.dstId nowMs = none) (seq : UInt16)
      (hsent : P data (controlHdr pktRouteReq node.myNodeId hdr.dstId seq seq 0) [])

/-- What the sink pushes for a frame of the encoder. -/
def SinkRewrites (P : List UInt8 → RivrPktHdr → List UInt8 → Prop) : Prop :=
  ∀ (cfg : BuildConfig) (node : RadioNode cfg) (value : List UInt8) (hdr : RivrPktHdr)
    (payload : List UInt8) (nowMs : UInt32), Encoded value hdr payload →
    ∀ req ∈ (rfTxSinkCb node value nowMs).txQueue.items,
      req ∈ node.txQueue.items ∨ SinkSends P node hdr payload nowMs req.data

/-- What the sink pushes in place of a unicast frame that the queue has refused. -/
def FloodRewrites (P : List UInt8 → RivrPktHdr → List UInt8 → Prop) : Prop :=
  ∀ (cfg : BuildConfig) (node : RadioNode cfg) (hdr : RivrPktHdr) (payload data : List UInt8),
    payload.length ≤ rivrPktMaxPayload.toNat →
    ∀ req ∈ (node.fallbackFlood hdr payload data).2.txQueue.items,
      req ∈ node.txQueue.items ∨ ∃ pktId, P req.data (fallbackHdr hdr pktId) payload

/-- The sink takes a whole frame of the encoder. -/
theorem Encoded.sinkData {value payload : List UInt8} {hdr : RivrPktHdr}
    (h : Encoded value hdr payload) : sinkData value = value := by
  obtain ⟨rfl, hlen⟩ := h.eq_wireFrame
  refine List.take_of_length_le ?_
  rw [wireFrame_length]
  exact Nat.add_le_add_left hlen 25

theorem sinkRewrites_reframed : SinkRewrites Reframed := by
  intro cfg node value hdr payload nowMs henc req hreq
  have hdata := henc.sinkData
  obtain ⟨hwire, hlen⟩ := henc.eq_wireFrame
  by_cases hknown : hdr.KnownType
  · have hframe : IsFrame (sinkData value) (hdr.onWire (UInt8.ofNat payload.length)) payload := by
      rw [hdata]
      exact henc.isFrame hknown
    by_cases hdst : hdr.dstId = 0
    · obtain ⟨ctrlSeq, fwdBudget, hpush⟩ := pushOriginated_eq node
        (hdr.onWire (UInt8.ofNat payload.length)) ((payloadPtr payload).getD []) (sinkData value)
      rw [rfTxSinkCb_flood hframe.decode hdst, hpush] at hreq
      refine (mem_rbTryPush hreq).imp_right fun heq => .unchanged (fun _ => hdst) ?_
      rw [heq, hdata, hwire]
      exact reframed_wireFrame hdr hlen
    · rcases hroute : node.chosenRoute hdr.dstId nowMs with _ | route
      · rw [rfTxSinkCb_miss hframe.decode hdst hroute, RadioNode.awaitRoute,
          routingBuildRouteReq_eq] at hreq
        refine (mem_rbTryPush hreq).imp_right fun heq => .routeReq hknown hdst hroute node.bumpSeq.seq16 ?_
        rw [heq]
        exact reframed_wireFrame _ (Nat.zero_le _)
      · obtain ⟨toaUs, ctrlSeq, fwdBudget, heq⟩ := rfTxSinkCb_unicast_eq hframe hdst hroute
        rw [heq] at hreq
        refine (mem_rbTryPush hreq).imp_right fun heq => .unicast hknown hdst route hroute ?_
        rw [heq]
        exact reframed_wireFrame (unicastHdr hdr route.nextHopId) hlen
  · -- a frame of an unknown type is pushed as it is
    have hdec : protocolDecode (sinkData value) (UInt8.ofNat (sinkData value).length) = none := by
      rw [hdata, hwire]
      exact protocolDecode_wireFrame_of_not_known hknown _
    rw [rfTxSinkCb_raw hdec] at hreq
    refine (mem_rbTryPush hreq).imp_right fun heq => .unchanged (absurd · hknown) ?_
    rw [heq, hdata, hwire]
    exact reframed_wireFrame hdr hlen

theorem floodRewrites_reframed : FloodRewrites Reframed := by
  intro cfg node hdr payload data hlen req hreq
  have hcap : 25 + payload.length ≤ rfMaxPayloadLen.toNat := Nat.add_le_add_left hlen 25
  rw [RadioNode.fallbackFlood, protocolEncode_eq_some (.inl rfl) hlen hcap] at hreq
  refine (mem_rbTryPush hreq).imp_right fun heq => ⟨node.bumpSeq.seq16, ?_⟩
  rw [heq]
  exact reframed_wireFrame _ hlen

/-! ### All of them -/

/-- What the retry table, the pending queue and the sink push for frames of the encoder. -/
structure Rewrites (P : List UInt8 → RivrPktHdr → List UInt8 → Prop) : Prop where
  retry : RetryRewrites P
  pending : PendingRewrites P
  sink : SinkRewrites P
  flood : FloodRewrites P

/-- **Frames that are sent in a changed form are frames.** Whatever is pushed is the frame of the
encoder for the header that was stored, with the fields of the path changed, and for its payload. -/
theorem rewrites_reframed : Rewrites Reframed where
  retry := retryRewrites_reframed
  pending := pendingRewrites_reframed
  sink := sinkRewrites_reframed
  flood := floodRewrites_reframed

/-- A flood of type 0, which the encoder writes. -/
def untypedHdr : RivrPktHdr := { sampleChatHdr with pktType := 0, dstId := 0 }

/-- The sink sends the frame of type 0 as it is, and no node accepts it. -/
theorem not_rewrites_accepted :
    protocolEncode untypedHdr (some [72, 105]) 2 (List.replicate 255 0) 255 =
        some (wireFrame untypedHdr [72, 105]) ∧
      (rfTxSinkCb freshClient (wireFrame untypedHdr [72, 105]) 0).txQueue.items.map
        RfTxRequest.data = [wireFrame untypedHdr [72, 105]] ∧
      protocolDecode (wireFrame untypedHdr [72, 105]) 27 = none ∧ ¬Rewrites Accepted := by
  have henc : protocolEncode untypedHdr (some [72, 105]) 2 (List.replicate 255 0) 255 =
      some (wireFrame untypedHdr [72, 105]) := by decide +kernel
  have hsent : (rfTxSinkCb freshClient (wireFrame untypedHdr [72, 105]) 0).txQueue.items.map
      RfTxRequest.data = [wireFrame untypedHdr [72, 105]] := by decide +kernel
  have hdec : protocolDecode (wireFrame untypedHdr [72, 105]) 27 = none := by decide +kernel
  refine ⟨henc, hsent, hdec, fun h => ?_⟩
  obtain ⟨req, hreq, hdata⟩ : ∃ req ∈ (rfTxSinkCb freshClient (wireFrame untypedHdr [72, 105])
      0).txQueue.items, req.data = wireFrame untypedHdr [72, 105] :=
    List.mem_map.mp (hsent.symm ▸ List.mem_cons_self)
  have hencoded : Encoded (wireFrame untypedHdr [72, 105]) untypedHdr [72, 105] :=
    (reframed_wireFrame _ (by decide)).encoded
  rcases h.sink _ freshClient _ _ _ 0 hencoded req hreq with hold | hsends
  · exact nomatch hold
  · have hunknown : ¬untypedHdr.KnownType := by decide
    rcases hsends with ⟨-, haccepted⟩ | ⟨hknown, -⟩ | ⟨hknown, -⟩
    · rw [Accepted, hdata] at haccepted
      exact nomatch haccepted.symm.trans hdec
    · exact hunknown hknown
    · exact hunknown hknown

end Rivr
