import Rivr.Firmware.FrameFlow
import Rivr.Firmware.RouteLoops

/-!
# Acknowledgements in a mesh

A node acknowledges what asks for it and is addressed to it, under the source and the packet id of
the frame; an entry of a retry table is cleared by an acknowledgement under its own two ids.
`AckSafe` says of an action that it uses these ids as they are meant: what is registered is the
node's own and has one hop to go, no acknowledgement is forged, and an id that is taken is not in
use. `AckInv` is what such actions keep: every frame that asks belongs to the entry that its
acknowledgement would clear, and every acknowledgement on its way was asked for.
-/

namespace Rivr

open SlotTable

variable {cfg : BuildConfig} {ι : Type*} {build : ι → BuildConfig}

/-! ### Safe actions -/

/-- The header asks a node for an acknowledgement. -/
def RivrPktHdr.AsksAck (hdr : RivrPktHdr) : Prop :=
  hdr.flags &&& pktFlagAckReq ≠ 0 ∧ hdr.dstId ≠ 0

instance RivrPktHdr.decidableAsksAck (hdr : RivrPktHdr) : Decidable hdr.AsksAck :=
  inferInstanceAs (Decidable (_ ∧ _))

/-- The bytes are a frame that asks for an acknowledgement under the ids. -/
def AsksUnder (data : List UInt8) (srcId : UInt32) (pktId : UInt16) : Prop :=
  ∃ x ∈ protocolDecode data (UInt8.ofNat data.length),
    x.1.AsksAck ∧ x.1.srcId = srcId ∧ x.1.pktId = pktId

instance AsksUnder.decidable (data : List UInt8) (srcId : UInt32) (pktId : UInt16) :
    Decidable (AsksUnder data srcId pktId) := inferInstanceAs (Decidable (∃ x ∈ _, _))

/-- The node holds a frame that asks for an acknowledgement under the ids, or an entry that waits
for one. -/
def RadioNode.Uses (node : RadioNode cfg) (srcId : UInt32) (pktId : UInt16) : Prop :=
  (∃ req ∈ node.txQueue.items, AsksUnder req.data srcId pktId) ∨
  (∃ e ∈ node.pendingQueue.entries, e.valid = true ∧ AsksUnder e.data srcId pktId) ∨
  ∃ e ∈ node.retryTable.entries, e.valid = true ∧ node.myNodeId = srcId ∧ e.curPktId = pktId

instance RadioNode.decidableUses (node : RadioNode cfg) (srcId : UInt32) (pktId : UInt16) :
    Decidable (node.Uses srcId pktId) := inferInstanceAs (Decidable (_ ∨ _))

/-- The ids are in use, in a node or on the air. -/
def Mesh.Uses (s : Mesh build) (srcId : UInt32) (pktId : UInt16) : Prop :=
  (∃ data ∈ s.air, AsksUnder data srcId pktId) ∨ ∃ i, (s.node i).Uses srcId pktId

instance Mesh.decidableUses [Fintype ι] (s : Mesh build) (srcId : UInt32) (pktId : UInt16) :
    Decidable (s.Uses srcId pktId) := inferInstanceAs (Decidable (_ ∨ _))

/-- A node has received a frame with the ids that asked it for an acknowledgement. -/
def Mesh.Acked (s : Mesh build) (srcId : UInt32) (pktId : UInt16) : Prop :=
  ∃ j, ∃ r ∈ s.received j, r.hdr.srcId = srcId ∧ r.hdr.pktId = pktId ∧ r.hdr.AsksAck ∧
    r.hdr.dstId = (s.node j).myNodeId

instance Mesh.decidableAcked [Fintype ι] (s : Mesh build) (srcId : UInt32) (pktId : UInt16) :
    Decidable (s.Acked srcId pktId) := inferInstanceAs (Decidable (∃ _, ∃ r ∈ _, _))

/-- The sink registers a frame with the header, if it has a route. -/
def RadioNode.Registers (node : RadioNode cfg) (pkt : RivrPktHdr) : Prop :=
  needsAck pkt.pktType = true ∧ ∃ e ∈ node.retryTable.entries, e.valid = false

instance RadioNode.decidableRegisters (node : RadioNode cfg) (pkt : RivrPktHdr) :
    Decidable (node.Registers pkt) := inferInstanceAs (Decidable (_ ∧ _))

/-- A frame with a destination that goes to the sink. If it is registered, then the node is its
source and has a route with one hop; and if it will ask for an acknowledgement, then under new
ids. -/
def Mesh.UnicastSafe (s : Mesh build) (node : RadioNode cfg) (pkt : RivrPktHdr)
    (nowMs : UInt32) : Prop :=
  (node.chosenRoute pkt.dstId nowMs = none → pkt.AsksAck → ¬s.Uses pkt.srcId pkt.pktId) ∧
    ∀ route ∈ node.chosenRoute pkt.dstId nowMs,
      (node.Registers pkt → pkt.srcId = node.myNodeId ∧ route.nextHopId = pkt.dstId) ∧
        ((unicastHdr pkt route.nextHopId).AsksAck → ¬s.Uses pkt.srcId pkt.pktId)

instance Mesh.decidableUnicastSafe [Fintype ι] (s : Mesh build) (node : RadioNode cfg)
    (pkt : RivrPktHdr) (nowMs : UInt32) : Decidable (s.UnicastSafe node pkt nowMs) :=
  inferInstanceAs (Decidable (_ ∧ ∀ route ∈ _, _))

/-- A value that goes to the sink. It forges no acknowledgement. -/
def Mesh.SinkSafe (s : Mesh build) (node : RadioNode cfg) (value : List UInt8)
    (nowMs : UInt32) : Prop :=
  ∀ x ∈ protocolDecode (sinkData value) (UInt8.ofNat (sinkData value).length),
    (x.1.pktType = pktAck → ∀ key ∈ parseAck x.1 x.2, s.Acked key.1 key.2) ∧
      (x.1.dstId ≠ 0 → s.UnicastSafe node x.1 nowMs)

instance Mesh.decidableSinkSafe [Fintype ι] (s : Mesh build) (node : RadioNode cfg)
    (value : List UInt8) (nowMs : UInt32) : Decidable (s.SinkSafe node value nowMs) :=
  inferInstanceAs (Decidable (∀ x ∈ _, _))

/-- The ids that a tick of the node takes are new, and taken once. -/
def Mesh.TickSafe (s : Mesh build) (node : RadioNode cfg) (nowMs : UInt32) : Prop :=
  let ids := resentIds nowMs node.retryTable.entries
    ⟨node.txQueue, node.ctrlSeq, node.retryTable.count, 0⟩
  ids.Nodup ∧ ∀ pktId ∈ ids, ¬s.Uses node.myNodeId pktId

instance Mesh.decidableTickSafe [Fintype ι] (s : Mesh build) (node : RadioNode cfg)
    (nowMs : UInt32) : Decidable (s.TickSafe node nowMs) := inferInstanceAs (Decidable (_ ∧ _))

/-- The actions that keep the law. -/
def AckSafe (s : Mesh build) : MeshAction ι → Prop
  | .originate i value => s.SinkSafe (s.node i) value (s.clock i)
  | .bleFrame i data allowed =>
    ∀ x ∈ protocolDecode data (UInt8.ofNat data.length), x.1.srcId ≠ 0 → allowed = true →
      ∀ normalized ∈ protocolEncode (normalizedHdr ((s.node i).numbered x.1) x.1) x.2 x.1.payloadLen
        [] rfMaxPayloadLen, s.SinkSafe ((s.node i).numbered x.1) normalized (s.clock i)
  | .retryTick i => s.TickSafe (s.node i) (s.clock i)
  | _ => True

instance AckSafe.decidable [Fintype ι] (s : Mesh build) : ∀ a, Decidable (AckSafe s a)
  | .originate .. => inferInstanceAs (Decidable (Mesh.SinkSafe ..))
  | .bleFrame .. => inferInstanceAs (Decidable (∀ x ∈ _, _))
  | .retryTick .. => inferInstanceAs (Decidable (Mesh.TickSafe ..))
  | .transmit _ => .isTrue trivial
  | .receive .. => .isTrue trivial
  | .wait .. => .isTrue trivial

/-! ### Frames that ask, and entries -/

theorem asksUnder_of_isFrame {data payload : List UInt8} {hdr : RivrPktHdr}
    (h : IsFrame data hdr payload) (hasks : hdr.AsksAck) : AsksUnder data hdr.srcId hdr.pktId :=
  ⟨_, h.decode, hasks, rfl, rfl⟩

/-- The copy of the sink asks. -/
theorem flags_or_ackReq (flags : UInt8) : (flags ||| pktFlagAckReq) &&& pktFlagAckReq ≠ 0 := by
  have hbits : ∀ flags : BitVec 8, (flags ||| 1) &&& 1 = 1 := by decide
  have hset : (flags ||| pktFlagAckReq) &&& pktFlagAckReq = 1 :=
    UInt8.toBitVec_inj.mp (hbits flags.toBitVec)
  rw [hset]
  decide

/-- A relayed copy asks if the frame does. -/
theorem flags_or_relay (flags : UInt8) :
    (flags ||| pktFlagRelay) &&& pktFlagAckReq = flags &&& pktFlagAckReq := by
  have hbits : ∀ flags : BitVec 8, (flags ||| 2) &&& 1 = flags &&& 1 := by decide
  exact UInt8.toBitVec_inj.mp (hbits flags.toBitVec)

theorem parseAck_congr {hdr hdr' : RivrPktHdr} (h : hdr'.payloadLen = hdr.payloadLen)
    (pl : Option (List UInt8)) : parseAck hdr' pl = parseAck hdr pl := by
  rw [parseAck, parseAck, h]

/-- A frame of a header and a payload has no others. -/
theorem IsFrame.of_wireFrame {hdr hdr' : RivrPktHdr} {payload payload' : List UInt8}
    (h : IsFrame (wireFrame hdr payload) hdr' payload')
    (htype : 1 ≤ hdr.pktType ∧ hdr.pktType ≤ pktMetrics) (hlen : payload.length ≤ 230) :
    hdr' = hdr.onWire (UInt8.ofNat payload.length) ∧ payload' = payload :=
  h.unique (isFrame_wireFrame hdr htype hlen)

/-- The entry holds the frame of the header and the payload, whose destination and packet id it
has. -/
structure RetryEntry.Holds (e : RetryEntry) (hdr : RivrPktHdr) (payload : List UInt8) : Prop where
  data : e.data = wireFrame hdr payload
  type : 1 ≤ hdr.pktType ∧ hdr.pktType ≤ pktMetrics
  length_le : payload.length ≤ 230
  pktId : hdr.pktId = e.curPktId
  dstId : hdr.dstId = e.dstId

theorem RetryEntry.Holds.isFrame {e : RetryEntry} {hdr : RivrPktHdr} {payload : List UInt8}
    (h : e.Holds hdr payload) :
    IsFrame e.data (hdr.onWire (UInt8.ofNat payload.length)) payload := by
  rw [h.data]
  exact isFrame_wireFrame hdr h.type h.length_le

/-- A slot that is sent again holds the frame with the new id. -/
theorem RetryEntry.Holds.resend {e : RetryEntry} {hdr : RivrPktHdr} {payload : List UInt8}
    (h : e.Holds hdr payload) (newPktId : UInt16) (nowMs : UInt32) :
    (e.resend newPktId nowMs).Holds { hdr with pktId := newPktId } payload := by
  refine ⟨?_, h.type, h.length_le, rfl, h.dstId⟩
  rw [RetryEntry.resend, h.data]
  exact patchPktIdAndCrc_wireFrame h.length_le hdr newPktId

/-- What a node should register: a frame of its own that is no acknowledgement, under its own
id. -/
structure RetryEntry.Owned (e : RetryEntry) (myNodeId : UInt32) : Prop where
  ackSrcId : e.ackSrcId = myNodeId
  frame : ∃ hdr payload, e.Holds hdr payload ∧ hdr.srcId = myNodeId ∧ hdr.pktType ≠ pktAck

theorem RetryEntry.Owned.resend {e : RetryEntry} {myNodeId : UInt32} (h : e.Owned myNodeId)
    (newPktId : UInt16) (nowMs : UInt32) : (e.resend newPktId nowMs).Owned myNodeId := by
  obtain ⟨hdr, payload, hholds, hsrc, htype⟩ := h.frame
  exact ⟨h.ackSrcId, _, payload, hholds.resend newPktId nowMs, hsrc, htype⟩

/-- The frame of the header and the payload is the message of the entry, on its way to the
destination. -/
structure RetryEntry.Sends (e : RetryEntry) (hdr : RivrPktHdr) (payload : List UInt8) : Prop where
  dstId : hdr.dstId = e.dstId
  copy : ∃ hdr₀, IsFrame e.data hdr₀ payload ∧ hdr₀.pktType = hdr.pktType ∧
    hdr₀.srcId = hdr.srcId ∧ hdr₀.seq = hdr.seq

/-- An entry sends its own frame. -/
theorem RetryEntry.Holds.sends {e : RetryEntry} {hdr hdr' : RivrPktHdr}
    {payload payload' : List UInt8} (h : e.Holds hdr payload) (hframe : IsFrame e.data hdr' payload') :
    hdr' = hdr.onWire (UInt8.ofNat payload.length) ∧ e.Sends hdr' payload' := by
  obtain ⟨rfl, rfl⟩ := hframe.unique h.isFrame
  exact ⟨rfl, h.dstId, _, hframe, rfl, rfl, rfl⟩

/-! ### The invariant -/

/-- The frame is on the air or in a transmit queue. -/
def Mesh.Carries (s : Mesh build) (data : List UInt8) : Prop :=
  data ∈ s.air ∨ ∃ i, ∃ req ∈ (s.node i).txQueue.items, req.data = data

/-- The frame waits for a route. -/
def Mesh.Keeps (s : Mesh build) (data : List UInt8) : Prop :=
  ∃ i, ∃ e ∈ (s.node i).pendingQueue.entries, e.valid = true ∧ e.data = data

/-- The entry waits for an acknowledgement under the ids. -/
def Mesh.AwaitsAck (s : Mesh build) (srcId : UInt32) (pktId : UInt16) (e : RetryEntry) : Prop :=
  ∃ i, e ∈ (s.node i).retryTable.entries ∧ e.valid = true ∧ (s.node i).myNodeId = srcId ∧
    e.curPktId = pktId

theorem Mesh.AwaitsAck.uses {s : Mesh build} {srcId : UInt32} {pktId : UInt16} {e : RetryEntry}
    (h : s.AwaitsAck srcId pktId e) : s.Uses srcId pktId := by
  obtain ⟨i, he, hvalid, hid, hpkt⟩ := h
  exact .inr ⟨i, .inr (.inr ⟨e, he, hvalid, hid, hpkt⟩)⟩

/-- If the bytes are an acknowledgement, then one that was asked for. -/
def Mesh.AckTrue (s : Mesh build) (data : List UInt8) : Prop :=
  ∀ hdr payload, IsFrame data hdr payload → hdr.pktType = pktAck →
    ∀ key ∈ parseAck hdr (payloadPtr payload), s.Acked key.1 key.2

/-- If the bytes are a frame that asks for an acknowledgement, then it is the message of every entry
that would be cleared by one. -/
def Mesh.AskTrue (s : Mesh build) (data : List UInt8) : Prop :=
  ∀ hdr payload, IsFrame data hdr payload → hdr.AsksAck →
    ∀ e, s.AwaitsAck hdr.srcId hdr.pktId e → e.Sends hdr payload

/-- A frame that waits for a route has a destination, and if it asks for an acknowledgement, then
no entry waits for that. -/
def Mesh.AskNew (s : Mesh build) (data : List UInt8) : Prop :=
  ∀ hdr payload, IsFrame data hdr payload → hdr.dstId ≠ 0 ∧
    (hdr.AsksAck → ∀ e, ¬s.AwaitsAck hdr.srcId hdr.pktId e)

/-- Entries are of their nodes' own messages, each under its own packet id; frames that ask belong
to the entries they would clear, and acknowledgements were asked for. -/
structure AckInv (s : Mesh build) : Prop where
  id_injective : Function.Injective fun i => (s.node i).myNodeId
  id_ne_zero : ∀ i, (s.node i).myNodeId ≠ 0
  owned : ∀ i, ∀ e ∈ (s.node i).retryTable.entries, e.valid = true → e.Owned (s.node i).myNodeId
  oneEach : ∀ i, OneEach (·.valid = true) RetryEntry.curPktId (s.node i).retryTable.entries
  carried : ∀ data, s.Carries data → s.AckTrue data ∧ s.AskTrue data
  kept : ∀ data, s.Keeps data → s.AckTrue data ∧ s.AskNew data
  received : ∀ j, ∀ r ∈ s.received j, ∃ data ∈ s.air, ∃ payload,
    IsFrame data r.hdr payload ∧ r.payload = payloadPtr payload

theorem Mesh.Booted.retry_valid {s : Mesh build} (h : s.Booted) (i : ι) :
    ∀ e ∈ (s.node i).retryTable.entries, e.valid = false := by
  intro e he
  obtain ⟨role, id, netId, hinit⟩ := h.init i
  rw [hinit] at he
  rw [List.eq_of_mem_replicate he]
  rfl

/-- Nothing is on the air or in a transmit queue. -/
theorem Mesh.Booted.not_carries {s : Mesh build} (h : s.Booted) (data : List UInt8) :
    ¬s.Carries data := by
  rintro (hair | ⟨i, req, hreq, -⟩)
  · rw [h.air] at hair
    exact nomatch hair
  · obtain ⟨role, id, netId, hinit⟩ := h.init i
    rw [hinit] at hreq
    exact nomatch hreq

/-- Nothing waits for a route. -/
theorem Mesh.Booted.not_keeps {s : Mesh build} (h : s.Booted) (data : List UInt8) :
    ¬s.Keeps data := by
  rintro ⟨i, e, he, hvalid, -⟩
  obtain ⟨role, id, netId, hinit⟩ := h.init i
  rw [hinit] at he
  rw [List.eq_of_mem_replicate he] at hvalid
  exact nomatch hvalid

/-- Nodes that have just been switched on keep nothing. -/
theorem ackInv_booted {s : Mesh build} (h : s.Booted) : AckInv s := by
  constructor
  · exact h.id_injective
  · exact h.id_ne_zero
  · intro i e he hvalid
    rw [h.retry_valid i e he] at hvalid
    exact nomatch hvalid
  · intro i k l x y hx _ hvalid
    rw [h.retry_valid i x (List.mem_of_getElem? hx)] at hvalid
    exact nomatch hvalid
  · exact fun data hdata => absurd hdata (h.not_carries data)
  · exact fun data hdata => absurd hdata (h.not_keeps data)
  · intro j r hr
    rw [h.received j] at hr
    exact nomatch hr

/-- What was true of an acknowledgement stays so. -/
theorem Mesh.AckTrue.mono {s s' : Mesh build} {data : List UInt8} (h : s.AckTrue data)
    (hacked : ∀ srcId pktId, s.Acked srcId pktId → s'.Acked srcId pktId) : s'.AckTrue data :=
  fun hdr payload hframe htype key hkey => hacked _ _ (h hdr payload hframe htype key hkey)

/-- Of what was on its way, nothing asks for what a new entry waits for. -/
theorem uses_of_carries {s : Mesh build} {data payload : List UInt8} {hdr : RivrPktHdr}
    (h : s.Carries data) (hframe : IsFrame data hdr payload) (hasks : hdr.AsksAck) :
    s.Uses hdr.srcId hdr.pktId := by
  have hunder := asksUnder_of_isFrame hframe hasks
  rcases h with hair | ⟨i, req, hreq, rfl⟩
  · exact .inl ⟨data, hair, hunder⟩
  · exact .inr ⟨i, .inl ⟨req, hreq, hunder⟩⟩

theorem uses_of_keeps {s : Mesh build} {data payload : List UInt8} {hdr : RivrPktHdr}
    (h : s.Keeps data) (hframe : IsFrame data hdr payload) (hasks : hdr.AsksAck) :
    s.Uses hdr.srcId hdr.pktId := by
  obtain ⟨i, e, he, hvalid, rfl⟩ := h
  exact .inr ⟨i, .inr (.inl ⟨e, he, hvalid, asksUnder_of_isFrame hframe hasks⟩)⟩

/-! ### Frames that are pushed -/

/-- A frame that is encoded again is an acknowledgement of the same frame, or none. -/
theorem Mesh.AckTrue.wireFrame {s : Mesh build} {data payload : List UInt8} {hdr hdr' : RivrPktHdr}
    (h : s.AckTrue data) (hframe : IsFrame data hdr payload) (htype : hdr'.pktType = hdr.pktType) :
    s.AckTrue (wireFrame hdr' payload) := by
  intro hdr'' payload'' hframe'' hack key hkey
  obtain ⟨rfl, rfl⟩ := hframe''.of_wireFrame (htype ▸ hframe.type) hframe.length_le
  refine h hdr payload'' hframe (htype.symm.trans hack) key ?_
  rwa [parseAck_congr hframe.payloadLen.symm] at hkey

/-- A frame of another type is no acknowledgement. -/
theorem ackTrue_of_ne (s : Mesh build) {hdr : RivrPktHdr} {payload : List UInt8}
    (htype : 1 ≤ hdr.pktType ∧ hdr.pktType ≤ pktMetrics) (hlen : payload.length ≤ 230)
    (hne : hdr.pktType ≠ pktAck) : s.AckTrue (wireFrame hdr payload) := by
  intro hdr' payload' hframe hack
  obtain ⟨rfl, rfl⟩ := hframe.of_wireFrame htype hlen
  exact absurd hack hne

/-- A frame that does not ask. -/
theorem askTrue_of_not_asks (s : Mesh build) {hdr : RivrPktHdr} {payload : List UInt8}
    (htype : 1 ≤ hdr.pktType ∧ hdr.pktType ≤ pktMetrics) (hlen : payload.length ≤ 230)
    (hasks : ¬hdr.AsksAck) : s.AskTrue (wireFrame hdr payload) := by
  intro hdr' payload' hframe hasks'
  obtain ⟨rfl, rfl⟩ := hframe.of_wireFrame htype hlen
  exact absurd hasks' hasks

theorem not_asksAck_controlHdr (pktType : UInt8) (myId dstId : UInt32) (seq pktId : UInt16)
    (len : UInt8) : ¬(controlHdr pktType myId dstId seq pktId len).AsksAck :=
  fun hasks => hasks.1 (by decide : (0 : UInt8) &&& pktFlagAckReq = 0)

/-- What the sink is told of the frame it gets. -/
theorem Mesh.SinkSafe.of_isFrame {s : Mesh build} {node : RadioNode cfg} {value payload : List UInt8}
    {pkt : RivrPktHdr} {nowMs : UInt32} (h : s.SinkSafe node value nowMs)
    (hframe : IsFrame (sinkData value) pkt payload) :
    s.AckTrue (sinkData value) ∧ (pkt.dstId ≠ 0 → s.UnicastSafe node pkt nowMs) := by
  obtain ⟨hack, hsafe⟩ := h _ hframe.decode
  refine ⟨fun hdr payload' hframe' htype key hkey => ?_, hsafe⟩
  obtain ⟨rfl, rfl⟩ := hframe'.unique hframe
  exact hack htype key hkey

/-- The unicast copy asks if its type is acknowledged. -/
theorem asksAck_unicastHdr {pkt : RivrPktHdr} {nextHop : UInt32} (hack : needsAck pkt.pktType = true)
    (hhop : nextHop ≠ 0) : (unicastHdr pkt nextHop).AsksAck := by
  refine ⟨?_, hhop⟩
  rw [unicastHdr, if_pos hack]
  exact flags_or_ackReq pkt.flags

/-- What the sink registers, it registers in a free slot under new ids. -/
theorem SinkRegisters.cases {s : Mesh build} {start : RadioNode cfg} {value : List UInt8}
    {nowMs : UInt32} {rt : RetryTable cfg.retryTableSize}
    (h : SinkRegisters start value nowMs rt) (hsafe : s.SinkSafe start value nowMs) :
    rt = start.retryTable ∨ ∃ k e, k < start.retryTable.entries.length ∧
      rt.entries = start.retryTable.entries.set k e ∧ e.valid = true ∧
      e.Owned start.myNodeId ∧ ¬s.Uses start.myNodeId e.curPktId ∧
      ∃ pkt payload route, IsFrame (sinkData value) pkt payload ∧ pkt.dstId ≠ 0 ∧
        start.chosenRoute pkt.dstId nowMs = some route ∧
        e.data = wireFrame (unicastHdr pkt route.nextHopId) payload := by
  obtain ⟨pkt, payload, route, toaUs, hframe, hdst, hroute, hack, rfl⟩ := h
  refine (retryTableEnqueue_cases start.retryTable start.myNodeId pkt.pktId pkt.dstId
    route.nextHopId (wireFrame (unicastHdr pkt route.nextHopId) payload) toaUs nowMs).imp_right ?_
  rintro ⟨k, e, he, hfree, hentries, -⟩
  -- the table had a free slot, so the frame is the node's own and has one hop to go
  obtain ⟨hown, hnew⟩ := ((hsafe.of_isFrame hframe).2 hdst).2 route hroute
  obtain ⟨hsrc, hhop⟩ := hown ⟨hack, e, List.mem_of_getElem? he, hfree⟩
  refine ⟨k, _, (List.getElem?_eq_some_iff.mp he).1, hentries, rfl, ⟨rfl, ?_⟩, ?_, ?_⟩
  · refine ⟨unicastHdr pkt route.nextHopId, payload, ?_, hsrc, fun htype => ?_⟩
    · exact ⟨rfl, hframe.type, hframe.length_le, rfl, hhop⟩
    · have hno : needsAck pktAck = false := rfl
      rw [unicastHdr] at htype
      rw [htype, hno] at hack
      cases hack
  · rw [← hsrc]
    exact hnew (asksAck_unicastHdr hack (hhop.symm ▸ hdst))
  · exact ⟨pkt, payload, route, hframe, hdst, hroute, rfl⟩

section Push

variable {s s' : Mesh build} {i : ι} {start : RadioNode (build i)} {value : List UInt8}
  {nowMs : UInt32} {frame : RfRxFrame} {hdr : RivrPktHdr} {pl : Option (List UInt8)}

/-- A new entry after the sink is the one it registered. -/
theorem sinkRegisters_of_new {e : RetryEntry}
    (hretry : (rfTxSinkCb start value nowMs).retryTable = start.retryTable ∨
      SinkRegisters start value nowMs (rfTxSinkCb start value nowMs).retryTable)
    (hsafe : s.SinkSafe start value nowMs)
    (he : e ∈ (rfTxSinkCb start value nowMs).retryTable.entries)
    (hnew : e ∉ start.retryTable.entries) :
    e.Owned start.myNodeId ∧ ¬s.Uses start.myNodeId e.curPktId ∧
      ∃ pkt payload route, IsFrame (sinkData value) pkt payload ∧ pkt.dstId ≠ 0 ∧
        start.chosenRoute pkt.dstId nowMs = some route ∧
        e.data = wireFrame (unicastHdr pkt route.nextHopId) payload := by
  rcases hretry with hsame | hregisters
  · exact absurd (hsame ▸ he) hnew
  · rcases hregisters.cases hsafe with hsame | ⟨k, e', -, hset, -, howned, hunused, hframe⟩
    · exact absurd (hsame ▸ he) hnew
    · rw [hset] at he
      obtain rfl := (List.mem_or_eq_of_mem_set he).resolve_left hnew
      exact ⟨howned, hunused, hframe⟩

/-- What the sink pushes. -/
theorem SinkPush.kept {data : List UInt8} (hpush : SinkPush start value nowMs data)
    (hsafe : s.SinkSafe start value nowMs)
    (hretry : (rfTxSinkCb start value nowMs).retryTable = start.retryTable ∨
      SinkRegisters start value nowMs (rfTxSinkCb start value nowMs).retryTable)
    (hacked : ∀ srcId pktId, s.Acked srcId pktId → s'.Acked srcId pktId)
    (hawaits : ∀ {srcId pktId e}, s'.AwaitsAck srcId pktId e → s.AwaitsAck srcId pktId e ∨
      (e ∈ (rfTxSinkCb start value nowMs).retryTable.entries ∧ e ∉ start.retryTable.entries)) :
    s'.AckTrue data ∧ s'.AskTrue data := by
  rcases hpush with hraw | ⟨hframe, hdst⟩ | ⟨dstId, seq, pktId⟩ | ⟨hframe, hdst, hroute⟩
  · exact ⟨fun hdr payload hframe => (nomatch hraw.symm.trans hframe.decode),
      fun hdr payload hframe => (nomatch hraw.symm.trans hframe.decode)⟩
  · -- a broadcast asks for no acknowledgement
    refine ⟨(hsafe.of_isFrame hframe).1.mono hacked, fun hdr payload hframe' hasks => ?_⟩
    obtain ⟨rfl, rfl⟩ := hframe'.unique hframe
    exact absurd hdst hasks.2
  · have htype : 1 ≤ pktRouteReq ∧ pktRouteReq ≤ pktMetrics := by decide
    exact ⟨ackTrue_of_ne s' htype (Nat.zero_le _) (by decide : pktRouteReq ≠ pktAck),
      askTrue_of_not_asks s' htype (Nat.zero_le _) (not_asksAck_controlHdr _ _ _ _ _ _)⟩
  · obtain ⟨hack, hunicast⟩ := hsafe.of_isFrame hframe
    refine ⟨(hack.mono hacked).wireFrame hframe rfl, fun hdr payload' hframe' hasks e he => ?_⟩
    obtain ⟨rfl, rfl⟩ := hframe'.of_wireFrame hframe.type hframe.length_le
    have hunused := ((hunicast hdst).2 _ hroute).2 hasks
    -- the packet id was unused, so an older entry cannot wait under it
    rcases hawaits he with hold | ⟨hmem, hnew⟩
    · exact absurd hold.uses hunused
    · -- the entry is the one that was just registered
      obtain ⟨howned, -, pkt', payload₁, route', hframe₁, -, hroute', hdata⟩ :=
        sinkRegisters_of_new hretry hsafe hmem hnew
      obtain ⟨rfl, rfl⟩ := hframe₁.unique hframe
      obtain rfl := Option.some.inj (hroute.symm.trans hroute')
      obtain ⟨hdr₀, payload₀, hholds, -⟩ := howned.frame
      rw [← hdata] at hframe'
      exact (hholds.sends hframe').2

/-- What a node pushes for a frame it received. -/
theorem RxPush.kept {data : List UInt8} (hpush : RxPush (s.node i) frame hdr pl data)
    (hi : AckInv s) (hair : frame.data ∈ s.air)
    (hids : (s'.node i).myNodeId = (s.node i).myNodeId) (hseen : ∃ r ∈ s'.received i, r.hdr = hdr)
    (hacked : ∀ srcId pktId, s.Acked srcId pktId → s'.Acked srcId pktId)
    (hawaits : ∀ {srcId pktId e}, s'.AwaitsAck srcId pktId e → s.AwaitsAck srcId pktId e) :
    s'.AckTrue data ∧ s'.AskTrue data := by
  rcases hpush with ⟨seq, pktId, hflag, hdst, -⟩ | ⟨rpl, seq, pktId⟩ | ⟨he, hvalid, hsent⟩ |
    ⟨ttl, -, hframe⟩
  · have htype : 1 ≤ pktAck ∧ pktAck ≤ pktMetrics := by decide
    have hlen : (ackBytes hdr.srcId hdr.pktId).length ≤ 230 := (by decide : 6 ≤ 230)
    refine ⟨fun hdr' payload hframe _ key hkey => ?_,
      askTrue_of_not_asks s' htype hlen (not_asksAck_controlHdr _ _ _ _ _ _)⟩
    obtain ⟨rfl, rfl⟩ := hframe.of_wireFrame htype hlen
    have hparsed : parseAck _ (payloadPtr (ackBytes hdr.srcId hdr.pktId)) = _ :=
      parseAck_bytes hdr.srcId hdr.pktId hframe.payloadLen
    obtain rfl := Option.some.inj (hparsed.symm.trans hkey)
    -- this is the frame that asked for it
    obtain ⟨r, hr, rfl⟩ := hseen
    refine ⟨i, r, hr, rfl, rfl, ⟨hflag, ?_⟩, ?_⟩
    · rw [hdst]
      exact hi.id_ne_zero i
    · rw [hids, hdst]
  · have htype : 1 ≤ pktRouteRpl ∧ pktRouteRpl ≤ pktMetrics := by decide
    have hlen : rpl.bytes.length ≤ 230 := (by decide : 9 ≤ 230)
    exact ⟨ackTrue_of_ne s' htype hlen (by decide : pktRouteRpl ≠ pktAck),
      askTrue_of_not_asks s' htype hlen (not_asksAck_controlHdr _ _ _ _ _ _)⟩
  · rename_i e nextHop req
    obtain ⟨hkeptAck, hkeptNew⟩ := hi.kept _ ⟨i, e, he, hvalid, rfl⟩
    obtain ⟨hdr₀, payload, hframe⟩ := isFrame_of_reencodeAsUnicastHop hsent
    rw [reencodeAsUnicastHop_of_isFrame hframe] at hsent
    rw [← Option.some.inj hsent]
    refine ⟨(hkeptAck.mono hacked).wireFrame hframe rfl, fun hdr' payload' hframe' hasks e' he' => ?_⟩
    obtain ⟨rfl, rfl⟩ := hframe'.of_wireFrame hframe.type hframe.length_le
    obtain ⟨hdst, hnew⟩ := hkeptNew hdr₀ payload' hframe
    exact absurd (hawaits he') (hnew ⟨hasks.1, hdst⟩ e')
  · obtain ⟨hackTrue, haskTrue⟩ := hi.carried _ (.inl hair)
    refine ⟨(hackTrue.mono hacked).wireFrame hframe rfl, fun hdr' payload' hframe' hasks e' he' => ?_⟩
    obtain ⟨rfl, rfl⟩ := hframe'.of_wireFrame hframe.type hframe.length_le
    -- the frame asked as its copy does
    have hasks₀ : hdr.AsksAck := by
      refine ⟨?_, hasks.2⟩
      rw [← flags_or_relay]
      exact hasks.1
    obtain ⟨hdst, hcopy⟩ := haskTrue hdr payload' hframe hasks₀ e' (hawaits he')
    exact ⟨hdst, hcopy⟩

end Push

/-! ### One step -/

/-- What a node may become, in the mesh after the step. -/
structure NodeKept (s s' : Mesh build) (i : ι) (node : RadioNode (build i)) : Prop where
  id : node.myNodeId = (s.node i).myNodeId
  entries : ∀ e ∈ node.retryTable.entries, e.valid = true →
    e ∈ (s.node i).retryTable.entries ∨
      (e.Owned (s.node i).myNodeId ∧ ¬s.Uses (s.node i).myNodeId e.curPktId)
  oneEach : OneEach (·.valid = true) RetryEntry.curPktId node.retryTable.entries
  queue : ∀ req ∈ node.txQueue.items,
    req ∈ (s.node i).txQueue.items ∨ (s'.AckTrue req.data ∧ s'.AskTrue req.data)
  pending : ∀ e ∈ node.pendingQueue.entries, e.valid = true →
    e ∈ (s.node i).pendingQueue.entries ∨ (s'.AckTrue e.data ∧ s'.AskNew e.data)

/-- A node whose tables and whose waiting frames are as they were, and whose queue has no new
frames. -/
theorem AckInv.nodeKept_of_same {s s' : Mesh build} (hi : AckInv s) {i : ι}
    {node : RadioNode (build i)} (hid : node.myNodeId = (s.node i).myNodeId)
    (hrt : node.retryTable = (s.node i).retryTable)
    (hpq : node.pendingQueue = (s.node i).pendingQueue)
    (htx : ∀ req ∈ node.txQueue.items, req ∈ (s.node i).txQueue.items) :
    NodeKept s s' i node where
  id := hid
  entries _ he _ := .inl (hrt ▸ he)
  oneEach := hrt ▸ hi.oneEach i
  queue req hreq := .inl (htx req hreq)
  pending _ he _ := .inl (hpq ▸ he)

variable [DecidableEq ι]

/-- The step changes one node, puts frames of its queue on the air, and forgets no reception. -/
structure NodeStep (s s' : Mesh build) (i : ι) (node : RadioNode (build i)) : Prop where
  node_eq : s'.node = Function.update s.node i node
  air : ∀ data ∈ s'.air, data ∈ s.air ∨ ∃ req ∈ (s.node i).txQueue.items, req.data = data
  acked : ∀ srcId pktId, s.Acked srcId pktId → s'.Acked srcId pktId

section Step

variable {s s' : Mesh build} {i : ι} {node : RadioNode (build i)}

theorem NodeStep.self (h : NodeStep s s' i node) : s'.node i = node := by
  rw [h.node_eq, Function.update_self]

theorem NodeStep.of_ne (h : NodeStep s s' i node) {j : ι} (hj : j ≠ i) : s'.node j = s.node j := by
  rw [h.node_eq, Function.update_of_ne hj]

theorem NodeStep.id (h : NodeStep s s' i node) (hid : node.myNodeId = (s.node i).myNodeId) (j : ι) :
    (s'.node j).myNodeId = (s.node j).myNodeId := by
  by_cases hj : j = i
  · rw [hj, h.self, hid]
  · rw [h.of_ne hj]

/-- An entry that waits after the step waited before, or is one of the node's. -/
theorem NodeStep.awaitsAck (h : NodeStep s s' i node)
    (hid : node.myNodeId = (s.node i).myNodeId) {srcId : UInt32} {pktId : UInt16} {e : RetryEntry}
    (hawaits : s'.AwaitsAck srcId pktId e) :
    s.AwaitsAck srcId pktId e ∨ (e ∈ node.retryTable.entries ∧
      e ∉ (s.node i).retryTable.entries ∧ e.valid = true ∧ (s.node i).myNodeId = srcId ∧
      e.curPktId = pktId) := by
  obtain ⟨j, he, hvalid, hsrc, hpkt⟩ := hawaits
  by_cases hj : j = i
  · subst hj
    rw [h.self] at he hsrc
    by_cases hold : e ∈ (s.node j).retryTable.entries
    · exact .inl ⟨j, hold, hvalid, hid.symm.trans hsrc, hpkt⟩
    · exact .inr ⟨he, hold, hvalid, hid.symm.trans hsrc, hpkt⟩
  · rw [h.of_ne hj] at he hsrc
    exact .inl ⟨j, he, hvalid, hsrc, hpkt⟩

/-- **Step lemma.** -/
theorem AckInv.step (hi : AckInv s) (h : NodeStep s s' i node) (hkept : NodeKept s s' i node)
    (hreceived : ∀ j, ∀ r ∈ s'.received j, ∃ data ∈ s'.air, ∃ payload,
      IsFrame data r.hdr payload ∧ r.payload = payloadPtr payload) : AckInv s' := by
  have hids := h.id hkept.id
  -- new entries wait under new ids
  have hawaits : ∀ srcId pktId e, s'.AwaitsAck srcId pktId e → s.Uses srcId pktId →
      s.AwaitsAck srcId pktId e := by
    intro srcId pktId e hawaits huses
    rcases h.awaitsAck hkept.id hawaits with hold | ⟨he, hnew, hvalid, rfl, rfl⟩
    · exact hold
    · rcases hkept.entries e he hvalid with hold | ⟨-, hunused⟩
      · exact absurd hold hnew
      · exact absurd huses hunused
  constructor
  · intro j k hjk
    simp only [hids] at hjk
    exact hi.id_injective hjk
  · intro j
    rw [hids]
    exact hi.id_ne_zero j
  · intro j e he hvalid
    rw [hids]
    by_cases hj : j = i
    · subst hj
      rw [h.self] at he
      rcases hkept.entries e he hvalid with hold | ⟨howned, -⟩
      · exact hi.owned j e hold hvalid
      · exact howned
    · rw [h.of_ne hj] at he
      exact hi.owned j e he hvalid
  · intro j
    by_cases hj : j = i
    · subst hj
      rw [h.self]
      exact hkept.oneEach
    · rw [h.of_ne hj]
      exact hi.oneEach j
  · intro data hcarries
    have hold : s.Carries data → s'.AckTrue data ∧ s'.AskTrue data := by
      intro hold
      refine ⟨(hi.carried data hold).1.mono h.acked, fun hdr payload hframe hasks e he => ?_⟩
      exact (hi.carried data hold).2 hdr payload hframe hasks e
        (hawaits _ _ e he (uses_of_carries hold hframe hasks))
    rcases hcarries with hair | ⟨j, req, hreq, rfl⟩
    · rcases h.air data hair with hair | ⟨req, hreq, rfl⟩
      · exact hold (.inl hair)
      · exact hold (.inr ⟨i, req, hreq, rfl⟩)
    · by_cases hj : j = i
      · subst hj
        rw [h.self] at hreq
        rcases hkept.queue req hreq with hreq | hnew
        · exact hold (.inr ⟨j, req, hreq, rfl⟩)
        · exact hnew
      · rw [h.of_ne hj] at hreq
        exact hold (.inr ⟨j, req, hreq, rfl⟩)
  · rintro data ⟨j, e, he, hvalid, rfl⟩
    have hold : s.Keeps e.data → s'.AckTrue e.data ∧ s'.AskNew e.data := by
      intro hold
      refine ⟨(hi.kept _ hold).1.mono h.acked, fun hdr payload hframe => ?_⟩
      obtain ⟨hdst, hnew⟩ := (hi.kept _ hold).2 hdr payload hframe
      refine ⟨hdst, fun hasks e' he' => ?_⟩
      exact hnew hasks e' (hawaits _ _ e' he' (uses_of_keeps hold hframe hasks))
    by_cases hj : j = i
    · subst hj
      rw [h.self] at he
      rcases hkept.pending e he hvalid with he | hnew
      · exact hold ⟨j, e, he, hvalid, rfl⟩
      · exact hnew
    · rw [h.of_ne hj] at he
      exact hold ⟨j, e, he, hvalid, rfl⟩
  · exact hreceived

/-! ### The sink -/

section Sink

variable {start : RadioNode (build i)} {value : List UInt8} {nowMs : UInt32}

/-- The sink keeps the invariant. -/
theorem nodeKept_rfTxSinkCb (hi : AckInv s)
    (hsame : ∃ ctrlSeq, start = { s.node i with ctrlSeq := ctrlSeq })
    (hsafe : s.SinkSafe start value nowMs)
    (h : NodeStep s s' i (rfTxSinkCb start value nowMs)) :
    NodeKept s s' i (rfTxSinkCb start value nowMs) := by
  have heffect := sinkEffect_rfTxSinkCb start value nowMs
  -- only the sequence number may differ
  obtain ⟨hid, hrt, htx, hpq⟩ : start.myNodeId = (s.node i).myNodeId ∧
      start.retryTable = (s.node i).retryTable ∧ start.txQueue = (s.node i).txQueue ∧
      start.pendingQueue = (s.node i).pendingQueue := by
    obtain ⟨ctrlSeq, rfl⟩ := hsame
    exact ⟨rfl, rfl, rfl, rfl⟩
  have hawaits : ∀ {srcId pktId e}, s'.AwaitsAck srcId pktId e → s.AwaitsAck srcId pktId e ∨
      (e ∈ (rfTxSinkCb start value nowMs).retryTable.entries ∧ e ∉ start.retryTable.entries) := by
    intro srcId pktId e he
    rw [hrt]
    exact (h.awaitsAck (heffect.id.trans hid) he).imp_right fun hnew => ⟨hnew.1, hnew.2.1⟩
  constructor
  · exact heffect.id.trans hid
  · intro e he _
    rw [← hid, ← hrt]
    by_cases hold : e ∈ start.retryTable.entries
    · exact .inl hold
    · obtain ⟨howned, hunused, -⟩ := sinkRegisters_of_new heffect.retry hsafe he hold
      exact .inr ⟨howned, hunused⟩
  · have hone := hi.oneEach i
    rw [← hrt] at hone
    rcases heffect.retry with hsame | hregisters
    · rwa [hsame]
    · rcases hregisters.cases hsafe with hsame | ⟨k, e', hk, hset, -, -, hunused, -⟩
      · rwa [hsame]
      · rw [hset]
        refine (writes_set hk).oneEach hone fun j y hjk hy hvalid hkey => ?_
        rw [List.getElem?_set_ne (Ne.symm hjk)] at hy
        refine hunused (.inr ⟨i, .inr (.inr ⟨y, ?_, hvalid, hid.symm, hkey⟩)⟩)
        exact hrt ▸ List.mem_of_getElem? hy
  · intro req hreq
    rw [← htx]
    exact (heffect.queue req hreq).imp_right fun hpush =>
      hpush.kept hsafe heffect.retry h.acked hawaits
  · intro e he hvalid
    rw [← hpq]
    refine (heffect.pending e he hvalid).imp_right ?_
    rintro ⟨⟨pkt, payload, hframe, hdst, hmiss⟩, heq⟩
    obtain ⟨hack, hunicast⟩ := hsafe.of_isFrame hframe
    rw [heq]
    refine ⟨hack.mono h.acked, fun hdr payload' hframe' => ?_⟩
    obtain ⟨rfl, rfl⟩ := hframe'.unique hframe
    refine ⟨hdst, fun hasks e' he' => ?_⟩
    rcases hawaits he' with hold | ⟨hmem, hnew⟩
    · exact (hunicast hdst).1 hmiss hasks hold.uses
    · -- nothing is registered when there is no route
      obtain ⟨-, -, pkt', payload', route, hframe', -, hroute, -⟩ :=
        sinkRegisters_of_new heffect.retry hsafe hmem hnew
      obtain ⟨rfl, rfl⟩ := hframe'.unique hframe
      rw [hmiss] at hroute
      exact nomatch hroute

end Sink

/-! ### The tick -/

/-- A tick that takes new ids keeps the invariant. -/
theorem nodeKept_retryTick (hi : AckInv s) {nowMs : UInt32} (hsafe : s.TickSafe (s.node i) nowMs)
    (h : NodeStep s s' i ((s.node i).retryTick nowMs)) :
    NodeKept s s' i ((s.node i).retryTick nowMs) := by
  have hentries : ((s.node i).retryTick nowMs).retryTable.entries =
      (tickScan nowMs (s.node i).retryTable.entries
        ⟨(s.node i).txQueue, (s.node i).ctrlSeq, (s.node i).retryTable.count, 0⟩).1 := rfl
  obtain ⟨hnodup, hnew⟩ := hsafe
  have howned : ∀ e ∈ ((s.node i).retryTick nowMs).retryTable.entries, e.valid = true →
      e ∈ (s.node i).retryTable.entries ∨
        (e.Owned (s.node i).myNodeId ∧ ¬s.Uses (s.node i).myNodeId e.curPktId) := by
    intro e he hvalid
    rw [hentries] at he
    obtain ⟨e₀, he₀, hvalid₀, rfl | ⟨pktId, hid, rfl⟩⟩ := mem_tickScan he hvalid
    · exact .inl he₀
    · exact .inr ⟨(hi.owned i e₀ he₀ hvalid₀).resend pktId nowMs, hnew pktId hid⟩
  have hone : OneEach (·.valid = true) RetryEntry.curPktId
      ((s.node i).retryTick nowMs).retryTable.entries := by
    rw [hentries]
    refine oneEach_tickScan (hi.oneEach i) hnodup fun e he hvalid hid => ?_
    exact hnew _ hid (.inr ⟨i, .inr (.inr ⟨e, he, hvalid, rfl, rfl⟩)⟩)
  refine ⟨rfl, howned, hone, fun req hreq => ?_, fun e he _ => .inl he⟩
  rcases mem_tickScan_txQueue hreq with hold | ⟨k, e, t, he, ht, hvalid, hdue, hdata⟩
  · exact .inl hold
  obtain ⟨hdr, payload, hholds, hsrc, htype⟩ := (hi.owned i e (List.mem_of_getElem? he) hvalid).frame
  rw [hdata, tickFrame]
  refine .inr ?_
  split_ifs with hleft
  · -- the frame of the slot after the tick
    have hsent := hholds.resend t.freshPktId nowMs
    have hmem : e.resend t.freshPktId nowMs ∈ ((s.node i).retryTick nowMs).retryTable.entries := by
      obtain ⟨t', ht', hafter⟩ := tickScan_getElem? nowMs he
        ⟨(s.node i).txQueue, (s.node i).ctrlSeq, (s.node i).retryTable.count, 0⟩
      obtain rfl := Option.some.inj (ht.symm.trans ht')
      rw [tickEntry_of_due hvalid hdue hleft] at hafter
      exact List.mem_of_getElem? hafter
    refine ⟨?_, fun hdr' payload' hframe hasks e' he' => ?_⟩
    · rw [hholds.data, patchPktIdAndCrc_wireFrame hholds.length_le]
      exact ackTrue_of_ne s' hholds.type hholds.length_le htype
    · obtain ⟨rfl, hsends⟩ := hsent.sends hframe
      obtain ⟨j, hmem', hvalid', hid, hpkt⟩ := he'
      rw [h.id rfl] at hid
      obtain rfl : j = i := hi.id_injective (hid.trans hsrc)
      rw [h.self] at hmem'
      rwa [hone.eq hmem' hmem hvalid' hvalid hpkt]
  · rw [hholds.data, buildFallbackFlood_wireFrame hholds.length_le]
    exact ⟨ackTrue_of_ne s' hholds.type hholds.length_le htype,
      askTrue_of_not_asks s' hholds.type hholds.length_le fun hasks => hasks.2 rfl⟩

/-! ### Receiving -/

section Receive

variable {env : RxVerdicts} {frame : RfRxFrame} {hdr : RivrPktHdr} {pl : Option (List UInt8)}
  {nowMs : UInt32}

theorem shrinks_ackedTable {n : ℕ} (rt : RetryTable n) (hdr : RivrPktHdr)
    (pl : Option (List UInt8)) :
    Shrinks (·.valid = true) rt.entries (ackedTable rt hdr pl).entries := by
  rw [ackedTable]
  split_ifs
  · split
    · exact Shrinks.refl _
    · rename_i ackSrcId ackPktId _
      rcases retryTableAck_cases rt ackSrcId ackPktId with hsame | ⟨k, e, -, -, hset, -⟩
      · rw [hsame]
        exact Shrinks.refl _
      · rw [hset]
        exact shrinks_set (by decide) _ k
  · exact Shrinks.refl _

/-- A frame that is received keeps the invariant. -/
theorem nodeKept_rfRxFrame (hi : AckInv s) (hair : frame.data ∈ s.air)
    (hacc : (s.node i).Accepts env frame hdr pl nowMs)
    (h : NodeStep s s' i (rfRxFrame (s.node i) env frame nowMs).1)
    (hseen : ∃ r ∈ s'.received i, r.hdr = hdr) :
    NodeKept s s' i (rfRxFrame (s.node i) env frame nowMs).1 := by
  have heffect := rxEffect_rfRxFrame hacc
  have hshrinks := shrinks_ackedTable (s.node i).retryTable hdr pl
  rw [← heffect.retry] at hshrinks
  -- no entry is new
  have hawaits : ∀ {srcId pktId e}, s'.AwaitsAck srcId pktId e → s.AwaitsAck srcId pktId e := by
    intro srcId pktId e hawaits
    rcases h.awaitsAck heffect.id hawaits with hold | ⟨hmem, hno, hvalid, -⟩
    · exact hold
    · exact absurd (hshrinks.mem hmem hvalid) hno
  constructor
  · exact heffect.id
  · intro e he hvalid
    exact .inl (hshrinks.mem he hvalid)
  · exact hshrinks.oneEach (hi.oneEach i)
  · intro req hreq
    exact (heffect.queue req hreq).imp_right fun hpush =>
      hpush.kept hi hair (h.id heffect.id i) hseen h.acked hawaits
  · intro e he hvalid
    exact .inl (heffect.pending e he hvalid)

end Receive

end Step

/-! ### Runs -/

/-- One node changes, and no reception is forgotten. -/
theorem nodeStep_of {s s' : Mesh build} {i : ι} {node : RadioNode (build i)}
    (hid : node.myNodeId = (s.node i).myNodeId) (hnode : s'.node = Function.update s.node i node)
    (hair : ∀ data ∈ s'.air, data ∈ s.air ∨ ∃ req ∈ (s.node i).txQueue.items, req.data = data)
    (hreceived : ∀ j, ∀ r ∈ s.received j, r ∈ s'.received j) : NodeStep s s' i node := by
  refine ⟨hnode, hair, ?_⟩
  rintro srcId pktId ⟨j, r, hr, hsrc, hpkt, hasks, hdst⟩
  refine ⟨j, r, hreceived j r hr, hsrc, hpkt, hasks, hdst.trans ?_⟩
  rw [hnode]
  by_cases hj : j = i
  · subst hj
    rw [Function.update_self, hid]
  · rw [Function.update_of_ne hj]

theorem nodeStep_setNode {s : Mesh build} {i : ι} {node : RadioNode (build i)}
    (hid : node.myNodeId = (s.node i).myNodeId) : NodeStep s (s.setNode i node) i node :=
  nodeStep_of hid rfl (fun _ hdata => .inl hdata) fun _ _ hr => hr

theorem AckInv.originate {s : Mesh build} (hi : AckInv s) {i : ι} {value : List UInt8}
    {node : RadioNode (build i)} (hsame : ∃ ctrlSeq, node = { s.node i with ctrlSeq := ctrlSeq })
    (hsafe : s.SinkSafe node value (s.clock i)) :
    AckInv (s.setNode i (rfTxSinkCb node value (s.clock i))) := by
  have hid : node.myNodeId = (s.node i).myNodeId := by
    obtain ⟨ctrlSeq, rfl⟩ := hsame
    rfl
  have hstep := nodeStep_setNode ((sinkEffect_rfTxSinkCb node value (s.clock i)).id.trans hid)
  exact hi.step hstep (nodeKept_rfTxSinkCb hi hsame hsafe hstep) hi.received

/-- What a node has received: what it had, and the frame if it reached the handlers. -/
theorem mem_received_receive {s : Mesh build} {i j : ι} {frame : RfRxFrame} {env : RxVerdicts}
    {r : Reception} :
    r ∈ (s.receive i frame env).received j ↔ r ∈ s.received j ∨
      (j = i ∧ ∃ x ∈ (s.node i).accepted env frame (s.clock i),
        r = ⟨x.1, x.2, s.nowMs i, (rfRxFrame (s.node i) env frame (s.clock i)).2⟩) := by
  rw [Mesh.receive]
  rcases (s.node i).accepted env frame (s.clock i) with _ | ⟨hdr, pl⟩
  · simp
  · by_cases hj : j = i
    · subst hj
      simp [or_comm]
    · simp [hj]

theorem AckInv.receive {s : Mesh build} (hi : AckInv s) (i : ι) {data : List UInt8}
    (hair : data ∈ s.air) (rssiDbm : Int16) (snrDb : Int8) (env : RxVerdicts) :
    AckInv (s.receive i (driverFrame data rssiDbm snrDb) env) := by
  have hstep : NodeStep s (s.receive i (driverFrame data rssiDbm snrDb) env) i _ :=
    nodeStep_of (rfRxFrame_myNodeId _ _ _ _) rfl (fun _ hdata => .inl hdata)
      fun j r hr => mem_received_receive.mpr (.inl hr)
  refine hi.step hstep ?_ fun j r hr => ?_
  · rcases hacc : (s.node i).accepted env (driverFrame data rssiDbm snrDb) (s.clock i) with
      _ | ⟨hdr, pl⟩
    · obtain ⟨dedupe, fwdBudget, hdrop⟩ := rfRxFrame_of_not_accepts fun hdr pl h => by
        rw [accepted_eq_some_iff.mpr h] at hacc
        exact nomatch hacc
      rw [hdrop]
      exact hi.nodeKept_of_same rfl rfl rfl fun _ hreq => hreq
    · refine nodeKept_rfRxFrame hi hair (accepted_eq_some_iff.mp hacc) hstep ?_
      exact ⟨_, mem_received_receive.mpr (.inr ⟨rfl, (hdr, pl), hacc, rfl⟩), rfl⟩
  · rcases mem_received_receive.mp hr with hold | ⟨-, ⟨hdr, pl⟩, hacc, rfl⟩
    · exact hi.received j r hold
    · obtain ⟨payload, hpl, hframe⟩ :=
        isFrame_of_protocolDecode (accepted_eq_some_iff.mp hacc).decoded
      exact ⟨data, hair, payload, hframe, hpl⟩

theorem AckInv.transmit {s : Mesh build} (hi : AckInv s) (i : ι) : AckInv (s.transmit i) := by
  rw [Mesh.transmit]
  rcases rbPop_cases (s.node i).txQueue with hpop | ⟨req, rest, hpop, hitems⟩
  · rw [hpop]
    exact hi
  · rw [hpop]
    have hstep : NodeStep s { s.setNode i { s.node i with txQueue := rest } with
        air := s.air ++ [req.data] } i { s.node i with txQueue := rest } := by
      refine nodeStep_of rfl rfl (fun data hdata => ?_) fun _ _ hr => hr
      refine (List.mem_append.mp hdata).imp_right fun hnew => ?_
      rw [List.mem_singleton.mp hnew, hitems]
      exact ⟨req, List.mem_cons_self, rfl⟩
    refine hi.step hstep (hi.nodeKept_of_same rfl rfl rfl fun r hr => ?_) fun j r hr => ?_
    · rw [hitems]
      exact List.mem_cons_of_mem _ hr
    · obtain ⟨data, hdata, hframe⟩ := hi.received j r hr
      exact ⟨data, List.mem_append_left _ hdata, hframe⟩

/-- **Every safe action keeps the invariant.** -/
theorem AckInv.act {s : Mesh build} (hi : AckInv s) {a : MeshAction ι} (ha : AckSafe s a) :
    AckInv (s.act a) := by
  cases a with
  | originate i value => exact hi.originate ⟨_, rfl⟩ ha
  | bleFrame i data allowed =>
    rw [Mesh.act]
    obtain ⟨ctrlSeq, hdrop⟩ | ⟨hdr, pl, normalized, hdec, ⟨hsrc, hallowed⟩, henc, hsink⟩ :=
      sourceHandleBleOrigination_cases (s.node i) data allowed (s.clock i)
    · rw [hdrop]
      exact hi.step (nodeStep_setNode rfl)
        (hi.nodeKept_of_same rfl rfl rfl fun _ hreq => hreq) hi.received
    · rw [hsink]
      exact hi.originate (numbered_eq (s.node i) hdr) (ha _ hdec hsrc hallowed normalized henc)
  | retryTick i =>
    have hstep : NodeStep s (s.setNode i ((s.node i).retryTick (s.clock i))) i _ :=
      nodeStep_setNode rfl
    exact hi.step hstep (nodeKept_retryTick hi ha hstep) hi.received
  | transmit i => exact hi.transmit i
  | receive i number rssiDbm snrDb env =>
    rw [Mesh.act]
    split
    · exact hi
    · rename_i data hdata
      exact hi.receive i (List.mem_of_getElem? hdata) rssiDbm snrDb env
  | wait i ms => exact ⟨hi.id_injective, hi.id_ne_zero, hi.owned, hi.oneEach, hi.carried, hi.kept,
      hi.received⟩

end Rivr
