import Rivr.Firmware.FrameFlow

/-!
# Unicast frames on a route

A frame for a destination that is more than one hop away is rewritten for the next hop: the
destination in its header is replaced, and its TTL is 1. Nothing in the frame says then where the
message is to go, and the one relayed copy that the next hop makes has no hops left. So a frame
stays on its course exactly when the next hop is the destination
(`unicast_stays_on_course_iff`).
-/

namespace Rivr

variable {cfg : BuildConfig}

/-! ### Copies on a route -/

/-- The unicast copies that a node makes of chat and data frames for the destination, over the
next hop that it has for it. -/
inductive UnicastCopy (node : RadioNode cfg) (nowMs dstId nextHop : UInt32) : List UInt8 → Prop
  /-- The sink has a route, and pushes the copy. -/
  | sink {value payload : List UInt8} {pkt : RivrPktHdr} {route : RivrRoute} {req : RfTxRequest} :
      IsFrame (sinkData value) pkt payload → (pkt.pktType = pktChat ∨ pkt.pktType = pktData) →
      pkt.dstId = dstId → dstId ≠ 0 → node.chosenRoute dstId nowMs = some route →
      route.nextHopId = nextHop →
      (rfTxSinkCb node value nowMs).txQueue.items = node.txQueue.items ++ [req] →
      UnicastCopy node nowMs dstId nextHop req.data
  /-- A frame that waited for the route is encoded again for the next hop. -/
  | pending {e : PendingEntry} {payload : List UInt8} {pkt : RivrPktHdr} {req : RfTxRequest} :
      e ∈ node.pendingQueue.entries → e.valid = true → e.dstId = dstId →
      IsFrame e.data pkt payload → (pkt.pktType = pktChat ∨ pkt.pktType = pktData) →
      reencodeAsUnicastHop e.data nextHop e.toaUs = some req →
      UnicastCopy node nowMs dstId nextHop req.data

/-- A copy is the frame of a header for the next hop, with a TTL of 1. -/
theorem UnicastCopy.isFrame {node : RadioNode cfg} {nowMs dstId nextHop : UInt32}
    {copy : List UInt8} (h : UnicastCopy node nowMs dstId nextHop copy) :
    ∃ hdr payload, IsFrame copy hdr payload ∧ hdr.dstId = nextHop ∧ hdr.ttl = 1 := by
  rcases h with ⟨hframe, -, rfl, hdst, hroute, rfl, hpush⟩ | ⟨-, -, -, hframe, -, hencode⟩
  · rename_i value payload pkt route req
    obtain ⟨toaUs, ctrlSeq, fwdBudget, hsink⟩ := rfTxSinkCb_unicast_eq hframe hdst hroute
    rw [hsink] at hpush
    have hreq := eq_of_rbTryPush hpush
    rw [hreq]
    exact ⟨_, payload, isFrame_wireFrame (unicastHdr pkt route.nextHopId) hframe.type
      hframe.length_le, rfl, rfl⟩
  · rename_i e payload pkt req
    rw [reencodeAsUnicastHop_of_isFrame hframe] at hencode
    obtain rfl := Option.some.inj hencode
    exact ⟨_, payload, isFrame_wireFrame { pkt with dstId := nextHop, ttl := 1 }
      hframe.type hframe.length_le, rfl, rfl⟩

/-- The copies on the way to the destination, with the number of relays they passed: the first
relay is the next hop, and the way ends at the destination. -/
inductive OnRoute (dstId nextHop : UInt32) (copy : List UInt8) : ℕ → List UInt8 → Prop
  | sent : OnRoute dstId nextHop copy 0 copy
  | relayed {relays : ℕ} {cfg : BuildConfig} {node : RadioNode cfg} {env : RxVerdicts}
      {frame : RfRxFrame} {nowMs : UInt32} {req : RfTxRequest} :
      OnRoute dstId nextHop copy relays frame.data → node.myNodeId ≠ dstId →
      (relays = 0 → node.myNodeId = nextHop) → node.RelayPushes env frame nowMs req →
      OnRoute dstId nextHop copy (relays + 1) req.data

/-- The frame names the destination, and has hops left. -/
def CarriesTo (dstId : UInt32) (data : List UInt8) : Prop :=
  ∃ hdr payload, IsFrame data hdr payload ∧ hdr.dstId = dstId ∧ hdr.ttl ≠ 0

/-- Every copy on the way names the destination and has hops left. -/
def StaysOnCourse (dstId nextHop : UInt32) (copy : List UInt8) : Prop :=
  ∀ relays data, OnRoute dstId nextHop copy relays data → CarriesTo dstId data

/-- When the next hop is the destination, the copy that was sent is the only one. -/
theorem OnRoute.eq_copy {dstId : UInt32} {copy data : List UInt8} {relays : ℕ}
    (h : OnRoute dstId dstId copy relays data) : relays = 0 ∧ data = copy := by
  induction h with
  | sent => exact ⟨rfl, rfl⟩
  | relayed _ hother hfirst _ ih => exact absurd (hfirst ih.1) hother

/-- The copy that the next hop relays has no hops left. -/
theorem OnRoute.ttl_eq_zero {node : RadioNode cfg} {nowMs dstId nextHop : UInt32}
    {copy data payload : List UInt8} {hdr : RivrPktHdr}
    (hcopy : UnicastCopy node nowMs dstId nextHop copy) (h : OnRoute dstId nextHop copy 1 data)
    (hframe : IsFrame data hdr payload) : hdr.ttl = 0 := by
  obtain ⟨sent, payload', hsent, -, httl⟩ := hcopy.isFrame
  cases h with
  | relayed hprev _ _ hpush =>
    cases hprev
    obtain ⟨-, ttl, hle, hreq⟩ := hpush.data hsent
    rw [hreq] at hframe
    obtain ⟨rfl, -⟩ := hframe.unique
      (isFrame_wireFrame { relayHdr sent with ttl := ttl } hsent.type hsent.length_le)
    rw [httl] at hle
    exact UInt8.le_zero_iff.mp hle

/-- **Unicast frames on a route.** A unicast copy stays on its course exactly when the next hop is
the destination. -/
theorem unicast_stays_on_course_iff {node : RadioNode cfg} {nowMs dstId nextHop : UInt32}
    {copy : List UInt8} (h : UnicastCopy node nowMs dstId nextHop copy) :
    StaysOnCourse dstId nextHop copy ↔ nextHop = dstId := by
  obtain ⟨hdr, payload, hframe, hdst, httl⟩ := h.isFrame
  constructor
  · intro hcourse
    obtain ⟨hdr', payload', hframe', hdst', -⟩ := hcourse 0 copy .sent
    obtain ⟨rfl, -⟩ := hframe.unique hframe'
    exact hdst.symm.trans hdst'
  · rintro rfl relays data hroute
    obtain ⟨-, rfl⟩ := hroute.eq_copy
    refine ⟨hdr, payload, hframe, hdst, ?_⟩
    rw [httl]
    decide

/-! ### A route of two hops -/

/-- A client with a route to `0xD`. -/
def routedClient (nextHop : UInt32) (hopCount : UInt8) : RadioNode clientBuild :=
  { freshClient with
    routeCache := routeCacheUpdate freshClient.routeCache
      ⟨0xD, nextHop, hopCount, 60, rcacheFlagValid⟩ 0 }

/-- The chat message that it sends. -/
def outgoingChat : List UInt8 := chatFrame 0xA 0xD 7

/-- What the client pushes for it. -/
def outgoingCopy (nextHop : UInt32) : List UInt8 :=
  wireFrame { sampleChatHdr with
    netId := 0, srcId := 0xA, dstId := nextHop, seq := 7, pktId := 7, ttl := 1
    flags := pktFlagAckReq } [72, 105]

/-- The header that the sink decodes. -/
def outgoingChatHdr : RivrPktHdr :=
  { sampleChatHdr with
    magic := rivrMagic, version := rivrProtoVer, netId := 0, srcId := 0xA, dstId := 0xD, seq := 7
    pktId := 7, payloadLen := 2 }

theorem isFrame_outgoingChat : IsFrame (sinkData outgoingChat) outgoingChatHdr [72, 105] :=
  ⟨by decide +kernel, by decide, by decide, rfl⟩

/-- The copy is one on the client's route, if the client's queue takes it. -/
theorem unicastCopy_outgoingCopy {nextHop : UInt32} {hopCount : UInt8}
    (hroute : ((routedClient nextHop hopCount).chosenRoute 0xD 0).map RivrRoute.nextHopId =
      some nextHop)
    (hpush : (rfTxSinkCb (routedClient nextHop hopCount) outgoingChat 0).txQueue.items.map
      RfTxRequest.data = [outgoingCopy nextHop]) :
    UnicastCopy (routedClient nextHop hopCount) 0 0xD nextHop (outgoingCopy nextHop) := by
  obtain ⟨route, hchosen, hhop⟩ := Option.map_eq_some_iff.mp hroute
  obtain ⟨req, hreq, hdata⟩ := List.map_eq_singleton_iff.mp hpush
  rw [← hdata]
  exact .sink isFrame_outgoingChat (Or.inl rfl) rfl (by decide) hchosen hhop hreq

/-- The copy stays on its course when `0xD` is the next hop. -/
theorem unicast_stays_on_course_direct : StaysOnCourse 0xD 0xD (outgoingCopy 0xD) :=
  have hcopy : UnicastCopy (routedClient 0xD 1) 0 0xD 0xD (outgoingCopy 0xD) :=
    unicastCopy_outgoingCopy (by decide +kernel) (by decide +kernel)
  (unicast_stays_on_course_iff hcopy).mpr rfl

/-- **A message that is lost.** On a route over `0xB` the copy names `0xB` as its destination. -/
theorem not_unicast_stays_on_course :
    ¬∀ (node : RadioNode clientBuild) (nowMs dstId nextHop : UInt32) (copy : List UInt8),
      UnicastCopy node nowMs dstId nextHop copy → StaysOnCourse dstId nextHop copy := by
  intro hall
  have hcopy : UnicastCopy (routedClient 0xB 2) 0 0xD 0xB (outgoingCopy 0xB) :=
    unicastCopy_outgoingCopy (by decide +kernel) (by decide +kernel)
  obtain ⟨hdr, payload, hframe, hdst, -⟩ := hall _ _ _ _ _ hcopy 0 _ .sent
  obtain ⟨sent, payload', hsent, hhop, -⟩ := hcopy.isFrame
  obtain ⟨rfl, -⟩ := hframe.unique hsent
  exact absurd (hhop.symm.trans hdst) (by decide)

end Rivr
