import Rivr.Firmware.AckInvariant

/-!
# Copies of a message

A chat or mailbox message is named by its source and its sequence number. The retry table sends it
under a new packet id each time, so that relays take every copy for a new frame. This module counts
the packet ids: a message that goes to a sink once is carried, in the whole mesh and for ever, under
at most five of them, the one it came with, those of three attempts, and that of the fallback flood
(`exists_copyInv`).
-/

namespace Rivr

open SlotTable

variable {cfg : BuildConfig} {ι : Type*} {build : ι → BuildConfig}

/-! ### Messages -/

/-- What identifies a message of an application. -/
structure MessageId where
  srcId : UInt32
  seq : UInt16
  deriving DecidableEq, Repr

/-- The header is of a chat or mailbox frame of the message. -/
def RivrPktHdr.OfMessage (hdr : RivrPktHdr) (m : MessageId) : Prop :=
  (hdr.pktType = pktChat ∨ hdr.pktType = pktMailbox) ∧ hdr.srcId = m.srcId ∧ hdr.seq = m.seq

instance RivrPktHdr.decidableOfMessage (hdr : RivrPktHdr) (m : MessageId) :
    Decidable (hdr.OfMessage m) := inferInstanceAs (Decidable (_ ∧ _))

/-- The bytes are a frame of the message under the packet id. -/
def IsCopy (m : MessageId) (data : List UInt8) (pktId : UInt16) : Prop :=
  ∃ hdr payload, IsFrame data hdr payload ∧ hdr.OfMessage m ∧ hdr.pktId = pktId

variable {m : MessageId} {pktId : UInt16}

theorem IsCopy.of_isFrame {data payload : List UInt8} {hdr : RivrPktHdr}
    (h : IsCopy m data pktId) (hframe : IsFrame data hdr payload) :
    hdr.OfMessage m ∧ hdr.pktId = pktId := by
  obtain ⟨hdr', payload', hframe', hcopy⟩ := h
  obtain ⟨rfl, rfl⟩ := hframe'.unique hframe
  exact hcopy

theorem IsCopy.of_wireFrame {hdr : RivrPktHdr} {payload : List UInt8}
    (h : IsCopy m (wireFrame hdr payload) pktId)
    (htype : 1 ≤ hdr.pktType ∧ hdr.pktType ≤ pktMetrics) (hlen : payload.length ≤ 230) :
    hdr.OfMessage m ∧ hdr.pktId = pktId := by
  have hcopy := h.of_isFrame (isFrame_wireFrame hdr htype hlen)
  exact hcopy

/-- A control frame is no copy of a message. -/
theorem not_isCopy_control {pktType : UInt8} (hne : pktType ≠ pktChat ∧ pktType ≠ pktMailbox)
    (htype : 1 ≤ pktType ∧ pktType ≤ pktMetrics) {payload : List UInt8}
    (hlen : payload.length ≤ 230) (myId dstId : UInt32) (seq pktId' : UInt16) (len : UInt8) :
    ¬IsCopy m (wireFrame (controlHdr pktType myId dstId seq pktId' len) payload) pktId := by
  intro hcopy
  obtain ⟨⟨hchat | hmail, -⟩, -⟩ := hcopy.of_wireFrame htype hlen
  · exact hne.1 hchat
  · exact hne.2 hmail

/-- A message has one packet id in a frame. -/
theorem IsCopy.unique {data : List UInt8} {pktId' : UInt16} (h : IsCopy m data pktId)
    (h' : IsCopy m data pktId') : pktId' = pktId := by
  obtain ⟨hdr, payload, hframe, -, rfl⟩ := h
  exact (h'.of_isFrame hframe).2.symm

/-! ### What is pushed -/

/-- What the sink pushes is a copy of a message if the value is. -/
theorem SinkPush.isCopy {node : RadioNode cfg} {value data : List UInt8} {nowMs : UInt32}
    (h : SinkPush node value nowMs data) (hcopy : IsCopy m data pktId) :
    IsCopy m (sinkData value) pktId := by
  rcases h with _ | ⟨_, -⟩ | ⟨dstId, seq, pktId'⟩ | ⟨hframe, -, -⟩
  · exact hcopy
  · exact hcopy
  · exact absurd hcopy (not_isCopy_control (by decide) (by decide) (Nat.zero_le _) _ _ _ _ _)
  · exact ⟨_, _, hframe, hcopy.of_wireFrame hframe.type hframe.length_le⟩

/-- What a node pushes for a frame is a copy of a message if the frame is, or one that waited. -/
theorem RxPush.isCopy {node : RadioNode cfg} {frame : RfRxFrame} {hdr : RivrPktHdr}
    {pl : Option (List UInt8)} {data : List UInt8} (h : RxPush node frame hdr pl data)
    (hcopy : IsCopy m data pktId) :
    IsCopy m frame.data pktId ∨
      ∃ e ∈ node.pendingQueue.entries, e.valid = true ∧ IsCopy m e.data pktId := by
  rcases h with ⟨seq, pktId', -, -, -⟩ | ⟨rpl, seq, pktId'⟩ | ⟨he, hvalid, hsent⟩ |
    ⟨ttl, -, hframe⟩
  · have hlen : (ackBytes hdr.srcId hdr.pktId).length ≤ 230 := (by decide : 6 ≤ 230)
    exact absurd hcopy (not_isCopy_control (by decide) (by decide) hlen _ _ _ _ _)
  · have hlen : rpl.bytes.length ≤ 230 := (by decide : 9 ≤ 230)
    exact absurd hcopy (not_isCopy_control (by decide) (by decide) hlen _ _ _ _ _)
  · rename_i e nextHop req
    obtain ⟨hdr₀, payload, hframe⟩ := isFrame_of_reencodeAsUnicastHop hsent
    rw [reencodeAsUnicastHop_of_isFrame hframe] at hsent
    rw [← Option.some.inj hsent] at hcopy
    exact .inr ⟨e, he, hvalid, _, _, hframe, hcopy.of_wireFrame hframe.type hframe.length_le⟩
  · exact .inl ⟨_, _, hframe, hcopy.of_wireFrame hframe.type hframe.length_le⟩

/-- The slot holds the frame of a header and a payload. -/
def RetryEntry.Framed (e : RetryEntry) : Prop :=
  ∃ hdr payload, e.data = wireFrame hdr payload ∧
    (1 ≤ hdr.pktType ∧ hdr.pktType ≤ pktMetrics) ∧ payload.length ≤ 230

theorem RetryEntry.Framed.resend {e : RetryEntry} (h : e.Framed) (newPktId : UInt16)
    (nowMs : UInt32) : (e.resend newPktId nowMs).Framed := by
  obtain ⟨hdr, payload, hdata, htype, hlen⟩ := h
  refine ⟨{ hdr with pktId := newPktId }, payload, ?_, htype, hlen⟩
  rw [RetryEntry.resend, hdata]
  exact patchPktIdAndCrc_wireFrame hlen hdr newPktId

/-- The bytes of a slot are a copy of the message if a frame of the same message with the same
payload is. -/
theorem IsCopy.of_same {e : RetryEntry} {hdr hdr' : RivrPktHdr} {payload : List UInt8}
    (h : IsCopy m (wireFrame hdr' payload) pktId) (hdata : e.data = wireFrame hdr payload)
    (htype : 1 ≤ hdr.pktType ∧ hdr.pktType ≤ pktMetrics) (hlen : payload.length ≤ 230)
    (hsame : hdr'.pktType = hdr.pktType ∧ hdr'.srcId = hdr.srcId ∧ hdr'.seq = hdr.seq) :
    (∃ pktId₀, IsCopy m e.data pktId₀) ∧ hdr'.pktId = pktId := by
  obtain ⟨hmessage, hpkt⟩ := h.of_wireFrame (hsame.1.symm ▸ htype) hlen
  rw [RivrPktHdr.OfMessage, hsame.1, hsame.2.1, hsame.2.2] at hmessage
  rw [hdata]
  exact ⟨⟨_, _, _, isFrame_wireFrame hdr htype hlen, hmessage, rfl⟩, hpkt⟩

/-- A slot that is sent again holds a copy of the same message. -/
theorem RetryEntry.Framed.isCopy_resend {e : RetryEntry} (h : e.Framed) {newPktId : UInt16}
    {nowMs : UInt32} (hcopy : IsCopy m (e.resend newPktId nowMs).data pktId) :
    ∃ pktId₀, IsCopy m e.data pktId₀ := by
  obtain ⟨hdr, payload, hdata, htype, hlen⟩ := h
  have hdata' : (e.resend newPktId nowMs).data = patchPktIdAndCrc e.data newPktId := rfl
  rw [hdata', hdata, patchPktIdAndCrc_wireFrame hlen] at hcopy
  exact (hcopy.of_same hdata htype hlen ⟨rfl, rfl, rfl⟩).1

/-- The frame that a due slot sends is a copy of the slot's message, under the id of its turn. -/
theorem RetryEntry.Framed.isCopy_tickFrame {e : RetryEntry} (h : e.Framed) {t : RetryTick}
    (hcopy : IsCopy m (tickFrame e t) pktId) :
    (∃ pktId₀, IsCopy m e.data pktId₀) ∧ t.freshPktId = pktId := by
  obtain ⟨hdr, payload, hdata, htype, hlen⟩ := h
  rw [tickFrame, hdata] at hcopy
  split_ifs at hcopy
  · rw [patchPktIdAndCrc_wireFrame hlen] at hcopy
    exact hcopy.of_same hdata htype hlen ⟨rfl, rfl, rfl⟩
  · rw [buildFallbackFlood_wireFrame hlen] at hcopy
    exact hcopy.of_same hdata htype hlen ⟨rfl, rfl, rfl⟩

/-! ### Entries -/

/-- Slot `k` of the table holds a copy of the message. -/
def HoldsCopy (m : MessageId) (es : List RetryEntry) (k : ℕ) (e : RetryEntry) : Prop :=
  es[k]? = some e ∧ e.valid = true ∧ ∃ pktId, IsCopy m e.data pktId

/-- What the sink registers is a copy of a message if the value is, with all attempts left. -/
theorem SinkRegisters.entry {node : RadioNode cfg} {value : List UInt8} {nowMs : UInt32}
    {rt : RetryTable cfg.retryTableSize} (h : SinkRegisters node value nowMs rt) :
    rt = node.retryTable ∨ ∃ k e, rt.entries = node.retryTable.entries.set k e ∧ e.Framed ∧
      e.retriesLeft = retryMax ∧ ∀ pktId, IsCopy m e.data pktId → IsCopy m (sinkData value) pktId := by
  obtain ⟨pkt, payload, route, toaUs, hframe, -, -, -, rfl⟩ := h
  refine (retryTableEnqueue_cases node.retryTable node.myNodeId pkt.pktId pkt.dstId
    route.nextHopId (wireFrame (unicastHdr pkt route.nextHopId) payload) toaUs nowMs).imp_right ?_
  rintro ⟨k, e, -, -, hentries, -⟩
  refine ⟨k, _, hentries, ⟨_, payload, rfl, hframe.type, hframe.length_le⟩, rfl, ?_⟩
  intro pktId hcopy
  exact ⟨_, _, hframe, hcopy.of_wireFrame hframe.type hframe.length_le⟩

/-- Every valid slot after a tick is a slot before it that was not due, or one that was sent
again. -/
theorem tickScan_slot {nowMs : UInt32} {es : List RetryEntry} {t : RetryTick} {k : ℕ}
    {e' : RetryEntry} (h : (tickScan nowMs es t).1[k]? = some e') (hvalid : e'.valid = true) :
    ∃ e t', es[k]? = some e ∧ (tickCarried nowMs es t)[k]? = some t' ∧ e.valid = true ∧
      ((¬e.Due nowMs ∧ e' = e) ∨
        (e.Due nowMs ∧ 0 < e.retriesLeft ∧ e' = e.resend t'.freshPktId nowMs)) := by
  have hlt : k < es.length := by
    rw [← tickScan_length nowMs es t]
    exact (List.getElem?_eq_some_iff.mp h).1
  have he : es[k]? = some es[k] := List.getElem?_eq_getElem hlt
  obtain ⟨t', ht', hafter⟩ := tickScan_getElem? nowMs he t
  obtain rfl := Option.some.inj (h.symm.trans hafter)
  refine ⟨es[k], t', he, ht', ?_⟩
  rw [tickEntry] at hvalid ⊢
  split_ifs at hvalid ⊢ with hwait hleft
  · exact ⟨hvalid, .inl ⟨hwait.resolve_left (not_not_intro hvalid), rfl⟩⟩
  · rw [not_or, not_not, not_not] at hwait
    exact ⟨hwait.1, .inr ⟨hwait.2, hleft, rfl⟩⟩
  · cases hvalid

/-! ### The invariant -/

/-- The copies of a message in a mesh have the given packet ids. At most one slot of one node holds
the message, and it has no more attempts left than five packet ids allow. -/
structure CopyInv (m : MessageId) (ids : List UInt16) (s : Mesh build) : Prop where
  framed : ∀ i, ∀ e ∈ (s.node i).retryTable.entries, e.valid = true → e.Framed
  carried : ∀ data, s.Carries data → ∀ pktId, IsCopy m data pktId → pktId ∈ ids
  kept : ∀ data, s.Keeps data → ∀ pktId, IsCopy m data pktId → pktId ∈ ids
  received : ∀ j, ∀ r ∈ s.received j, r.hdr.OfMessage m → r.hdr.pktId ∈ ids
  held : ∀ i k e, HoldsCopy m (s.node i).retryTable.entries k e →
    ids.length + e.retriesLeft.toNat + 1 ≤ 5
  one : ∀ i k e, HoldsCopy m (s.node i).retryTable.entries k e →
    ∀ j l e', HoldsCopy m (s.node j).retryTable.entries l e' → j = i ∧ l = k
  length_le : ids.length ≤ 5

/-- No slot of any node holds the message. -/
def Mesh.HoldsNone (s : Mesh build) (m : MessageId) : Prop :=
  ∀ i k e, ¬HoldsCopy m (s.node i).retryTable.entries k e

/-- Nodes that have just been switched on hold no message. -/
theorem copyInv_booted {s : Mesh build} (h : s.Booted) (m : MessageId) :
    CopyInv m [] s ∧ s.HoldsNone m := by
  have hnone : s.HoldsNone m := by
    rintro i k e ⟨he, hvalid, -⟩
    rw [h.retry_valid i e (List.mem_of_getElem? he)] at hvalid
    exact nomatch hvalid
  refine ⟨?_, hnone⟩
  constructor
  · intro i e he hvalid
    rw [h.retry_valid i e he] at hvalid
    exact nomatch hvalid
  · exact fun data hdata => absurd hdata (h.not_carries data)
  · exact fun data hdata => absurd hdata (h.not_keeps data)
  · intro j r hr
    rw [h.received j] at hr
    exact nomatch hr
  · exact fun i k e hholds => absurd hholds (hnone i k e)
  · exact fun i k e hholds => absurd hholds (hnone i k e)
  · exact Nat.zero_le 5

/-! ### One step -/

/-- What a node may become in a step after which the packet ids are `ids'`. -/
structure CopiesKept (m : MessageId) (ids ids' : List UInt16) (s : Mesh build) (i : ι)
    (node : RadioNode (build i)) : Prop where
  subset : ids ⊆ ids'
  length_le : ids'.length ≤ 5
  framed : ∀ e ∈ node.retryTable.entries, e.valid = true → e.Framed
  queue : ∀ req ∈ node.txQueue.items, ∀ pktId, IsCopy m req.data pktId → pktId ∈ ids'
  pending : ∀ e ∈ node.pendingQueue.entries, e.valid = true →
    ∀ pktId, IsCopy m e.data pktId → pktId ∈ ids'
  held : ∀ k e, HoldsCopy m node.retryTable.entries k e →
    ids'.length + e.retriesLeft.toNat + 1 ≤ 5
  /-- A slot that holds the message did so before, or is the only one that ever did. -/
  slot : ∀ k e, HoldsCopy m node.retryTable.entries k e →
    (∃ e₀, HoldsCopy m (s.node i).retryTable.entries k e₀) ∨
      (s.HoldsNone m ∧ ∀ l e', HoldsCopy m node.retryTable.entries l e' → l = k)
  others : ids' = ids ∨ ∀ j, j ≠ i → ∀ k e, ¬HoldsCopy m (s.node j).retryTable.entries k e

variable {s s' : Mesh build} {i : ι} {node : RadioNode (build i)} {ids ids' : List UInt16}

/-- A node that holds no more of the message than it did, after a step that makes no new copies. -/
structure CopiesSame (m : MessageId) (ids : List UInt16) (s : Mesh build) (i : ι)
    (node : RadioNode (build i)) : Prop where
  framed : ∀ e ∈ node.retryTable.entries, e.valid = true → e.Framed
  queue : ∀ req ∈ node.txQueue.items, ∀ pktId, IsCopy m req.data pktId → pktId ∈ ids
  pending : ∀ e ∈ node.pendingQueue.entries, e.valid = true →
    ∀ pktId, IsCopy m e.data pktId → pktId ∈ ids
  slot : ∀ k e, HoldsCopy m node.retryTable.entries k e →
    HoldsCopy m (s.node i).retryTable.entries k e

theorem CopiesSame.kept (h : CopiesSame m ids s i node) (hi : CopyInv m ids s) :
    CopiesKept m ids ids s i node where
  subset := List.Subset.refl ids
  length_le := hi.length_le
  framed := h.framed
  queue := h.queue
  pending := h.pending
  held k e hholds := hi.held i k e (h.slot k e hholds)
  slot k e hholds := .inl ⟨e, h.slot k e hholds⟩
  others := .inl rfl

/-- A node whose tables are as they were and whose queue has no new frames. -/
theorem CopyInv.copiesSame_of_same (hi : CopyInv m ids s)
    (hrt : node.retryTable = (s.node i).retryTable)
    (hpq : node.pendingQueue = (s.node i).pendingQueue)
    (htx : ∀ req ∈ node.txQueue.items, req ∈ (s.node i).txQueue.items) :
    CopiesSame m ids s i node := by
  constructor
  · rw [hrt]
    exact hi.framed i
  · exact fun req hreq => hi.carried _ (.inr ⟨i, req, htx req hreq, rfl⟩)
  · rw [hpq]
    exact fun e he hvalid => hi.kept _ ⟨i, e, he, hvalid, rfl⟩
  · rw [hrt]
    exact fun _ _ hholds => hholds

/-! ### The sink -/

/-- The bytes are no frame of the message. -/
def NoCopy (m : MessageId) (data : List UInt8) : Prop :=
  ∀ x ∈ protocolDecode data (UInt8.ofNat data.length), ¬x.1.OfMessage m

instance NoCopy.decidable (m : MessageId) (data : List UInt8) : Decidable (NoCopy m data) :=
  inferInstanceAs (Decidable (∀ x ∈ _, _))

theorem NoCopy.not_isCopy {data : List UInt8} (h : NoCopy m data) (pktId : UInt16) :
    ¬IsCopy m data pktId := by
  rintro ⟨hdr, payload, hframe, hmessage, -⟩
  exact h (hdr, payloadPtr payload) hframe.decode hmessage

theorem noCopy_or_isCopy (m : MessageId) (data : List UInt8) :
    NoCopy m data ∨ ∃ pktId, IsCopy m data pktId := by
  by_cases h : NoCopy m data
  · exact .inl h
  · simp only [NoCopy, not_forall, not_not] at h
    obtain ⟨⟨hdr, pl⟩, hdec, hmessage⟩ := h
    obtain ⟨payload, -, hframe⟩ := isFrame_of_protocolDecode hdec
    exact .inr ⟨hdr.pktId, hdr, payload, hframe, hmessage, rfl⟩

section Sink

variable {start : RadioNode (build i)} {value : List UInt8} {nowMs : UInt32}

/-- What the sink does to the copies, when the value has its packet id among the given ones. -/
theorem CopyInv.sink (hi : CopyInv m ids s)
    (hsame : ∃ ctrlSeq, start = { s.node i with ctrlSeq := ctrlSeq }) (hsub : ids ⊆ ids')
    (hvalue : ∀ pktId, IsCopy m (sinkData value) pktId → pktId ∈ ids') :
    (∀ e ∈ (rfTxSinkCb start value nowMs).retryTable.entries, e.valid = true → e.Framed) ∧
      (∀ req ∈ (rfTxSinkCb start value nowMs).txQueue.items,
        ∀ pktId, IsCopy m req.data pktId → pktId ∈ ids') ∧
      (∀ e ∈ (rfTxSinkCb start value nowMs).pendingQueue.entries, e.valid = true →
        ∀ pktId, IsCopy m e.data pktId → pktId ∈ ids') ∧
      ((rfTxSinkCb start value nowMs).retryTable = (s.node i).retryTable ∨
        ∃ k e, (rfTxSinkCb start value nowMs).retryTable.entries =
            (s.node i).retryTable.entries.set k e ∧
          e.retriesLeft = retryMax ∧
          ∀ pktId, IsCopy m e.data pktId → IsCopy m (sinkData value) pktId) := by
  have heffect := sinkEffect_rfTxSinkCb start value nowMs
  -- only the sequence number may differ
  obtain ⟨hrt, htx, hpq⟩ : start.retryTable = (s.node i).retryTable ∧
      start.txQueue = (s.node i).txQueue ∧ start.pendingQueue = (s.node i).pendingQueue := by
    obtain ⟨ctrlSeq, rfl⟩ := hsame
    exact ⟨rfl, rfl, rfl⟩
  have hentry : (rfTxSinkCb start value nowMs).retryTable = start.retryTable ∨
      ∃ k e, (rfTxSinkCb start value nowMs).retryTable.entries =
          start.retryTable.entries.set k e ∧ e.Framed ∧ e.retriesLeft = retryMax ∧
        ∀ pktId, IsCopy m e.data pktId → IsCopy m (sinkData value) pktId := by
    rcases heffect.retry with hsame | hregisters
    · exact .inl hsame
    · exact hregisters.entry
  rw [hrt] at hentry
  refine ⟨fun e he hvalid => ?_, fun req hreq pktId hcopy => ?_, fun e he hvalid pktId hcopy => ?_,
    ?_⟩
  · rcases hentry with hsame | ⟨k, e', hset, hframed, -⟩
    · exact hi.framed i e (hsame ▸ he) hvalid
    · rw [hset] at he
      rcases List.mem_or_eq_of_mem_set he with hold | rfl
      · exact hi.framed i e hold hvalid
      · exact hframed
  · rcases heffect.queue req hreq with hold | hpush
    · exact hsub (hi.carried _ (.inr ⟨i, req, htx ▸ hold, rfl⟩) pktId hcopy)
    · exact hvalue pktId (hpush.isCopy hcopy)
  · rcases heffect.pending e he hvalid with hold | ⟨-, hdata⟩
    · exact hsub (hi.kept _ ⟨i, e, hpq ▸ hold, hvalid, rfl⟩ pktId hcopy)
    · exact hvalue pktId (hdata ▸ hcopy)
  · refine hentry.imp_right ?_
    rintro ⟨k, e, hset, -, hleft, hcopy⟩
    exact ⟨k, e, hset, hleft, hcopy⟩

/-- The sink makes no copies of other messages. -/
theorem CopyInv.copiesSame_sink (hi : CopyInv m ids s)
    (hsame : ∃ ctrlSeq, start = { s.node i with ctrlSeq := ctrlSeq })
    (hvalue : NoCopy m (sinkData value)) :
    CopiesSame m ids s i (rfTxSinkCb start value nowMs) := by
  obtain ⟨hframed, hqueue, hpending, hentry⟩ := hi.sink hsame
    (List.Subset.refl ids) fun pktId hcopy => absurd hcopy (hvalue.not_isCopy pktId)
  refine ⟨hframed, hqueue, hpending, ?_⟩
  rintro k e ⟨he, hvalid, pktId, hcopy⟩
  rcases hentry with hold | ⟨l, e', hset, -, hnew⟩
  · rw [hold] at he
    exact ⟨he, hvalid, pktId, hcopy⟩
  · rw [hset, List.getElem?_set] at he
    split_ifs at he with hkl hlt
    · obtain rfl := Option.some.inj he
      exact absurd (hnew pktId hcopy) (hvalue.not_isCopy pktId)
    · exact ⟨he, hvalid, pktId, hcopy⟩

/-- The message itself makes one packet id and at most one slot with all attempts left. -/
theorem CopyInv.copiesKept_sink (hi : CopyInv m [] s) (hnone : s.HoldsNone m)
    (hsame : ∃ ctrlSeq, start = { s.node i with ctrlSeq := ctrlSeq })
    (hvalue : IsCopy m (sinkData value) pktId) :
    CopiesKept m [] [pktId] s i (rfTxSinkCb start value nowMs) := by
  obtain ⟨hframed, hqueue, hpending, hentry⟩ := hi.sink hsame
    (List.nil_subset [pktId]) fun pktId' hcopy => List.mem_singleton.mpr (hvalue.unique hcopy)
  have hslot : ∀ k e, HoldsCopy m (rfTxSinkCb start value nowMs).retryTable.entries k e →
      ∃ l e', (rfTxSinkCb start value nowMs).retryTable.entries =
        (s.node i).retryTable.entries.set l e' ∧ e'.retriesLeft = retryMax ∧ l = k ∧ e' = e := by
    rintro k e ⟨he, hvalid, hcopy⟩
    rcases hentry with hold | ⟨l, e', hset, hleft, -⟩
    · rw [hold] at he
      exact absurd ⟨he, hvalid, hcopy⟩ (hnone i k e)
    · rw [hset, List.getElem?_set] at he
      split_ifs at he with hkl hlt
      · exact ⟨l, e', hset, hleft, hkl, Option.some.inj he⟩
      · exact absurd ⟨he, hvalid, hcopy⟩ (hnone i k e)
  constructor
  · exact List.nil_subset _
  · exact (by decide : 1 ≤ 5)
  · exact hframed
  · exact hqueue
  · exact hpending
  · intro k e hholds
    obtain ⟨l, e', -, hleft, -, rfl⟩ := hslot k e hholds
    rw [hleft]
    exact (by decide : 1 + retryMax.toNat + 1 ≤ 5)
  · intro k e hholds
    obtain ⟨l, e₁, hset, -, rfl, -⟩ := hslot k e hholds
    refine .inr ⟨hnone, fun l' e' hholds' => ?_⟩
    by_contra hne
    -- any other slot is as it was
    obtain ⟨he', hvalid', hcopy'⟩ := hholds'
    rw [hset, List.getElem?_set_ne (Ne.symm hne)] at he'
    exact hnone i l' e' ⟨he', hvalid', hcopy'⟩
  · exact .inr fun j _ k e => hnone j k e

end Sink

/-! ### The tick -/

theorem CopyInv.framed_retryTick (hi : CopyInv m ids s) (i : ι) (nowMs : UInt32) :
    ∀ e ∈ ((s.node i).retryTick nowMs).retryTable.entries, e.valid = true → e.Framed := by
  intro e he hvalid
  obtain ⟨e₀, he₀, hvalid₀, rfl | ⟨pktId, -, rfl⟩⟩ := mem_tickScan he hvalid
  · exact hi.framed i e he₀ hvalid
  · exact (hi.framed i e₀ he₀ hvalid₀).resend pktId nowMs

/-- A frame of the message that a tick pushes is from a slot that holds the message and was due,
under the id of its turn. -/
theorem CopyInv.of_mem_retryTick (hi : CopyInv m ids s) {nowMs : UInt32} {req : RfTxRequest}
    (hreq : req ∈ ((s.node i).retryTick nowMs).txQueue.items) (hcopy : IsCopy m req.data pktId) :
    pktId ∈ ids ∨ ∃ k e t', HoldsCopy m (s.node i).retryTable.entries k e ∧ e.Due nowMs ∧
      (tickCarried nowMs (s.node i).retryTable.entries
        ⟨(s.node i).txQueue, (s.node i).ctrlSeq, (s.node i).retryTable.count, 0⟩)[k]? = some t' ∧
      t'.freshPktId = pktId := by
  rcases mem_tickScan_txQueue hreq with hold | ⟨k, e, t', he, ht', hvalid, hdue, hdata⟩
  · exact .inl (hi.carried _ (.inr ⟨i, req, hold, rfl⟩) pktId hcopy)
  · rw [hdata] at hcopy
    obtain ⟨hheld, hpkt⟩ := (hi.framed i e (List.mem_of_getElem? he) hvalid).isCopy_tickFrame hcopy
    exact .inr ⟨k, e, t', ⟨he, hvalid, hheld⟩, hdue, ht', hpkt⟩

/-- A slot that holds the message after a tick held it before. -/
theorem CopyInv.slot_retryTick (hi : CopyInv m ids s) {nowMs : UInt32} {k : ℕ} {e : RetryEntry}
    (h : HoldsCopy m ((s.node i).retryTick nowMs).retryTable.entries k e) :
    ∃ e₀, HoldsCopy m (s.node i).retryTable.entries k e₀ ∧ ((¬e₀.Due nowMs ∧ e = e₀) ∨
      (e₀.Due nowMs ∧ 0 < e₀.retriesLeft ∧ e.retriesLeft = e₀.retriesLeft - 1)) := by
  obtain ⟨he, hvalid, pktId, hcopy⟩ := h
  obtain ⟨e₀, t', he₀, -, hvalid₀, ⟨hwait, rfl⟩ | ⟨hdue, hleft, rfl⟩⟩ := tickScan_slot he hvalid
  · exact ⟨e, ⟨he₀, hvalid₀, pktId, hcopy⟩, .inl ⟨hwait, rfl⟩⟩
  · have hheld := (hi.framed i e₀ (List.mem_of_getElem? he₀) hvalid₀).isCopy_resend hcopy
    exact ⟨e₀, ⟨he₀, hvalid₀, hheld⟩, .inr ⟨hdue, hleft, rfl⟩⟩

/-- **A tick** sends the message under one more packet id if the slot that holds it is due. -/
theorem CopyInv.retryTick (hi : CopyInv m ids s) (i : ι) (nowMs : UInt32) :
    CopiesSame m ids s i ((s.node i).retryTick nowMs) ∨
      ∃ pktId k e, HoldsCopy m (s.node i).retryTable.entries k e ∧
        CopiesKept m ids (pktId :: ids) s i ((s.node i).retryTick nowMs) := by
  have hframed := hi.framed_retryTick i nowMs
  by_cases hdue : ∃ k e, HoldsCopy m (s.node i).retryTable.entries k e ∧ e.Due nowMs
  · right
    obtain ⟨k, e, hholds, hdue⟩ := hdue
    -- the one slot that holds the message takes a fresh packet id
    obtain ⟨t', ht', -⟩ := tickScan_getElem? nowMs hholds.1
      ⟨(s.node i).txQueue, (s.node i).ctrlSeq, (s.node i).retryTable.count, 0⟩
    have hheld := hi.held i k e hholds
    have hsub : ids ⊆ t'.freshPktId :: ids := List.subset_cons_self _ _
    have hslot : ∀ l e', HoldsCopy m ((s.node i).retryTick nowMs).retryTable.entries l e' →
        l = k ∧ 0 < e.retriesLeft ∧ e'.retriesLeft = e.retriesLeft - 1 := by
      intro l e' hholds'
      obtain ⟨e₀, hholds₀, hturn⟩ := hi.slot_retryTick hholds'
      obtain ⟨-, rfl⟩ := hi.one i k e hholds i l e₀ hholds₀
      obtain rfl : e = e₀ := Option.some.inj (hholds.1.symm.trans hholds₀.1)
      rcases hturn with ⟨hwait, -⟩ | ⟨-, hleft, hone⟩
      · exact absurd hdue hwait
      · exact ⟨rfl, hleft, hone⟩
    refine ⟨t'.freshPktId, k, e, hholds, ?_⟩
    constructor
    · exact hsub
    · rw [List.length_cons]
      omega
    · exact hframed
    · intro req hreq pktId hcopy
      rcases hi.of_mem_retryTick hreq hcopy with hold | ⟨l, e', t'', hholds', -, ht'', rfl⟩
      · exact hsub hold
      · obtain ⟨-, rfl⟩ := hi.one i k e hholds i l e' hholds'
        obtain rfl : t' = t'' := Option.some.inj (ht'.symm.trans ht'')
        exact List.mem_cons_self
    · exact fun e he hvalid pktId hcopy => hsub (hi.kept _ ⟨i, e, he, hvalid, rfl⟩ pktId hcopy)
    · intro l e' hholds'
      obtain ⟨-, hleft, hone⟩ := hslot l e' hholds'
      have hpos : 0 < e.retriesLeft.toNat := UInt8.lt_iff_toNat_lt.mp hleft
      have hle : (1 : UInt8) ≤ e.retriesLeft := UInt8.le_iff_toNat_le.mpr hpos
      have hnat : e'.retriesLeft.toNat = e.retriesLeft.toNat - 1 := by
        rw [hone, UInt8.toNat_sub_of_le _ _ hle]
        rfl
      rw [List.length_cons, hnat]
      omega
    · intro l e' hholds'
      obtain ⟨rfl, -⟩ := hslot l e' hholds'
      exact .inl ⟨e, hholds⟩
    · exact .inr fun j hj l e' hholds' => hj (hi.one i k e hholds j l e' hholds').1
  · left
    constructor
    · exact hframed
    · intro req hreq pktId hcopy
      rcases hi.of_mem_retryTick hreq hcopy with hold | ⟨k, e, t', hholds, hnow, -⟩
      · exact hold
      · exact absurd ⟨k, e, hholds, hnow⟩ hdue
    · exact fun e he hvalid pktId hcopy => hi.kept _ ⟨i, e, he, hvalid, rfl⟩ pktId hcopy
    · intro k e hholds
      obtain ⟨e₀, hholds₀, ⟨-, rfl⟩ | ⟨hnow, -⟩⟩ := hi.slot_retryTick hholds
      · exact hholds₀
      · exact absurd ⟨k, e₀, hholds₀, hnow⟩ hdue

/-! ### Receiving -/

/-- Receiving a frame from the air makes no new copies. -/
theorem CopyInv.rfRxFrame (hi : CopyInv m ids s) {env : RxVerdicts} {frame : RfRxFrame}
    {nowMs : UInt32} (hair : frame.data ∈ s.air) :
    CopiesSame m ids s i (Rivr.rfRxFrame (s.node i) env frame nowMs).1 := by
  rcases hacc : (s.node i).accepted env frame nowMs with _ | ⟨hdr, pl⟩
  · obtain ⟨dedupe, fwdBudget, hdrop⟩ := rfRxFrame_of_not_accepts fun hdr pl h => by
      rw [accepted_eq_some_iff.mpr h] at hacc
      exact nomatch hacc
    rw [hdrop]
    exact hi.copiesSame_of_same rfl rfl fun _ hreq => hreq
  · have heffect := rxEffect_rfRxFrame (accepted_eq_some_iff.mp hacc)
    have hshrinks := shrinks_ackedTable (s.node i).retryTable hdr pl
    rw [← heffect.retry] at hshrinks
    constructor
    · exact fun e he hvalid => hi.framed i e (hshrinks.mem he hvalid) hvalid
    · intro req hreq pktId hcopy
      rcases heffect.queue req hreq with hold | hpush
      · exact hi.carried _ (.inr ⟨i, req, hold, rfl⟩) pktId hcopy
      · rcases hpush.isCopy hcopy with hframe | ⟨e, he, hvalid, hcopy⟩
        · exact hi.carried _ (.inl hair) pktId hframe
        · exact hi.kept _ ⟨i, e, he, hvalid, rfl⟩ pktId hcopy
    · intro e he hvalid pktId hcopy
      exact hi.kept _ ⟨i, e, heffect.pending e he hvalid, hvalid, rfl⟩ pktId hcopy
    · rintro k e ⟨he, hvalid, hcopy⟩
      exact ⟨hshrinks he hvalid, hvalid, hcopy⟩

/-! ### Actions -/

variable [DecidableEq ι]

/-- **Step lemma.** -/
theorem CopyInv.step (hi : CopyInv m ids s) (h : CopiesKept m ids ids' s i node)
    (hnode : s'.node = Function.update s.node i node)
    (hair : ∀ data ∈ s'.air, data ∈ s.air ∨ ∃ req ∈ (s.node i).txQueue.items, req.data = data)
    (hreceived : ∀ j, ∀ r ∈ s'.received j, r ∈ s.received j ∨
      ∃ data ∈ s.air, ∃ payload, IsFrame data r.hdr payload) : CopyInv m ids' s' := by
  have hself : s'.node i = node := by rw [hnode, Function.update_self]
  have hothers : ∀ j, j ≠ i → s'.node j = s.node j := fun j hj => by
    rw [hnode, Function.update_of_ne hj]
  constructor
  · intro j e he hvalid
    by_cases hj : j = i
    · subst hj
      exact h.framed e (hself ▸ he) hvalid
    · exact hi.framed j e (hothers j hj ▸ he) hvalid
  · rintro data (hdata | ⟨j, req, hreq, rfl⟩) pktId hcopy
    · rcases hair data hdata with hold | ⟨req, hreq, rfl⟩
      · exact h.subset (hi.carried data (.inl hold) pktId hcopy)
      · exact h.subset (hi.carried _ (.inr ⟨i, req, hreq, rfl⟩) pktId hcopy)
    · by_cases hj : j = i
      · subst hj
        exact h.queue req (hself ▸ hreq) pktId hcopy
      · rw [hothers j hj] at hreq
        exact h.subset (hi.carried _ (.inr ⟨j, req, hreq, rfl⟩) pktId hcopy)
  · rintro data ⟨j, e, he, hvalid, rfl⟩ pktId hcopy
    by_cases hj : j = i
    · subst hj
      exact h.pending e (hself ▸ he) hvalid pktId hcopy
    · rw [hothers j hj] at he
      exact h.subset (hi.kept _ ⟨j, e, he, hvalid, rfl⟩ pktId hcopy)
  · intro j r hr hmessage
    rcases hreceived j r hr with hold | ⟨data, hdata, payload, hframe⟩
    · exact h.subset (hi.received j r hold hmessage)
    · -- the frame was on the air
      exact h.subset (hi.carried data (.inl hdata) _ ⟨_, _, hframe, hmessage, rfl⟩)
  · intro j k e hholds
    by_cases hj : j = i
    · subst hj
      exact h.held k e (hself ▸ hholds)
    · rw [hothers j hj] at hholds
      rcases h.others with hsame | hnone
      · rw [hsame]
        exact hi.held j k e hholds
      · exact absurd hholds (hnone j hj k e)
  · -- of two slots that hold the message, each did so before unless it is the first
    have hbefore : ∀ j k e, HoldsCopy m (s'.node j).retryTable.entries k e →
        (∃ e₀, HoldsCopy m (s.node j).retryTable.entries k e₀) ∨
          (j = i ∧ s.HoldsNone m ∧ ∀ l e', HoldsCopy m node.retryTable.entries l e' → l = k) := by
      intro j k e hholds
      by_cases hj : j = i
      · subst hj
        rw [hself] at hholds
        exact (h.slot k e hholds).imp_right fun hfirst => ⟨rfl, hfirst⟩
      · rw [hothers j hj] at hholds
        exact .inl ⟨e, hholds⟩
    intro j k e hholds j' l e' hholds'
    -- no two slots come to hold the message in one step
    rcases hbefore j k e hholds with ⟨e₀, hold⟩ | ⟨rfl, hnone, honly⟩
    · rcases hbefore j' l e' hholds' with ⟨e₁, hold'⟩ | ⟨-, hnone, -⟩
      · exact hi.one j k e₀ hold j' l e₁ hold'
      · exact absurd hold (hnone j k e₀)
    · rcases hbefore j' l e' hholds' with ⟨e₁, hold'⟩ | ⟨rfl, -, -⟩
      · exact absurd hold' (hnone j' l e₁)
      · exact ⟨rfl, honly l e' (hself ▸ hholds')⟩
  · exact h.length_le

/-- A step that makes no new copies. -/
theorem CopyInv.step_same (hi : CopyInv m ids s) (h : CopiesSame m ids s i node)
    (hnode : s'.node = Function.update s.node i node)
    (hair : ∀ data ∈ s'.air, data ∈ s.air ∨ ∃ req ∈ (s.node i).txQueue.items, req.data = data)
    (hreceived : ∀ j, ∀ r ∈ s'.received j, r ∈ s.received j ∨
      ∃ data ∈ s.air, ∃ payload, IsFrame data r.hdr payload) :
    CopyInv m ids s' ∧ (s.HoldsNone m → s'.HoldsNone m) := by
  refine ⟨hi.step (h.kept hi) hnode hair hreceived, fun hnone j k e hholds => ?_⟩
  by_cases hj : j = i
  · subst hj
    rw [hnode, Function.update_self] at hholds
    exact hnone j k e (h.slot k e hholds)
  · rw [hnode, Function.update_of_ne hj] at hholds
    exact hnone j k e hholds

theorem CopyInv.setNode_same (hi : CopyInv m ids s) (h : CopiesSame m ids s i node) :
    CopyInv m ids (s.setNode i node) ∧ (s.HoldsNone m → (s.setNode i node).HoldsNone m) :=
  hi.step_same h rfl (fun _ hdata => .inl hdata) fun _ _ hr => .inl hr

/-- The action gives no frame of the message to a sink. -/
def Silent (m : MessageId) (_ : Mesh build) : MeshAction ι → Prop
  | .originate _ value => NoCopy m (sinkData value)
  | .bleFrame _ data _ => NoCopy m data
  | _ => True

instance Silent.decidable (m : MessageId) (s : Mesh build) : ∀ a, Decidable (Silent m s a)
  | .originate .. => inferInstanceAs (Decidable (NoCopy ..))
  | .bleFrame .. => inferInstanceAs (Decidable (NoCopy ..))
  | .retryTick _ => .isTrue trivial
  | .transmit _ => .isTrue trivial
  | .receive .. => .isTrue trivial
  | .wait .. => .isTrue trivial

/-- An application's frame has the same message in normal form. -/
theorem noCopy_normalized {data normalized : List UInt8} (h : NoCopy m data) {hdr : RivrPktHdr}
    {pl : Option (List UInt8)} {node : RadioNode cfg}
    (hdec : protocolDecode data (UInt8.ofNat data.length) = some (hdr, pl))
    (henc : protocolEncode (normalizedHdr node hdr) pl hdr.payloadLen [] rfMaxPayloadLen =
      some normalized) : NoCopy m (sinkData normalized) := by
  obtain ⟨payload, rfl, hframe⟩ := isFrame_of_protocolDecode hdec
  rw [hframe.protocolEncode] at henc
  obtain rfl := Option.some.inj henc
  have hshort : (wireFrame (normalizedHdr node hdr) payload).length ≤ rfMaxPayloadLen.toNat := by
    rw [wireFrame_length]
    exact Nat.add_le_add_left hframe.length_le 25
  rcases noCopy_or_isCopy m (sinkData (wireFrame (normalizedHdr node hdr) payload)) with
    hno | ⟨pktId, hcopy⟩
  · exact hno
  · rw [sinkData, List.take_of_length_le hshort] at hcopy
    exact absurd (hcopy.of_wireFrame hframe.type hframe.length_le).1 (h _ hdec)

/-- **A silent action** makes new copies only from a slot that holds the message. -/
theorem CopyInv.act (hi : CopyInv m ids s) {a : MeshAction ι} (ha : Silent m s a) :
    ∃ ids', CopyInv m ids' (s.act a) ∧
      (s.HoldsNone m → ids' = ids ∧ (s.act a).HoldsNone m) := by
  have hsame : ∀ {i : ι} {node : RadioNode (build i)}, CopiesSame m ids s i node →
      ∃ ids', CopyInv m ids' (s.setNode i node) ∧
        (s.HoldsNone m → ids' = ids ∧ (s.setNode i node).HoldsNone m) := by
    intro i node h
    exact ⟨ids, (hi.setNode_same h).1, fun hn => ⟨rfl, (hi.setNode_same h).2 hn⟩⟩
  cases a with
  | originate i value => exact hsame (hi.copiesSame_sink ⟨_, rfl⟩ ha)
  | bleFrame i data allowed =>
    obtain ⟨ctrlSeq, hdrop⟩ | ⟨hdr, pl, normalized, hdec, -, henc, hsink⟩ :=
      sourceHandleBleOrigination_cases (s.node i) data allowed (s.clock i)
    · rw [Mesh.act, hdrop]
      exact hsame (hi.copiesSame_of_same rfl rfl fun _ hreq => hreq)
    · rw [Mesh.act, hsink]
      exact hsame (hi.copiesSame_sink (numbered_eq (s.node i) hdr) (noCopy_normalized ha hdec henc))
  | retryTick i =>
    rcases hi.retryTick i (s.clock i) with h | ⟨pktId, k, e, hholds, hkept⟩
    · exact hsame h
    · -- a resend is the only silent action that makes a new packet id
      refine ⟨pktId :: ids, ?_, fun hnone => absurd hholds (hnone i k e)⟩
      exact hi.step hkept rfl (fun _ hdata => .inl hdata) fun _ _ hr => .inl hr
  | transmit i =>
    rw [Mesh.act, Mesh.transmit]
    rcases rbPop_cases (s.node i).txQueue with hpop | ⟨req, rest, hpop, hitems⟩
    · rw [hpop]
      exact ⟨ids, hi, fun hnone => ⟨rfl, hnone⟩⟩
    · rw [hpop]
      have hkept : CopiesSame m ids s i { s.node i with txQueue := rest } :=
        hi.copiesSame_of_same rfl rfl fun r hr => by
          rw [hitems]
          exact List.mem_cons_of_mem _ hr
      have hair : ∀ data ∈ s.air ++ [req.data],
          data ∈ s.air ∨ ∃ r ∈ (s.node i).txQueue.items, r.data = data := by
        intro data hdata
        refine (List.mem_append.mp hdata).imp_right fun hnew => ?_
        rw [List.mem_singleton.mp hnew, hitems]
        exact ⟨req, List.mem_cons_self, rfl⟩
      have hstep : CopyInv m ids { s.setNode i { s.node i with txQueue := rest } with
            air := s.air ++ [req.data] } ∧ (s.HoldsNone m → Mesh.HoldsNone { s.setNode i
            { s.node i with txQueue := rest } with air := s.air ++ [req.data] } m) :=
        hi.step_same hkept rfl hair fun _ _ hr => .inl hr
      exact ⟨ids, hstep.1, fun hn => ⟨rfl, hstep.2 hn⟩⟩
  | receive i number rssiDbm snrDb env =>
    rw [Mesh.act]
    split
    · exact ⟨ids, hi, fun hnone => ⟨rfl, hnone⟩⟩
    · rename_i data hdata
      have hair : data ∈ s.air := List.mem_of_getElem? hdata
      have hreceived : ∀ j, ∀ r ∈ (s.receive i (driverFrame data rssiDbm snrDb) env).received j,
          r ∈ s.received j ∨ ∃ data ∈ s.air, ∃ payload, IsFrame data r.hdr payload := by
        intro j r hr
        rcases mem_received_receive.mp hr with hold | ⟨-, ⟨hdr, pl⟩, hacc, rfl⟩
        · exact .inl hold
        · obtain ⟨payload, -, hframe⟩ :=
            isFrame_of_protocolDecode (accepted_eq_some_iff.mp hacc).decoded
          exact .inr ⟨data, hair, payload, hframe⟩
      have hkept : CopiesSame m ids s i
          (Rivr.rfRxFrame (s.node i) env (driverFrame data rssiDbm snrDb) (s.clock i)).1 :=
        hi.rfRxFrame hair
      have hnode : (s.receive i (driverFrame data rssiDbm snrDb) env).node = Function.update s.node i
          (Rivr.rfRxFrame (s.node i) env (driverFrame data rssiDbm snrDb) (s.clock i)).1 := rfl
      have hstep := hi.step_same hkept hnode (fun _ hdata => .inl hdata) hreceived
      exact ⟨ids, hstep.1, fun hn => ⟨rfl, hstep.2 hn⟩⟩
  | wait i ms =>
    refine ⟨ids, ⟨hi.framed, hi.carried, hi.kept, hi.received, hi.held, hi.one, hi.length_le⟩,
      fun hnone => ⟨rfl, hnone⟩⟩

/-- **The first sending.** Whatever happens in a mesh without the message, its copies have one
packet id at most. -/
theorem CopyInv.act_first (hi : CopyInv m [] s) (hnone : s.HoldsNone m) (a : MeshAction ι) :
    ∃ ids, CopyInv m ids (s.act a) := by
  have hsilent : Silent m s a → ∃ ids, CopyInv m ids (s.act a) := fun ha =>
    (hi.act ha).imp fun _ h => h.1
  have hfirst : ∀ {i : ι} {start : RadioNode (build i)} {value : List UInt8} {nowMs : UInt32}
      {pktId : UInt16}, (∃ ctrlSeq, start = { s.node i with ctrlSeq := ctrlSeq }) →
      IsCopy m (sinkData value) pktId →
      ∃ ids, CopyInv m ids (s.setNode i (rfTxSinkCb start value nowMs)) := by
    intro i start value nowMs pktId hsame hvalue
    exact ⟨[pktId], hi.step (hi.copiesKept_sink hnone hsame hvalue) rfl
      (fun _ hdata => .inl hdata) fun _ _ hr => .inl hr⟩
  cases a with
  | originate i value =>
    rcases noCopy_or_isCopy m (sinkData value) with hno | ⟨pktId, hcopy⟩
    · exact hsilent hno
    · exact hfirst ⟨_, rfl⟩ hcopy
  | bleFrame i data allowed =>
    obtain ⟨ctrlSeq, hdrop⟩ | ⟨hdr, pl, normalized, -, -, -, hsink⟩ :=
      sourceHandleBleOrigination_cases (s.node i) data allowed (s.clock i)
    · have hsame : CopiesSame m [] s i { s.node i with ctrlSeq := ctrlSeq } :=
        hi.copiesSame_of_same rfl rfl fun _ hreq => hreq
      rw [Mesh.act, hdrop]
      exact ⟨[], (hi.setNode_same hsame).1⟩
    · rw [Mesh.act, hsink]
      rcases noCopy_or_isCopy m (sinkData normalized) with hno | ⟨pktId, hcopy⟩
      · exact ⟨[], (hi.setNode_same (hi.copiesSame_sink (numbered_eq (s.node i) hdr) hno)).1⟩
      · exact hfirst (numbered_eq (s.node i) hdr) hcopy
  | retryTick i => exact hsilent trivial
  | transmit i => exact hsilent trivial
  | receive i number rssiDbm snrDb env => exact hsilent trivial
  | wait i ms => exact hsilent trivial

/-- **Every run.** In every run from the start in which the message goes to a sink once, its copies
have at most five packet ids. -/
theorem exists_copyInv {s₀ s₁ : Mesh build} {a : MeshAction ι} (hboot : s₀.Booted)
    (before : MeshRun (Silent m) s₀ s₁) (after : MeshRun (Silent m) (s₁.act a) s) :
    ∃ ids, CopyInv m ids s := by
  have hkeep : ∀ (s : Mesh build) (a : MeshAction ι), CopyInv m [] s ∧ s.HoldsNone m →
      Silent m s a → CopyInv m [] (s.act a) ∧ (s.act a).HoldsNone m := by
    rintro s a ⟨hi, hnone⟩ ha
    obtain ⟨ids', hi', hsame⟩ := hi.act ha
    obtain ⟨rfl, hnone'⟩ := hsame hnone
    exact ⟨hi', hnone'⟩
  have hgrow : ∀ (s : Mesh build) (a : MeshAction ι), (∃ ids, CopyInv m ids s) → Silent m s a →
      ∃ ids, CopyInv m ids (s.act a) := by
    rintro s a ⟨ids, hi⟩ ha
    exact (hi.act ha).imp fun _ h => h.1
  obtain ⟨hi, hnone⟩ := before.invariant (copyInv_booted hboot m) hkeep
  exact after.invariant (hi.act_first hnone a) hgrow

end Rivr
