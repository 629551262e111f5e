import Rivr.Firmware.AckInvariant

/-!
# End-to-end acknowledgement

An entry of the retry table stands for a message that its destination has not acknowledged. Four
places have to agree for this: the key under which the sink registers a frame, the header it gives
the frame, the acknowledgement that a receiver builds, and the matching in `retry_table_ack`.

The sink addresses the frame to the next hop and registers it under the node's own id, and whoever a
frame is addressed to acknowledges it under the frame's source. So it is the next hop that clears
the entry of a routed message (`not_endToEndAck`), and the acknowledgement of a frame with a source
of its own clears nothing (`not_endToEndAck_bleMessage`). In every run that registers neither kind
of frame, forges no acknowledgement and takes no packet id twice, the entries mean what they should
(`endToEndAck`).
-/

namespace Rivr

open SlotTable

variable {cfg : BuildConfig} {ι : Type*} {build : ι → BuildConfig}

/-! ### The law -/

/-- What was received is a copy of the message of the entry. -/
def Reception.CopyOf (r : Reception) (e : RetryEntry) : Prop :=
  ∃ x ∈ protocolDecode e.data (UInt8.ofNat e.data.length),
    x.1.pktType = r.hdr.pktType ∧ x.1.srcId = r.hdr.srcId ∧ x.1.seq = r.hdr.seq ∧ x.2 = r.payload

instance Reception.decidableCopyOf (r : Reception) (e : RetryEntry) : Decidable (r.CopyOf e) :=
  inferInstanceAs (Decidable (∃ x ∈ _, _))

/-- The acknowledgement that a node builds for a frame, or a relayed copy of it. -/
inductive AckOf (myId : UInt32) (hdr : RivrPktHdr) : List UInt8 → Prop
  | built {data : List UInt8} (seq pktId : UInt16) :
      routingBuildAck myId hdr.srcId hdr.srcId hdr.pktId seq pktId = some data → AckOf myId hdr data
  | relayed {data payload : List UInt8} {ackHdr : RivrPktHdr} (ttl : UInt8) :
      AckOf myId hdr data → IsFrame data ackHdr payload →
      AckOf myId hdr (wireFrame { relayHdr ackHdr with ttl := ttl } payload)

/-- The entry is in a slot of the node's retry table. -/
def Mesh.Waiting (s : Mesh build) (i : ι) (k : ℕ) (e : RetryEntry) : Prop :=
  (s.node i).retryTable.entries[k]? = some e ∧ e.valid = true

instance Mesh.decidableWaiting (s : Mesh build) (i : ι) (k : ℕ) (e : RetryEntry) :
    Decidable (s.Waiting i k e) := inferInstanceAs (Decidable (_ ∧ _))

/-- End-to-end acknowledgement. An entry that goes when a frame is received belongs to a message of
which its destination has received a copy; and an acknowledgement that the addressed node builds
for a copy with the entry's packet id clears the entry when it reaches the node. -/
structure Mesh.EndToEndAck [DecidableEq ι] (s : Mesh build) : Prop where
  cleared : ∀ i k e, s.Waiting i k e → ∀ number rssiDbm snrDb env,
    ¬(s.act (.receive i number rssiDbm snrDb env)).Waiting i k e →
      ∃ j, (s.node j).myNodeId = e.dstId ∧ ∃ r ∈ s.received j, r.CopyOf e
  clears : ∀ i k e, s.Waiting i k e → ∀ j, ∀ r ∈ s.received j, r.CopyOf e →
    r.hdr.pktId = e.curPktId → r.hdr.AsksAck → r.hdr.dstId = (s.node j).myNodeId →
    ∀ env frame, AckOf (s.node j).myNodeId r.hdr frame.data →
      ((s.node i).accepted env frame (s.clock i)).isSome = true →
      (rfRxFrame (s.node i) env frame (s.clock i)).1.retryTable.entries[k]? = some .empty

variable [DecidableEq ι]

/-! ### The law holds -/

/-- An acknowledgement that a node builds for a frame is one, of that frame, however often it is
relayed. -/
theorem AckOf.parseAck {myId : UInt32} {hdr : RivrPktHdr} {data : List UInt8}
    (h : AckOf myId hdr data) : ∃ ackHdr payload, IsFrame data ackHdr payload ∧
      ackHdr.pktType = pktAck ∧ parseAck ackHdr (payloadPtr payload) = some (hdr.srcId, hdr.pktId) := by
  induction h with
  | built seq pktId hbuilt =>
    rw [routingBuildAck_eq] at hbuilt
    obtain rfl := Option.some.inj hbuilt
    have htype : 1 ≤ pktAck ∧ pktAck ≤ pktMetrics := by decide
    have hlen : (ackBytes hdr.srcId hdr.pktId).length ≤ 230 := (by decide : 6 ≤ 230)
    have hframe := isFrame_wireFrame (controlHdr pktAck myId hdr.srcId seq pktId ackPayloadLen)
      htype hlen
    exact ⟨_, _, hframe, rfl, parseAck_bytes hdr.srcId hdr.pktId hframe.payloadLen⟩
  | relayed ttl _ hframe ih =>
    obtain ⟨ackHdr, payload, hframe', htype, hparsed⟩ := ih
    obtain ⟨rfl, rfl⟩ := hframe.unique hframe'
    have hrelayed := isFrame_wireFrame { relayHdr _ with ttl := ttl } hframe.type hframe.length_le
    refine ⟨_, _, hrelayed, htype, ?_⟩
    rw [← hparsed]
    exact parseAck_congr hframe.payloadLen.symm _

/-- An acknowledgement that changes a slot meets the entry that waits for it there. -/
theorem awaits_of_ackedTable_ne {n : ℕ} {rt : RetryTable n} {hdr : RivrPktHdr}
    {pl : Option (List UInt8)} {k : ℕ} {e : RetryEntry} (he : rt.entries[k]? = some e)
    (hgone : (ackedTable rt hdr pl).entries[k]? ≠ some e) :
    hdr.pktType = pktAck ∧ ∃ key ∈ parseAck hdr pl, e.Awaits key.1 key.2 := by
  rw [ackedTable] at hgone
  split_ifs at hgone with htype
  · split at hgone
    · exact absurd he hgone
    · rename_i ackSrcId ackPktId hparsed
      refine ⟨htype, _, hparsed, ?_⟩
      rcases retryTableAck_cases rt ackSrcId ackPktId with hsame | ⟨l, x, hx, hawaits, hset, -⟩
      · rw [hsame] at hgone
        exact absurd he hgone
      · rw [hset] at hgone
        by_cases hkl : l = k
        · subst hkl
          obtain rfl := Option.some.inj (he.symm.trans hx)
          exact hawaits
        · rw [List.getElem?_set_ne hkl] at hgone
          exact absurd he hgone
  · exact absurd he hgone

/-- Where packet ids are taken once, an acknowledgement clears the entry that waits for it. -/
theorem retryTableAck_getElem? {n : ℕ} {rt : RetryTable n}
    (hone : OneEach (·.valid = true) RetryEntry.curPktId rt.entries) {k : ℕ} {e : RetryEntry}
    (he : rt.entries[k]? = some e) {ackSrcId : UInt32} {ackPktId : UInt16}
    (hawaits : e.Awaits ackSrcId ackPktId) :
    (retryTableAck rt ackSrcId ackPktId).2.entries[k]? = some .empty := by
  rw [retryTableAck]
  split
  · rename_i hnone
    have hno := List.findIdx?_eq_none_iff.mp hnone e (List.mem_of_getElem? he)
    exact absurd hawaits (of_decide_eq_false hno)
  · rename_i l hl
    obtain ⟨hlt, hfirst, -⟩ := List.findIdx?_eq_some_iff_getElem.mp hl
    have hawaits' := of_decide_eq_true hfirst
    obtain rfl : l = k := hone (List.getElem?_eq_getElem hlt) he hawaits'.1 hawaits.1
      (hawaits'.2.2.trans hawaits.2.2.symm)
    exact List.getElem?_set_self hlt

/-- **Every mesh that keeps the invariant obeys the law.** -/
theorem AckInv.obeys {s : Mesh build} (hi : AckInv s) : s.EndToEndAck := by
  constructor
  · rintro i k e ⟨he, hvalid⟩ number rssiDbm snrDb env hgone
    rw [Mesh.act] at hgone
    split at hgone
    · exact absurd ⟨he, hvalid⟩ hgone
    · rename_i data hdata
      have hnode : (s.receive i (driverFrame data rssiDbm snrDb) env).node i =
          (rfRxFrame (s.node i) env (driverFrame data rssiDbm snrDb) (s.clock i)).1 :=
        Function.update_self ..
      rw [Mesh.Waiting, hnode, not_and_or, or_iff_left (not_not_intro hvalid)] at hgone
      rcases hacc : (s.node i).accepted env (driverFrame data rssiDbm snrDb) (s.clock i) with
        _ | ⟨hdr, pl⟩
      · obtain ⟨dedupe, fwdBudget, hdrop⟩ := rfRxFrame_of_not_accepts fun hdr pl h => by
          rw [accepted_eq_some_iff.mpr h] at hacc
          cases hacc
        rw [hdrop] at hgone
        exact absurd he hgone
      · have haccepts := accepted_eq_some_iff.mp hacc
        rw [(rxEffect_rfRxFrame haccepts).retry] at hgone
        obtain ⟨htype, key, hkey, -, hsrc, hpkt⟩ := awaits_of_ackedTable_ne he hgone
        -- the acknowledgement was asked for, and by a frame of this entry
        obtain ⟨payload, rfl, hframe⟩ := isFrame_of_protocolDecode haccepts.decoded
        obtain ⟨hackTrue, -⟩ := hi.carried data (.inl (List.mem_of_getElem? hdata))
        obtain ⟨j, r, hr, hrsrc, hrpkt, hasks, hdst⟩ := hackTrue hdr payload hframe htype key hkey
        obtain ⟨data', hair', payload', hframe', hrpl⟩ := hi.received j r hr
        have howned := hi.owned i e (List.mem_of_getElem? he) hvalid
        have hawaits : s.AwaitsAck r.hdr.srcId r.hdr.pktId e :=
          ⟨i, List.mem_of_getElem? he, hvalid, by rw [hrsrc, ← hsrc, howned.ackSrcId],
            by rw [hrpkt, hpkt]⟩
        obtain ⟨hedst, hdr₀, hcopy, htype₀, hsrc₀, hseq₀⟩ :=
          (hi.carried data' (.inl hair')).2 r.hdr payload' hframe' hasks e hawaits
        refine ⟨j, by rw [← hdst, hedst], r, hr, _, hcopy.decode, htype₀, hsrc₀, hseq₀, hrpl.symm⟩
  · rintro i k e ⟨he, hvalid⟩ j r - ⟨⟨hdr₀, pl⟩, hdec, -, hsrc₀, -⟩ hpkt - - env frame hack hacc
    obtain ⟨⟨hdr, pl'⟩, hacc⟩ := Option.isSome_iff_exists.mp hacc
    have haccepts := accepted_eq_some_iff.mp hacc
    have howned := hi.owned i e (List.mem_of_getElem? he) hvalid
    obtain ⟨hdr₁, payload₁, hholds, hsrc₁, -⟩ := howned.frame
    obtain ⟨payload₀, -, hframe₀⟩ := isFrame_of_protocolDecode hdec
    obtain ⟨rfl, -⟩ := hholds.sends hframe₀
    -- the acknowledgement has the key of the entry
    obtain ⟨ackHdr, payload, hframe, htype, hparsed⟩ := hack.parseAck
    obtain ⟨rfl, rfl⟩ := Prod.mk.inj (Option.some.inj (hframe.decode.symm.trans haccepts.decoded))
    have hawaits : e.Awaits r.hdr.srcId r.hdr.pktId :=
      ⟨hvalid, by rw [howned.ackSrcId, ← hsrc₀, ← hsrc₁]; rfl, hpkt.symm⟩
    rw [(rxEffect_rfRxFrame haccepts).retry, ackedTable, if_pos htype, hparsed]
    exact retryTableAck_getElem? (hi.oneEach i) he hawaits

/-- **End-to-end acknowledgement.** In every run from the start in which the frames that are
registered are the node's own and have one hop to go, no acknowledgement is forged, and no packet
id is taken that is in use. -/
theorem endToEndAck {s₀ s : Mesh build} (hboot : s₀.Booted) (run : MeshRun AckSafe s₀ s) :
    s.EndToEndAck :=
  (run.invariant (ackInv_booted hboot) fun _ _ hi ha => hi.act ha).obeys

instance Trio.fintype : Fintype Trio := ⟨{.a, .b, .d}, fun i => by cases i <;> decide⟩

/-- `0xA` hears `0xD` and sends it a message, which `0xD` acknowledges. -/
def directMessage : List (MeshAction Trio) :=
  [.originate .d (chatFrame 0xD 0 77), .transmit .d, hears .a 0, .wait .a 1000,
    .originate .a (chatFrame 0xA 0xD 78), .transmit .a, hears .d 1, .transmit .d, hears .a 2]

theorem allows_directMessage : trioStart.Allows AckSafe directMessage := by decide +kernel

/-- A message to a neighbour. -/
theorem endToEndAck_directMessage : (trioStart.run directMessage).EndToEndAck :=
  endToEndAck booted_trioStart (MeshRun.start.run allows_directMessage)

/-- `0xA` sends a message to `0xD` through `0xB`, which acknowledges it. -/
def routedMessage : List (MeshAction Trio) :=
  askNeighbor ++ [.originate .a (chatFrame 0xA 0xD 80), .transmit .a, .transmit .a, .transmit .a,
    hears .b 5, .transmit .b, .transmit .b]

/-- The first entry of a retry table. -/
def firstEntry (node : RadioNode cfg) : RetryEntry := node.retryTable.entries.headD .empty

/-- **The next hop acknowledges.** The entry of the message is cleared, and its destination has
received nothing. -/
theorem not_endToEndAck :
    ¬∀ s₀ s : Mesh fun _ : Trio => clientBuild, s₀.Booted → MeshRun (fun _ _ => True) s₀ s →
      s.EndToEndAck := by
  intro hall
  have hlaw := hall _ _ booted_trioStart (meshRun_run trioStart routedMessage)
  have hlost : (trioStart.run routedMessage).Waiting .a 0
        (firstEntry ((trioStart.run routedMessage).node .a)) ∧
      ¬((trioStart.run routedMessage).act (hears .a 7)).Waiting .a 0
        (firstEntry ((trioStart.run routedMessage).node .a)) ∧
      ∀ j, ((trioStart.run routedMessage).node j).myNodeId =
          (firstEntry ((trioStart.run routedMessage).node .a)).dstId →
        ∀ r ∈ (trioStart.run routedMessage).received j,
          ¬r.CopyOf (firstEntry ((trioStart.run routedMessage).node .a)) := by
    decide +kernel
  obtain ⟨hwaiting, hgone, hnone⟩ := hlost
  obtain ⟨j, hid, r, hr, hcopy⟩ := hlaw.cleared .a 0 _ hwaiting 7 (-60) 10 ⟨true, true, 0⟩ hgone
  exact hnone j hid r hr hcopy

/-- An application of `0xA` with an id of its own sends a message to `0xD`. -/
def bleMessage : List (MeshAction Trio) :=
  [.originate .d (chatFrame 0xD 0 77), .transmit .d, hears .a 0, .wait .a 1000,
    .bleFrame .a (chatFrame 0x99 0xD 78) true, .transmit .a, hears .d 1]

/-- The acknowledgement that `0xD` builds for it. -/
def bleMessageAck : RfRxFrame :=
  driverFrame (wireFrame (controlHdr pktAck 0xD 0x99 1 1 ackPayloadLen) (ackBytes 0x99 78)) (-60) 10

/-- **A source of its own.** The acknowledgement of the message clears nothing. -/
theorem not_endToEndAck_bleMessage :
    ¬∀ s₀ s : Mesh fun _ : Trio => clientBuild, s₀.Booted → MeshRun (fun _ _ => True) s₀ s →
      s.EndToEndAck := by
  intro hall
  have hlaw := hall _ _ booted_trioStart (meshRun_run trioStart bleMessage)
  have hreceived : (trioStart.run bleMessage).Waiting .a 0
        (firstEntry ((trioStart.run bleMessage).node .a)) ∧
      ∃ r ∈ (trioStart.run bleMessage).received .d,
        r.CopyOf (firstEntry ((trioStart.run bleMessage).node .a)) ∧
        r.hdr.pktId = (firstEntry ((trioStart.run bleMessage).node .a)).curPktId ∧
        r.hdr.AsksAck ∧ r.hdr.dstId = 0xD ∧ r.hdr.srcId = 0x99 ∧ r.hdr.pktId = 78 := by
    decide +kernel
  obtain ⟨hwaiting, r, hr, hcopy, hpkt, hasks, hdst, hsrc, hpkt'⟩ := hreceived
  have hid : ((trioStart.run bleMessage).node .d).myNodeId = 0xD := by decide +kernel
  have hack : AckOf ((trioStart.run bleMessage).node .d).myNodeId r.hdr bleMessageAck.data := by
    refine .built 1 1 ?_
    rw [hid, hsrc, hpkt', routingBuildAck_eq]
    rfl
  have hcleared := hlaw.clears .a 0 _ hwaiting .d r hr hcopy hpkt hasks (hdst.trans hid.symm)
    ⟨true, true, 0⟩ bleMessageAck hack (by decide +kernel)
  exact absurd hcleared (by decide +kernel)

end Rivr
