import Rivr.Firmware.Rml

/-!
# The codecs of the message layer

`rml_codec.c` and the payload codecs of `rml.c`: the message itself, the delta that an edit of a
text carries, and the request for a message that is missing. Each decoder returns what its encoder
was given, whatever bytes follow, and reads no byte that it was not given.

Some fields of a message do not travel: `RmlMessage.onWire` is what arrives of it.
-/

namespace Rivr

open LittleEndian

/-! ### Payload codecs -/

def rmlTypeRepairRequest : UInt8 := 8
def rmlRelOpportunistic : UInt8 := 0
def rmlRepairPayloadLen : ℕ := 10

/-- `rml_delta_payload_encode`. -/
def rmlDeltaPayloadEncode (delta : RmlDelta) (outCap : ℕ) : Option (List UInt8) :=
  if delta.data.length > rmlMaxPayload then none
  else if outCap < 7 + delta.data.length then none
  else some ([delta.op, u16Byte delta.offset 0, u16Byte delta.offset 8,
    u16Byte delta.deleteLen 0, u16Byte delta.deleteLen 8,
    u16Byte (UInt16.ofNat delta.data.length) 0, u16Byte (UInt16.ofNat delta.data.length) 8] ++
    delta.data)

/-- `rml_make_repair_request`. -/
def rmlMakeRepairRequest (senderId targetId : UInt16) (repair : RmlRepairRequest) : RmlMessage :=
  let msgId := repair.missingMsgId ^^^ repair.threadId ^^^ (senderId.toUInt32 <<< 16)
  { magic := rmlMagic
    version := rmlVersion
    type := rmlTypeRepairRequest
    flags := 0
    -- a request never has number zero
    msgId := if msgId = 0 then 1 else msgId
    threadId := repair.threadId
    prevId := repair.missingMsgId
    senderId := senderId
    targetId := targetId
    intent := rmlIntentSystem
    priority := 6
    ttl := 3
    reliability := rmlRelOpportunistic
    expiresS := 0
    supersedes := false
    stateType := repair.threadId.toUInt16
    softTtlS := 0
    createdMs := 0
    payload := [u32Byte repair.missingMsgId 0, u32Byte repair.missingMsgId 8,
      u32Byte repair.missingMsgId 16, u32Byte repair.missingMsgId 24,
      u32Byte repair.threadId 0, u32Byte repair.threadId 8, u32Byte repair.threadId 16,
      u32Byte repair.threadId 24, u16Byte repair.senderId 0, u16Byte repair.senderId 8] }

/-- `rml_repair_request_decode`. -/
def rmlRepairRequestDecode (msg : RmlMessage) : Option RmlRepairRequest :=
  if msg.type ≠ rmlTypeRepairRequest ∨ msg.payload.length < rmlRepairPayloadLen then none
  else some ⟨getU32 msg.payload 0, getU32 msg.payload 4, getU16 msg.payload 8⟩

/-! ### What arrives of a message -/

/-- The message as it arrives: magic and version are the constants, the flag and the field for
superseding are one, the state type is that of the thread, and neither the time of creation nor the
soft time to live travels. -/
def RmlMessage.onWire (msg : RmlMessage) : RmlMessage :=
  { msg with
    magic := rmlMagic
    version := rmlVersion
    flags := msg.wireFlags
    supersedes := msg.wireFlags &&& rmlFlagSupersedes ≠ 0
    stateType := msg.threadId.toUInt16
    softTtlS := 0
    createdMs := 0 }

/-- A flag that is set is set by setting it. -/
theorem or_rmlFlagSupersedes {flags : UInt8} (h : flags &&& rmlFlagSupersedes ≠ 0) :
    flags ||| rmlFlagSupersedes = flags := by
  have hbits : ∀ b : BitVec 8, b &&& 1 ≠ 0 → b ||| 1 = b := by decide
  refine UInt8.toBitVec_inj.mp (hbits flags.toBitVec fun hzero => h ?_)
  exact UInt8.toBitVec_inj.mp hzero

/-- Where the flag says what the field says, both arrive. -/
theorem RmlMessage.onWire_of_agrees {msg : RmlMessage}
    (h : msg.supersedes = true ↔ msg.flags &&& rmlFlagSupersedes ≠ 0) :
    msg.onWire.flags = msg.flags ∧ msg.onWire.supersedes = msg.supersedes := by
  have hflags : msg.wireFlags = msg.flags := by
    rw [wireFlags]
    split_ifs with hs
    · exact or_rmlFlagSupersedes (h.mp hs)
    · rfl
  refine ⟨hflags, ?_⟩
  rw [onWire, hflags, Bool.eq_iff_iff, h, decide_eq_true_iff]

@[simp]
theorem rmlHeader_length (msg : RmlMessage) : (rmlHeader msg).length = 28 := rfl

theorem toNat_ofNat_payload {n : ℕ} (h : n ≤ rmlMaxPayload) : (UInt16.ofNat n).toNat = n :=
  UInt16.toNat_ofNat_of_lt' (by
    have : n ≤ 160 := h
    simp only [UInt16.size]
    omega)

/-- **Messages.** What was encoded is decoded, whatever follows it. -/
theorem rmlDecode_rmlEncode {msg : RmlMessage} {outCap : ℕ} {data : List UInt8}
    (h : rmlEncode msg outCap = some data) (rest : List UInt8) :
    rmlDecode (data ++ rest) = some msg.onWire := by
  rw [rmlEncode] at h
  split_ifs at h with hmax hcap
  obtain rfl := Option.some.inj h
  have hlen : getU16 (rmlHeader msg ++ msg.payload ++ rest) 26 =
      UInt16.ofNat msg.payload.length := by
    simp [getU16, rmlHeader]
  have hpayload := toNat_ofNat_payload (Nat.not_lt.mp hmax)
  have hfits : ¬(rmlHeader msg ++ msg.payload ++ rest).length <
      rmlWireHdrLen + msg.payload.length := by
    simp only [List.length_append, rmlHeader_length, rmlWireHdrLen]
    omega
  have hhdr : ¬(rmlHeader msg ++ msg.payload ++ rest).length < rmlWireHdrLen := by
    simp only [List.length_append, rmlHeader_length, rmlWireHdrLen]
    omega
  have hbytes : ((rmlHeader msg ++ msg.payload ++ rest).drop rmlWireHdrLen).take
      msg.payload.length = msg.payload := by
    rw [List.append_assoc, rmlWireHdrLen, ← rmlHeader_length msg, List.drop_left, List.take_left]
  have hmagic : ¬(rmlHeader msg ++ msg.payload ++ rest).getD 0 0 ≠ rmlMagic := not_not.mpr rfl
  have hversion : ¬(rmlHeader msg ++ msg.payload ++ rest).getD 1 0 ≠ rmlVersion := not_not.mpr rfl
  rw [rmlDecode, if_neg hhdr, if_neg hmagic, if_neg hversion, hlen, hpayload]
  dsimp only
  rw [if_neg hmax, if_neg hfits, hbytes]
  simp [RmlMessage.onWire, getU16, getU32, rmlHeader]

/-- What the decoder accepts carries its declared payload, and starts with the one encoding of what
it returns. -/
theorem rmlEncode_of_rmlDecode {buf : List UInt8} {msg : RmlMessage}
    (h : rmlDecode buf = some msg) :
    msg.payload.length = (getU16 buf 26).toNat ∧ rmlWireHdrLen + msg.payload.length ≤ buf.length ∧
      rmlEncode msg buf.length = some (buf.take (rmlWireHdrLen + msg.payload.length)) := by
  rw [rmlDecode] at h
  dsimp only at h
  split_ifs at h with hhdr hmagic hversion hmax hfits
  have hpayload : msg.payload = (buf.drop rmlWireHdrLen).take (getU16 buf 26).toNat := by
    rw [← Option.some.inj h]
  have hlen : msg.payload.length = (getU16 buf 26).toNat := by
    rw [hpayload, List.length_take, List.length_drop]
    omega
  have hfull : 28 ≤ buf.length := Nat.not_lt.mp hhdr
  have hheader : rmlHeader msg = buf.take rmlWireHdrLen := by
    have htake : buf.take 28 = (List.range 28).map fun i => buf.getD i 0 := by
      refine List.ext_getElem (by simpa using hfull) fun i hi hi' => ?_
      have hib : i < buf.length := by
        simp only [List.length_take] at hi
        omega
      simp [List.getD_eq_getElem?_getD, List.getElem?_eq_getElem hib]
    -- the flag byte already carries what `supersedes` says
    have hflags : msg.wireFlags = buf.getD 3 0 := by
      rw [← Option.some.inj h, RmlMessage.wireFlags]
      split_ifs with hs
      · exact or_rmlFlagSupersedes (of_decide_eq_true hs)
      · rfl
    have hsize : UInt16.ofNat msg.payload.length = getU16 buf 26 := by
      rw [hlen, UInt16.ofNat_toNat]
    rw [rmlWireHdrLen, htake, rmlHeader, hflags, hsize, ← Option.some.inj h]
    simp only [getU16, getU32, u16Byte_u16OfBytes_zero, u16Byte_u16OfBytes_eight,
      u32Byte_u32OfBytes, ← not_not.mp hmagic, ← not_not.mp hversion]
    rfl
  refine ⟨hlen, by omega, ?_⟩
  rw [rmlEncode, if_neg (by omega), if_neg (by omega), hheader, List.take_add, hlen, ← hpayload]

/-! ### Payloads -/

/-- **Deltas.** -/
theorem rmlDeltaPayloadDecode_encode {delta : RmlDelta} {outCap : ℕ} {data : List UInt8}
    (h : rmlDeltaPayloadEncode delta outCap = some data) (rest : List UInt8) :
    rmlDeltaPayloadDecode (data ++ rest) = some delta := by
  rw [rmlDeltaPayloadEncode] at h
  split_ifs at h with hmax hcap
  obtain rfl := Option.some.inj h
  have hdata := toNat_ofNat_payload (Nat.not_lt.mp hmax)
  simp only [rmlDeltaPayloadDecode, List.cons_append, List.nil_append, List.length_cons,
    List.length_append, getU16, List.getD_cons_succ, List.getD_cons_zero, u16OfBytes_u16Byte,
    hdata]
  rw [if_neg (by omega), if_neg (by omega)]
  simp

theorem length_of_rmlDeltaPayloadDecode {buf : List UInt8} {delta : RmlDelta}
    (h : rmlDeltaPayloadDecode buf = some delta) :
    delta.data.length = (getU16 buf 5).toNat ∧ 7 + delta.data.length ≤ buf.length := by
  rw [rmlDeltaPayloadDecode] at h
  dsimp only at h
  split_ifs at h with hhdr hfits
  obtain rfl := Option.some.inj h
  have hlen : ((buf.drop 7).take (getU16 buf 5).toNat).length = (getU16 buf 5).toNat := by
    rw [List.length_take, List.length_drop]
    omega
  refine ⟨hlen, ?_⟩
  rw [hlen]
  omega

/-- **Repair requests.** -/
theorem rmlRepairRequestDecode_make (senderId targetId : UInt16) (repair : RmlRepairRequest) :
    rmlRepairRequestDecode (rmlMakeRepairRequest senderId targetId repair) = some repair := by
  simp [rmlRepairRequestDecode, rmlMakeRepairRequest, rmlRepairPayloadLen, getU32, getU16]

/-- A repair request reads only its type and its payload. -/
theorem rmlRepairRequestDecode_onWire (msg : RmlMessage) :
    rmlRepairRequestDecode msg.onWire = rmlRepairRequestDecode msg := rfl

theorem length_of_rmlRepairRequestDecode {msg : RmlMessage} {repair : RmlRepairRequest}
    (h : rmlRepairRequestDecode msg = some repair) :
    msg.type = rmlTypeRepairRequest ∧ rmlRepairPayloadLen ≤ msg.payload.length := by
  rw [rmlRepairRequestDecode] at h
  split_ifs at h with hbad
  rw [not_or, not_not, Nat.not_lt] at hbad
  exact hbad

/-! ### The round trip -/

/-- A repair request fills ten bytes. -/
@[simp]
theorem rmlMakeRepairRequest_payload_length (senderId targetId : UInt16)
    (repair : RmlRepairRequest) :
    (rmlMakeRepairRequest senderId targetId repair).payload.length = rmlRepairPayloadLen := rfl

/-- **The wire formats of the message layer.** Every message, delta and repair request within the
limits is encoded, and comes back from the bytes, whatever follows them; what a decoder accepts
carries the lengths that it declares. -/
theorem rml_roundTrip :
    (∀ (msg : RmlMessage) (outCap : ℕ) (rest : List UInt8), msg.payload.length ≤ rmlMaxPayload →
      rmlWireHdrLen + msg.payload.length ≤ outCap →
      (∃ data, rmlEncode msg outCap = some data ∧ rmlDecode (data ++ rest) = some msg.onWire) ∧
        ((msg.supersedes = true ↔ msg.flags &&& rmlFlagSupersedes ≠ 0) →
          msg.onWire.flags = msg.flags ∧ msg.onWire.supersedes = msg.supersedes)) ∧
    (∀ (delta : RmlDelta) (outCap : ℕ) (rest : List UInt8), delta.data.length ≤ rmlMaxPayload →
      7 + delta.data.length ≤ outCap →
      ∃ data, rmlDeltaPayloadEncode delta outCap = some data ∧
        rmlDeltaPayloadDecode (data ++ rest) = some delta) ∧
    (∀ (senderId targetId : UInt16) (repair : RmlRepairRequest) (outCap : ℕ) (rest : List UInt8),
      rmlWireHdrLen + rmlRepairPayloadLen ≤ outCap →
      ∃ data msg, rmlEncode (rmlMakeRepairRequest senderId targetId repair) outCap = some data ∧
        rmlDecode (data ++ rest) = some msg ∧ rmlRepairRequestDecode msg = some repair) ∧
    (∀ buf msg, rmlDecode buf = some msg → msg.payload.length = (getU16 buf 26).toNat ∧
      rmlWireHdrLen + msg.payload.length ≤ buf.length) ∧
    (∀ buf delta, rmlDeltaPayloadDecode buf = some delta →
      delta.data.length = (getU16 buf 5).toNat ∧ 7 + delta.data.length ≤ buf.length) ∧
    (∀ msg repair, rmlRepairRequestDecode msg = some repair →
      msg.type = rmlTypeRepairRequest ∧ rmlRepairPayloadLen ≤ msg.payload.length) := by
  have hmessage : ∀ (msg : RmlMessage) (outCap : ℕ) (rest : List UInt8),
      msg.payload.length ≤ rmlMaxPayload → rmlWireHdrLen + msg.payload.length ≤ outCap →
      ∃ data, rmlEncode msg outCap = some data ∧
        rmlDecode (data ++ rest) = some msg.onWire := by
    intro msg outCap rest hmax hcap
    have henc : rmlEncode msg outCap = some (rmlHeader msg ++ msg.payload) := by
      rw [rmlEncode, if_neg (Nat.not_lt.mpr hmax), if_neg (Nat.not_lt.mpr hcap)]
    exact ⟨_, henc, rmlDecode_rmlEncode henc rest⟩
  refine ⟨?_, ?_, ?_, ?_, ?_, ?_⟩
  · intro msg outCap rest hmax hcap
    exact ⟨hmessage msg outCap rest hmax hcap, RmlMessage.onWire_of_agrees⟩
  · intro delta outCap rest hmax hcap
    obtain ⟨data, henc⟩ : ∃ data, rmlDeltaPayloadEncode delta outCap = some data := by
      rw [rmlDeltaPayloadEncode, if_neg (Nat.not_lt.mpr hmax), if_neg (Nat.not_lt.mpr hcap)]
      exact ⟨_, rfl⟩
    exact ⟨data, henc, rmlDeltaPayloadDecode_encode henc rest⟩
  · intro senderId targetId repair outCap rest hcap
    have hmax : (rmlMakeRepairRequest senderId targetId repair).payload.length ≤ rmlMaxPayload := by
      rw [rmlMakeRepairRequest_payload_length]
      decide
    obtain ⟨data, henc, hdec⟩ :=
      hmessage (rmlMakeRepairRequest senderId targetId repair) outCap rest hmax hcap
    refine ⟨data, _, henc, hdec, ?_⟩
    rw [rmlRepairRequestDecode_onWire, rmlRepairRequestDecode_make]
  · intro buf msg h
    obtain ⟨hlen, hfits, -⟩ := rmlEncode_of_rmlDecode h
    exact ⟨hlen, hfits⟩
  · exact fun buf delta h => length_of_rmlDeltaPayloadDecode h
  · exact fun msg repair h => length_of_rmlRepairRequestDecode h

/-- A delta that appends to a text. -/
def sampleDelta : RmlDelta := ⟨rmlDeltaAppend, 0, 0, [33]⟩

/-- A request for a message that is missing. -/
def sampleRepair : RmlRepairRequest := ⟨0xA0B0C0D0, 7, 0x1234⟩

theorem rml_roundTrip_sample :
    (∃ data, rmlEncode (rmlMakeRepairRequest 1 2 sampleRepair) 188 = some data ∧
      rmlDecode data = some (rmlMakeRepairRequest 1 2 sampleRepair).onWire) ∧
    (∃ data, rmlDeltaPayloadEncode sampleDelta 160 = some data ∧
      rmlDeltaPayloadDecode data = some sampleDelta) ∧
    ∃ data msg, rmlEncode (rmlMakeRepairRequest 1 2 sampleRepair) 188 = some data ∧
      rmlDecode data = some msg ∧ rmlRepairRequestDecode msg = some sampleRepair := by
  obtain ⟨hmessage, hdelta, hrepair, -⟩ := rml_roundTrip
  have hsample := (hmessage (rmlMakeRepairRequest 1 2 sampleRepair) 188 [] (by decide) (by decide)).1
  have hedit := hdelta sampleDelta 160 [] (by decide) (by decide)
  have hrequest := hrepair 1 2 sampleRepair 188 [] (by decide)
  simp only [List.append_nil] at hsample hedit hrequest
  exact ⟨hsample, hedit, hrequest⟩

end Rivr
