import Mathlib.Data.List.Basic
import Rivr.Firmware.Protocol

/-!
# Encoding and decoding are mutually inverse

`protocolDecode_encode`: a frame `protocolEncode` wrote, with any bytes after it, decodes to
the header and the payload it was built from. `protocolEncode_decode`: a buffer that
`protocolDecode` accepts starts with the frame that re-encoding its header and payload gives,
so no packet has two wire forms. Both rest on one description of what an accepted buffer
looks like, `protocolDecode_eq_some_iff`.
-/

namespace Rivr

open LittleEndian

/-! ### Lengths -/

@[simp]
theorem packHeader_length (hdr : RivrPktHdr) (n : UInt8) : (packHeader hdr n).length = 23 := rfl

@[simp]
theorem crcBytes_length (crc : UInt16) : (crcBytes crc).length = 2 := rfl

/-- Header plus payload does not wrap for an admissible payload length. -/
theorem hdrLen_add_toNat {n : UInt8} (h : n ≤ rivrPktMaxPayload) :
    (rivrPktHdrLen + n).toNat = 23 + n.toNat := by
  have hn : n.toNat ≤ 230 := h
  simp only [rivrPktHdrLen, UInt8.toNat_add, UInt8.reduceToNat]
  omega

/-- Nor does the whole frame. -/
theorem frameLen_toNat {n : UInt8} (h : n ≤ rivrPktMaxPayload) :
    (rivrPktHdrLen + n + rivrPktCrcLen).toNat = 25 + n.toNat := by
  have hn : n.toNat ≤ 230 := h
  rw [UInt8.toNat_add, hdrLen_add_toNat h]
  simp only [rivrPktCrcLen, UInt8.reduceToNat]
  omega

/-- The CRC reads only the prefix it is given the length of. -/
theorem protocolCrc16_append {body rest : List UInt8} {len : UInt8}
    (h : body.length = len.toNat) : protocolCrc16 (body ++ rest) len = protocolCrc16 body len := by
  simp only [protocolCrc16, ← h, List.take_left, List.take_length]

/-! ### The header -/

/-- The header fields a frame carries: magic and version are the constants and the length
byte is the encoder's argument. -/
def RivrPktHdr.onWire (hdr : RivrPktHdr) (payloadLen : UInt8) : RivrPktHdr :=
  { hdr with magic := rivrMagic, version := rivrProtoVer, payloadLen := payloadLen }

/-- Unpacking inverts packing, whatever follows the header. -/
theorem unpackHeaderFromWire_packHeader (hdr : RivrPktHdr) (n : UInt8) (rest : List UInt8) :
    unpackHeaderFromWire (packHeader hdr n ++ rest) n = hdr.onWire n := by
  simp [unpackHeaderFromWire, packHeader, RivrPktHdr.onWire]

/-- Packing inverts unpacking on a buffer that carries the constants and the length byte. -/
theorem packHeader_unpackHeaderFromWire {buf : List UInt8} (hlen : 23 ≤ buf.length)
    (hmagic : u16OfBytes (buf.getD 0 0) (buf.getD 1 0) = rivrMagic)
    (hver : buf.getD 2 0 = rivrProtoVer) :
    packHeader (unpackHeaderFromWire buf (buf.getD 21 0)) (buf.getD 21 0) = buf.take 23 := by
  have h₀ : u16Byte rivrMagic 0 = buf.getD 0 0 := by rw [← hmagic, u16Byte_u16OfBytes_zero]
  have h₁ : u16Byte rivrMagic 8 = buf.getD 1 0 := by rw [← hmagic, u16Byte_u16OfBytes_eight]
  have htake : buf.take 23 = (List.range 23).map fun i => buf.getD i 0 := by
    refine List.ext_getElem (by simp [hlen]) fun i hi hi' => ?_
    have hib : i < buf.length := by
      simp only [List.length_take] at hi
      omega
    simp [List.getD_eq_getElem?_getD, List.getElem?_eq_getElem hib]
  rw [htake]
  simp only [packHeader, unpackHeaderFromWire, h₀, h₁, ← hver, u16Byte_u16OfBytes_zero,
    u16Byte_u16OfBytes_eight, u32Byte_u32OfBytes]
  rfl

/-! ### Accepted buffers -/

/-- What `validateWireFrame` checks, as one statement: the constants, the type range, the
length bound and the CRC. -/
theorem validateWireFrame_eq_some_iff {buf : List UInt8} {len n : UInt8} :
    validateWireFrame buf len = some n ↔
      rivrPktMinFrame ≤ len ∧ u16OfBytes (buf.getD 0 0) (buf.getD 1 0) = rivrMagic ∧
      buf.getD 2 0 = rivrProtoVer ∧ (1 ≤ buf.getD 3 0 ∧ buf.getD 3 0 ≤ pktMetrics) ∧
      buf.getD 21 0 = n ∧ n ≤ rivrPktMaxPayload ∧ rivrPktHdrLen + n + rivrPktCrcLen ≤ len ∧
      protocolCrc16 buf (rivrPktHdrLen + n) =
        u16OfBytes (buf.getD (23 + n.toNat) 0) (buf.getD (23 + n.toNat + 1) 0) := by
  have hver : ∀ v : UInt8, ¬(v < rivrProtoMin ∨ v > rivrProtoMax) ↔ v = rivrProtoVer := by
    intro v
    simp only [rivrProtoMin, rivrProtoMax, rivrProtoVer, ← UInt8.toNat_inj, UInt8.lt_iff_toNat_lt,
      gt_iff_lt, UInt8.reduceToNat]
    omega
  have htype : ∀ t : UInt8, ¬(t = 0 ∨ t > pktMetrics) ↔ 1 ≤ t ∧ t ≤ pktMetrics := by
    intro t
    simp only [pktMetrics, ← UInt8.toNat_inj, UInt8.lt_iff_toNat_lt, UInt8.le_iff_toNat_le,
      gt_iff_lt, UInt8.reduceToNat]
    omega
  rw [← hver, ← htype]
  unfold validateWireFrame
  dsimp only
  constructor
  · intro h
    split_ifs at h with h₁ h₂ h₃ h₄ h₅ h₆ h₇
    obtain rfl := Option.some.inj h
    have h₅' := UInt8.not_lt.mp h₅
    rw [hdrLen_add_toNat h₅'] at h₇
    exact ⟨UInt8.not_lt.mp h₁, not_not.mp h₂, h₃, h₄, rfl, h₅', UInt8.not_lt.mp h₆, not_not.mp h₇⟩
  · rintro ⟨h₁, h₂, h₃, h₄, rfl, h₅, h₆, h₇⟩
    rw [← hdrLen_add_toNat h₅] at h₇
    simp only [if_neg (UInt8.not_lt.mpr h₁), if_neg (not_not.mpr h₂), if_neg h₃, if_neg h₄,
      if_neg (UInt8.not_lt.mpr h₅), if_neg (UInt8.not_lt.mpr h₆), if_neg (not_not.mpr h₇)]

/-- What `protocolDecode` returns on an accepted buffer. -/
theorem protocolDecode_eq_some_iff {buf : List UInt8} {len : UInt8} {hdr : RivrPktHdr}
    {pl : Option (List UInt8)} :
    protocolDecode buf len = some (hdr, pl) ↔
      ∃ n, validateWireFrame buf len = some n ∧ hdr = unpackHeaderFromWire buf n ∧
        pl = if n > 0 then some ((buf.drop 23).take n.toNat) else none := by
  unfold protocolDecode
  cases h : validateWireFrame buf len with
  | none => simp
  | some n =>
    simp only [Option.some.injEq, Prod.mk.injEq, exists_eq_left', eq_comm (a := hdr), eq_comm (a := pl)]
    rfl

/-! ### The two round trips -/

/-- The payload pointer a decoder returns for the given payload bytes. -/
def payloadPtr (payload : List UInt8) : Option (List UInt8) :=
  if payload = [] then none else some payload

/-- A payload argument the encoder can copy the given bytes from: a pointer to them, or NULL
when there are none. -/
def PointsTo (p : Option (List UInt8)) (payload : List UInt8) : Prop :=
  p = some payload ∨ (p = none ∧ payload = [])

theorem payloadRegion_of_pointsTo {p : Option (List UInt8)} {payload : List UInt8} {n : UInt8}
    (hp : PointsTo p payload) (hn : payload.length = n.toNat) (outBuf : List UInt8) :
    payloadRegion p n outBuf = payload := by
  rcases hp with rfl | ⟨rfl, rfl⟩
  · simp [payloadRegion, ← hn]
  · simp [payloadRegion, ← hn]

/-- The frame of a header and a payload: packed header, payload, CRC. -/
def wireFrame (hdr : RivrPktHdr) (payload : List UInt8) : List UInt8 :=
  let n := UInt8.ofNat payload.length
  let body := packHeader hdr n ++ payload
  body ++ crcBytes (protocolCrc16 body (rivrPktHdrLen + n))

/-- A chat message with the payload `"Hi"`. -/
def chatFrame (srcId dstId : UInt32) (pktId : UInt16) : List UInt8 :=
  wireFrame { sampleChatHdr with
    netId := 0, srcId := srcId, dstId := dstId, seq := pktId, pktId := pktId } [72, 105]

theorem wireFrame_length (hdr : RivrPktHdr) (payload : List UInt8) :
    (wireFrame hdr payload).length = 25 + payload.length := by
  simp only [wireFrame, List.length_append, packHeader_length, crcBytes_length]
  omega

/-- An admissible payload length fits its byte. -/
theorem payloadLen_ofNat {payload : List UInt8} (h : payload.length ≤ 230) :
    (UInt8.ofNat payload.length).toNat = payload.length ∧
      UInt8.ofNat payload.length ≤ rivrPktMaxPayload := by
  have e : (UInt8.ofNat payload.length).toNat = payload.length :=
    UInt8.toNat_ofNat_of_lt' (by simp only [UInt8.size]; omega)
  refine ⟨e, ?_⟩
  rw [UInt8.le_iff_toNat_le, e]
  exact h

/-- What the encoder writes when the payload and the buffer are admissible. -/
theorem protocolEncode_eq_some {p : Option (List UInt8)} {payload : List UInt8}
    (hp : PointsTo p payload) (hlen : payload.length ≤ 230) {outCap : UInt8}
    (hcap : 25 + payload.length ≤ outCap.toNat) (hdr : RivrPktHdr) (outBuf : List UInt8) :
    protocolEncode hdr p (UInt8.ofNat payload.length) outBuf outCap =
      some (wireFrame hdr payload) := by
  obtain ⟨e, hn⟩ := payloadLen_ofNat hlen
  have hcap' : rivrPktHdrLen + UInt8.ofNat payload.length + rivrPktCrcLen ≤ outCap := by
    rw [UInt8.le_iff_toNat_le, frameLen_toNat hn, e]
    exact hcap
  simp only [protocolEncode, payloadRegion_of_pointsTo hp e.symm, gt_iff_lt,
    if_neg (UInt8.not_lt.mpr hcap'), if_neg (UInt8.not_lt.mpr hn), wireFrame]

/-- What the encoder writes is the frame of the bytes it finds: those that the payload pointer
points to, or those of the buffer when there is none. -/
theorem eq_wireFrame_of_protocolEncode {hdr : RivrPktHdr} {p : Option (List UInt8)}
    {n outCap : UInt8} {outBuf frame : List UInt8}
    (hp : ∀ payload, p = some payload → n.toNat ≤ payload.length)
    (hout : outCap.toNat ≤ outBuf.length) (h : protocolEncode hdr p n outBuf outCap = some frame) :
    frame = wireFrame hdr (payloadRegion p n outBuf) ∧
      (payloadRegion p n outBuf).length = n.toNat ∧ n ≤ rivrPktMaxPayload := by
  rw [protocolEncode] at h
  dsimp only at h
  split_ifs at h with hcap hmax
  rw [UInt8.not_lt] at hcap hmax
  rw [UInt8.le_iff_toNat_le, frameLen_toNat hmax] at hcap
  have hregion : (payloadRegion p n outBuf).length = n.toNat := by
    cases p with
    | none =>
      rw [payloadRegion, List.length_take, List.length_drop]
      exact Nat.min_eq_left (by change n.toNat ≤ outBuf.length - 23; omega)
    | some payload => simpa [payloadRegion] using hp payload rfl
  refine ⟨?_, hregion, hmax⟩
  rw [← Option.some.inj h, wireFrame, hregion, UInt8.ofNat_toNat]

/-- The frame of an admissible packet passes validation, whatever follows it. -/
theorem validateWireFrame_wireFrame {hdr : RivrPktHdr} {payload rest : List UInt8} {len : UInt8}
    (htype : 1 ≤ hdr.pktType ∧ hdr.pktType ≤ pktMetrics) (hpl : payload.length ≤ 230)
    (hlen : 25 + payload.length ≤ len.toNat) :
    validateWireFrame (wireFrame hdr payload ++ rest) len =
      some (UInt8.ofNat payload.length) := by
  obtain ⟨e, hn⟩ := payloadLen_ofNat hpl
  have hcrc : protocolCrc16 (wireFrame hdr payload ++ rest)
        (rivrPktHdrLen + UInt8.ofNat payload.length) =
      protocolCrc16 (packHeader hdr (UInt8.ofNat payload.length) ++ payload)
        (rivrPktHdrLen + UInt8.ofNat payload.length) := by
    rw [wireFrame, List.append_assoc, protocolCrc16_append]
    rw [List.length_append, packHeader_length, hdrLen_add_toNat hn, e]
  have hlen' : rivrPktHdrLen + UInt8.ofNat payload.length + rivrPktCrcLen ≤ len := by
    rw [UInt8.le_iff_toNat_le, frameLen_toNat hn, e]
    exact hlen
  rw [validateWireFrame_eq_some_iff, hcrc, e]
  refine ⟨?_, u16OfBytes_u16Byte _, rfl, htype, rfl, hn, hlen', ?_⟩
  · rw [UInt8.le_iff_toNat_le]
    exact le_trans (Nat.le_add_right 25 payload.length) hlen
  · -- the two CRC bytes stand right behind the body, of length `23 + payload.length`
    have hbody : (packHeader hdr (UInt8.ofNat payload.length) ++ payload).length
        = 23 + payload.length := by simp
    simp only [wireFrame, List.append_assoc _ (crcBytes _)]
    rw [List.getD_append_right _ _ _ _ hbody.le,
      List.getD_append_right _ _ _ _ (hbody.le.trans (Nat.le_succ _)), hbody,
      Nat.sub_self, Nat.succ_sub le_rfl, Nat.sub_self]
    exact (u16OfBytes_u16Byte _).symm

/-- Decoding the frame of an admissible packet gives back its fields and its payload. -/
theorem protocolDecode_wireFrame (hdr : RivrPktHdr) {payload : List UInt8} (rest : List UInt8)
    {len : UInt8} (htype : 1 ≤ hdr.pktType ∧ hdr.pktType ≤ pktMetrics) (hpl : payload.length ≤ 230)
    (hlen : 25 + payload.length ≤ len.toNat) :
    protocolDecode (wireFrame hdr payload ++ rest) len =
      some (hdr.onWire (UInt8.ofNat payload.length), payloadPtr payload) := by
  obtain ⟨e, hn⟩ := payloadLen_ofNat hpl
  rw [protocolDecode_eq_some_iff]
  refine ⟨_, validateWireFrame_wireFrame htype hpl hlen, ?_, ?_⟩
  · rw [wireFrame, List.append_assoc, List.append_assoc, unpackHeaderFromWire_packHeader]
  · have hpos : UInt8.ofNat payload.length > 0 ↔ payload ≠ [] := by
      rw [gt_iff_lt, UInt8.lt_iff_toNat_lt, e, List.ne_nil_iff_length_pos]
      rfl
    have hregion : ((wireFrame hdr payload ++ rest).drop 23).take payload.length = payload := by
      rw [wireFrame, List.append_assoc, List.append_assoc, List.drop_left' (packHeader_length _ _),
        List.take_left]
    simp only [payloadPtr, hpos, e, hregion, ite_not]

/-- The two bytes behind a prefix, read one at a time. -/
private theorem take_add_two {buf : List UInt8} {k : ℕ} (h : k + 2 ≤ buf.length) :
    buf.take (k + 2) = buf.take k ++ [buf.getD k 0, buf.getD (k + 1) 0] := by
  have h₀ : buf[k]? = some (buf.getD k 0) := by
    rw [List.getD_eq_getElem?_getD, List.getElem?_eq_getElem (by omega), Option.getD_some]
  have h₁ : buf[k + 1]? = some (buf.getD (k + 1) 0) := by
    rw [List.getD_eq_getElem?_getD, List.getElem?_eq_getElem (by omega), Option.getD_some]
  rw [List.take_add_one, List.take_add_one, h₀, h₁]
  simp

/-- An accepted buffer starts with the frame of what it decodes to. -/
theorem wireFrame_of_protocolDecode {buf : List UInt8} {len : UInt8} {hdr : RivrPktHdr}
    {pl : Option (List UInt8)} (hbuf : len.toNat ≤ buf.length)
    (h : protocolDecode buf len = some (hdr, pl)) :
    ∃ payload, PointsTo pl payload ∧ payload.length ≤ 230 ∧
      hdr.payloadLen = UInt8.ofNat payload.length ∧
      wireFrame hdr payload = buf.take (25 + payload.length) := by
  obtain ⟨n, hv, rfl, rfl⟩ := protocolDecode_eq_some_iff.mp h
  obtain ⟨-, hmagic, hver, -, rfl, hn, hlen, hcrc⟩ := validateWireFrame_eq_some_iff.mp hv
  set n := buf.getD 21 0 with hn'
  have hlen' : 25 + n.toNat ≤ buf.length := by
    rw [UInt8.le_iff_toNat_le, frameLen_toNat hn] at hlen
    omega
  have hn230 : n.toNat ≤ 230 := hn
  set payload := (buf.drop 23).take n.toNat with hpay
  have hpl : payload.length = n.toNat := by
    simp only [hpay, List.length_take, List.length_drop]
    omega
  have hof : UInt8.ofNat payload.length = n := by rw [hpl, UInt8.ofNat_toNat]
  refine ⟨payload, ?_, by omega, hof.symm, ?_⟩
  · by_cases h0 : n > 0
    · exact .inl (if_pos h0)
    · refine .inr ⟨if_neg h0, List.eq_nil_of_length_eq_zero ?_⟩
      rw [gt_iff_lt, UInt8.lt_iff_toNat_lt] at h0
      simpa [hpl] using h0
  · -- header and payload are the first bytes of the buffer, so the CRC is that of the frame
    have hbody : packHeader (unpackHeaderFromWire buf n) n ++ payload = buf.take (23 + n.toNat) := by
      rw [packHeader_unpackHeaderFromWire (by omega) hmagic hver, hpay, List.take_add]
    have htake : (buf.take (23 + n.toNat)).length = (rivrPktHdrLen + n).toNat := by
      rw [hdrLen_add_toNat hn, List.length_take]
      omega
    have hcrc' : protocolCrc16 (buf.take (23 + n.toNat)) (rivrPktHdrLen + n)
        = protocolCrc16 buf (rivrPktHdrLen + n) := by
      conv_rhs => rw [← List.take_append_drop (23 + n.toNat) buf]
      rw [protocolCrc16_append htake]
    simp only [wireFrame, hof, hbody, hcrc', hcrc, crcBytes, u16Byte_u16OfBytes_zero,
      u16Byte_u16OfBytes_eight]
    rw [hpl, show 25 + n.toNat = 23 + n.toNat + 2 by omega, take_add_two (by omega)]

/-- **Encoding and decoding are mutually inverse over the whole wire format.** -/
theorem protocol_encode_decode_inverse :
    (∀ (hdr : RivrPktHdr) (p : Option (List UInt8)) (payload outBuf rest : List UInt8)
      (outCap : UInt8),
      1 ≤ hdr.pktType → hdr.pktType ≤ pktMetrics → PointsTo p payload →
      payload.length ≤ rivrPktMaxPayload.toNat → 25 + payload.length ≤ outCap.toNat →
      ∃ frame, protocolEncode hdr p (UInt8.ofNat payload.length) outBuf outCap = some frame ∧
        frame.length = 25 + payload.length ∧
        (frame.length + rest.length ≤ 255 →
          protocolDecode (frame ++ rest) (UInt8.ofNat (frame.length + rest.length)) =
            some (hdr.onWire (UInt8.ofNat payload.length), payloadPtr payload))) ∧
    (∀ (buf : List UInt8) (len : UInt8) (hdr : RivrPktHdr) (pl : Option (List UInt8)),
      len.toNat ≤ buf.length → protocolDecode buf len = some (hdr, pl) →
      ∀ (outBuf : List UInt8) (outCap : UInt8), 25 + hdr.payloadLen.toNat ≤ outCap.toNat →
        protocolEncode hdr pl hdr.payloadLen outBuf outCap =
          some (buf.take (25 + hdr.payloadLen.toNat))) := by
  constructor
  · intro hdr p payload outBuf rest outCap h₁ h₂ hp hpl hcap
    have hpl' : payload.length ≤ 230 := hpl
    refine ⟨wireFrame hdr payload, protocolEncode_eq_some hp hpl' hcap hdr outBuf,
      wireFrame_length hdr payload, fun hlen => ?_⟩
    refine protocolDecode_wireFrame hdr rest ⟨h₁, h₂⟩ hpl' ?_
    rw [UInt8.toNat_ofNat_of_lt' (by simp only [UInt8.size]; omega), wireFrame_length]
    omega
  · intro buf len hdr pl hbuf h outBuf outCap hcap
    obtain ⟨payload, hp, hpl, hn, hw⟩ := wireFrame_of_protocolDecode hbuf h
    have e := (payloadLen_ofNat hpl).1
    rw [hn, e] at hcap ⊢
    rw [protocolEncode_eq_some hp hpl hcap, hw]

/-- The frame of `sampleChatHdr` with payload `"Hi"`. -/
def sampleChatFrame : List UInt8 :=
  [0x56, 0x52, 1, 1, 0, 7, 0, 2, 1, 0xA1, 0, 0, 0, 0xB2, 0, 0, 0, 3, 0, 5, 4, 2, 0, 72, 105,
    213, 165]

theorem protocol_encode_decode_inverse_chat :
    (∃ frame, protocolEncode sampleChatHdr (some [72, 105]) 2 [] 255 = some frame ∧
      frame.length = 27 ∧ protocolDecode (frame ++ [9, 9, 9]) 30 =
        some (sampleChatHdr.onWire 2, some [72, 105])) ∧
    protocolEncode (sampleChatHdr.onWire 2) (some [72, 105]) 2 [] 255 =
      some ((sampleChatFrame ++ [7]).take 27) := by
  constructor
  · obtain ⟨frame, henc, hlen, hdec⟩ := protocol_encode_decode_inverse.1 sampleChatHdr
      (some [72, 105]) [72, 105] [] [9, 9, 9] 255 (by decide) (by decide) (.inl rfl) (by decide)
      (by decide)
    have hlen' : frame.length = 27 := hlen
    refine ⟨frame, henc, hlen', ?_⟩
    simpa [hlen', payloadPtr] using hdec (by simp [hlen'])
  · exact protocol_encode_decode_inverse.2 (sampleChatFrame ++ [7]) 28 (sampleChatHdr.onWire 2)
      (some [72, 105]) (by decide) (by decide +kernel) [] 255 (by decide)

end Rivr
