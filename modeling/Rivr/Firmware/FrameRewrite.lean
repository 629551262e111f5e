import Rivr.Firmware.ProtocolRoundTrip

/-!
# Rewriting a frame in place

The transmit paths change single header bytes of an encoded frame and recompute its CRC, as
`patch_pkt_id_and_crc` of `firmware_core/retry_table.c` does. On the frame of a header and a
payload this gives the frame of the changed header and the same payload.
-/

namespace Rivr

open LittleEndian

/-- Recomputing the CRC of a frame in place. -/
def writeCrc (data : List UInt8) : List UInt8 :=
  let crcOff := rivrPktHdrLen + data.getD 21 0
  let crc := protocolCrc16 data crcOff
  (data.set crcOff.toNat (u16Byte crc 0)).set (crcOff.toNat + 1) (u16Byte crc 8)

/-- `patch_pkt_id_and_crc`. -/
def patchPktIdAndCrc (data : List UInt8) (newPktId : UInt16) : List UInt8 :=
  let data := (data.set 19 (u16Byte newPktId 0)).set 20 (u16Byte newPktId 8)
  let crcOff := rivrPktHdrLen + data.getD 21 0
  if crcOff.toNat + rivrPktCrcLen.toNat ≤ data.length then writeCrc data else data

/-- A header and a payload, with two bytes where the CRC belongs. -/
def openFrame (hdr : RivrPktHdr) (payload : List UInt8) (x y : UInt8) : List UInt8 :=
  packHeader hdr (UInt8.ofNat payload.length) ++ payload ++ [x, y]

theorem openFrame_length (hdr : RivrPktHdr) (payload : List UInt8) (x y : UInt8) :
    (openFrame hdr payload x y).length = 25 + payload.length := by
  simp only [openFrame, List.length_append, packHeader_length, List.length_cons, List.length_nil]
  omega

/-- A frame is such a header and payload, whatever its CRC. -/
theorem exists_openFrame_eq_wireFrame (hdr : RivrPktHdr) (payload : List UInt8) :
    ∃ x y, wireFrame hdr payload = openFrame hdr payload x y := ⟨_, _, rfl⟩

/-- Recomputing the CRC closes the frame. -/
theorem writeCrc_openFrame {payload : List UInt8} (hpl : payload.length ≤ 230) (hdr : RivrPktHdr)
    (x y : UInt8) : writeCrc (openFrame hdr payload x y) = wireFrame hdr payload := by
  obtain ⟨e, hn⟩ := payloadLen_ofNat hpl
  have hbody : (packHeader hdr (UInt8.ofNat payload.length) ++ payload).length =
      23 + payload.length := by simp
  have hoff : (rivrPktHdrLen + (openFrame hdr payload x y).getD 21 0).toNat =
      23 + payload.length := (hdrLen_add_toNat hn).trans (by rw [e])
  have hcrc : protocolCrc16 (openFrame hdr payload x y)
        (rivrPktHdrLen + (openFrame hdr payload x y).getD 21 0) =
      protocolCrc16 (packHeader hdr (UInt8.ofNat payload.length) ++ payload)
        (rivrPktHdrLen + UInt8.ofNat payload.length) :=
    protocolCrc16_append (hbody.trans ((hdrLen_add_toNat hn).trans (by rw [e])).symm)
  rw [writeCrc, hoff, hcrc, openFrame, List.set_append_right _ _ hbody.le, hbody, Nat.sub_self,
    List.set_append_right _ _ (hbody.le.trans (Nat.le_succ _)), hbody, Nat.succ_sub le_rfl,
    Nat.sub_self]
  rfl

/-- Patching the packet id closes a frame as well. -/
theorem patchPktIdAndCrc_openFrame {payload : List UInt8} (hpl : payload.length ≤ 230)
    (hdr : RivrPktHdr) (x y : UInt8) (newPktId : UInt16) :
    patchPktIdAndCrc (openFrame hdr payload x y) newPktId =
      wireFrame { hdr with pktId := newPktId } payload := by
  obtain ⟨e, hn⟩ := payloadLen_ofNat hpl
  have hset : ((openFrame hdr payload x y).set 19 (u16Byte newPktId 0)).set 20
      (u16Byte newPktId 8) = openFrame { hdr with pktId := newPktId } payload x y := rfl
  have hoff : (rivrPktHdrLen +
      (openFrame { hdr with pktId := newPktId } payload x y).getD 21 0).toNat =
        23 + payload.length := (hdrLen_add_toNat hn).trans (by rw [e])
  rw [patchPktIdAndCrc, hset, hoff, openFrame_length, writeCrc_openFrame hpl]
  refine if_pos ?_
  simp only [rivrPktCrcLen, UInt8.reduceToNat]
  omega

/-- Patching the packet id of a frame. -/
theorem patchPktIdAndCrc_wireFrame {payload : List UInt8} (hpl : payload.length ≤ 230)
    (hdr : RivrPktHdr) (newPktId : UInt16) :
    patchPktIdAndCrc (wireFrame hdr payload) newPktId =
      wireFrame { hdr with pktId := newPktId } payload := by
  obtain ⟨x, y, hframe⟩ := exists_openFrame_eq_wireFrame hdr payload
  rw [hframe, patchPktIdAndCrc_openFrame hpl]

/-- Setting flags of a frame and recomputing its CRC. -/
theorem writeCrc_set_flags_wireFrame {payload : List UInt8} (hpl : payload.length ≤ 230)
    (hdr : RivrPktHdr) (flags : UInt8) :
    writeCrc ((wireFrame hdr payload).set 4 flags) =
      wireFrame { hdr with flags := flags } payload := by
  obtain ⟨x, y, hframe⟩ := exists_openFrame_eq_wireFrame hdr payload
  have hset : (openFrame hdr payload x y).set 4 flags =
      openFrame { hdr with flags := flags } payload x y := rfl
  rw [hframe, hset, writeCrc_openFrame hpl]

end Rivr
