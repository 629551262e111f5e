import Rivr.Firmware.CrcDetection
import Rivr.ForMathlib.CrcRemainder

/-!
# The bitwise checksum

`protocol_crc16` looks up its 256-entry table once for a byte. Bit by bit the checksum starts from
`0xFFFF`, adds each byte to the upper half of the register and moves the register eight times, where
a one that leaves it adds the polynomial `0x1021` (`bitwiseCrc16`). Both agree on byte strings of
any length (`foldl_crc16Step_eq_bitwiseCrc16`).

As a polynomial over the field of two elements, the checksum is the remainder of the bytes, from the
start of the register on, modulo `X ^ 16 + X ^ 12 + X ^ 5 + 1` (`toPoly_bitwiseCrc16`).
-/

open Polynomial

namespace Rivr

/-- One move of the register; a one that leaves it adds the polynomial. -/
def crc16Bit (crc : UInt16) : UInt16 :=
  if crc &&& 0x8000 ≠ 0 then (crc <<< 1) ^^^ 0x1021 else crc <<< 1

/-- A byte is added to the upper half of the register, which then moves eight times. -/
def bitwiseByte (crc : UInt16) (b : UInt8) : UInt16 := crc16Bit^[8] (crc ^^^ (b.toUInt16 <<< 8))

/-- The CRC-16 of polynomial `0x1021` and initial value `0xFFFF`, bit by bit. -/
def bitwiseCrc16 (bytes : List UInt8) : UInt16 := bytes.foldl bitwiseByte 0xFFFF

theorem toBitVec_crc16Bit (crc : UInt16) :
    (crc16Bit crc).toBitVec = Crc.shift crc16Poly crc.toBitVec := by
  have hbit : crc &&& 0x8000 ≠ 0 ↔ crc.toBitVec.msb = true := by
    have hand : crc.toBitVec &&& BitVec.twoPow 16 15 =
        if crc.toBitVec.msb then BitVec.twoPow 16 15 else 0#16 := BitVec.and_twoPow _ _
    rw [Ne, ← UInt16.toBitVec_inj, UInt16.toBitVec_and]
    change ¬crc.toBitVec &&& BitVec.twoPow 16 15 = 0#16 ↔ _
    rw [hand]
    cases crc.toBitVec.msb <;> decide
  rw [crc16Bit, Crc.shift]
  split_ifs with hmove hmsb hmsb
  · rw [UInt16.toBitVec_xor]
    simp [crc16Poly]
  · exact absurd (hbit.mp hmove) hmsb
  · exact absurd (hbit.mpr hmsb) hmove
  · simp

theorem toBitVec_iterate_crc16Bit (n : ℕ) (crc : UInt16) :
    (crc16Bit^[n] crc).toBitVec = Crc.shifts crc16Poly n crc.toBitVec := by
  induction n generalizing crc with
  | zero => rfl
  | succ n ih => rw [Function.iterate_succ_apply, ih, toBitVec_crc16Bit, Crc.shifts]

/-- A byte of the table-driven loop. -/
theorem crc16Step_eq_bitwiseByte (crc : UInt16) (b : UInt8) :
    crc16Step crc b = bitwiseByte crc b := by
  have hload : (Crc.load (byteBits b) : BitVec 16) = (b.toUInt16 <<< 8).toBitVec := by
    have h := load_byteBits ⟨b.toNat, b.toNat_lt⟩
    rw [UInt8.ofNat_toNat] at h
    rw [h, ← UInt16.ofNat_uInt8ToNat]
    rfl
  rw [← UInt16.toBitVec_inj, crc16Step_eq_feed, Crc.feed_eq_shifts_load (by simp), byteBits_length,
    hload, ← UInt16.toBitVec_xor, ← toBitVec_iterate_crc16Bit]
  rfl

theorem crc16Step_eq : crc16Step = bitwiseByte := funext₂ crc16Step_eq_bitwiseByte

/-- The table-driven loop computes the bitwise checksum, of any byte string; `protocol_crc16` that
of the first `len` bytes. -/
theorem foldl_crc16Step_eq_bitwiseCrc16 :
    (∀ bytes : List UInt8, bytes.foldl crc16Step 0xFFFF = bitwiseCrc16 bytes) ∧
      ∀ (buf : List UInt8) (len : UInt8),
        protocolCrc16 buf len = bitwiseCrc16 (buf.take len.toNat) := by
  refine ⟨fun bytes => ?_, fun buf len => ?_⟩
  · rw [crc16Step_eq, bitwiseCrc16]
  · rw [protocolCrc16, crc16Step_eq, bitwiseCrc16]

/-! ### The remainder -/

theorem generator_crc16Poly : Crc.generator crc16Poly = X ^ 16 + (X ^ 12 + X ^ 5 + 1) := by
  have hpoly : Crc.toPoly crc16Poly = X ^ 12 + X ^ 5 + 1 := by
    simp [Crc.toPoly, crc16Poly, Finset.sum_range_succ]
    ring
  rw [Crc.generator, hpoly]

/-- The checksum is a remainder. -/
theorem toPoly_bitwiseCrc16 (bytes : List UInt8) :
    Crc.toPoly (bitwiseCrc16 bytes).toBitVec =
      (X ^ (8 * bytes.length) * Crc.toPoly 0xFFFF#16 + X ^ 16 * Crc.message (bitsOf bytes)) %ₘ
        (X ^ 16 + (X ^ 12 + X ^ 5 + 1)) := by
  have hcrc : (bitwiseCrc16 bytes).toBitVec = Crc.feed crc16Poly 0xFFFF#16 (bitsOf bytes) := by
    rw [bitwiseCrc16, ← crc16Step_eq, foldl_crc16Step]
    rfl
  rw [hcrc, Crc.toPoly_feed (by decide), generator_crc16Poly, bitsOf_length]

end Rivr
