import Rivr.Firmware.ProtocolRoundTrip
import Rivr.ForMathlib.Crc

/-!
# What the checksum of a frame detects

The table-driven loop of `protocol_crc16` is the bitwise CRC of the polynomial `0x1021`
(`crc16Step_eq_feed`), so it detects every burst of at most 16 bits. A frame in which such a burst
has struck the header or the payload, but not the length byte, is rejected by `protocolDecode`, and
so is one in which a bit of the checksum itself has been flipped.

A changed length byte also moves the place where the checksum is looked for, and bytes behind it are
allowed. So a smaller length is accepted when the payload carries a checksum of its own at that
place (`protocolDecode_set_length_iff`); a larger one never is.
-/

namespace Rivr

/-! ### Bits of bytes -/

/-- The bits of a byte, the most significant first. -/
def byteBits (b : UInt8) : List Bool := (List.range 8).map fun i => b.toBitVec.getLsbD (7 - i)

/-- The bits of a list of bytes. -/
def bitsOf (bytes : List UInt8) : List Bool := bytes.flatMap byteBits

/-- Bit `i` of a list of bytes, the most significant bit of each byte first, is set. -/
def HasBit (bytes : List UInt8) (i : ℕ) : Prop :=
  (bytes.getD (i / 8) 0).toBitVec.getLsbD (7 - i % 8) = true

instance (bytes : List UInt8) (i : ℕ) : Decidable (HasBit bytes i) :=
  inferInstanceAs (Decidable (_ = true))

/-- The bytes with the bits flipped that the other list has set. -/
def flipBits (bytes err : List UInt8) : List UInt8 := List.zipWith (· ^^^ ·) bytes err

@[simp]
theorem byteBits_length (b : UInt8) : (byteBits b).length = 8 := by simp [byteBits]

@[simp]
theorem bitsOf_cons (b : UInt8) (bytes : List UInt8) :
    bitsOf (b :: bytes) = byteBits b ++ bitsOf bytes := rfl

theorem bitsOf_length (bytes : List UInt8) : (bitsOf bytes).length = 8 * bytes.length := by
  induction bytes with
  | nil => rfl
  | cons b bytes ih =>
    rw [bitsOf_cons, List.length_append, byteBits_length, ih, List.length_cons]
    omega

theorem getD_bitsOf (bytes : List UInt8) (i : ℕ) :
    (bitsOf bytes).getD i false = (bytes.getD (i / 8) 0).toBitVec.getLsbD (7 - i % 8) := by
  induction bytes generalizing i with
  | nil => simp [bitsOf]
  | cons b bytes ih =>
    rw [bitsOf_cons]
    by_cases hlt : i < 8
    · have hdiv : i / 8 = 0 := Nat.div_eq_of_lt hlt
      rw [List.getD_append _ _ _ _ (by simpa using hlt), hdiv, List.getD_cons_zero,
        Nat.mod_eq_of_lt hlt, byteBits, List.getD_eq_getElem _ _ (by simpa using hlt)]
      simp
    · have hdiv : i / 8 = (i - 8) / 8 + 1 := by omega
      have hmod : i % 8 = (i - 8) % 8 := by omega
      rw [List.getD_append_right _ _ _ _ (by simpa using Nat.not_lt.mp hlt), byteBits_length, ih, hdiv,
        List.getD_cons_succ, hmod]

theorem hasBit_iff {bytes : List UInt8} {i : ℕ} :
    HasBit bytes i ↔ (bitsOf bytes).getD i false = true := by
  rw [HasBit, getD_bitsOf]

theorem bitsOf_flipBits {bytes err : List UInt8} (h : bytes.length = err.length) :
    bitsOf (flipBits bytes err) = List.zipWith xor (bitsOf bytes) (bitsOf err) := by
  induction bytes generalizing err with
  | nil =>
    obtain rfl := List.length_eq_zero_iff.mp h.symm
    rfl
  | cons b bytes ih =>
    obtain ⟨e, err, rfl⟩ := List.exists_cons_of_length_eq_add_one h.symm
    have hbyte : byteBits (b ^^^ e) = List.zipWith xor (byteBits b) (byteBits e) := by
      simp only [byteBits, List.zipWith_map, List.zipWith_self, UInt8.toBitVec_xor, BitVec.getLsbD_xor]
    rw [flipBits, List.zipWith_cons_cons, bitsOf_cons, hbyte, ← flipBits, ih (Nat.succ.inj h),
      bitsOf_cons, bitsOf_cons, List.zipWith_append (by simp)]

theorem hasBit_append {bytes rest : List UInt8} {i : ℕ} (h : i < 8 * bytes.length) :
    HasBit (bytes ++ rest) i ↔ HasBit bytes i := by
  rw [HasBit, HasBit, List.getD_append _ _ _ _ (by omega)]

theorem HasBit.lt {bytes : List UInt8} {i : ℕ} (h : HasBit bytes i) : i < 8 * bytes.length := by
  by_contra hge
  rw [HasBit, List.getD_eq_default _ _ (by omega)] at h
  simp at h

theorem HasBit.mem {bytes : List UInt8} {i : ℕ} (h : HasBit bytes i) : true ∈ bitsOf bytes := by
  have hlt : i < (bitsOf bytes).length := by
    rw [bitsOf_length]
    exact h.lt
  rw [hasBit_iff, List.getD_eq_getElem _ _ hlt] at h
  exact h ▸ List.getElem_mem hlt

/-- A byte without bits is zero. -/
theorem getD_eq_zero_of_not_hasBit {bytes : List UInt8} {k : ℕ}
    (h : ∀ i, i / 8 = k → ¬HasBit bytes i) : bytes.getD k 0 = 0 := by
  apply UInt8.toBitVec_inj.mp
  apply BitVec.eq_of_getLsbD_eq
  intro j hj
  have hbit := h (8 * k + (7 - j)) (by omega)
  have hdiv : (8 * k + (7 - j)) / 8 = k := by omega
  have hmod : 7 - (8 * k + (7 - j)) % 8 = j := by omega
  rw [HasBit, hdiv, hmod] at hbit
  simpa using hbit

/-! ### The table-driven loop -/

/-- The polynomial. -/
def crc16Poly : BitVec 16 := 0x1021#16

/-- The table holds what eight moves make of its index. -/
private theorem shifts_table : ∀ i : Fin 256,
    Crc.shifts crc16Poly 8 (BitVec.ofNat 16 i.val <<< 8) =
      (crc16Table.getD i.val 0).toBitVec := by
  decide +kernel

/-- The lower half of the register reaches its upper half unchanged. -/
private theorem shifts_low : ∀ i : Fin 256,
    Crc.shifts crc16Poly 8 (BitVec.ofNat 16 i.val) = BitVec.ofNat 16 i.val <<< 8 := by
  decide +kernel

theorem load_byteBits : ∀ i : Fin 256,
    (Crc.load (byteBits (UInt8.ofNat i.val)) : BitVec 16) = BitVec.ofNat 16 i.val <<< 8 := by
  decide +kernel

/-- The bits of the upper half of the register, with the byte added. -/
private theorem testBit_high (crc : UInt16) (b : UInt8) {i : ℕ} (hle : 8 ≤ i) (hlt : i < 16) :
    ((crc >>> 8).toUInt8 ^^^ b).toNat.testBit (i - 8) =
      (crc.toBitVec.getLsbD i ^^ b.toNat.testBit (i - 8)) := by
  have hshift : (crc >>> 8).toUInt8.toNat = crc.toNat >>> 8 % 2 ^ 8 := by simp
  have hadd : 8 + (i - 8) = i := by omega
  rw [UInt8.toNat_xor, Nat.testBit_xor, hshift, Nat.testBit_mod_two_pow, Nat.testBit_shiftRight,
    hadd, decide_eq_true (by omega), Bool.true_and]
  rfl

private theorem getLsbD_ofNat_of_lt (n : ℕ) {i : ℕ} (hi : i < 16) :
    (BitVec.ofNat 16 n).getLsbD i = n.testBit i := by
  rw [BitVec.getLsbD_ofNat, decide_eq_true hi, Bool.true_and]

/-- **The loop is the bitwise CRC.** -/
theorem crc16Step_eq_feed (crc : UInt16) (b : UInt8) :
    (crc16Step crc b).toBitVec = Crc.feed crc16Poly crc.toBitVec (byteBits b) := by
  have hload : (Crc.load (byteBits b) : BitVec 16) = BitVec.ofNat 16 b.toNat <<< 8 := by
    have h := load_byteBits ⟨b.toNat, b.toNat_lt⟩
    rwa [UInt8.ofNat_toNat] at h
  -- the upper half of the register, with the byte added, and the lower half
  have hhigh := shifts_table ⟨((crc >>> 8).toUInt8 ^^^ b).toNat, UInt8.toNat_lt _⟩
  have hlow := shifts_low ⟨crc.toNat % 2 ^ 8, Nat.mod_lt _ (by decide)⟩
  dsimp only at hhigh hlow
  have hlowBit : ∀ i, (crc.toNat % 2 ^ 8).testBit i = (decide (i < 8) && crc.toBitVec.getLsbD i) :=
    fun i => Nat.testBit_mod_two_pow _ 8 i
  have hsplit : crc.toBitVec ^^^ Crc.load (byteBits b) =
      (BitVec.ofNat 16 ((crc >>> 8).toUInt8 ^^^ b).toNat <<< 8) ^^^
        BitVec.ofNat 16 (crc.toNat % 2 ^ 8) := by
    rw [hload]
    apply BitVec.eq_of_getLsbD_eq
    intro i hi
    rw [BitVec.getLsbD_xor, BitVec.getLsbD_xor, BitVec.getLsbD_shiftLeft, BitVec.getLsbD_shiftLeft,
      getLsbD_ofNat_of_lt _ hi, getLsbD_ofNat_of_lt _ (by omega), getLsbD_ofNat_of_lt _ (by omega),
      hlowBit, decide_eq_true hi]
    by_cases hlt : i < 8
    · simp [hlt]
    · rw [testBit_high crc b (Nat.not_lt.mp hlt) hi]
      simp [hlt]
  have hcrc : (crc <<< 8).toBitVec = BitVec.ofNat 16 (crc.toNat % 2 ^ 8) <<< 8 := by
    have hleft : (crc <<< 8).toBitVec = crc.toBitVec <<< 8 := by simp
    rw [hleft]
    apply BitVec.eq_of_getLsbD_eq
    intro i hi
    rw [BitVec.getLsbD_shiftLeft, BitVec.getLsbD_shiftLeft, getLsbD_ofNat_of_lt _ (by omega), hlowBit,
      decide_eq_true (show i - 8 < 8 by omega), Bool.true_and]
  rw [Crc.feed_eq_shifts_load (by simp), byteBits_length, hsplit, Crc.shifts_xor, hhigh, hlow,
    crc16Step, UInt16.toBitVec_xor, hcrc, BitVec.xor_comm]

example : crc16Step 0 1 = 0x1021 := by decide +kernel

theorem foldl_crc16Step (crc : UInt16) (body : List UInt8) :
    (body.foldl crc16Step crc).toBitVec = Crc.feed crc16Poly crc.toBitVec (bitsOf body) := by
  induction body generalizing crc with
  | nil => rfl
  | cons b body ih =>
    rw [List.foldl_cons, ih, crc16Step_eq_feed, bitsOf_cons, Crc.feed_append]

/-- **Bursts change the checksum.** -/
theorem foldl_flipBits_ne {body err : List UInt8} (hlen : body.length = err.length)
    (hburst : Crc.Burst 16 (bitsOf err)) (hone : true ∈ bitsOf err) (crc : UInt16) :
    (flipBits body err).foldl crc16Step crc ≠ body.foldl crc16Step crc := by
  intro heq
  have hbits := congrArg UInt16.toBitVec heq
  rw [foldl_crc16Step, foldl_crc16Step, bitsOf_flipBits hlen] at hbits
  refine Crc.feed_ne_of_burst (by decide) ?_ hburst hone _ hbits
  rw [bitsOf_length, bitsOf_length, hlen]

/-! ### Damaged frames -/

/-- Some bits of the header and the payload are flipped, none of the length byte, and all within 16
consecutive bits. -/
def BodyBurst (payloadLen : UInt8) (err : List UInt8) : Prop :=
  (∃ i, HasBit err i) ∧ (∃ s, ∀ i, HasBit err i → s ≤ i ∧ i < s + 16) ∧
    ∀ i, HasBit err i → i < 8 * (23 + payloadLen.toNat) ∧ i / 8 ≠ 21

/-- One bit of the checksum is flipped, and no other. -/
def CrcFieldBit (payloadLen : UInt8) (err : List UInt8) : Prop :=
  ∃ i, 8 * (23 + payloadLen.toNat) ≤ i ∧ i < 8 * (25 + payloadLen.toNat) ∧
    ∀ j, HasBit err j ↔ j = i

/-- A frame is its header and payload, and their checksum. -/
theorem wireFrame_eq_append {payload : List UInt8} (hpl : payload.length ≤ 230) (hdr : RivrPktHdr) :
    wireFrame hdr payload = (packHeader hdr (UInt8.ofNat payload.length) ++ payload) ++
      crcBytes ((packHeader hdr (UInt8.ofNat payload.length) ++ payload).foldl crc16Step 0xFFFF) := by
  obtain ⟨e, hn⟩ := payloadLen_ofNat hpl
  have hlength : (rivrPktHdrLen + UInt8.ofNat payload.length).toNat =
      (packHeader hdr (UInt8.ofNat payload.length) ++ payload).length := by
    rw [hdrLen_add_toNat hn, e, List.length_append, packHeader_length]
  rw [wireFrame, protocolCrc16, hlength, List.take_length]

theorem flipBits_append {a a' b b' : List UInt8} (h : a.length = b.length) :
    flipBits (a ++ a') (b ++ b') = flipBits a b ++ flipBits a' b' := List.zipWith_append h

theorem getD_flipBits {bytes err : List UInt8} (h : bytes.length = err.length) (k : ℕ) :
    (flipBits bytes err).getD k 0 = bytes.getD k 0 ^^^ err.getD k 0 := by
  induction bytes generalizing err k with
  | nil =>
    simp [flipBits, List.length_eq_zero_iff.mp h.symm]
  | cons b bytes ih =>
    obtain ⟨e, err, rfl⟩ := List.exists_cons_of_length_eq_add_one h.symm
    cases k with
    | zero => rfl
    | succ k => exact ih (Nat.succ.inj h) k

/-- Flipping no bits. -/
theorem flipBits_eq_self {bytes err : List UInt8} (hlen : bytes.length = err.length)
    (h : ∀ k < err.length, err.getD k 0 = 0) : flipBits bytes err = bytes := by
  induction bytes generalizing err with
  | nil => rfl
  | cons b bytes ih =>
    obtain ⟨e, err, rfl⟩ := List.exists_cons_of_length_eq_add_one hlen.symm
    have he : e = 0 := h 0 (Nat.zero_lt_succ _)
    have hrest : flipBits bytes err = bytes :=
      ih (Nat.succ.inj hlen) fun k hk => h (k + 1) (Nat.succ_lt_succ hk)
    rw [flipBits, List.zipWith_cons_cons, ← flipBits, hrest, he, UInt8.xor_zero]

theorem eq_zero_of_xor_eq_self {a b : UInt8} (h : a ^^^ b = a) : b = 0 := by
  have hcancel := congrArg (a ^^^ ·) h
  simpa [← UInt8.xor_assoc] using hcancel

theorem flipBits_length {bytes err : List UInt8} (h : bytes.length = err.length) :
    (flipBits bytes err).length = bytes.length := by
  rw [flipBits, List.length_zipWith, ← h, Nat.min_self]

/-- A damaged frame that is accepted, its length byte being what it was, carries the checksum of its
damaged header and payload. -/
theorem crc_of_validate_flipBits {body e f rest : List UInt8} {n len m : UInt8} {crc : UInt16}
    (hbody : body.length = 23 + n.toNat) (hlenByte : body.getD 21 0 = n)
    (hn : n ≤ rivrPktMaxPayload) (he : body.length = e.length) (hlenErr : e.getD 21 0 = 0)
    (hf : f.length = 2)
    (h : validateWireFrame (flipBits body e ++ (flipBits (crcBytes crc) f ++ rest)) len = some m) :
    (flipBits body e).foldl crc16Step 0xFFFF =
      LittleEndian.u16OfBytes (LittleEndian.u16Byte crc 0 ^^^ f.getD 0 0)
        (LittleEndian.u16Byte crc 8 ^^^ f.getD 1 0) := by
  obtain ⟨-, -, -, -, hm, -, -, hcrc⟩ := validateWireFrame_eq_some_iff.mp h
  have hflip : (flipBits body e).length = 23 + n.toNat := (flipBits_length he).trans hbody
  rw [List.getD_append _ _ _ _ (by omega), getD_flipBits he, hlenByte, hlenErr, UInt8.xor_zero] at hm
  subst hm
  have hcrcLen : (crcBytes crc).length = f.length := hf.symm
  have htail : (flipBits (crcBytes crc) f).length = 2 := flipBits_length hcrcLen
  have hwire : ∀ k < 2, (flipBits body e ++ (flipBits (crcBytes crc) f ++ rest)).getD
      (23 + n.toNat + k) 0 = (crcBytes crc).getD k 0 ^^^ f.getD k 0 := by
    intro k hk
    rw [List.getD_append_right _ _ _ _ (by omega), hflip, Nat.add_sub_cancel_left,
      List.getD_append _ _ _ _ (by omega), getD_flipBits hcrcLen]
  have hzero := hwire 0 (by decide)
  rw [Nat.add_zero] at hzero
  rw [hzero, hwire 1 (by decide), protocolCrc16_append (by rw [hflip, hdrLen_add_toNat hn]),
    protocolCrc16, hdrLen_add_toNat hn, ← hflip, List.take_length] at hcrc
  exact hcrc

/-- **Damaged frames.** A burst of at most 16 bits in the header and the payload, off the length
byte, and the flip of one bit of the checksum make `protocolDecode` reject every frame. -/
theorem protocolDecode_flipBits (hdr : RivrPktHdr) (p : Option (List UInt8)) (n outCap len : UInt8)
    (outBuf frame err rest : List UInt8)
    (hp : ∀ payload, p = some payload → n.toNat ≤ payload.length)
    (hout : outCap.toNat ≤ outBuf.length)
    (hframe : protocolEncode hdr p n outBuf outCap = some frame) (herr : err.length = frame.length)
    (hdamage : BodyBurst n err ∨ CrcFieldBit n err) :
    protocolDecode (flipBits frame err ++ rest) len = none := by
  obtain ⟨rfl, hlength, hn⟩ := eq_wireFrame_of_protocolEncode hp hout hframe
  generalize payloadRegion p n outBuf = payload at hlength herr ⊢
  have hpl : payload.length ≤ 230 := hlength.trans_le hn
  rw [wireFrame_eq_append hpl hdr] at herr ⊢
  have hbody : (packHeader hdr (UInt8.ofNat payload.length) ++ payload).length = 23 + n.toNat := by
    rw [List.length_append, packHeader_length, hlength]
  have hlenByte : (packHeader hdr (UInt8.ofNat payload.length) ++ payload).getD 21 0 = n := by
    rw [List.getD_append _ _ _ _ (by simp), hlength, UInt8.ofNat_toNat]
    rfl
  set body := packHeader hdr (UInt8.ofNat payload.length) ++ payload
  set crc := body.foldl crc16Step 0xFFFF with hcrc
  rw [List.length_append, crcBytes_length, hbody] at herr
  obtain ⟨e, f, rfl, he, hf⟩ : ∃ e f, err = e ++ f ∧ e.length = 23 + n.toNat ∧ f.length = 2 := by
    refine ⟨err.take (23 + n.toNat), err.drop (23 + n.toNat), (List.take_append_drop _ _).symm,
      ?_, ?_⟩
    · rw [List.length_take]
      omega
    · rw [List.length_drop]
      omega
  have hbits : ∀ k < 23 + n.toNat, (∀ i, i / 8 = k → ¬HasBit (e ++ f) i) → e.getD k 0 = 0 := by
    intro k hk hnone
    have hzero := getD_eq_zero_of_not_hasBit hnone
    rwa [List.getD_append _ _ _ _ (by omega)] at hzero
  have hcrcBits : ∀ k < 2, (∀ i, i / 8 = 23 + n.toNat + k → ¬HasBit (e ++ f) i) →
      f.getD k 0 = 0 := by
    intro k hk hnone
    have hzero := getD_eq_zero_of_not_hasBit hnone
    rwa [List.getD_append_right _ _ _ _ (by omega), he, Nat.add_sub_cancel_left] at hzero
  rw [flipBits_append (hbody.trans he.symm), List.append_assoc, Option.eq_none_iff_forall_ne_some]
  rintro ⟨hdr', pl⟩ hdecode
  obtain ⟨m, hvalid, -, -⟩ := protocolDecode_eq_some_iff.mp hdecode
  rcases hdamage with ⟨⟨i, hi⟩, ⟨s, hs⟩, hin⟩ | ⟨i, hge, hlt, hone⟩
  · -- the checksum bytes are as they were, and the damage has changed the checksum
    have hlenErr : e.getD 21 0 = 0 := by
      refine hbits 21 (by omega) fun j hj hbit => ?_
      exact (hin j hbit).2 hj
    have hwire : ∀ k < 2, f.getD k 0 = 0 := by
      intro k hk
      refine hcrcBits k hk fun j hj hbit => ?_
      have := (hin j hbit).1
      omega
    have hsame := crc_of_validate_flipBits hbody hlenByte hn (hbody.trans he.symm) hlenErr hf hvalid
    rw [hwire 0 (by decide), hwire 1 (by decide), UInt8.xor_zero, UInt8.xor_zero,
      LittleEndian.u16OfBytes_u16Byte] at hsame
    have hburst : Crc.Burst 16 (bitsOf e) := by
      refine ⟨s, fun j hj => hs j ?_⟩
      rw [← hasBit_iff] at hj
      exact (hasBit_append hj.lt).mpr hj
    have hone : HasBit e i := by
      refine (hasBit_append ?_).mp hi
      rw [he]
      exact (hin i hi).1
    exact foldl_flipBits_ne (hbody.trans he.symm) hburst hone.mem _ hsame
  · -- the header and the payload are as they were, and the checksum bytes are not
    have hzero : ∀ k < 23 + n.toNat, e.getD k 0 = 0 := by
      intro k hk
      refine hbits k hk fun j hj hbit => ?_
      have hji := (hone j).mp hbit
      omega
    have hsame := crc_of_validate_flipBits hbody hlenByte hn (hbody.trans he.symm)
      (hzero 21 (by omega)) hf hvalid
    rw [flipBits_eq_self (hbody.trans he.symm) (he ▸ hzero), ← hcrc] at hsame
    have hlow := congrArg (LittleEndian.u16Byte · 0) hsame
    have hhigh := congrArg (LittleEndian.u16Byte · 8) hsame
    rw [LittleEndian.u16Byte_u16OfBytes_zero] at hlow
    rw [LittleEndian.u16Byte_u16OfBytes_eight] at hhigh
    have hf₀ : f.getD 0 0 = 0 := eq_zero_of_xor_eq_self hlow.symm
    have hf₁ : f.getD 1 0 = 0 := eq_zero_of_xor_eq_self hhigh.symm
    have hbit : HasBit (e ++ f) i := (hone i).mpr rfl
    rw [HasBit, List.getD_append_right _ _ _ _ (by omega), he] at hbit
    obtain hk | hk : i / 8 - (23 + n.toNat) = 0 ∨ i / 8 - (23 + n.toNat) = 1 := by omega
    · rw [hk, hf₀] at hbit
      simp at hbit
    · rw [hk, hf₁] at hbit
      simp at hbit

/-- Ten bits in a row, from the last of byte 4 to the first of byte 6. -/
def sampleBurst : List UInt8 := [0, 0, 0, 0, 0x01, 0xFF, 0x80] ++ List.replicate 20 0

theorem bodyBurst_sampleBurst : BodyBurst 2 sampleBurst := by
  have hplaces : ∀ i : Fin 216, HasBit sampleBurst i.val → 39 ≤ i.val ∧ i.val < 49 := by
    decide +kernel
  have hbits : ∀ i, HasBit sampleBurst i → 39 ≤ i ∧ i < 49 := fun i hi => hplaces ⟨i, hi.lt⟩ hi
  refine ⟨⟨39, by decide⟩, ⟨39, fun i hi => ?_⟩, fun i hi => ?_⟩
  · have := hbits i hi
    omega
  · have := hbits i hi
    change i < 8 * 25 ∧ i / 8 ≠ 21
    omega

theorem protocolDecode_flipBits_chat :
    protocolDecode (flipBits sampleChatFrame sampleBurst ++ [9]) 28 = none :=
  protocolDecode_flipBits sampleChatHdr (some [72, 105]) 2 255 28 (List.replicate 255 0)
    sampleChatFrame sampleBurst [9] (by simp) List.length_replicate.ge (by decide +kernel) rfl
    (.inl bodyBurst_sampleBurst)

/-! ### Another length byte -/

/-- Bytes of a frame that stand in front of the length byte are those of the header. -/
private theorem getD_set_wireFrame (hdr : RivrPktHdr) (payload : List UInt8) (n : UInt8) {i : ℕ}
    (hi : i < 21) : ((wireFrame hdr payload).set 21 n).getD i 0 =
      (packHeader hdr (UInt8.ofNat payload.length)).getD i 0 := by
  have hheader : (wireFrame hdr payload).getD i 0 =
      (packHeader hdr (UInt8.ofNat payload.length)).getD i 0 := by
    rw [wireFrame, List.append_assoc, List.getD_append _ _ _ _ (by simp; omega)]
  rw [← hheader, List.getD_eq_getElem?_getD, List.getD_eq_getElem?_getD,
    List.getElem?_set_ne (by omega)]

/-- **Another length byte.** A frame whose length byte has been replaced is accepted exactly when
the new length is smaller and the two bytes behind the payload that it leaves are the checksum of
what stands in front of them. -/
theorem protocolDecode_set_length_iff (hdr : RivrPktHdr) (p : Option (List UInt8))
    (n n' outCap : UInt8) (outBuf frame : List UInt8)
    (hp : ∀ payload, p = some payload → n.toNat ≤ payload.length)
    (hout : outCap.toNat ≤ outBuf.length)
    (hframe : protocolEncode hdr p n outBuf outCap = some frame) (hne : n' ≠ n) :
    (protocolDecode (frame.set 21 n') (UInt8.ofNat frame.length)).isSome = true ↔
      (1 ≤ hdr.pktType ∧ hdr.pktType ≤ pktMetrics) ∧ n' < n ∧
        protocolCrc16 (frame.set 21 n') (rivrPktHdrLen + n') =
          LittleEndian.u16OfBytes (frame.getD (23 + n'.toNat) 0)
            (frame.getD (23 + n'.toNat + 1) 0) := by
  obtain ⟨rfl, hlength, hn⟩ := eq_wireFrame_of_protocolEncode hp hout hframe
  generalize payloadRegion p n outBuf = payload at hlength ⊢
  have hpl : payload.length ≤ 230 := hlength.trans_le hn
  have hnat : n.toNat ≤ 230 := hn
  have hlen : (UInt8.ofNat (wireFrame hdr payload).length).toNat = 25 + n.toNat := by
    rw [wireFrame_length, hlength]
    exact UInt8.toNat_ofNat_of_lt' (by change 25 + n.toNat < 256; omega)
  have hheader : ∀ i < 21, ((wireFrame hdr payload).set 21 n').getD i 0 =
      (packHeader hdr (UInt8.ofNat payload.length)).getD i 0 :=
    fun i hi => getD_set_wireFrame hdr payload n' hi
  have hlengthByte : ((wireFrame hdr payload).set 21 n').getD 21 0 = n' := by
    rw [List.getD_eq_getElem?_getD, List.getElem?_set_self (by rw [wireFrame_length]; omega)]
    rfl
  have hbehind : ∀ i, 23 ≤ i → ((wireFrame hdr payload).set 21 n').getD i 0 =
      (wireFrame hdr payload).getD i 0 := by
    intro i hi
    rw [List.getD_eq_getElem?_getD, List.getD_eq_getElem?_getD, List.getElem?_set_ne (by omega)]
  have hsome : (protocolDecode ((wireFrame hdr payload).set 21 n')
      (UInt8.ofNat (wireFrame hdr payload).length)).isSome = true ↔
      ∃ m, validateWireFrame ((wireFrame hdr payload).set 21 n')
        (UInt8.ofNat (wireFrame hdr payload).length) = some m := by
    rw [protocolDecode]
    cases validateWireFrame ((wireFrame hdr payload).set 21 n')
      (UInt8.ofNat (wireFrame hdr payload).length) <;> simp
  have hlt_iff : n' ≤ rivrPktMaxPayload ∧ rivrPktHdrLen + n' + rivrPktCrcLen ≤
      UInt8.ofNat (wireFrame hdr payload).length ↔ n' < n := by
    have hne' : n'.toNat ≠ n.toNat := fun h => hne (UInt8.toNat_inj.mp h)
    constructor
    · rintro ⟨hmax, hle⟩
      rw [UInt8.le_iff_toNat_le, frameLen_toNat hmax, hlen] at hle
      rw [UInt8.lt_iff_toNat_lt]
      omega
    · intro hlt
      rw [UInt8.lt_iff_toNat_lt] at hlt
      have hmax : n' ≤ rivrPktMaxPayload := by
        rw [UInt8.le_iff_toNat_le]
        change n'.toNat ≤ 230
        omega
      refine ⟨hmax, ?_⟩
      rw [UInt8.le_iff_toNat_le, frameLen_toNat hmax, hlen]
      omega
  rw [hsome]
  simp only [validateWireFrame_eq_some_iff, hheader 0 (by decide), hheader 1 (by decide),
    hheader 2 (by decide), hheader 3 (by decide), hlengthByte]
  constructor
  · rintro ⟨m, -, -, -, htype, rfl, hmax, hle, hcrc⟩
    rw [hbehind _ (by omega), hbehind _ (by omega)] at hcrc
    exact ⟨htype, hlt_iff.mp ⟨hmax, hle⟩, hcrc⟩
  · rintro ⟨htype, hlt, hcrc⟩
    obtain ⟨hmax, hle⟩ := hlt_iff.mpr hlt
    refine ⟨n', ?_, LittleEndian.u16OfBytes_u16Byte _, rfl, htype, rfl, hmax, hle, ?_⟩
    · rw [UInt8.le_iff_toNat_le, hlen]
      exact Nat.le_add_right 25 _
    · rw [hbehind _ (by omega), hbehind _ (by omega)]
      exact hcrc

theorem protocolDecode_set_length_iff_chat :
    (protocolDecode (sampleChatFrame.set 21 1) 27).isSome = true ↔
      (1 ≤ sampleChatHdr.pktType ∧ sampleChatHdr.pktType ≤ pktMetrics) ∧ (1 : UInt8) < 2 ∧
        protocolCrc16 (sampleChatFrame.set 21 1) (rivrPktHdrLen + 1) =
          LittleEndian.u16OfBytes (sampleChatFrame.getD 24 0) (sampleChatFrame.getD 25 0) :=
  protocolDecode_set_length_iff sampleChatHdr (some [72, 105]) 2 1 255 (List.replicate 255 0)
    sampleChatFrame (by simp) List.length_replicate.ge (by decide +kernel) (by decide)

/-- A frame of `sampleChatHdr` whose payload is the checksum of the header with the length byte
0. -/
def forgedFrame : List UInt8 :=
  [0x56, 0x52, 1, 1, 0, 7, 0, 2, 1, 0xA1, 0, 0, 0, 0xB2, 0, 0, 0, 3, 0, 5, 4, 2, 0, 218, 188,
    132, 64]

/-- With the length byte 0 it is accepted, as a frame without payload. -/
theorem not_protocolDecode_set_length :
    ¬∀ (hdr : RivrPktHdr) (p : Option (List UInt8)) (n n' outCap : UInt8)
      (outBuf frame : List UInt8), (∀ payload, p = some payload → n.toNat ≤ payload.length) →
      outCap.toNat ≤ outBuf.length → protocolEncode hdr p n outBuf outCap = some frame → n' ≠ n →
      protocolDecode (frame.set 21 n') (UInt8.ofNat frame.length) = none := by
  intro h
  have hreject := h sampleChatHdr (some [218, 188]) 2 0 255 (List.replicate 255 0) forgedFrame
    (by simp) List.length_replicate.ge (by decide +kernel) (by decide)
  revert hreject
  decide +kernel

end Rivr
