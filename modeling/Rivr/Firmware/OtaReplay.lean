import Rivr.Firmware.ProgramStore

/-!
# Replay of program updates

The gate of `firmware_core/rivr_ota_core.c` over whole sequences of pushes, on each of the platforms
it is built for. The sequence number in the storage is written where a payload is accepted and
nowhere else, and what is accepted is above it (`rivrOtaVerify_eq_some`), so the accepted numbers
grow and a refused payload leaves no trace (`ota_replay`).
-/

open CString LittleEndian

namespace Rivr

/-! ### The gate on each platform -/

/-- The storage interfaces of `rivr_ota_platform.h`. -/
inductive OtaPlatform where
  | esp32 | rp2040 | nrf52
  deriving DecidableEq, Repr

/-- `OTA_PROG_BUF_MAX`. -/
def otaProgBufMax : ℕ := 2048

/-- `ota_storage_write`: what the buffer holds, unless the text is refused. -/
def otaStorageWrite : OtaPlatform → List UInt8 → Option (List UInt8)
  | .esp32, text => some (text.take 255)
  | .rp2040, text | .nrf52, text => if text.length ≥ otaProgBufMax then none else some text

/-- `rivr_ota_activate`: whether it returns true, and the storage. `commits` is what the platform
says to `ota_storage_commit`. -/
def rivrOtaActivate (platform : OtaPlatform) (commits : Bool) (nvs : Nvs) (payload : List UInt8) :
    Bool × Nvs :=
  if payload.length ≤ rivrOtaHdrLen then (false, nvs)
  else
    match otaStorageWrite platform (payload.drop rivrOtaHdrLen) with
    | none => (false, nvs)
    | some text =>
      -- without the commit neither the program nor the pending flag changes
      if commits then (true, { rivrNvsStoreProgram nvs text with otaPending := 1 })
      else (false, nvs)

/-- What a push comes to. -/
inductive OtaVerdict where
  | rejected | accepted | notStored
  deriving DecidableEq, Repr

/-- A push that reaches the gate, and what the platform says to `ota_storage_commit`. -/
structure OtaPush where
  payload : List UInt8
  commits : Bool
  deriving DecidableEq, Repr

/-- `rivr_ota_verify`, and `rivr_ota_activate` when it returned true. -/
def otaPush (b : ProgBuild) (platform : OtaPlatform) (nvs : Nvs) (push : OtaPush) :
    OtaVerdict × Nvs :=
  match rivrOtaVerify b nvs push.payload with
  | none => (.rejected, nvs)
  | some nvs =>
    match rivrOtaActivate platform push.commits nvs push.payload with
    | (true, nvs) => (.accepted, nvs)
    | (false, nvs) => (.notStored, nvs)

/-- The sequence number of a payload. -/
def otaSeqOf (payload : List UInt8) : UInt32 :=
  u32OfBytes (payload.getD 65 0) (payload.getD 66 0) (payload.getD 67 0) (payload.getD 68 0)

variable {b : ProgBuild} {platform : OtaPlatform} {nvs nvs' : Nvs} {payload : List UInt8}
  {push : OtaPush}

/-- What the gate lets through: a payload with a text, signed under one of the keys, with a sequence
number above the stored one, which it replaces. -/
theorem rivrOtaVerify_eq_some : rivrOtaVerify b nvs payload = some nvs' ↔
    (rivrOtaHdrLen < payload.length ∧
      (∃ pubKey, b.otaKeys[(payload.getD rivrOtaSigLen 0).toNat]? = some pubKey ∧
        b.ed25519VerifyDetached (payload.take rivrOtaSigLen) (payload.drop rivrOtaSigLen) pubKey =
          true) ∧
      (payload.drop rivrOtaSigLen).length ≤ 256 ∧ nvs.otaSeq < otaSeqOf payload) ∧
    nvs' = { nvs with otaSeq := otaSeqOf payload } := by
  have hseqOf : u32OfBytes (payload.getD 65 0) (payload.getD 66 0) (payload.getD 67 0)
      (payload.getD 68 0) = otaSeqOf payload := rfl
  rw [rivrOtaVerify]
  cases hkey : b.otaKeys[(payload.getD rivrOtaSigLen 0).toNat]? with
  | none => simp
  | some pubKey =>
    cases hsig : b.ed25519VerifyDetached (payload.take rivrOtaSigLen) (payload.drop rivrOtaSigLen)
      pubKey with
    | false => simp [hsig]
    | true =>
      simp only [hseqOf, hsig, Bool.not_true, Bool.false_eq_true, if_false]
      constructor
      · intro h
        split_ifs at h with hlen hmsg hseq
        exact ⟨⟨by omega, ⟨pubKey, rfl, hsig⟩, by omega, UInt32.not_le.mp hseq⟩,
          (Option.some.inj h).symm⟩
      · rintro ⟨⟨hlen, -, hmsg, hseq⟩, rfl⟩
        rw [if_neg (by omega), if_neg (by omega), if_neg (UInt32.not_le.mpr hseq)]

/-- No platform refuses the text of a payload that the gate lets through. -/
theorem exists_otaStorageWrite (h : rivrOtaVerify b nvs payload = some nvs') :
    otaStorageWrite platform (payload.drop rivrOtaHdrLen) = some (payload.drop rivrOtaHdrLen) := by
  obtain ⟨⟨-, -, hmsg, -⟩, -⟩ := rivrOtaVerify_eq_some.mp h
  rw [List.length_drop, rivrOtaSigLen] at hmsg
  have hlen : (payload.drop rivrOtaHdrLen).length ≤ 255 := by
    rw [List.length_drop, rivrOtaHdrLen]
    omega
  cases platform with
  | esp32 => rw [otaStorageWrite, List.take_of_length_le hlen]
  | rp2040 | nrf52 =>
    rw [otaStorageWrite, if_neg]
    rw [otaProgBufMax]
    omega

/-- **A push at the gate.** It is refused and the storage stays as it is; or its sequence number is
above the stored one and takes its place, and its text is stored if the platform commits it. -/
theorem otaPush_cases (b : ProgBuild) (platform : OtaPlatform) (nvs : Nvs) (push : OtaPush) :
    otaPush b platform nvs push = (.rejected, nvs) ∨
    (nvs.otaSeq < otaSeqOf push.payload ∧
      otaPush b platform nvs push =
        if push.commits then
          (.accepted,
            { program := some (cstr (push.payload.drop rivrOtaHdrLen))
              otaSeq := otaSeqOf push.payload
              otaPending := 1 })
        else (.notStored, { nvs with otaSeq := otaSeqOf push.payload })) := by
  rw [otaPush]
  cases hverify : rivrOtaVerify b nvs push.payload with
  | none => exact Or.inl rfl
  | some nvs' =>
    right
    obtain ⟨⟨hlen, -, -, hseq⟩, rfl⟩ := rivrOtaVerify_eq_some.mp hverify
    refine ⟨hseq, ?_⟩
    simp only [rivrOtaActivate, if_neg (Nat.not_le.mpr hlen), exists_otaStorageWrite hverify]
    cases push.commits with
    | true => rfl
    | false => rfl

/-! ### Sequences of pushes -/

/-- The storage after the pushes. -/
def otaStorage (b : ProgBuild) (platform : OtaPlatform) (nvs : Nvs) (pushes : List OtaPush) : Nvs :=
  pushes.foldl (fun nvs push => (otaPush b platform nvs push).2) nvs

/-- The payloads that the gate does not reject, in their order. -/
def otaAccepted (b : ProgBuild) (platform : OtaPlatform) : Nvs → List OtaPush → List (List UInt8)
  | _, [] => []
  | nvs, push :: pushes =>
    let rest := otaAccepted b platform (otaPush b platform nvs push).2 pushes
    if (otaPush b platform nvs push).1 = .rejected then rest else push.payload :: rest

/-- The accepted sequence numbers grow, from above the stored one. -/
theorem pairwise_otaAccepted (nvs : Nvs) (pushes : List OtaPush) :
    ((otaAccepted b platform nvs pushes).map otaSeqOf).Pairwise (· < ·) ∧
      ∀ seq ∈ (otaAccepted b platform nvs pushes).map otaSeqOf, nvs.otaSeq < seq := by
  induction pushes generalizing nvs with
  | nil => exact ⟨List.Pairwise.nil, fun seq hseq => absurd hseq List.not_mem_nil⟩
  | cons push pushes ih =>
    rw [otaAccepted]
    rcases otaPush_cases b platform nvs push with
      hrejected | ⟨hlt, hpush⟩
    · rw [hrejected, if_pos rfl]
      exact ih nvs
    · have hne : (otaPush b platform nvs push).1 ≠ .rejected := by
        rw [hpush]
        split_ifs <;> exact nofun
      have hstored : (otaPush b platform nvs push).2.otaSeq = otaSeqOf push.payload := by
        rw [hpush]
        split_ifs <;> rfl
      obtain ⟨hpairwise, habove⟩ := ih (otaPush b platform nvs push).2
      rw [hstored] at habove
      rw [if_neg hne, List.map_cons]
      refine ⟨List.pairwise_cons.mpr ⟨habove, hpairwise⟩, fun seq hseq => ?_⟩
      rcases List.mem_cons.mp hseq with rfl | hseq
      · exact hlt
      · exact UInt32.lt_trans hlt (habove seq hseq)

/-- **No update is replayed.** Over any pushes, on any platform, with any storage to begin with: the
sequence numbers of the accepted payloads grow strictly, so no payload is accepted twice, and a
rejected push leaves the storage as it was, whatever was pushed before it. -/
theorem ota_replay (b : ProgBuild) (platform : OtaPlatform) (nvs : Nvs) (pushes : List OtaPush) :
    ((otaAccepted b platform nvs pushes).map otaSeqOf).Pairwise (· < ·) ∧
      (otaAccepted b platform nvs pushes).Nodup ∧
      ∀ push, (otaPush b platform (otaStorage b platform nvs pushes) push).1 = .rejected →
        (otaPush b platform (otaStorage b platform nvs pushes) push).2 =
          otaStorage b platform nvs pushes := by
  have hpairwise : ((otaAccepted b platform nvs pushes).map otaSeqOf).Pairwise (· < ·) :=
    (pairwise_otaAccepted nvs pushes).1
  refine ⟨hpairwise, ?_, fun push hrejected => ?_⟩
  · refine (List.pairwise_map.mp hpairwise).imp ?_
    rintro payload _ hlt rfl
    exact UInt32.lt_irrefl _ hlt
  · rcases otaPush_cases b platform (otaStorage b platform nvs pushes) push with hpush | ⟨-, hpush⟩
    · rw [hpush]
    · rw [hpush] at hrejected
      split_ifs at hrejected

/-- On ESP32 the gate is what a push to the node goes through. -/
theorem handleProgPush_signed {myNodeId : UInt32} {hdr : RivrPktHdr} {s : EmbedState}
    (hsigned : b.signedProg = true) (hdst : hdr.dstId = myNodeId ∨ hdr.dstId = 0) :
    (handleProgPush b myNodeId hdr payload s).2.nvs =
      (otaPush b .esp32 s.nvs ⟨payload.take hdr.payloadLen.toNat, true⟩).2 := by
  rw [handleProgPush, otaPush]
  have haddressed : ¬(hdr.dstId ≠ myNodeId ∧ hdr.dstId ≠ 0) := by
    rw [not_and_or, not_not, not_not]
    exact hdst
  simp only [if_neg haddressed, hsigned, if_true]
  by_cases hnil : payload.take hdr.payloadLen.toNat = []
  · rw [if_pos hnil, hnil]
    rfl
  · rw [if_neg hnil]
    cases hverify : rivrOtaVerify b s.nvs (payload.take hdr.payloadLen.toNat) with
    | none => rfl
    | some nvs' =>
      obtain ⟨⟨hlen, -, -, -⟩, -⟩ := rivrOtaVerify_eq_some.mp hverify
      simp only [rivrOtaActivate, if_neg (Nat.not_le.mpr hlen), otaStorageWrite, if_true]
      rfl

end Rivr
