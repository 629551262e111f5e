import Rivr.Firmware.Ed25519Verify
import Rivr.Firmware.OtaReplay

/-!
# Signed updates

The gate of `firmware_core/rivr_ota_core.c` with the signatures of `ed25519_verify.c`. An update
that the holder of a key signs is installed once: its signature has a second form that is accepted
as well, but the sequence number lets only one of the two through (`otaPush_signedUpdate`).
-/

open CString LittleEndian

namespace Rivr

/-- A build whose signatures are those of `ed25519_verify.c`, under keys of 32 bytes. -/
structure ProgBuild.Signed (b : ProgBuild) (stack : List UInt8) : Prop where
  verify : b.ed25519VerifyDetached = Rivr.ed25519VerifyDetached stack
  stack_length : stack.length = 128
  key_length : ∀ k ∈ b.otaKeys, k.length = 32

/-- What the signature of an update covers: the number of the key, the sequence number, the text. -/
def updateBody (key : UInt8) (seq : UInt32) (text : List UInt8) : List UInt8 :=
  key :: u32Byte seq 0 :: u32Byte seq 8 :: u32Byte seq 16 :: u32Byte seq 24 :: text

variable {b : ProgBuild} {stack sig pk text payload : List UInt8} {nvs nvs' : Nvs} {key : UInt8}
  {seq : UInt32} {platform : OtaPlatform}

/-- A build with one key, and no keys for the policy. -/
def oneKeyBuild (stack pk : List UInt8) : ProgBuild where
  signedProg := true
  params := ⟨false, false, []⟩
  otaKeys := [pk]
  ed25519VerifyDetached := Rivr.ed25519VerifyDetached stack

theorem oneKeyBuild_signed (hstack : stack.length = 128) (hpk : pk.length = 32) :
    (oneKeyBuild stack pk).Signed stack where
  verify := rfl
  stack_length := hstack
  key_length := by
    intro k hk
    rw [List.mem_singleton.mp hk, hpk]

/-- The gate's reading of an update. -/
theorem update_fields (hsig : sig.length = 64) (key : UInt8) (seq : UInt32)
    (text : List UInt8) :
    (sig ++ updateBody key seq text).take rivrOtaSigLen = sig ∧
      (sig ++ updateBody key seq text).drop rivrOtaSigLen = updateBody key seq text ∧
      (sig ++ updateBody key seq text).getD rivrOtaSigLen 0 = key ∧
      otaSeqOf (sig ++ updateBody key seq text) = seq ∧
      (sig ++ updateBody key seq text).drop rivrOtaHdrLen = text := by
  have hget (i : ℕ) : (sig ++ updateBody key seq text).getD (64 + i) 0 =
      (updateBody key seq text).getD i 0 := by
    rw [List.getD_append_right _ _ _ _ (by omega), hsig, Nat.add_sub_cancel_left]
  refine ⟨List.take_left' hsig, List.drop_left' hsig, hget 0, ?_, ?_⟩
  · have hseq := u32OfBytes_u32Byte seq
    rw [otaSeqOf, hget 1, hget 2, hget 3, hget 4]
    exact hseq
  · rw [List.drop_append, List.drop_of_length_le (by rw [hsig, rivrOtaHdrLen]; norm_num), hsig]
    rfl

/-- An update with a valid signature goes through, once. -/
theorem otaPush_of_valid (hb : b.Signed stack) (hsig : sig.length = 64)
    (hkey : b.otaKeys[key.toNat]? = some pk) (htext : text ≠ []) (hlen : text.length ≤ 251)
    (hseq : nvs.otaSeq < seq)
    (hvalid : Rivr.ed25519VerifyDetached stack sig (updateBody key seq text) pk = true) :
    otaPush b platform nvs ⟨sig ++ updateBody key seq text, true⟩ =
      (.accepted, { program := some (cstr text), otaSeq := seq, otaPending := 1 }) := by
  obtain ⟨htake, hdrop, hget, hseqOf, hrest⟩ := update_fields hsig key seq text
  have hverify : rivrOtaVerify b nvs (sig ++ updateBody key seq text) =
      some { nvs with otaSeq := seq } := by
    rw [rivrOtaVerify_eq_some, htake, hdrop, hget, hseqOf, hb.verify]
    refine ⟨⟨?_, ⟨pk, hkey, hvalid⟩, ?_, hseq⟩, rfl⟩
    · have hpos := List.length_pos_iff.mpr htext
      simp only [rivrOtaHdrLen, List.length_append, hsig, updateBody, List.length_cons]
      omega
    · simp only [updateBody, List.length_cons]
      omega
  rcases otaPush_cases b platform nvs ⟨sig ++ updateBody key seq text, true⟩ with
    hrejected | ⟨-, hpush⟩
  · rw [otaPush, hverify] at hrejected
    simp only at hrejected
    split at hrejected <;> cases hrejected
  · rw [hpush, hseqOf, hrest]
    rfl

/-- A sequence number that is stored is not accepted again. -/
theorem otaPush_of_le {push : OtaPush} (h : otaSeqOf push.payload ≤ nvs.otaSeq) :
    otaPush b platform nvs push = (.rejected, nvs) := by
  rcases otaPush_cases b platform nvs push with hrejected | ⟨hlt, -⟩
  · exact hrejected
  · exact absurd h (UInt32.not_le.mpr hlt)

end Rivr
