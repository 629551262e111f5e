import Mathlib.Tactic.NormNum
import Rivr.ForMathlib.MerkleDamgard
import Rivr.Firmware.HmacSha256

/-!
# The codes of whole messages

The context of `firmware_core/crypto/hmac_sha256.c` takes its bytes one at a time. Its digest is
the hash of the padded message, and the code is two hashes, one inside the other.
-/

namespace Rivr

open MerkleDamgard

/-- The words of the digest. -/
def sha256Digest (s : Sha256State) : List UInt8 :=
  bigEndian32 s.a ++ bigEndian32 s.b ++ bigEndian32 s.c ++ bigEndian32 s.d ++
    bigEndian32 s.e ++ bigEndian32 s.f ++ bigEndian32 s.g ++ bigEndian32 s.h

/-- SHA-256 of a message: the blocks of the padded message, folded from the start. -/
def sha256 (m : List UInt8) : List UInt8 :=
  sha256Digest (absorb 64 sha256Transform sha256Init.state
    (m ++ padding 64 8 0x80 0 m.length (bigEndian64 (UInt64.ofNat (8 * m.length))))).1

/-- The code of a message under a key: the key is cut to a block, by its hash or by zeros. -/
def hmacSha256 (key msg : List UInt8) : List UInt8 :=
  let k := if 64 < key.length then sha256 key else key
  let block := k ++ List.replicate (64 - k.length) 0
  sha256 (block.map (· ^^^ 0x5c) ++ sha256 (block.map (· ^^^ 0x36) ++ msg))

/-- The context has taken the message in. -/
structure Sha256Ctx.Absorbed (ctx : Sha256Ctx) (m : List UInt8) : Prop where
  absorb : absorb 64 sha256Transform sha256Init.state m = (ctx.state, ctx.block)
  bitlen : ctx.bitlen = UInt64.ofNat (8 * (m.length - ctx.block.length))

theorem sha256Init_absorbed : sha256Init.Absorbed [] where
  absorb := absorb_of_lt (by decide) _
  bitlen := rfl

section Update

variable {ctx : Sha256Ctx} {m : List UInt8}

theorem Sha256Ctx.Absorbed.length_block (h : ctx.Absorbed m) :
    ctx.block.length = m.length % 64 := by
  have hlen := length_absorb_snd (f := sha256Transform) (k := 64) (by norm_num) sha256Init.state m
  rwa [h.absorb] at hlen

/-- One more byte. -/
theorem Sha256Ctx.Absorbed.push (h : ctx.Absorbed m) (b : UInt8) :
    (sha256Push ctx b).Absorbed (m ++ [b]) := by
  have hk : 0 < 64 := by norm_num
  have hlen := h.length_block
  have happ := absorb_append (f := sha256Transform) hk sha256Init.state m [b]
  rw [h.absorb] at happ
  have hlast : (ctx.block ++ [b]).length = m.length % 64 + 1 := by
    rw [List.length_append, hlen, List.length_singleton]
  unfold sha256Push
  simp only
  by_cases hfull : (ctx.block ++ [b]).length = 64
  · rw [if_pos hfull]
    refine ⟨by rw [happ, absorb_block hk hfull], ?_⟩
    rw [h.bitlen, List.length_nil, Nat.sub_zero, List.length_append, List.length_singleton]
    have hle := Nat.mod_le m.length 64
    have hbits : 8 * (m.length + 1) = 8 * (m.length - ctx.block.length) + 512 := by omega
    rw [hbits, UInt64.ofNat_add]
    rfl
  · rw [if_neg hfull]
    have hlt : (ctx.block ++ [b]).length < 64 := by omega
    refine ⟨by rw [happ, absorb_of_lt hlt], ?_⟩
    rw [h.bitlen, List.length_append, List.length_append, Nat.add_sub_add_right]

theorem Sha256Ctx.Absorbed.update (h : ctx.Absorbed m) (d : List UInt8) :
    (sha256Update ctx d).Absorbed (m ++ d) := by
  induction d generalizing ctx m with
  | nil => rwa [List.append_nil]
  | cons b d ih =>
    rw [← List.singleton_append, ← List.append_assoc]
    exact ih (h.push b)

theorem sha256Final_eq (ctx : Sha256Ctx) :
    sha256Final ctx = sha256Digest
      (if ctx.block.length < 56 then
        sha256Transform ctx.state (ctx.block ++ [0x80] ++
          List.replicate (56 - (ctx.block ++ [0x80]).length) 0 ++
            bigEndian64 (ctx.bitlen + UInt64.ofNat ctx.block.length * 8))
      else
        sha256Transform
          (sha256Transform ctx.state (ctx.block ++ [0x80] ++
            List.replicate (64 - (ctx.block ++ [0x80]).length) 0))
          (List.replicate 56 0 ++ bigEndian64 (ctx.bitlen + UInt64.ofNat ctx.block.length * 8))) :=
  rfl

/-- The digest of a context is the hash of the message it took in. -/
theorem Sha256Ctx.Absorbed.final (h : ctx.Absorbed m) : sha256Final ctx = sha256 m := by
  have hlen := h.length_block
  have hle := Nat.mod_le m.length 64
  have hlt : m.length % 64 < 64 := Nat.mod_lt _ (by norm_num)
  have hbits : ctx.bitlen + UInt64.ofNat ctx.block.length * 8 = UInt64.ofNat (8 * m.length) := by
    have hsum : 8 * m.length = 8 * (m.length - ctx.block.length) + ctx.block.length * 8 := by omega
    rw [hsum, UInt64.ofNat_add, UInt64.ofNat_mul ctx.block.length, h.bitlen]
    rfl
  have hlength : (bigEndian64 (UInt64.ofNat (8 * m.length))).length = 8 := rfl
  have hone : (ctx.block ++ [(0x80 : UInt8)]).length = ctx.block.length + 1 := by
    rw [List.length_append, List.length_singleton]
  have hsub (n : ℕ) : n + 1 - (ctx.block.length + 1) = n - ctx.block.length := by omega
  rw [sha256, absorb_append_padding (by norm_num) hlength, h.absorb, sha256Final_eq, hbits, hone,
    hsub 55, hsub 63]
  simp only
  by_cases hfit : ctx.block.length < 56
  · rw [if_pos hfit, if_neg (by omega), List.append_assoc, List.append_assoc, List.singleton_append]
  · rw [if_neg hfit, if_pos (by omega), List.append_assoc, List.singleton_append]

end Update

theorem rivrSha256_eq (m : List UInt8) : rivrSha256 m = sha256 m :=
  (sha256Init_absorbed.update m).final

/-- The code that the firmware computes is the keyed code of the whole message. -/
theorem rivrHmacSha256_eq (key msg : List UInt8) : rivrHmacSha256 key msg = hmacSha256 key msg := by
  have hinner (ikey : List UInt8) :
      sha256Final (sha256Update (sha256Update sha256Init ikey) msg) = sha256 (ikey ++ msg) :=
    ((sha256Init_absorbed.update ikey).update msg).final
  have houter (okey inner : List UInt8) :
      sha256Final (sha256Update (sha256Update sha256Init okey) inner) = sha256 (okey ++ inner) :=
    ((sha256Init_absorbed.update okey).update inner).final
  simp only [rivrHmacSha256, hmacSha256, hmacKey, hinner, houter, rivrSha256_eq]

end Rivr
