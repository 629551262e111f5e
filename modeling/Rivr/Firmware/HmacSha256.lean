import Mathlib.Data.List.Basic

/-!
# HMAC-SHA-256

`firmware_core/crypto/hmac_sha256.c`: SHA-256 over a context that collects the bytes of a block, and
HMAC over two runs of it.
-/

namespace Rivr

/-! ### SHA-256 -/

/-- `ROR32`. -/
def ror32 (x n : UInt32) : UInt32 := x >>> n ||| x <<< (32 - n)

/-- `CH`. -/
def sha256Ch (x y z : UInt32) : UInt32 := x &&& y ^^^ (~~~x &&& z)

/-- `MAJ`. -/
def sha256Maj (x y z : UInt32) : UInt32 := x &&& y ^^^ (x &&& z) ^^^ (y &&& z)

/-- `EP0`. -/
def sha256Ep0 (x : UInt32) : UInt32 := ror32 x 2 ^^^ ror32 x 13 ^^^ ror32 x 22

/-- `EP1`. -/
def sha256Ep1 (x : UInt32) : UInt32 := ror32 x 6 ^^^ ror32 x 11 ^^^ ror32 x 25

/-- `SIG0`. -/
def sha256Sig0 (x : UInt32) : UInt32 := ror32 x 7 ^^^ ror32 x 18 ^^^ x >>> 3

/-- `SIG1`. -/
def sha256Sig1 (x : UInt32) : UInt32 := ror32 x 17 ^^^ ror32 x 19 ^^^ x >>> 10

/-- `K`. -/
def sha256K : List UInt32 :=
  [0x428a2f98, 0x71374491, 0xb5c0fbcf, 0xe9b5dba5, 0x3956c25b, 0x59f111f1, 0x923f82a4, 0xab1c5ed5,
   0xd807aa98, 0x12835b01, 0x243185be, 0x550c7dc3, 0x72be5d74, 0x80deb1fe, 0x9bdc06a7, 0xc19bf174,
   0xe49b69c1, 0xefbe4786, 0x0fc19dc6, 0x240ca1cc, 0x2de92c6f, 0x4a7484aa, 0x5cb0a9dc, 0x76f988da,
   0x983e5152, 0xa831c66d, 0xb00327c8, 0xbf597fc7, 0xc6e00bf3, 0xd5a79147, 0x06ca6351, 0x14292967,
   0x27b70a85, 0x2e1b2138, 0x4d2c6dfc, 0x53380d13, 0x650a7354, 0x766a0abb, 0x81c2c92e, 0x92722c85,
   0xa2bfe8a1, 0xa81a664b, 0xc24b8b70, 0xc76c51a3, 0xd192e819, 0xd6990624, 0xf40e3585, 0x106aa070,
   0x19a4c116, 0x1e376c08, 0x2748774c, 0x34b0bcb5, 0x391c0cb3, 0x4ed8aa4a, 0x5b9cca4f, 0x682e6ff3,
   0x748f82ee, 0x78a5636f, 0x84c87814, 0x8cc70208, 0x90befffa, 0xa4506ceb, 0xbef9a3f7, 0xc67178f2]

/-- The words `a` to `h`. -/
structure Sha256State where
  a : UInt32
  b : UInt32
  c : UInt32
  d : UInt32
  e : UInt32
  f : UInt32
  g : UInt32
  h : UInt32

/-- The first sixteen words of the schedule: big-endian, four bytes each. -/
def sha256Words : List UInt8 → List UInt32
  | b0 :: b1 :: b2 :: b3 :: rest =>
    (b0.toUInt32 <<< 24 ||| b1.toUInt32 <<< 16 ||| b2.toUInt32 <<< 8 ||| b3.toUInt32) ::
      sha256Words rest
  | _ => []

/-- The next `n` words of the schedule, the newest first. -/
def sha256Extend : ℕ → List UInt32 → List UInt32
  | 0, m => m
  | n + 1, m =>
    sha256Extend n
      ((sha256Sig1 (m.getD 1 0) + m.getD 6 0 + sha256Sig0 (m.getD 14 0) + m.getD 15 0) :: m)

/-- One round, with the constant and the word of the schedule. -/
def sha256Round (s : Sha256State) (km : UInt32 × UInt32) : Sha256State :=
  let t1 := s.h + sha256Ep1 s.e + sha256Ch s.e s.f s.g + km.1 + km.2
  let t2 := sha256Ep0 s.a + sha256Maj s.a s.b s.c
  ⟨t1 + t2, s.a, s.b, s.c, s.d + t1, s.e, s.f, s.g⟩

/-- `sha256_transform`. -/
def sha256Transform (s : Sha256State) (data : List UInt8) : Sha256State :=
  let m := (sha256Extend 48 (sha256Words data).reverse).reverse
  let r := (sha256K.zip m).foldl sha256Round s
  ⟨s.a + r.a, s.b + r.b, s.c + r.c, s.d + r.d, s.e + r.e, s.f + r.f, s.g + r.g, s.h + r.h⟩

/-- `rivr_sha256_ctx_t`: the bytes of the partial block, the state, and the bits compressed. -/
structure Sha256Ctx where
  block : List UInt8
  state : Sha256State
  bitlen : UInt64

/-- `sha256_init`. -/
def sha256Init : Sha256Ctx where
  block := []
  state := ⟨0x6a09e667, 0xbb67ae85, 0x3c6ef372, 0xa54ff53a,
    0x510e527f, 0x9b05688c, 0x1f83d9ab, 0x5be0cd19⟩
  bitlen := 0

/-- `sha256_update`, one byte. -/
def sha256Push (ctx : Sha256Ctx) (b : UInt8) : Sha256Ctx :=
  let block := ctx.block ++ [b]
  if block.length = 64 then ⟨[], sha256Transform ctx.state block, ctx.bitlen + 512⟩
  else { ctx with block := block }

/-- `sha256_update`. -/
def sha256Update (ctx : Sha256Ctx) (data : List UInt8) : Sha256Ctx := data.foldl sha256Push ctx

/-- The bytes of a word, most significant first. -/
def bigEndian32 (x : UInt32) : List UInt8 :=
  [(x >>> 24).toUInt8, (x >>> 16).toUInt8, (x >>> 8).toUInt8, x.toUInt8]

/-- The bytes of a length, most significant first. -/
def bigEndian64 (x : UInt64) : List UInt8 :=
  bigEndian32 (x >>> 32).toUInt32 ++ bigEndian32 x.toUInt32

/-- `sha256_final`: the digest. -/
def sha256Final (ctx : Sha256Ctx) : List UInt8 :=
  let bitlen := bigEndian64 (ctx.bitlen + UInt64.ofNat ctx.block.length * 8)
  let padded := ctx.block ++ [0x80]
  let s :=
    if ctx.block.length < 56 then
      sha256Transform ctx.state (padded ++ List.replicate (56 - padded.length) 0 ++ bitlen)
    else
      let s := sha256Transform ctx.state (padded ++ List.replicate (64 - padded.length) 0)
      sha256Transform s (List.replicate 56 0 ++ bitlen)
  bigEndian32 s.a ++ bigEndian32 s.b ++ bigEndian32 s.c ++ bigEndian32 s.d ++
    bigEndian32 s.e ++ bigEndian32 s.f ++ bigEndian32 s.g ++ bigEndian32 s.h

/-- `rivr_sha256`. -/
def rivrSha256 (data : List UInt8) : List UInt8 := sha256Final (sha256Update sha256Init data)

/-! ### HMAC -/

/-- The key made to fit a block. -/
def hmacKey (key : List UInt8) : List UInt8 :=
  let k := if 64 < key.length then rivrSha256 key else key
  k ++ List.replicate (64 - k.length) 0

/-- `rivr_hmac_sha256`. -/
def rivrHmacSha256 (key msg : List UInt8) : List UInt8 :=
  let ikey := (hmacKey key).map (· ^^^ 0x36)
  let okey := (hmacKey key).map (· ^^^ 0x5c)
  let inner := sha256Final (sha256Update (sha256Update sha256Init ikey) msg)
  sha256Final (sha256Update (sha256Update sha256Init okey) inner)

@[simp] theorem length_bigEndian32 (x : UInt32) : (bigEndian32 x).length = 4 := rfl

@[simp] theorem length_sha256Final (ctx : Sha256Ctx) : (sha256Final ctx).length = 32 := by
  simp only [sha256Final, List.length_append, length_bigEndian32]

/-- A code has 32 bytes. -/
@[simp] theorem length_rivrHmacSha256 (key msg : List UInt8) :
    (rivrHmacSha256 key msg).length = 32 :=
  length_sha256Final _

end Rivr
