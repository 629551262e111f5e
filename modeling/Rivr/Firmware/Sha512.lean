import Mathlib.Tactic.NormNum
import Rivr.ForMathlib.MerkleDamgard

/-!
# SHA-512

`firmware_core/ed25519_verify.c`: SHA-512 over a buffer of one block and a counter of bits in two
words. The number of bytes that wait in the buffer is read off the counter.
-/

namespace Rivr

/-! ### The compression function -/

/-- `ROR64`. -/
def ror64 (x n : UInt64) : UInt64 := x >>> n ||| x <<< (64 - n)

/-- `CH`. -/
def sha512Ch (x y z : UInt64) : UInt64 := x &&& y ^^^ (~~~x &&& z)

/-- `MAJ`. -/
def sha512Maj (x y z : UInt64) : UInt64 := x &&& y ^^^ (x &&& z) ^^^ (y &&& z)

/-- `EP0`. -/
def sha512Ep0 (x : UInt64) : UInt64 := ror64 x 28 ^^^ ror64 x 34 ^^^ ror64 x 39

/-- `EP1`. -/
def sha512Ep1 (x : UInt64) : UInt64 := ror64 x 14 ^^^ ror64 x 18 ^^^ ror64 x 41

/-- `S0`. -/
def sha512S0 (x : UInt64) : UInt64 := ror64 x 1 ^^^ ror64 x 8 ^^^ x >>> 7

/-- `S1`. -/
def sha512S1 (x : UInt64) : UInt64 := ror64 x 19 ^^^ ror64 x 61 ^^^ x >>> 6

/-- `K`. -/
def sha512K : List UInt64 :=
  [0x428a2f98d728ae22, 0x7137449123ef65cd, 0xb5c0fbcfec4d3b2f, 0xe9b5dba58189dbbc,
   0x3956c25bf348b538, 0x59f111f1b605d019, 0x923f82a4af194f9b, 0xab1c5ed5da6d8118,
   0xd807aa98a3030242, 0x12835b0145706fbe, 0x243185be4ee4b28c, 0x550c7dc3d5ffb4e2,
   0x72be5d74f27b896f, 0x80deb1fe3b1696b1, 0x9bdc06a725c71235, 0xc19bf174cf692694,
   0xe49b69c19ef14ad2, 0xefbe4786384f25e3, 0x0fc19dc68b8cd5b5, 0x240ca1cc77ac9c65,
   0x2de92c6f592b0275, 0x4a7484aa6ea6e483, 0x5cb0a9dcbd41fbd4, 0x76f988da831153b5,
   0x983e5152ee66dfab, 0xa831c66d2db43210, 0xb00327c898fb213f, 0xbf597fc7beef0ee4,
   0xc6e00bf33da88fc2, 0xd5a79147930aa725, 0x06ca6351e003826f, 0x142929670a0e6e70,
   0x27b70a8546d22ffc, 0x2e1b21385c26c926, 0x4d2c6dfc5ac42aed, 0x53380d139d95b3df,
   0x650a73548baf63de, 0x766a0abb3c77b2a8, 0x81c2c92e47edaee6, 0x92722c851482353b,
   0xa2bfe8a14cf10364, 0xa81a664bbc423001, 0xc24b8b70d0f89791, 0xc76c51a30654be30,
   0xd192e819d6ef5218, 0xd69906245565a910, 0xf40e35855771202a, 0x106aa07032bbd1b8,
   0x19a4c116b8d2d0c8, 0x1e376c085141ab53, 0x2748774cdf8eeb99, 0x34b0bcb5e19b48a8,
   0x391c0cb3c5c95a63, 0x4ed8aa4ae3418acb, 0x5b9cca4f7763e373, 0x682e6ff3d6b2b8a3,
   0x748f82ee5defb2fc, 0x78a5636f43172f60, 0x84c87814a1f0ab72, 0x8cc702081a6439ec,
   0x90befffa23631e28, 0xa4506cebde82bde9, 0xbef9a3f7b2c67915, 0xc67178f2e372532b,
   0xca273eceea26619c, 0xd186b8c721c0c207, 0xeada7dd6cde0eb1e, 0xf57d4f7fee6ed178,
   0x06f067aa72176fba, 0x0a637dc5a2c898a6, 0x113f9804bef90dae, 0x1b710b35131c471b,
   0x28db77f523047d84, 0x32caab7b40c72493, 0x3c9ebe0a15c9bebc, 0x431d67c49c100d4c,
   0x4cc5d4becb3e42b6, 0x597f299cfc657e2a, 0x5fcb6fab3ad6faec, 0x6c44198c4a475817]

/-- The words `a` to `h`. -/
structure Sha512State where
  a : UInt64
  b : UInt64
  c : UInt64
  d : UInt64
  e : UInt64
  f : UInt64
  g : UInt64
  h : UInt64
deriving DecidableEq

/-- The first words of the schedule: big-endian, eight bytes each. -/
def sha512Words : List UInt8 → List UInt64
  | b0 :: b1 :: b2 :: b3 :: b4 :: b5 :: b6 :: b7 :: rest =>
    (b0.toUInt64 <<< 56 ||| b1.toUInt64 <<< 48 ||| b2.toUInt64 <<< 40 ||| b3.toUInt64 <<< 32 |||
      b4.toUInt64 <<< 24 ||| b5.toUInt64 <<< 16 ||| b6.toUInt64 <<< 8 ||| b7.toUInt64) ::
      sha512Words rest
  | _ => []

/-- The next `n` words of the schedule, the newest first. -/
def sha512Extend : ℕ → List UInt64 → List UInt64
  | 0, w => w
  | n + 1, w =>
    sha512Extend n
      ((sha512S1 (w.getD 1 0) + w.getD 6 0 + sha512S0 (w.getD 14 0) + w.getD 15 0) :: w)

/-- One round, with the constant and the word of the schedule. -/
def sha512Round (s : Sha512State) (kw : UInt64 × UInt64) : Sha512State :=
  let t1 := s.h + sha512Ep1 s.e + sha512Ch s.e s.f s.g + kw.1 + kw.2
  let t2 := sha512Ep0 s.a + sha512Maj s.a s.b s.c
  ⟨t1 + t2, s.a, s.b, s.c, s.d + t1, s.e, s.f, s.g⟩

/-- `sha512_transform`, of the 128 bytes that `data` points to. -/
def sha512Transform (s : Sha512State) (data : List UInt8) : Sha512State :=
  let w := (sha512Extend 64 (sha512Words data).reverse).reverse
  let r := (sha512K.zip w).foldl sha512Round s
  ⟨s.a + r.a, s.b + r.b, s.c + r.c, s.d + r.d, s.e + r.e, s.f + r.f, s.g + r.g, s.h + r.h⟩

/-! ### The context -/

/-- `sha512_t`. -/
structure Sha512Ctx where
  h : Sha512State
  buf : List UInt8
  lo : UInt64
  hi : UInt64

/-- The words that `sha512_init` sets. -/
def sha512Start : Sha512State where
  a := 0x6a09e667f3bcc908
  b := 0xbb67ae8584caa73b
  c := 0x3c6ef372fe94f82b
  d := 0xa54ff53a5f1d36f1
  e := 0x510e527fade682d1
  f := 0x9b05688c2b3e6c1f
  g := 0x1f83d9abfb41bd6b
  h := 0x5be0cd19137e2179

/-- `sha512_init`, on a context whose buffer holds anything. -/
def sha512Init (buf : List UInt8) : Sha512Ctx where
  h := sha512Start
  buf := buf
  lo := 0
  hi := 0

/-- `memcpy(buf + i, src, …)`, and `memset` with the bytes it sets. -/
def bufWrite (buf : List UInt8) (i : ℕ) (src : List UInt8) : List UInt8 :=
  buf.take i ++ src ++ buf.drop (i + src.length)

/-- `(ctx->lo >> 3) & (SHA512_BLOCK - 1)`. -/
def Sha512Ctx.used (ctx : Sha512Ctx) : ℕ := (ctx.lo >>> 3 &&& 127).toNat

/-- The complete blocks of the data, compressed where they are, and what follows them. -/
def sha512Blocks (h : Sha512State) (data : List UInt8) : Sha512State × List UInt8 :=
  if 128 ≤ data.length then sha512Blocks (sha512Transform h (data.take 128)) (data.drop 128)
  else (h, data)
termination_by data.length
decreasing_by
  rw [List.length_drop]
  omega

/-- `sha512_update`. -/
def sha512Update (ctx : Sha512Ctx) (data : List UInt8) : Sha512Ctx :=
  let used := ctx.used
  let bits := UInt64.ofNat data.length <<< 3
  let lo := ctx.lo + bits
  let hi := (if lo < bits then ctx.hi + 1 else ctx.hi) + UInt64.ofNat data.length >>> 61
  let free := 128 - used
  if free ≤ data.length then
    let buf := bufWrite ctx.buf used (data.take free)
    let (h, rest) := sha512Blocks (sha512Transform ctx.h buf) (data.drop free)
    ⟨h, bufWrite buf 0 rest, lo, hi⟩
  else ⟨ctx.h, bufWrite ctx.buf used data, lo, hi⟩

/-- The bytes of a word, most significant first. -/
def sha512Bytes (x : UInt64) : List UInt8 :=
  [(x >>> 56).toUInt8, (x >>> 48).toUInt8, (x >>> 40).toUInt8, (x >>> 32).toUInt8,
    (x >>> 24).toUInt8, (x >>> 16).toUInt8, (x >>> 8).toUInt8, x.toUInt8]

/-- The 64 bytes of the state. -/
def sha512Digest (s : Sha512State) : List UInt8 :=
  sha512Bytes s.a ++ sha512Bytes s.b ++ sha512Bytes s.c ++ sha512Bytes s.d ++
    sha512Bytes s.e ++ sha512Bytes s.f ++ sha512Bytes s.g ++ sha512Bytes s.h

/-- `sha512_final`: the digest. -/
def sha512Final (ctx : Sha512Ctx) : List UInt8 :=
  let buf := bufWrite ctx.buf ctx.used [0x80]
  let used := ctx.used + 1
  let (h, buf, used) :=
    if 112 < used then
      let buf := bufWrite buf used (List.replicate (128 - used) 0)
      (sha512Transform ctx.h buf, buf, 0)
    else (ctx.h, buf, used)
  let buf := bufWrite buf used (List.replicate (112 - used) 0)
  let buf := bufWrite buf 112 (sha512Bytes ctx.hi ++ sha512Bytes ctx.lo)
  sha512Digest (sha512Transform h buf)

/-- `sha512_3`, with the bytes that the stack holds. -/
def sha5123 (stack a b c : List UInt8) : List UInt8 :=
  sha512Final (sha512Update (sha512Update (sha512Update (sha512Init stack) a) b) c)

/-! ### The hash of a whole message -/

/-- The length of a message in bits, as a number of 128 bits. -/
def sha512Length (n : ℕ) : List UInt8 :=
  sha512Bytes (UInt64.ofNat (8 * n / 2 ^ 64)) ++ sha512Bytes (UInt64.ofNat (8 * n))

/-- SHA-512 of a message: the blocks of the padded message, folded from the start. -/
def sha512 (m : List UInt8) : List UInt8 :=
  sha512Digest (MerkleDamgard.absorb 128 sha512Transform sha512Start
    (m ++ MerkleDamgard.padding 128 16 0x80 0 m.length (sha512Length m.length))).1

open MerkleDamgard

/-- A message that fits into one block with its padding. -/
theorem sha512_of_length_eq {m : List UInt8}
    (h : (m ++ padding 128 16 0x80 0 m.length (sha512Length m.length)).length = 128) :
    sha512 m = sha512Digest (sha512Transform sha512Start
      (m ++ padding 128 16 0x80 0 m.length (sha512Length m.length))) := by
  rw [sha512, absorb_block (by norm_num) h]

/-! ### The pieces of a message -/

theorem sha512Blocks_eq (h : Sha512State) (data : List UInt8) :
    sha512Blocks h data = absorb 128 sha512Transform h data := by
  fun_induction sha512Blocks h data with
  | case1 h data hle ih => rw [ih, absorb_of_le (by norm_num) hle]
  | case2 h data hlt => rw [absorb_of_lt (Nat.not_le.mp hlt)]

section Buffer

variable {buf src : List UInt8} {i : ℕ}

theorem length_bufWrite (h : i + src.length ≤ buf.length) :
    (bufWrite buf i src).length = buf.length := by
  simp only [bufWrite, List.length_append, List.length_take, List.length_drop]
  omega

theorem take_bufWrite (h : i + src.length ≤ buf.length) :
    (bufWrite buf i src).take (i + src.length) = buf.take i ++ src := by
  have hlen : (buf.take i ++ src).length = i + src.length := by
    rw [List.length_append, List.length_take]
    omega
  rw [bufWrite, List.take_append_of_le_length hlen.ge, List.take_of_length_le hlen.le]

/-- What is written up to the end of the buffer. -/
theorem bufWrite_eq (h : i + src.length = buf.length) : bufWrite buf i src = buf.take i ++ src := by
  rw [bufWrite, h, List.drop_length, List.append_nil]

/-- Two writes, the second behind the first and up to the end of the buffer. -/
theorem bufWrite_bufWrite {next : List UInt8} {j : ℕ} (hj : j = i + src.length)
    (h : j + next.length = buf.length) :
    bufWrite (bufWrite buf i src) j next = buf.take i ++ (src ++ next) := by
  have hle : i + src.length ≤ buf.length := by omega
  rw [bufWrite_eq (by rw [length_bufWrite hle, h]), hj, take_bufWrite hle, List.append_assoc]

end Buffer

/-- The context has taken the message in: the blocks are compressed, the rest stands at the front
of the buffer, and the two words count the bits. -/
structure Sha512Ctx.Absorbed (ctx : Sha512Ctx) (m : List UInt8) : Prop where
  h : ctx.h = (absorb 128 sha512Transform sha512Start m).1
  length_buf : ctx.buf.length = 128
  rest : ctx.buf.take (m.length % 128) = (absorb 128 sha512Transform sha512Start m).2
  bits : ctx.lo.toNat + 2 ^ 64 * ctx.hi.toNat = 8 * m.length % 2 ^ 128

theorem sha512Init_absorbed {stack : List UInt8} (h : stack.length = 128) :
    (sha512Init stack).Absorbed [] where
  h := by rw [absorb_of_lt (by decide)]; rfl
  length_buf := h
  rest := by rw [absorb_of_lt (by decide)]; rfl
  bits := rfl

section Update

variable {ctx : Sha512Ctx} {m d : List UInt8}

theorem Sha512Ctx.Absorbed.used (h : ctx.Absorbed m) : ctx.used = m.length % 128 := by
  have hbits := h.bits
  have hand : ctx.used = ctx.lo.toNat / 8 % 128 := by
    have h127 : (127 : ℕ) = 2 ^ 7 - 1 := rfl
    rw [Sha512Ctx.used, UInt64.toNat_and, UInt64.toNat_shiftRight]
    change ctx.lo.toNat >>> 3 &&& 127 = _
    rw [h127, Nat.and_two_pow_sub_one_eq_mod, Nat.shiftRight_eq_div_pow]
  rw [hand]
  omega

/-- The bits of one more piece, with the carry between the words. -/
theorem bits_add {lo hi : UInt64} {n k : ℕ} (hk : k < 2 ^ 64)
    (h : lo.toNat + 2 ^ 64 * hi.toNat = 8 * n % 2 ^ 128) :
    (lo + UInt64.ofNat k <<< 3).toNat + 2 ^ 64 *
      ((if lo + UInt64.ofNat k <<< 3 < UInt64.ofNat k <<< 3 then hi + 1 else hi) +
        UInt64.ofNat k >>> 61).toNat = 8 * (n + k) % 2 ^ 128 := by
  have hlow : (UInt64.ofNat k <<< 3).toNat = 8 * k % 2 ^ 64 := by
    rw [UInt64.toNat_shiftLeft, UInt64.toNat_ofNat', Nat.mod_eq_of_lt hk]
    change k <<< 3 % 2 ^ 64 = _
    rw [Nat.shiftLeft_eq, mul_comm]
  have hhigh : (UInt64.ofNat k >>> 61).toNat = 8 * k / 2 ^ 64 := by
    rw [UInt64.toNat_shiftRight, UInt64.toNat_ofNat', Nat.mod_eq_of_lt hk]
    change k >>> 61 = _
    rw [Nat.shiftRight_eq_div_pow]
    omega
  have hlo := lo.toNat_lt
  have hhi := hi.toNat_lt
  split_ifs with hcarry
  · rw [UInt64.lt_iff_toNat_lt, UInt64.toNat_add, hlow] at hcarry
    rw [UInt64.toNat_add, UInt64.toNat_add, UInt64.toNat_add, UInt64.toNat_one, hlow, hhigh]
    omega
  · rw [UInt64.lt_iff_toNat_lt, UInt64.toNat_add, hlow] at hcarry
    rw [UInt64.toNat_add, UInt64.toNat_add, hlow, hhigh]
    omega

/-- A piece that fills the buffer: the buffer is compressed, and the blocks of what follows. -/
theorem Sha512Ctx.Absorbed.fill (h : ctx.Absorbed m) (hfree : 128 - m.length % 128 ≤ d.length) :
    let buf := bufWrite ctx.buf (m.length % 128) (d.take (128 - m.length % 128))
    let next := sha512Blocks (sha512Transform ctx.h buf) (d.drop (128 - m.length % 128))
    next = absorb 128 sha512Transform sha512Start (m ++ d) ∧
      (bufWrite buf 0 next.2).length = 128 ∧
      (bufWrite buf 0 next.2).take ((m ++ d).length % 128) = next.2 := by
  intro buf next
  have hk : 0 < 128 := by norm_num
  have hfull : m.length % 128 + (d.take (128 - m.length % 128)).length = ctx.buf.length := by
    rw [List.length_take, Nat.min_eq_left hfree, h.length_buf]
    omega
  have hbuf : buf = ctx.buf.take (m.length % 128) ++ d.take (128 - m.length % 128) :=
    bufWrite_eq hfull
  have hblock : buf.length = 128 := by rw [length_bufWrite hfull.le, h.length_buf]
  have hnext : next = absorb 128 sha512Transform sha512Start (m ++ d) := by
    have hsplit : ctx.buf.take (m.length % 128) ++ d = buf ++ d.drop (128 - m.length % 128) := by
      rw [hbuf, List.append_assoc, List.take_append_drop]
    rw [absorb_append hk, ← h.h, ← h.rest, hsplit, absorb_block_append hk hblock, ← sha512Blocks_eq]
  have hleft : next.2.length = (m ++ d).length % 128 := by rw [hnext, length_absorb_snd hk]
  have hsmall : 0 + next.2.length ≤ buf.length := by
    rw [hblock, hleft, Nat.zero_add]
    exact (Nat.mod_lt _ hk).le
  refine ⟨hnext, by rw [length_bufWrite hsmall, hblock], ?_⟩
  rw [← hleft, ← Nat.zero_add next.2.length, take_bufWrite hsmall, List.take_zero, List.nil_append]

/-- A piece that fits behind what waits. -/
theorem Sha512Ctx.Absorbed.wait (h : ctx.Absorbed m) (hfree : ¬128 - m.length % 128 ≤ d.length) :
    absorb 128 sha512Transform sha512Start (m ++ d) =
        (ctx.h, ctx.buf.take (m.length % 128) ++ d) ∧
      (bufWrite ctx.buf (m.length % 128) d).length = 128 ∧
      (bufWrite ctx.buf (m.length % 128) d).take ((m ++ d).length % 128) =
        ctx.buf.take (m.length % 128) ++ d := by
  have hk : 0 < 128 := by norm_num
  have hfit : m.length % 128 + d.length < 128 := by omega
  have hle : m.length % 128 + d.length ≤ ctx.buf.length := by
    rw [h.length_buf]
    exact hfit.le
  have hmod : (m ++ d).length % 128 = m.length % 128 + d.length := by
    rw [List.length_append]
    omega
  have hwait : (ctx.buf.take (m.length % 128) ++ d).length < 128 := by
    rw [List.length_append, h.rest, length_absorb_snd hk]
    exact hfit
  refine ⟨?_, by rw [length_bufWrite hle, h.length_buf], by rw [hmod, take_bufWrite hle]⟩
  rw [absorb_append hk, ← h.h, ← h.rest, absorb_of_lt hwait]

/-- One piece of the message. -/
theorem Sha512Ctx.Absorbed.update (h : ctx.Absorbed m) (hd : d.length < 2 ^ 64) :
    (sha512Update ctx d).Absorbed (m ++ d) := by
  have hbits := bits_add hd h.bits
  rw [← List.length_append] at hbits
  unfold sha512Update
  simp only [h.used]
  by_cases hfree : 128 - m.length % 128 ≤ d.length
  · obtain ⟨hnext, hlen, hrest⟩ := h.fill hfree
    rw [if_pos hfree]
    exact ⟨congrArg Prod.fst hnext, hlen, hrest.trans (congrArg Prod.snd hnext), hbits⟩
  · obtain ⟨hnext, hlen, hrest⟩ := h.wait hfree
    rw [if_neg hfree]
    exact ⟨(congrArg Prod.fst hnext).symm, hlen, hrest.trans (congrArg Prod.snd hnext).symm, hbits⟩

/-- The pieces of the message, one after the other. -/
theorem Sha512Ctx.Absorbed.foldl {ps : List (List UInt8)} (h : ctx.Absorbed m)
    (hps : ∀ p ∈ ps, p.length < 2 ^ 64) :
    (ps.foldl sha512Update ctx).Absorbed (m ++ ps.flatten) := by
  induction ps generalizing ctx m with
  | nil => rwa [List.flatten_nil, List.append_nil]
  | cons p ps ih =>
    rw [List.flatten_cons, ← List.append_assoc]
    exact ih (h.update (hps p List.mem_cons_self)) fun q hq => hps q (List.mem_cons_of_mem p hq)

end Update

/-! ### The digest -/

@[simp]
theorem length_sha512Bytes (x : UInt64) : (sha512Bytes x).length = 8 := rfl

@[simp]
theorem length_sha512Digest (s : Sha512State) : (sha512Digest s).length = 64 := by
  simp only [sha512Digest, List.length_append, length_sha512Bytes]

@[simp]
theorem length_sha512 (m : List UInt8) : (sha512 m).length = 64 := length_sha512Digest _

/-- The two words of the counter are the length of the message in bits. -/
theorem Sha512Ctx.Absorbed.length_eq {ctx : Sha512Ctx} {m : List UInt8} (h : ctx.Absorbed m) :
    sha512Bytes ctx.hi ++ sha512Bytes ctx.lo = sha512Length m.length := by
  have hbits := h.bits
  have hlo := ctx.lo.toNat_lt
  have hhi := ctx.hi.toNat_lt
  have hhigh : UInt64.ofNat (8 * m.length / 2 ^ 64) = ctx.hi := by
    apply UInt64.toNat_inj.mp
    rw [UInt64.toNat_ofNat']
    omega
  have hlow : UInt64.ofNat (8 * m.length) = ctx.lo := by
    apply UInt64.toNat_inj.mp
    rw [UInt64.toNat_ofNat']
    omega
  rw [sha512Length, hhigh, hlow]

/-- The digest of a context is the hash of the message it took in. -/
theorem Sha512Ctx.Absorbed.final {ctx : Sha512Ctx} {m : List UInt8} (h : ctx.Absorbed m) :
    sha512Final ctx = sha512 m := by
  have hlt : m.length % 128 < 128 := Nat.mod_lt _ (by norm_num)
  have hrest : (ctx.buf.take (m.length % 128)).length = m.length % 128 := by
    rw [List.length_take, h.length_buf, Nat.min_eq_left hlt.le]
  have hlength : (sha512Length m.length).length = 16 := rfl
  have hone : m.length % 128 + [(0x80 : UInt8)].length ≤ ctx.buf.length := by
    rw [h.length_buf]
    exact hlt
  rw [sha512, absorb_append_padding (by norm_num) hlength, ← h.h, ← h.rest, hrest]
  unfold sha512Final
  simp only [h.used, h.length_eq]
  generalize hb : bufWrite ctx.buf (m.length % 128) [0x80] = buf
  have hlen : buf.length = 128 := by rw [← hb, length_bufWrite hone, h.length_buf]
  have htake : buf.take (m.length % 128 + 1) = ctx.buf.take (m.length % 128) ++ [0x80] := by
    rw [← hb]
    exact take_bufWrite hone
  have hsub (n : ℕ) : n + 1 - (m.length % 128 + 1) = n - m.length % 128 := by omega
  have hzeros : (128 - 16 : ℕ) = 112 - 0 := rfl
  by_cases hfit : 112 < m.length % 128 + 1
  · -- the length does not fit: one more block
    have hfull : m.length % 128 + 1 +
        (List.replicate (128 - (m.length % 128 + 1)) (0 : UInt8)).length = buf.length := by
      rw [List.length_replicate, hlen]
      omega
    have hblock := length_bufWrite hfull.le
    rw [if_pos hfit, if_pos (by omega), hzeros]
    simp only
    rw [bufWrite_bufWrite (by rw [List.length_replicate]) (by rw [hblock, hlen, hlength]),
      bufWrite_eq hfull, htake, List.take_zero, List.nil_append, List.append_assoc,
      List.singleton_append, hsub 127]
  · rw [if_neg hfit, if_neg (by omega)]
    simp only
    rw [bufWrite_bufWrite (by rw [List.length_replicate]; omega) (by rw [hlen, hlength]), htake,
      List.append_assoc, List.singleton_append, hsub 111]

/-- Cut into pieces in any way, a message has the digest of the whole message. -/
theorem sha512Final_foldl {stack : List UInt8} (hstack : stack.length = 128)
    {ps : List (List UInt8)} (hps : ∀ p ∈ ps, p.length < 2 ^ 64) :
    sha512Final (ps.foldl sha512Update (sha512Init stack)) = sha512 ps.flatten :=
  ((sha512Init_absorbed hstack).foldl hps).final

theorem sha512Final_foldl_three :
    sha512Final ([[0x61], [], [0x62, 0x63]].foldl sha512Update
      (sha512Init (List.replicate 128 0xa5))) = sha512 [0x61, 0x62, 0x63] :=
  sha512Final_foldl List.length_replicate (by decide)

/-- The hash of three buffers is the hash of their bytes in a row. -/
theorem sha5123_eq {stack a b c : List UInt8} (hstack : stack.length = 128)
    (ha : a.length < 2 ^ 64) (hb : b.length < 2 ^ 64) (hc : c.length < 2 ^ 64) :
    sha5123 stack a b c = sha512 (a ++ b ++ c) :=
  ((((sha512Init_absorbed hstack).update ha).update hb).update hc).final

end Rivr
