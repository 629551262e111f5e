import Rivr.Firmware.Ed25519Group

/-!
# Points as bytes

The encoding of points in `ed25519_verify.c`. `pt_pack` writes the second coordinate and the parity
of the first, and `unpackneg` finds the point again, negated: it accepts the bytes just when there
is a point that they stand for (`unpackneg_cases`).
-/

namespace Rivr

open Limbs LittleEndian TwistedEdwards

/-- The first `r[0]` of `unpackneg`: the candidate for a root of `num / den`. -/
def rootCandidate (num den : Gf) : Gf :=
  let den2 := gfSq den
  let den4 := gfSq den2
  let den6 := gfMul den4 den2
  let t := gfMul den6 num
  let t := gfMul t den
  let t := gfPow22523 t
  let t := gfMul t num
  let t := gfMul t den
  let t := gfMul t den
  gfMul t den

/-- The checks of `unpackneg`: the candidate, or the candidate times `I`, if one of them is a
root. -/
def checkRoot (num den x : Gf) : Option Gf :=
  let chk := gfMul (gfSq x) den
  let x := if neq25519 chk num then gfMul x gfI else x
  let chk := gfMul (gfSq x) den
  if neq25519 chk num then none else some x

/-- `num` of `unpackneg`: `y^2 - 1`. -/
def unpackNum (p : List UInt8) : Gf := gfSub (gfSq (unpack25519 p)) gf1

/-- `den` of `unpackneg`: `d*y^2 + 1`. -/
def unpackDen (p : List UInt8) : Gf := gfAdd gf1 (gfMul (gfSq (unpack25519 p)) gfD)

/-- The last steps of `unpackneg`: the root with the other sign. -/
def unpackSign (p : List UInt8) (x : Gf) : Pt :=
  let x := if par25519 x = p.getD 31 0 >>> 7 then gfSub gf0 x else x
  ⟨x, unpack25519 p, gf1, gfMul x (unpack25519 p)⟩

/-- `unpackneg`. -/
def unpackneg (p : List UInt8) : Option Pt :=
  (checkRoot (unpackNum p) (unpackDen p) (rootCandidate (unpackNum p) (unpackDen p))).map
    (unpackSign p)

/-! ### Packing -/

/-- The encoding of a point. -/
def encodePoint (P : curve25519.Point) : List UInt8 :=
  bytesOfNat 32 (P.y.val + 2 ^ 255 * (P.x.val % 2))

theorem xor_shiftLeft_seven {a b : ℕ} (ha : a < 128) (hb : b < 2) :
    UInt8.ofNat a ^^^ (UInt8.ofNat b <<< 7) = UInt8.ofNat (a + 128 * b) := by
  have hall : ∀ (a : Fin 128) (b : Fin 2),
      UInt8.ofNat a ^^^ (UInt8.ofNat b <<< 7) = UInt8.ofNat (a + 128 * b) := by decide +kernel
  exact hall ⟨a, ha⟩ ⟨b, hb⟩

/-- **Packing** gives the encoding of the point, whatever its coordinates. -/
theorem ptPack_eq {p : Pt} {P : curve25519.Point} (hp : p.Rep P) : ptPack p = encodePoint P := by
  obtain ⟨X, Y, Z, T, hX, hY, hZ, -, hP⟩ := hp
  have hzi := (gfInv_rep hZ).loose
  have htx := hX.loose.mul hzi
  have hty := hY.loose.mul hzi
  rw [← hP.eq_div.1] at htx
  rw [← hP.eq_div.2] at hty
  have hy : P.y.val < 2 ^ 255 := P.y.val_lt.trans (by norm_num [p25519])
  have hhigh : P.y.val / 256 ^ 31 < 128 := Nat.div_lt_of_lt_mul (hy.trans_eq (by norm_num))
  have hpar : par25519 (gfMul p.X (gfInv p.Z)) = UInt8.ofNat (P.x.val % 2) := by
    apply UInt8.toNat_inj.mp
    rw [par25519_eq htx.loose, UInt8.toNat_ofNat']
    omega
  have hlen := length_bytesOfNat 31 P.y.val
  have hmodify := modify_append_right (bytesOfNat 31 P.y.val) [UInt8.ofNat (P.y.val / 256 ^ 31)] 0
    (· ^^^ (UInt8.ofNat (P.x.val % 2) <<< 7))
  rw [hlen, List.modify_zero_cons, xor_shiftLeft_seven hhigh (Nat.mod_lt _ (by norm_num)),
    ← bytesOfNat_succ] at hmodify
  have hsplit : P.y.val + 2 ^ 255 * (P.x.val % 2) =
      P.y.val + 256 ^ 31 * (128 * (P.x.val % 2)) := by ring
  have hencode := bytesOfNat_succ 31 (P.y.val + 256 ^ 31 * (128 * (P.x.val % 2)))
  rw [bytesOfNat_add_mul, Nat.add_mul_div_left _ _ (by norm_num)] at hencode
  rw [ptPack, pack25519_eq hty.loose.within, hty.val_eq, hpar, hmodify, encodePoint, hsplit,
    ← hencode]

/-! ### Unpacking -/

/-- The candidate for a square root of `u / v` is one, perhaps of `-u / v`, when there is one. -/
theorem sq_candidate {u v x : ZMod p25519} (hv : v ≠ 0) (hx : v * x ^ 2 = u) :
    v * ((v ^ 6 * u * v) ^ (2 ^ 252 - 3) * u * v * v * v) ^ 2 = u ∨
      v * ((v ^ 6 * u * v) ^ (2 ^ 252 - 3) * u * v * v * v) ^ 2 = -u := by
  rcases eq_or_ne x 0 with rfl | hx₀
  · left
    have hu : u = 0 := by rw [← hx, zero_pow two_ne_zero, mul_zero]
    rw [hu]
    ring
  have hs : v ^ 4 * x ≠ 0 := mul_ne_zero (pow_ne_zero _ hv) hx₀
  have hcandidate : (v ^ 6 * u * v) ^ (2 ^ 252 - 3) * u * v * v * v =
      (v ^ 4 * x) ^ (2 ^ 253 - 5) * x := by
    have hsquare : v ^ 6 * u * v = (v ^ 4 * x) ^ 2 := by
      rw [← hx]
      ring
    have hrest : u * v * v * v = v ^ 4 * x * x := by
      rw [← hx]
      ring
    have hexp : 2 ^ 253 - 5 = 2 * (2 ^ 252 - 3) + 1 := by norm_num
    rw [hsquare, ← pow_mul, mul_assoc, mul_assoc, mul_assoc, ← mul_assoc u, ← mul_assoc (u * v),
      hrest, hexp, pow_succ]
    ring
  have hfermat : ((v ^ 4 * x) ^ (2 ^ 253 - 5) * (v ^ 4 * x) ^ (2 ^ 253 - 5)) ^ 2 = 1 := by
    rw [← pow_add, ← pow_mul,
      show (2 ^ 253 - 5 + (2 ^ 253 - 5)) * 2 = p25519 - 1 by norm_num [p25519],
      ZMod.pow_card_sub_one_eq_one hs]
  rw [hcandidate]
  generalize (v ^ 4 * x) ^ (2 ^ 253 - 5) = c at hfermat
  rw [sq, mul_self_eq_one_iff] at hfermat
  rcases hfermat with h | h
  · left
    linear_combination v * x ^ 2 * h + hx
  · right
    linear_combination v * x ^ 2 * h - hx

/-- The number that the bytes have for the second coordinate. -/
def decodedY (p : List UInt8) : ZMod p25519 := (natOfBytes p % 2 ^ 255 : ℕ)

/-- The bytes stand for the point: the number of the lower 255 bits for its second coordinate, taken
modulo the prime, and the highest bit for the parity of the first, where that is not zero. -/
def Decodes (p : List UInt8) (P : curve25519.Point) : Prop :=
  P.y = decodedY p ∧ (P.x = 0 ∨ P.x.val % 2 = natOfBytes p / 2 ^ 255 % 2)

theorem val_neg_mod_two {x : ZMod p25519} (hx : x ≠ 0) : (-x).val % 2 = 1 - x.val % 2 := by
  have hlt := x.val_lt
  have hpos : 0 < x.val := Nat.pos_of_ne_zero fun h => hx ((ZMod.val_eq_zero x).mp h)
  have hp : p25519 % 2 = 1 := by norm_num [p25519]
  rw [ZMod.neg_val, if_neg hx]
  omega

/-- The bytes stand for at most one point. -/
theorem Decodes.unique {p : List UInt8} {P Q : curve25519.Point} (hP : Decodes p P)
    (hQ : Decodes p Q) : P = Q := by
  have hy : P.y = Q.y := hP.1.trans hQ.1.symm
  refine Point.ext ?_ hy
  rcases x_eq_or_neg hy with hx | hx
  · exact hx
  · rcases eq_or_ne Q.x 0 with hzero | hne
    · rw [hx, hzero, neg_zero]
    · have hneg := val_neg_mod_two hne
      have hP' := hP.2.resolve_left (by rw [hx]; exact neg_ne_zero.mpr hne)
      have hQ' := hQ.2.resolve_left hne
      rw [hx] at hP'
      omega

/-- A point and its encoding. -/
theorem decodes_encodePoint (P : curve25519.Point) : Decodes (encodePoint P) P := by
  have hy : P.y.val < 2 ^ 255 := P.y.val_lt.trans (by norm_num [p25519])
  have hlt : P.y.val + 2 ^ 255 * (P.x.val % 2) < 256 ^ 32 := by
    have hpar := Nat.mod_lt P.x.val (y := 2) (by norm_num)
    have hpow : (256 : ℕ) ^ 32 = 2 ^ 256 := by norm_num
    omega
  rw [Decodes, decodedY, encodePoint, natOfBytes_bytesOfNat, Nat.mod_eq_of_lt hlt,
    Nat.add_mul_mod_self_left, Nat.mod_eq_of_lt hy, ZMod.natCast_zmod_val]
  refine ⟨rfl, Or.inr ?_⟩
  rw [Nat.add_mul_div_left _ _ (by norm_num), Nat.div_eq_of_lt hy]
  omega

theorem encodePoint_inj {P Q : curve25519.Point} (h : encodePoint P = encodePoint Q) : P = Q :=
  (decodes_encodePoint P).unique (h ▸ decodes_encodePoint Q)

theorem highBit_toNat (p : List UInt8) :
    (p.getD 31 0 >>> 7).toNat = natOfBytes p / 2 ^ 255 % 2 := by
  have hbit := scalarBit_toNat p 255
  have hand : ∀ n : ℕ, n &&& 1 = n % 2 := fun n => Nat.and_one_is_mod n
  have hb := (p.getD 31 0).toNat_lt
  have hshift : (p.getD 31 0 >>> 7).toNat = (p.getD 31 0).toNat / 2 ^ 7 := by
    simp [Nat.shiftRight_eq_div_pow]
  change ((p.getD 31 0 >>> 7) &&& 1).toNat = _ at hbit
  simp only [UInt8.toNat_and, UInt8.reduceToNat, hand, hshift] at hbit
  rw [hshift, ← hbit]
  omega

theorem gf0_rep_zero : gf0.Rep 0 0 := ⟨gf0_rep.val_eq, by unfold Gf.Within; decide⟩

theorem rootCandidate_rep {num den : Gf} {u v : ZMod p25519} (hnum : num.Rep looseBound u)
    (hden : den.Rep looseBound v) : (rootCandidate num den).Rep tightBound
      ((v ^ 6 * u * v) ^ (2 ^ 252 - 3) * u * v * v * v) := by
  have h₂ := hden.sq
  have h₆ := h₂.loose.sq.loose.mul h₂.loose
  have hsix : (v ^ 2) ^ 2 * v ^ 2 = v ^ 6 := by ring
  rw [hsix] at h₆
  have ht := gfPow22523_rep ((h₆.loose.mul hnum).loose.mul hden)
  exact (((ht.loose.mul hnum).loose.mul hden).loose.mul hden).loose.mul hden

theorem checkRoot_cases {num den x : Gf} {u v c : ZMod p25519} (hnum : num.Rep looseBound u)
    (hden : den.Rep looseBound v) (hx : x.Rep tightBound c) :
    (checkRoot num den x = none ∧ v * c ^ 2 ≠ u ∧ v * c ^ 2 ≠ -u) ∨
      ∃ r w, checkRoot num den x = some r ∧ r.Rep tightBound w ∧ v * w ^ 2 = u := by
  have hchk : ∀ {x : Gf} {c : ZMod p25519}, x.Rep tightBound c →
      (neq25519 (gfMul (gfSq x) den) num = false ↔ v * c ^ 2 = u) := fun {x c} hx => by
    rw [neq25519_eq_false_iff (hx.loose.sq.loose.mul hden).loose hnum, mul_comm]
  have hI := hx.loose.mul gfI_rep.loose
  have hturn : v * (c * (sqrtM1 : ZMod p25519)) ^ 2 = -(v * c ^ 2) := by
    linear_combination v * c ^ 2 * sqrtM1_mul_self
  rw [checkRoot]
  cases hfirst : neq25519 (gfMul (gfSq x) den) num with
  | false =>
    rw [if_neg Bool.false_ne_true, hfirst, if_neg Bool.false_ne_true]
    exact Or.inr ⟨x, c, rfl, hx, (hchk hx).mp hfirst⟩
  | true =>
    rw [if_pos rfl]
    have hne : v * c ^ 2 ≠ u := fun h => by
      rw [(hchk hx).mpr h] at hfirst
      cases hfirst
    cases hsecond : neq25519 (gfMul (gfSq (gfMul x gfI)) den) num with
    | false =>
      rw [if_neg Bool.false_ne_true]
      exact Or.inr ⟨_, _, rfl, hI, (hchk hI).mp hsecond⟩
    | true =>
      rw [if_pos rfl]
      refine Or.inl ⟨rfl, hne, fun h => ?_⟩
      rw [(hchk hI).mpr (by rw [hturn, h, neg_neg])] at hsecond
      cases hsecond

theorem unpackNum_rep {p : List UInt8} (hlen : p.length = 32) :
    (unpackNum p).Rep looseBound (decodedY p ^ 2 - 1) := by
  have hy := (unpack25519_rep hlen).mono (n := looseBound) (by rw [looseBound]; norm_num)
  refine (hy.sq.sub gf1_rep).mono ?_
  rw [tightBound, looseBound]
  norm_num

theorem unpackDen_rep {p : List UInt8} (hlen : p.length = 32) :
    (unpackDen p).Rep looseBound (curve25519.d * decodedY p ^ 2 - curve25519.a) := by
  have hy := (unpack25519_rep hlen).mono (n := looseBound) (by rw [looseBound]; norm_num)
  have hden := gf1_rep.add (hy.sq.loose.mul gfD_rep.loose)
  have heq : 1 + decodedY p ^ 2 * curve25519.d =
      curve25519.d * decodedY p ^ 2 - curve25519.a := by
    have ha : curve25519.a = -1 := rfl
    rw [ha]
    ring
  rw [← heq]
  refine hden.mono ?_
  rw [tightBound, looseBound]
  norm_num

/-- The sign that `unpackneg` gives a root makes it the negative of the root that is meant. -/
theorem unpackSign_rep {p : List UInt8} (hlen : p.length = 32) {x : Gf} {w : ZMod p25519}
    (hx : x.Rep tightBound w) (hw : curve25519.OnCurve w (decodedY p)) :
    ∃ P, Decodes p P ∧ (unpackSign p x).Rep (-P) := by
  have htight : (2 : ℤ) ^ 16 ≤ tightBound := by rw [tightBound]; norm_num
  have hy : (unpack25519 p).Rep tightBound (decodedY p) := (unpack25519_rep hlen).mono htight
  have hpar : par25519 x = p.getD 31 0 >>> 7 ↔ w.val % 2 = natOfBytes p / 2 ^ 255 % 2 := by
    rw [← UInt8.toNat_inj, par25519_eq hx.loose, highBit_toNat]
  have hrep : ∀ {x' : Gf} {P : curve25519.Point}, P.y = decodedY p → x'.Rep tightBound (-P.x) →
      (⟨x', unpack25519 p, gf1, gfMul x' (unpack25519 p)⟩ : Pt).Rep (-P) := fun {x' P} hPy hx' =>
    ⟨_, _, _, _, hx', hy, gf1_rep, hx'.loose.mul hy.loose, hPy ▸ (-P).hasCoords⟩
  rw [unpackSign]
  by_cases hbit : w.val % 2 = natOfBytes p / 2 ^ 255 % 2
  · have hneg := gf0_rep_zero.sub hx
    rw [zero_add, zero_sub] at hneg
    refine ⟨⟨w, decodedY p, hw⟩, ⟨rfl, Or.inr hbit⟩, ?_⟩
    rw [if_pos (hpar.mpr hbit)]
    exact hrep rfl hneg
  · refine ⟨⟨-w, decodedY p, hw.neg⟩, ⟨rfl, ?_⟩, ?_⟩
    · rcases eq_or_ne w 0 with hzero | hne
      · left
        change -w = 0
        rw [hzero, neg_zero]
      · right
        have hflip := val_neg_mod_two hne
        change (-w).val % 2 = _
        omega
    · rw [if_neg fun h => hbit (hpar.mp h)]
      exact hrep rfl (by rwa [neg_neg])

/-- What `unpackneg` finds: no point, or the negative of the point that the bytes stand for. -/
theorem unpackneg_cases {p : List UInt8} (hlen : p.length = 32) :
    (unpackneg p = none ∧ ∀ P, ¬Decodes p P) ∨
      ∃ P r, Decodes p P ∧ unpackneg p = some r ∧ r.Rep (-P) := by
  have hnum := unpackNum_rep hlen
  have hden := unpackDen_rep hlen
  have hroot := rootCandidate_rep hnum hden
  have hv := curve25519.d_mul_sub_ne_zero (decodedY p)
  rcases checkRoot_cases hnum hden hroot with ⟨hnone, hu, hu'⟩ | ⟨r, w, hsome, hr, hw⟩
  · left
    refine ⟨by rw [unpackneg, hnone, Option.map_none], ?_⟩
    rintro P ⟨hPy, -⟩
    have hP := onCurve_iff.mp P.onCurve
    rw [hPy] at hP
    rcases sq_candidate hv hP with h | h
    · exact hu h
    · exact hu' h
  · right
    obtain ⟨P, hP, hrep⟩ := unpackSign_rep hlen hr (onCurve_iff.mpr hw)
    exact ⟨P, _, hP, by rw [unpackneg, hsome, Option.map_some], hrep⟩

/-- **Unpacking** finds the negative of the point that the bytes stand for. -/
theorem unpackneg_rep {p : List UInt8} (hlen : p.length = 32) {P : curve25519.Point}
    (hP : Decodes p P) : ∃ r, unpackneg p = some r ∧ r.Rep (-P) := by
  rcases unpackneg_cases hlen with ⟨-, hnone⟩ | ⟨Q, r, hQ, hr, hrep⟩
  · exact absurd hP (hnone P)
  · rw [hP.unique hQ]
    exact ⟨r, hr, hrep⟩

/-- **Keys as points.** `unpackneg` refuses the bytes that stand for no point. Of the others it
gives the negative of their point, in coordinates with which the ladder computes its multiples. -/
theorem unpackneg_scalarmult {pk s : List UInt8} (hpk : pk.length = 32) (hs : s.length = 32) :
    (unpackneg pk = none ↔ ∀ P, ¬Decodes pk P) ∧
      ∀ P, Decodes pk P → ∃ r, unpackneg pk = some r ∧ ptPack r = encodePoint (-P) ∧
        ptPack (scalarmult r s) = encodePoint (natOfBytes s • -P) := by
  refine ⟨⟨fun hnone P hP => ?_, fun hno => ?_⟩, fun P hP => ?_⟩
  · obtain ⟨r, hr, -⟩ := unpackneg_rep hpk hP
    rw [hnone] at hr
    cases hr
  · rcases unpackneg_cases hpk with ⟨hnone, -⟩ | ⟨P, -, hP, -⟩
    · exact hnone
    · exact absurd hP (hno P)
  · obtain ⟨r, hr, hrep⟩ := unpackneg_rep hpk hP
    exact ⟨r, hr, ptPack_eq hrep, ptPack_eq (scalarmult_rep hrep hs)⟩

theorem unpackneg_scalarmult_base :
    ∃ r, unpackneg (encodePoint basePoint) = some r ∧ ptPack r = encodePoint (-basePoint) ∧
      ptPack (scalarmult r (List.replicate 32 1)) =
        encodePoint (natOfBytes (List.replicate 32 1) • -basePoint) :=
  (unpackneg_scalarmult (length_bytesOfNat _ _) List.length_replicate).2 _
    (decodes_encodePoint basePoint)

end Rivr
