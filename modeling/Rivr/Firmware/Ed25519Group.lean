import Rivr.Firmware.Ed25519Pack

/-!
# The group of the curve in coordinates

Points of the curve in the extended coordinates of `ed25519_verify.c`, in limbs. The addition of
coordinates is the addition of the group without exception (`Pt.Rep.ptAdd`), so that the ladder of
`scalarmult` computes multiples in it (`scalarmult_rep`).
-/

namespace Rivr

open Limbs LittleEndian TwistedEdwards

/-- `pt`: the coordinates `X`, `Y`, `Z` and `T`. -/
structure Pt where
  X : Gf
  Y : Gf
  Z : Gf
  T : Gf
  deriving DecidableEq

/-- `pt_add`. -/
def ptAdd (p q : Pt) : Pt :=
  let a := gfSub p.Y p.X
  let t := gfSub q.Y q.X
  let a := gfMul a t
  let b := gfAdd p.X p.Y
  let t := gfAdd q.X q.Y
  let b := gfMul b t
  let c := gfMul p.T q.T
  let c := gfMul c gfD2
  let d := gfMul p.Z q.Z
  let d := gfAdd d d
  let e := gfSub b a
  let f := gfSub d c
  let g := gfAdd d c
  let h := gfAdd b a
  ⟨gfMul e f, gfMul h g, gfMul g f, gfMul e h⟩

/-- `pt_cswap`: the limbs are swapped when the bit is set. -/
def ptCswap (p q : Pt) (b : UInt8) : Pt × Pt := if b = 1 then (q, p) else (p, q)

/-- The bit `(s[i/8] >> (i & 7)) & 1` of a scalar. -/
def scalarBit (s : List UInt8) (i : ℕ) : UInt8 :=
  (s.getD (i / 8) 0 >>> UInt8.ofNat (i % 8)) &&& 1

/-- The body of the loop of `scalarmult`, on the points `q` and `r`. -/
def scalarStep (b : UInt8) (qr : Pt × Pt) : Pt × Pt :=
  let qr := ptCswap qr.1 qr.2 b
  let r := ptAdd qr.2 qr.1
  let q := ptAdd qr.1 qr.1
  ptCswap q r b

/-- The loop of `scalarmult`, over the bits below the `i`-th, the highest first. -/
def scalarLoop (s : List UInt8) : ℕ → Pt × Pt → Pt × Pt
  | 0, qr => qr
  | i + 1, qr => scalarLoop s i (scalarStep (scalarBit s i) qr)

/-- `scalarmult`. -/
def scalarmult (p : Pt) (s : List UInt8) : Pt := (scalarLoop s 256 (⟨gf0, gf1, gf1, gf0⟩, p)).1

/-- `scalarbase`. -/
def scalarbase (s : List UInt8) : Pt := scalarmult ⟨gfBX, gfBY, gf1, gfMul gfBX gfBY⟩ s

/-- `pt_pack`. -/
def ptPack (p : Pt) : List UInt8 :=
  let zi := gfInv p.Z
  let tx := gfMul p.X zi
  let ty := gfMul p.Y zi
  (pack25519 ty).modify 31 (· ^^^ (par25519 tx <<< 7))

/-! ### Constants -/

theorem rep_of_value {a : Gf} {n : ℕ} (hvalue : value (2 ^ 16) a.limbs = n)
    (hwithin : a.Within (2 ^ 16)) : a.Rep tightBound n := by
  refine ⟨by rw [Gf.val, hvalue, Int.cast_natCast], hwithin.mono ?_⟩
  rw [tightBound]
  norm_num

theorem gf0_rep : gf0.Rep tightBound 0 := by
  have h := rep_of_value (a := gf0) (n := 0) (by decide) (by unfold Gf.Within; decide)
  rwa [Nat.cast_zero] at h

theorem gf1_rep : gf1.Rep tightBound 1 := by
  have h := rep_of_value (a := gf1) (n := 1) (by decide) (by unfold Gf.Within; decide)
  rwa [Nat.cast_one] at h

/-- The constants are the numbers of the curve. -/
private theorem constantValues :
    value (2 ^ 16) gfD.limbs = edwardsD ∧
    value (2 ^ 16) gfD2.limbs = (2 * edwardsD % p25519 : ℕ) ∧
    value (2 ^ 16) gfI.limbs = sqrtM1 ∧
    value (2 ^ 16) gfBX.limbs = baseX ∧ value (2 ^ 16) gfBY.limbs = baseY := by
  decide +kernel

theorem gfD_rep : gfD.Rep tightBound curve25519.d :=
  rep_of_value constantValues.1 (by unfold Gf.Within; decide)

theorem gfD2_rep : gfD2.Rep tightBound (2 * curve25519.d) := by
  have h := rep_of_value constantValues.2.1 (by unfold Gf.Within; decide)
  rw [ZMod.natCast_mod, Nat.cast_mul] at h
  exact h

theorem gfI_rep : gfI.Rep tightBound sqrtM1 :=
  rep_of_value constantValues.2.2.1 (by unfold Gf.Within; decide)

theorem gfBX_rep : gfBX.Rep tightBound basePoint.x :=
  rep_of_value constantValues.2.2.2.1 (by unfold Gf.Within; decide)

theorem gfBY_rep : gfBY.Rep tightBound basePoint.y :=
  rep_of_value constantValues.2.2.2.2 (by unfold Gf.Within; decide)

/-! ### Addition -/

/-- The coordinates in limbs stand for the point. -/
structure Pt.Rep (p : Pt) (P : curve25519.Point) : Prop where
  exists_coords : ∃ X Y Z T, p.X.Rep tightBound X ∧ p.Y.Rep tightBound Y ∧ p.Z.Rep tightBound Z ∧
    p.T.Rep tightBound T ∧ P.HasCoords X Y Z T

/-- **Addition of coordinates is addition in the group.** -/
theorem Pt.Rep.ptAdd {p q : Pt} {P Q : curve25519.Point} (hp : p.Rep P) (hq : q.Rep Q) :
    (ptAdd p q).Rep (P + Q) := by
  obtain ⟨X₁, Y₁, Z₁, T₁, hX₁, hY₁, hZ₁, hT₁, hP⟩ := hp
  obtain ⟨X₂, Y₂, Z₂, T₂, hX₂, hY₂, hZ₂, hT₂, hQ⟩ := hq
  have hloose : ∀ {a : Gf} {m : ℤ} {v : ZMod p25519}, a.Rep m v → m ≤ 3 * tightBound →
      a.Rep looseBound v := fun h hm => h.mono (hm.trans (by rw [tightBound, looseBound]; norm_num))
  have hpos : 0 ≤ tightBound := by rw [tightBound]; norm_num
  have ha := (hloose (hY₁.sub hX₁) (by linarith)).mul (hloose (hY₂.sub hX₂) (by linarith))
  have hb := (hloose (hX₁.add hY₁) (by linarith)).mul (hloose (hX₂.add hY₂) (by linarith))
  have hc := (hT₁.loose.mul hT₂.loose).loose.mul gfD2_rep.loose
  have hz := hZ₁.loose.mul hZ₂.loose
  have hd := hz.add hz
  rw [← two_mul (Z₁ * Z₂)] at hd
  have he := hloose (hb.sub ha) (by linarith)
  have hf := hloose (hd.sub hc) (by linarith)
  have hg := hloose (hd.add hc) (by linarith)
  have hh := hloose (hb.add ha) (by linarith)
  exact ⟨_, _, _, _, he.mul hf, hh.mul hg, hg.mul hf, he.mul hh,
    hP.add rfl hQ rfl rfl rfl rfl⟩

/-! ### Multiples -/

theorem scalarBit_toNat (s : List UInt8) (i : ℕ) :
    (scalarBit s i).toNat = natOfBytes s / 2 ^ i % 2 := by
  have hand : ∀ n : ℕ, n &&& 1 = n % 2 := fun n => Nat.and_one_is_mod n
  have hbyte : ∀ (b : UInt8) (k : ℕ), k < 8 →
      ((b >>> UInt8.ofNat k) &&& 1).toNat = b.toNat / 2 ^ k % 2 := by
    intro b k hk
    simp only [UInt8.toNat_and, UInt8.toNat_shiftRight, UInt8.toNat_ofNat', UInt8.reduceToNat, hand,
      Nat.shiftRight_eq_div_pow]
    congr 3
    omega
  rw [scalarBit, hbyte _ _ (Nat.mod_lt _ (by norm_num))]
  induction s generalizing i with
  | nil => simp
  | cons b bs ih =>
    rw [natOfBytes_cons]
    rcases Nat.lt_or_ge i 8 with hi | hi
    · have hzero : i / 8 = 0 := by omega
      have hpow : 256 = 2 ^ i * 2 ^ (8 - i) := by
        rw [← pow_add, Nat.add_sub_cancel' hi.le]
        rfl
      have heven : 2 ^ (8 - i) = 2 * 2 ^ (7 - i) := by
        rw [← pow_succ', show 7 - i + 1 = 8 - i by omega]
      rw [hzero, List.getD_cons_zero, Nat.mod_eq_of_lt hi, hpow, mul_assoc,
        Nat.add_mul_div_left _ _ (by positivity), heven, mul_assoc, Nat.add_mul_mod_self_left]
    · obtain ⟨j, rfl⟩ := Nat.exists_eq_add_of_le hi
      have hdiv : (8 + j) / 8 = j / 8 + 1 := by omega
      have hb := b.toNat_lt
      rw [hdiv, List.getD_cons_succ, Nat.add_mod_left, ih, pow_add, ← Nat.div_div_eq_div_mul]
      congr 2
      omega

theorem ptCswap_rep {p q : Pt} {P Q : curve25519.Point} (hp : p.Rep P) (hq : q.Rep Q) (b : UInt8) :
    (ptCswap p q b).1.Rep (if b = 1 then Q else P) ∧
      (ptCswap p q b).2.Rep (if b = 1 then P else Q) := by
  rw [ptCswap]
  split_ifs
  · exact ⟨hq, hp⟩
  · exact ⟨hp, hq⟩

/-- One step of the ladder: `q` doubles and takes the bit, and `r` stays ahead by one multiple. -/
theorem scalarStep_rep {qr : Pt × Pt} {P : curve25519.Point} {n : ℕ} (hq : qr.1.Rep (n • P))
    (hr : qr.2.Rep ((n + 1) • P)) {b : UInt8} (hb : b.toNat < 2) :
    (scalarStep b qr).1.Rep ((2 * n + b.toNat) • P) ∧
      (scalarStep b qr).2.Rep ((2 * n + b.toNat + 1) • P) := by
  obtain ⟨hq', hr'⟩ := ptCswap_rep hq hr b
  have hsum : n • P + (n + 1) • P = (2 * n + 1) • P := by
    rw [← add_nsmul]
    congr 1
    ring
  have hsum' : (n + 1) • P + n • P = (2 * n + 1) • P := by rw [add_comm, hsum]
  have hdouble : n • P + n • P = (2 * n) • P := by rw [← add_nsmul, ← two_mul]
  have hdouble' : (n + 1) • P + (n + 1) • P = (2 * n + 1 + 1) • P := by
    rw [← add_nsmul]
    congr 1
    ring
  have h := ptCswap_rep (hq'.ptAdd hq') (hr'.ptAdd hq') b
  rw [scalarStep]
  by_cases hone : b = 1
  · have honeNat : b.toNat = 1 := by
      rw [hone]
      rfl
    simp only [hone, ↓reduceIte, hsum, hdouble'] at h
    rw [honeNat]
    simpa only [hone] using h
  · have hzero : b.toNat = 0 := by
      have hne : b.toNat ≠ 1 := fun heq => hone (UInt8.toNat_inj.mp heq)
      omega
    simp only [hone, ↓reduceIte, hsum', hdouble] at h
    rw [hzero]
    exact h

theorem scalarLoop_rep {P : curve25519.Point} (s : List UInt8) (i : ℕ) {qr : Pt × Pt}
    (hq : qr.1.Rep ((natOfBytes s / 2 ^ i) • P)) (hr : qr.2.Rep ((natOfBytes s / 2 ^ i + 1) • P)) :
    (scalarLoop s i qr).1.Rep (natOfBytes s • P) := by
  induction i generalizing qr with
  | zero => simpa [scalarLoop] using hq
  | succ i ih =>
    have hbit := scalarBit_toNat s i
    have hstep := scalarStep_rep hq hr (b := scalarBit s i) (by omega)
    have hnext : 2 * (natOfBytes s / 2 ^ (i + 1)) + natOfBytes s / 2 ^ i % 2 =
        natOfBytes s / 2 ^ i := by
      rw [pow_succ, ← Nat.div_div_eq_div_mul]
      omega
    rw [hbit, hnext] at hstep
    exact ih hstep.1 hstep.2

/-- **Scalar multiplication.** -/
theorem scalarmult_rep {p : Pt} {P : curve25519.Point} (hp : p.Rep P) {s : List UInt8}
    (hs : s.length = 32) : (scalarmult p s).Rep (natOfBytes s • P) := by
  have hlt : natOfBytes s / 2 ^ 256 = 0 := by
    have h := natOfBytes_lt s
    rw [hs] at h
    exact Nat.div_eq_of_lt (h.trans_eq (by norm_num))
  have hzero : (⟨gf0, gf1, gf1, gf0⟩ : Pt).Rep 0 :=
    ⟨_, _, _, _, gf0_rep, gf1_rep, gf1_rep, gf0_rep, one_ne_zero, by simp, by simp, by simp⟩
  refine scalarLoop_rep s 256 ?_ ?_
  · rw [hlt, zero_nsmul]
    exact hzero
  · rw [hlt, zero_add, one_nsmul]
    exact hp

theorem scalarbase_rep {s : List UInt8} (hs : s.length = 32) :
    (scalarbase s).Rep (natOfBytes s • basePoint) := by
  refine scalarmult_rep ?_ hs
  exact ⟨_, _, _, _, gfBX_rep, gfBY_rep, gf1_rep, gfBX_rep.loose.mul gfBY_rep.loose,
    basePoint.hasCoords⟩

end Rivr
