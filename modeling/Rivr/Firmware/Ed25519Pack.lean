import Rivr.Firmware.Ed25519Field
import Rivr.ForMathlib.LittleEndian

/-!
# Field elements as bytes

The encodings of field elements in `ed25519_verify.c`. However an element is spread over its limbs,
`pack25519` writes the one number below `2 ^ 255 - 19` that stands for it (`pack25519_eq`), so that
comparing bytes compares elements (`neq25519_eq_false_iff`); the powers are those that the
comments name.
-/

namespace Rivr

open Limbs LittleEndian

/-- The limbs that `pack25519` subtracts: those of the prime. -/
def pLimbs : List ℤ :=
  [0xffed, 0xffff, 0xffff, 0xffff, 0xffff, 0xffff, 0xffff, 0xffff,
    0xffff, 0xffff, 0xffff, 0xffff, 0xffff, 0xffff, 0xffff, 0x7fff]

/-- The limbs `m` of `pack25519`: `t` less the prime, with the borrows passed on. -/
def subPrime (t : List ℤ) : List ℤ :=
  ripple (2 ^ 16) (fun x => -(x / 2 ^ 16 % 2)) 15 (List.zipWith (· - ·) t pLimbs)

/-- The body of the loop of `pack25519`: `m` takes the place of `t` unless a borrow is left. -/
def packStep (t : List ℤ) : List ℤ :=
  if (subPrime t).getD 15 0 / 2 ^ 16 % 2 = 0 then subPrime t else t

/-- `pack25519`. -/
def pack25519 (n : Gf) : List UInt8 :=
  (packStep (packStep (car25519 (car25519 (car25519 n))).limbs)).flatMap fun x =>
    [UInt8.ofInt x, UInt8.ofInt (x / 2 ^ 8)]

/-- The differences of two byte strings, collected in one byte. -/
def byteDiff (c d : List UInt8) : UInt8 := (List.zipWith (· ^^^ ·) c d).foldl (· ||| ·) 0

/-- `neq25519`. -/
def neq25519 (a b : Gf) : Bool := byteDiff (pack25519 a) (pack25519 b) != 0

/-- `par25519`. -/
def par25519 (a : Gf) : UInt8 := (pack25519 a).getD 0 0 &&& 1

/-- The limb of two bytes. -/
def bytePair (p : List UInt8) (i : ℕ) : ℤ :=
  ((p.getD (2 * i) 0).toNat ||| (p.getD (2 * i + 1) 0).toNat <<< 8 : ℕ)

/-- `unpack25519`. -/
def unpack25519 (p : List UInt8) : Gf :=
  ⟨((List.range 16).map (bytePair p)).modify 15 (· % 2 ^ 15), by simp⟩

/-- `gf_pow22523`: a run of squarings is an iterate. -/
def gfPow22523 (x : Gf) : Gf :=
  let t0 := gfSq x
  let t1 := gfSq^[2] t0
  let t1 := gfMul x t1
  let t0 := gfMul t0 t1
  let t0 := gfSq t0
  let t0 := gfMul t1 t0
  let t1 := gfSq^[5] t0
  let t0 := gfMul t1 t0
  let t1 := gfSq^[10] t0
  let t1 := gfMul t1 t0
  let t2 := gfSq^[20] t1
  let t1 := gfMul t2 t1
  let t1 := gfSq^[10] t1
  let t0 := gfMul t1 t0
  let t1 := gfSq^[50] t0
  let t1 := gfMul t1 t0
  let t2 := gfSq^[100] t1
  let t1 := gfMul t2 t1
  let t1 := gfSq^[50] t1
  let t0 := gfMul t1 t0
  let t0 := gfSq t0
  let t0 := gfSq t0
  gfMul t0 x

/-- The body of the loop of `gf_inv`. -/
def gfInvStep (x t : Gf) (i : ℕ) : Gf :=
  if i ≠ 2 ∧ i ≠ 4 then gfMul (gfSq t) x else gfSq t

/-- `gf_inv`. -/
def gfInv (x : Gf) : Gf := (List.range 254).reverse.foldl (gfInvStep x) x

/-! ### Packing -/

theorem value_pLimbs : value (2 ^ 16) pLimbs = p25519 := by decide +kernel

theorem car25519_of_digits {r : Gf} (h : Digits (2 ^ 16) r.limbs) :
    (car25519 r).limbs = r.limbs := by
  have hid : (fun x : ℤ => x + 38 * 0) = id := by
    funext x
    simp
  rw [limbs_car25519, carry_of_digits h]
  exact (congrArg (r.limbs.modify 0) hid).trans (List.modify_id 0 r.limbs)

/-- Three passes bring the limbs to digits. -/
theorem digits_car25519 {n : Gf} (h : n.Within looseBound) :
    Digits (2 ^ 16) (car25519 (car25519 (car25519 n))).limbs := by
  obtain ⟨d, ds, c, hc, hdigits, hlen, hlimbs, -⟩ := exists_car25519 n
  obtain ⟨e, es, c', hc', hdigits', hlen', hlimbs', hvalue⟩ := exists_car25519 (car25519 n)
  have habs : |c| ≤ 5 :=
    hc ▸ abs_carry_le (by norm_num) h (by norm_num) (by rw [looseBound]; norm_num)
  have hd := abs_add_mul_le (digits_cons.mp hdigits).1 habs
  have habs' : |c'| ≤ 1 := by
    rw [← hc', hlimbs]
    exact abs_carry_le_one (hd.trans (by norm_num)) hlen (digits_cons.mp hdigits).2
  -- the first limb is in range, as after a carry the digits are almost all zeros or all ones
  have hsecond : Digits (2 ^ 16) (car25519 (car25519 n)).limbs := by
    obtain ⟨he, hes⟩ := digits_cons.mp hdigits'
    have hlow := hdigits.value_nonneg (by norm_num)
    have hhigh := hdigits.value_lt (by norm_num)
    have hlow' := hes.value_nonneg (by norm_num)
    have hhigh' := hes.value_lt (by norm_num)
    rw [List.length_cons, hlen, ← pow_mul] at hhigh
    rw [hlen', ← pow_mul] at hhigh'
    rw [hlimbs, value_cons, value_cons] at hvalue
    rw [value_cons] at hlow hhigh
    rw [hlimbs', digits_cons]
    refine ⟨?_, hes⟩
    rw [abs_le] at habs habs'
    omega
  rwa [car25519_of_digits hsecond]

/-- The difference and its last limb, which is negative when a borrow is left. -/
theorem exists_subPrime {t : List ℤ} (h : Digits (2 ^ 16) t) (hlen : t.length = 16) :
    ∃ ds x, subPrime t = ds ++ [x] ∧ Digits (2 ^ 16) ds ∧ ds.length = 15 ∧
      value (2 ^ 16) ds + 2 ^ 240 * x = value (2 ^ 16) t - p25519 ∧ -2 ^ 16 ≤ x ∧ x < 2 ^ 16 := by
  have hp : Digits (2 ^ 16) pLimbs := by
    intro x hx
    revert x
    decide
  have hlen' : (List.zipWith (· - ·) t pLimbs).length = 16 := by
    rw [List.length_zipWith, hlen]
    rfl
  have hvalue : value (2 ^ 16) (List.zipWith (· - ·) t pLimbs) = value (2 ^ 16) t - p25519 := by
    rw [value_zipWith_sub hlen, value_pLimbs]
  have hmem : ∀ x ∈ List.zipWith (· - ·) t pLimbs, -2 ^ 16 < x ∧ x < 2 ^ 16 := by
    intro x hx
    obtain ⟨i, hi, rfl⟩ := List.getElem_of_mem hx
    rw [List.getElem_zipWith]
    have hy := h _ (List.getElem_mem (List.lt_length_left_of_zipWith hi))
    have hz := hp _ (List.getElem_mem (List.lt_length_right_of_zipWith hi))
    omega
  rw [subPrime]
  generalize List.zipWith (· - ·) t pLimbs = m at hlen' hvalue hmem
  have hborrow : ∀ i, -1 ≤ (carry (2 ^ 16) 0 (m.take i)).2 ∧ (carry (2 ^ 16) 0 (m.take i)).2 ≤ 0 :=
    fun i => carry_borrow (by norm_num) (fun x hx => hmem x (List.mem_of_mem_take hx)) (by norm_num)
  have hget : ∀ i < 16, -2 ^ 16 < m.getD i 0 ∧ m.getD i 0 < 2 ^ 16 := by
    intro i hi
    rw [List.getD_eq_getElem _ _ (by omega)]
    exact hmem _ (List.getElem_mem _)
  have hripple := ripple_eq (B := 2 ^ 16) (g := fun x => -(x / 2 ^ 16 % 2)) (n := 15) (l := m)
    (by omega) fun i hi => by
      have hb := hborrow i
      have hx := hget i (by omega)
      omega
  have hsplit : m = m.take 15 ++ [m.getD 15 0] := by
    rw [List.getD_eq_getElem _ _ (by omega), ← List.take_succ_eq_append_getElem (by omega),
      List.take_of_length_le hlen'.le]
  have hcarry := value_carry (B := 2 ^ 16) 0 (m.take 15)
  have htake : (m.take 15).length = 15 := by
    rw [List.length_take, hlen']
    rfl
  have hsum : value (2 ^ 16) m =
      value (2 ^ 16) (m.take 15) + (2 ^ 16) ^ (m.take 15).length * m.getD 15 0 := by
    conv_lhs => rw [hsplit, value_append, value_cons, value_nil, mul_zero, add_zero]
  rw [htake, ← pow_mul] at hsum hcarry
  rw [List.drop_of_length_le hlen'.le] at hripple
  refine ⟨_, _, hripple, digits_carry (by norm_num) _ _, by rw [length_carry, htake], ?_, ?_⟩
  · rw [← hvalue, hsum]
    linear_combination hcarry
  · have hb := hborrow 15
    have hx := hget 15 (by omega)
    omega

/-- One subtraction, unless the number is below the prime already. -/
theorem packStep_spec {t : List ℤ} (h : Digits (2 ^ 16) t) (hlen : t.length = 16) :
    Digits (2 ^ 16) (packStep t) ∧ (packStep t).length = 16 ∧ value (2 ^ 16) (packStep t) =
      if p25519 ≤ value (2 ^ 16) t then value (2 ^ 16) t - p25519 else value (2 ^ 16) t := by
  obtain ⟨ds, x, hsub, hds, hdslen, hvalue, hx⟩ := exists_subPrime h hlen
  have hlow := hds.value_nonneg (by norm_num)
  have hhigh := hds.value_lt (by norm_num)
  rw [hdslen, ← pow_mul] at hhigh
  have hlast : (subPrime t).getD 15 0 = x := by
    rw [hsub, List.getD_append_right _ _ _ _ hdslen.le, hdslen, Nat.sub_self, List.getD_cons_zero]
  rw [packStep, hlast]
  rcases Int.lt_or_le x 0 with hneg | hpos
  · rw [if_neg (by omega), if_neg (by omega)]
    exact ⟨h, hlen, rfl⟩
  · rw [if_pos (by omega), if_pos (by omega), hsub]
    refine ⟨hds.append (digits_cons.mpr ⟨⟨hpos, hx.2⟩, digits_nil⟩), by simp [hdslen], ?_⟩
    rw [value_append, hdslen, ← pow_mul, value_cons, value_nil, mul_zero, add_zero, hvalue]

/-- The bytes of digits. -/
theorem flatMap_bytes {t : List ℤ} (h : Digits (2 ^ 16) t) :
    (t.flatMap fun x => [UInt8.ofInt x, UInt8.ofInt (x / 2 ^ 8)]) =
      bytesOfNat (2 * t.length) (value (2 ^ 16) t).toNat := by
  induction t with
  | nil => rfl
  | cons x xs ih =>
    obtain ⟨hx, hxs⟩ := digits_cons.mp h
    have hv := hxs.value_nonneg (by norm_num)
    have hlow : (value (2 ^ 16) (x :: xs)).toNat % 256 = (x % 256).toNat := by
      rw [value_cons]
      omega
    have hmid : (value (2 ^ 16) (x :: xs)).toNat / 256 % 256 = (x / 2 ^ 8 % 256).toNat := by
      rw [value_cons]
      omega
    have hhigh : (value (2 ^ 16) (x :: xs)).toNat / 256 / 256 = (value (2 ^ 16) xs).toNat := by
      rw [value_cons]
      omega
    have hlen : 2 * (x :: xs).length = 2 * xs.length + 1 + 1 := by rw [List.length_cons]; ring
    rw [List.flatMap_cons, ih hxs, hlen, bytesOfNat, bytesOfNat, hhigh]
    have hbyte : ∀ n : ℕ, UInt8.ofNat n = UInt8.ofNat (n % 256) := fun n => by
      apply UInt8.toNat_inj.mp
      simp
    rw [hbyte (value _ _).toNat, hlow, hbyte (_ / 256), hmid]
    rfl

theorem packStep_packStep {t : List ℤ} (h : Digits (2 ^ 16) t) (hlen : t.length = 16) :
    ((packStep (packStep t)).flatMap fun x => [UInt8.ofInt x, UInt8.ofInt (x / 2 ^ 8)]) =
      bytesOfNat 32 (value (2 ^ 16) t % p25519).toNat := by
  have hp : (p25519 : ℤ) = 2 ^ 255 - 19 := by norm_num [p25519]
  have hlow := h.value_nonneg (by norm_num)
  have hhigh := h.value_lt (by norm_num)
  rw [hlen, ← pow_mul] at hhigh
  obtain ⟨hdigits₁, hlen₁, hvalue₁⟩ := packStep_spec h hlen
  obtain ⟨hdigits₂, hlen₂, hvalue₂⟩ := packStep_spec hdigits₁ hlen₁
  have hmod : value (2 ^ 16) (packStep (packStep t)) = value (2 ^ 16) t % p25519 := by
    rw [hvalue₂, hvalue₁, hp]
    split_ifs <;> omega
  rw [flatMap_bytes hdigits₂, hlen₂, hmod]

/-- **Packing is canonical.** -/
theorem pack25519_eq {n : Gf} (h : n.Within looseBound) :
    pack25519 n = bytesOfNat 32 n.val.val := by
  have hval : (car25519 (car25519 (car25519 n))).val = n.val := by
    rw [val_car25519, val_car25519, val_car25519]
  rw [pack25519, packStep_packStep (digits_car25519 h) (Gf.length_limbs _), ← hval, Gf.val,
    ← ZMod.val_intCast, Int.toNat_natCast]

/-! ### Comparing and unpacking -/

theorem foldl_or_eq_zero_iff {l : List UInt8} {acc : UInt8} :
    l.foldl (· ||| ·) acc = 0 ↔ acc = 0 ∧ ∀ x ∈ l, x = 0 := by
  induction l generalizing acc with
  | nil => simp
  | cons x xs ih => rw [List.foldl_cons, ih, UInt8.or_eq_zero_iff, List.forall_mem_cons, and_assoc]

theorem byteDiff_eq_zero_iff {c d : List UInt8} (hlen : c.length = d.length) :
    byteDiff c d = 0 ↔ c = d := by
  rw [byteDiff, foldl_or_eq_zero_iff]
  simp only [true_and]
  induction c generalizing d with
  | nil => simp [List.length_eq_zero_iff.mp hlen.symm]
  | cons x xs ih =>
    cases d with
    | nil => cases hlen
    | cons y ys =>
      rw [List.zipWith_cons_cons, List.forall_mem_cons, ih (Nat.succ_injective hlen),
        UInt8.xor_eq_zero_iff, List.cons.injEq]

/-- **Packed bytes tell elements apart.** -/
theorem neq25519_eq_false_iff {a b : Gf} {v w : ZMod p25519} (ha : a.Rep looseBound v)
    (hb : b.Rep looseBound w) : neq25519 a b = false ↔ v = w := by
  have hbytes : ∀ u : ZMod p25519, natOfBytes (bytesOfNat 32 u.val) = u.val := fun u => by
    have hu := u.val_lt
    rw [natOfBytes_bytesOfNat]
    refine Nat.mod_eq_of_lt (hu.trans ?_)
    norm_num [p25519]
  have hne : neq25519 a b = false ↔ byteDiff (pack25519 a) (pack25519 b) = 0 := by
    simp [neq25519]
  rw [hne, pack25519_eq ha.within, pack25519_eq hb.within, byteDiff_eq_zero_iff (by simp),
    ha.val_eq, hb.val_eq]
  constructor
  · intro h
    rw [← ZMod.natCast_zmod_val v, ← hbytes v, h, hbytes w, ZMod.natCast_zmod_val w]
  · rintro rfl
    rfl

/-- The parity of the number that stands for the element. -/
theorem par25519_eq {a : Gf} {v : ZMod p25519} (h : a.Rep looseBound v) :
    (par25519 a).toNat = v.val % 2 := by
  have hand : ∀ n : ℕ, n &&& 1 = n % 2 := fun n => Nat.and_one_is_mod n
  rw [par25519, pack25519_eq h.within, h.val_eq, bytesOfNat, List.getD_cons_zero]
  simp only [UInt8.toNat_and, UInt8.toNat_ofNat', UInt8.reduceToNat, hand]
  omega

theorem bytePair_eq (p : List UInt8) (i : ℕ) : bytePair p i =
    (p.getD (2 * i) 0).toNat + 256 * (p.getD (2 * i + 1) 0).toNat := by
  have hb := (p.getD (2 * i) 0).toNat_lt
  rw [bytePair, or_shiftLeft_eq_add hb]
  push_cast
  ring

theorem value_bytePairs (p : List UInt8) (n : ℕ) (hlen : p.length = 2 * n) :
    value (2 ^ 16) ((List.range n).map (bytePair p)) = natOfBytes p := by
  induction n generalizing p with
  | zero =>
    obtain rfl := List.length_eq_zero_iff.mp hlen
    rfl
  | succ n ih =>
    rcases p with _ | ⟨b, _ | ⟨c, p⟩⟩
    · simp at hlen
    · simp at hlen
      omega
    · have hp : p.length = 2 * n := by
        simp only [List.length_cons] at hlen
        omega
      have hrest : bytePair (b :: c :: p) ∘ Nat.succ = bytePair p := by
        funext i
        simp only [Function.comp_apply, bytePair, Nat.mul_succ, List.getD_cons_succ]
      rw [List.range_succ_eq_map, List.map_cons, List.map_map, value_cons, natOfBytes_cons,
        natOfBytes_cons, hrest, ih p hp, bytePair_eq]
      simp only [mul_zero, zero_add, List.getD_cons_zero, List.getD_cons_succ]
      push_cast
      ring

theorem digits_bytePairs (p : List UInt8) (n : ℕ) :
    Digits (2 ^ 16) ((List.range n).map (bytePair p)) := by
  intro x hx
  obtain ⟨i, -, rfl⟩ := List.mem_map.mp hx
  have hb := (p.getD (2 * i) 0).toNat_lt
  have hc := (p.getD (2 * i + 1) 0).toNat_lt
  rw [bytePair_eq]
  omega

/-- **Unpacking** reads the number of the bytes, but for its highest bit. -/
theorem unpack25519_rep {p : List UInt8} (hlen : p.length = 32) :
    (unpack25519 p).Rep (2 ^ 16) ((natOfBytes p % 2 ^ 255 : ℕ) : ZMod p25519) := by
  have hvalue := value_bytePairs p 16 hlen
  have hsplit : (List.range 16).map (bytePair p) =
      (List.range 15).map (bytePair p) ++ [bytePair p 15] := by
    rw [show List.range 16 = List.range 15 ++ [15] from List.range_succ, List.map_append,
      List.map_singleton]
  have hlow := (digits_bytePairs p 15).value_nonneg (by norm_num)
  have hhigh := (digits_bytePairs p 15).value_lt (by norm_num)
  have hpair := digits_bytePairs p 16 (bytePair p 15) (List.mem_map_of_mem (by decide))
  have hfirst : ((List.range 15).map (bytePair p)).length = 15 := by simp
  have hmodify := modify_append_right ((List.range 15).map (bytePair p)) [bytePair p 15] 0
    (· % 2 ^ 15)
  rw [hfirst, List.modify_zero_cons] at hmodify
  rw [hfirst, ← pow_mul] at hhigh
  rw [hsplit, value_append, hfirst, ← pow_mul, value_cons, value_nil, mul_zero, add_zero] at hvalue
  have hlimbs : (unpack25519 p).limbs = ((List.range 16).map (bytePair p)).modify 15 (· % 2 ^ 15) :=
    by rw [unpack25519]
  rw [hsplit, hmodify] at hlimbs
  refine ⟨?_, fun x hx => ?_⟩
  · have hnat : value (2 ^ 16) ((List.range 15).map (bytePair p)) +
        2 ^ (16 * 15) * (bytePair p 15 % 2 ^ 15) = ((natOfBytes p % 2 ^ 255 : ℕ) : ℤ) := by
      generalize value (2 ^ 16) ((List.range 15).map (bytePair p)) = v at *
      omega
    rw [Gf.val, hlimbs, value_append, hfirst, ← pow_mul, value_cons, value_nil, mul_zero, add_zero,
      hnat, Int.cast_natCast]
  · rw [hlimbs] at hx
    rw [abs_le]
    rcases List.mem_append.mp hx with hx | hx
    · have hdigit := digits_bytePairs p 15 x hx
      omega
    · rw [List.mem_singleton.mp hx]
      omega

/-- **One encoding for each element.** Limbs that stand for one element have one encoding, which is
a number below the prime and unpacks to the element; and bytes that hold such a number come back
from unpacking and packing. -/
theorem pack25519_spec {a b : Gf} (ha : a.Within looseBound) (hb : b.Within looseBound) :
    (pack25519 a = pack25519 b ↔ a.val = b.val) ∧ natOfBytes (pack25519 a) < p25519 ∧
      (unpack25519 (pack25519 a)).val = a.val ∧
      ∀ p : List UInt8, p.length = 32 → natOfBytes p < p25519 → pack25519 (unpack25519 p) = p := by
  have hpow : (256 : ℕ) ^ 32 = 2 ^ 256 := by norm_num
  have hp : p25519 < 2 ^ 255 := by norm_num [p25519]
  have hnat {a : Gf} (ha : a.Within looseBound) : natOfBytes (pack25519 a) = a.val.val := by
    have hlt := a.val.val_lt
    rw [pack25519_eq ha, natOfBytes_bytesOfNat, Nat.mod_eq_of_lt (by omega)]
  have hlen (a : Gf) (ha : a.Within looseBound) : (pack25519 a).length = 32 := by
    rw [pack25519_eq ha, length_bytesOfNat]
  have hlt := a.val.val_lt
  refine ⟨⟨fun h => ?_, fun h => ?_⟩, (hnat ha).trans_lt hlt, ?_, fun p hlenp hltp => ?_⟩
  · rw [← ZMod.natCast_zmod_val a.val, ← hnat ha, h, hnat hb, ZMod.natCast_zmod_val]
  · rw [pack25519_eq ha, pack25519_eq hb, h]
  · rw [(unpack25519_rep (hlen a ha)).val_eq, hnat ha, Nat.mod_eq_of_lt (by omega),
      ZMod.natCast_zmod_val]
  · have hrep := unpack25519_rep hlenp
    rw [pack25519_eq (hrep.within.mono (by rw [looseBound]; norm_num)), hrep.val_eq,
      Nat.mod_eq_of_lt (by omega), ZMod.val_natCast_of_lt hltp, ← hlenp, bytesOfNat_natOfBytes]

theorem pack25519_spec_base : natOfBytes (pack25519 gfBX) < p25519 :=
  (pack25519_spec (a := gfBX) (b := gfBY) (by unfold Gf.Within looseBound; decide)
    (by unfold Gf.Within looseBound; decide)).2.1

/-! ### Powers -/

section Powers

variable {a b x : Gf} {v : ZMod p25519} {m n : ℕ}

theorem Gf.Rep.mul_pow (ha : a.Rep tightBound (v ^ m)) (hb : b.Rep tightBound (v ^ n)) :
    (gfMul a b).Rep tightBound (v ^ (m + n)) := by
  rw [pow_add]
  exact ha.loose.mul hb.loose

theorem Gf.Rep.sq_pow (ha : a.Rep tightBound (v ^ m)) :
    (gfSq a).Rep tightBound (v ^ (2 * m)) := by
  rw [two_mul]
  exact ha.mul_pow ha

theorem Gf.Rep.iterate_sq (ha : a.Rep tightBound (v ^ m)) (k : ℕ) :
    (gfSq^[k] a).Rep tightBound (v ^ (2 ^ k * m)) := by
  induction k with
  | zero => simpa using ha
  | succ k ih =>
    rw [Function.iterate_succ_apply', pow_succ', mul_assoc]
    exact ih.sq_pow

theorem Gf.Rep.pow_eq (ha : a.Rep tightBound (v ^ m)) (hmn : m = n) : a.Rep tightBound (v ^ n) :=
  hmn ▸ ha

/-- **The power for square roots**, along the chain of the comments of `gf_pow22523`. -/
theorem gfPow22523_rep (hx : x.Rep tightBound v) :
    (gfPow22523 x).Rep tightBound (v ^ (2 ^ 252 - 3)) := by
  have h₁ : x.Rep tightBound (v ^ 1) := by rwa [pow_one]
  have h₂ := h₁.sq_pow
  have h₉ := h₁.mul_pow (h₂.iterate_sq 2)
  have h₁₁ := h₂.mul_pow h₉
  have h₃₁ := h₉.mul_pow h₁₁.sq_pow
  have h10 := (h₃₁.iterate_sq 5).mul_pow h₃₁
  have h20 := (h10.iterate_sq 10).mul_pow h10
  have h40 := (h20.iterate_sq 20).mul_pow h20
  have h50 := (h40.iterate_sq 10).mul_pow h10
  have h100 := (h50.iterate_sq 50).mul_pow h50
  have h200 := (h100.iterate_sq 100).mul_pow h100
  have h250 := (h200.iterate_sq 50).mul_pow h50
  rw [gfPow22523]
  exact (h250.sq_pow.sq_pow.mul_pow h₁).pow_eq (by norm_num)

/-- The loop of `gf_inv` on the exponent. -/
def invExponent (e i : ℕ) : ℕ := if i ≠ 2 ∧ i ≠ 4 then 2 * e + 1 else 2 * e

theorem foldl_gfInvStep_rep (hx : x.Rep tightBound v) (is : List ℕ)
    (ha : a.Rep tightBound (v ^ m)) :
    (is.foldl (gfInvStep x) a).Rep tightBound (v ^ is.foldl invExponent m) := by
  induction is generalizing a m with
  | nil => exact ha
  | cons i is ih =>
    refine ih ?_
    rw [gfInvStep, invExponent]
    split_ifs
    · exact ha.sq_pow.mul_pow (by rwa [pow_one])
    · exact ha.sq_pow

/-- **Inversion** by the theorem of Fermat. -/
theorem gfInv_rep (hx : x.Rep tightBound v) : (gfInv x).Rep tightBound v⁻¹ := by
  have hpow : (gfInv x).Rep tightBound (v ^ (p25519 - 2)) :=
    (foldl_gfInvStep_rep hx _ (by rwa [pow_one])).pow_eq (by decide +kernel)
  have hinv : v ^ (p25519 - 2) = v⁻¹ := by
    by_cases hv : v = 0
    · rw [hv, inv_zero, zero_pow (by norm_num [p25519])]
    · refine eq_inv_of_mul_eq_one_left ?_
      rw [← pow_succ, show p25519 - 2 + 1 = p25519 - 1 by norm_num [p25519],
        ZMod.pow_card_sub_one_eq_one hv]
  exact hinv ▸ hpow

end Powers

end Rivr
