import Mathlib.FieldTheory.Finite.Basic
import Rivr.Firmware.Curve25519
import Rivr.ForMathlib.Limbs
import Rivr.ForMathlib.LittleEndianNat

/-!
# Field arithmetic in limbs

The arithmetic of `ed25519_verify.c` modulo `2 ^ 255 - 19`, on sixteen limbs of sixteen bits in the
64-bit integers of `gf`. Every operation computes its operation of the field, whatever excess the
limbs carry (`val_gfMul` and its like), and the excess stays so small that no 64-bit integer
overflows (`Gf.Within.gfMul`, `gfMul_fits`), so that the limbs are integers here.
-/

namespace Rivr

open Limbs LittleEndian

/-- `gf`: sixteen limbs. -/
@[ext]
structure Gf where
  limbs : List ℤ
  length_limbs : limbs.length = 16
  deriving DecidableEq

attribute [simp] Gf.length_limbs

/-- The element of the field. -/
def Gf.val (a : Gf) : ZMod p25519 := (value (2 ^ 16) a.limbs : ℤ)

/-- The limbs are within a bound. -/
def Gf.Within (m : ℤ) (a : Gf) : Prop := ∀ x ∈ a.limbs, |x| ≤ m

/-- `gf0`. -/
def gf0 : Gf := ⟨[0, 0, 0, 0, 0, 0, 0, 0, 0, 0, 0, 0, 0, 0, 0, 0], rfl⟩

/-- `gf1`. -/
def gf1 : Gf := ⟨[1, 0, 0, 0, 0, 0, 0, 0, 0, 0, 0, 0, 0, 0, 0, 0], rfl⟩

/-- `D`. -/
def gfD : Gf :=
  ⟨[0x78a3, 0x1359, 0x4dca, 0x75eb, 0xd8ab, 0x4141, 0x0a4d, 0x0070,
    0xe898, 0x7779, 0x4079, 0x8cc7, 0xfe73, 0x2b6f, 0x6cee, 0x5203], rfl⟩

/-- `D2`. -/
def gfD2 : Gf :=
  ⟨[0xf159, 0x26b2, 0x9b94, 0xebd6, 0xb156, 0x8283, 0x149a, 0x00e0,
    0xd130, 0xeef3, 0x80f2, 0x198e, 0xfce7, 0x56df, 0xd9dc, 0x2406], rfl⟩

/-- `I`. -/
def gfI : Gf :=
  ⟨[0xa0b0, 0x4a0e, 0x1b27, 0xc4ee, 0xe478, 0xad2f, 0x1806, 0x2f43,
    0xd7a7, 0x3dfb, 0x0099, 0x2b4d, 0xdf0b, 0x4fc1, 0x2480, 0x2b83], rfl⟩

/-- `BX`. -/
def gfBX : Gf :=
  ⟨[0xd51a, 0x8f25, 0x2d60, 0xc956, 0xa7b2, 0x9525, 0xc760, 0x692c,
    0xdc5c, 0xfdd6, 0xe231, 0xc0a4, 0x53fe, 0xcd6e, 0x36d3, 0x2169], rfl⟩

/-- `BY`. -/
def gfBY : Gf :=
  ⟨[0x6658, 0x6666, 0x6666, 0x6666, 0x6666, 0x6666, 0x6666, 0x6666,
    0x6666, 0x6666, 0x6666, 0x6666, 0x6666, 0x6666, 0x6666, 0x6666], rfl⟩

/-- `gf_add`. -/
def gfAdd (a b : Gf) : Gf := ⟨List.zipWith (· + ·) a.limbs b.limbs, by simp⟩

/-- `gf_sub`. -/
def gfSub (a b : Gf) : Gf := ⟨List.zipWith (· - ·) a.limbs b.limbs, by simp⟩

/-- The body of the loop of `car25519`. -/
def carStep (r : List ℤ) (i : ℕ) : List ℤ :=
  let c := r.getD i 0 / 2 ^ 16
  (r.modify ((i + 1) % 16) (· + if i < 15 then c else 38 * c)).modify i (· % 2 ^ 16)

@[simp]
theorem length_carStep (r : List ℤ) (i : ℕ) : (carStep r i).length = r.length := by
  rw [carStep, List.length_modify, List.length_modify]

/-- `car25519`. -/
def car25519 (r : Gf) : Gf :=
  ⟨(List.range 16).foldl carStep r.limbs, by rw [length_foldl length_carStep, r.length_limbs]⟩

/-- The products of `gf_mul`: sixteen rows of sixteen. -/
def gfProducts (a b : Gf) : List ℤ := mulRows a.limbs b.limbs 16 16 (List.replicate 31 0)

/-- The limbs of `gf_mul` before the carries. -/
def gfWrapped (a b : Gf) : Gf :=
  ⟨(wrapHigh 38 15 16 (gfProducts a b)).take 16, by simp [gfProducts]⟩

/-- `gf_mul`. -/
def gfMul (a b : Gf) : Gf := car25519 (car25519 (gfWrapped a b))

/-- `gf_sq`. -/
def gfSq (a : Gf) : Gf := gfMul a a

/-! ### The operations of the field -/

theorem cast_two_pow_256 : ((2 ^ 256 : ℤ) : ZMod p25519) = 38 := by
  have h : ((2 ^ 256 : ℕ) : ZMod p25519) = (38 : ℕ) :=
    (ZMod.natCast_eq_natCast_iff' _ _ _).mpr (by norm_num [p25519])
  rw [Nat.cast_pow] at h
  rw [Int.cast_pow]
  exact h

theorem val_gfAdd (a b : Gf) : (gfAdd a b).val = a.val + b.val := by
  rw [Gf.val, gfAdd, value_zipWith_add (by simp), Int.cast_add]
  rfl

theorem val_gfSub (a b : Gf) : (gfSub a b).val = a.val - b.val := by
  rw [Gf.val, gfSub, value_zipWith_sub (by simp), Int.cast_sub]
  rfl

/-- The loop of `car25519` passes the carries on, and the last one comes back as `38`. -/
theorem limbs_car25519 (r : Gf) : (car25519 r).limbs =
    (carry (2 ^ 16) 0 r.limbs).1.modify 0 (· + 38 * (carry (2 ^ 16) 0 r.limbs).2) := by
  have hlen := r.length_limbs
  have hloop : (List.range 15).foldl carStep r.limbs = ripple (2 ^ 16) (· / 2 ^ 16) 15 r.limbs := by
    refine List.foldl_ext _ _ _ fun l i hi => ?_
    have hi := List.mem_range.mp hi
    simp only [carStep, Nat.mod_eq_of_lt (show i + 1 < 16 by omega), if_pos hi]
  have hsplit : r.limbs = r.limbs.take 15 ++ [r.limbs.getD 15 0] := by
    rw [List.getD_eq_getElem _ _ (by omega), ← List.take_succ_eq_append_getElem (by omega),
      List.take_of_length_le hlen.le]
  have hdrop : r.limbs.drop 16 = [] := List.drop_of_length_le hlen.le
  have hripple := ripple_eq (B := 2 ^ 16) (g := fun x => x / 2 ^ 16) (n := 15) (l := r.limbs)
    (by omega) fun i _ => rfl
  have hcarry := (congrArg (carry (2 ^ 16) 0) hsplit).trans (carry_append _ _ _)
  have hdef : (car25519 r).limbs = (List.range 16).foldl carStep r.limbs := by rw [car25519]
  have hrange : List.range 16 = List.range 15 ++ [15] := List.range_succ
  rw [hdef, hrange, List.foldl_append, hloop, hripple, hdrop, hcarry]
  have hdigits := length_carry (B := 2 ^ 16) 0 (r.limbs.take 15)
  rw [List.length_take, hlen] at hdigits
  generalize carry (2 ^ 16) 0 (r.limbs.take 15) = done at hdigits
  obtain ⟨ds, c⟩ := done
  cases ds with
  | nil => simp at hdigits
  | cons d ds =>
    have hds : ds.length = 14 := by simpa using hdigits
    have hlast := modify_append_right ds [r.limbs.getD 15 0 + c] 0 (· % 2 ^ 16)
    rw [hds] at hlast
    simpa [carStep, carry, hds] using hlast

theorem val_car25519 (r : Gf) : (car25519 r).val = r.val := by
  have hvalue := value_carry (B := 2 ^ 16) 0 r.limbs
  rw [r.length_limbs, add_zero] at hvalue
  have hcar : value (2 ^ 16) (car25519 r).limbs =
      value (2 ^ 16) r.limbs + (38 - 2 ^ 256) * (carry (2 ^ 16) 0 r.limbs).2 := by
    rw [limbs_car25519, value_modify _ (by simp), ← hvalue]
    ring
  rw [Gf.val, hcar, Int.cast_add, Int.cast_mul, Int.cast_sub, cast_two_pow_256, Gf.val]
  push_cast
  ring

/-- **Multiplication.** -/
theorem val_gfMul (a b : Gf) : (gfMul a b).val = a.val * b.val := by
  have hlen : (gfProducts a b).length = 31 := by simp [gfProducts]
  have hproduct : value (2 ^ 16) (gfProducts a b) =
      value (2 ^ 16) a.limbs * value (2 ^ 16) b.limbs := by
    have hrows := value_mulRows (B := 2 ^ 16) (a := a.limbs) (b := b.limbs) (m := 16)
      (t := List.replicate 31 0) (by simp)
    rw [b.length_limbs] at hrows
    rw [gfProducts, hrows, value_eq_sum a.limbs, a.length_limbs]
    simp
  have hwrapped : value (2 ^ 16) (gfWrapped a b).limbs =
      value (2 ^ 16) a.limbs * value (2 ^ 16) b.limbs +
        (38 - 2 ^ 256) * value (2 ^ 16) ((gfProducts a b).drop 16) := by
    have hsplit := value_take_drop (B := 2 ^ 16) (gfProducts a b) 16 (by omega)
    rw [gfWrapped, value_wrapHigh (by omega) (by omega), ← hproduct, hsplit]
    ring
  rw [gfMul, val_car25519, val_car25519, Gf.val, hwrapped, Int.cast_add, Int.cast_mul,
    Int.cast_mul, Int.cast_sub, cast_two_pow_256, Gf.val, Gf.val]
  push_cast
  ring

theorem val_gfSq (a : Gf) : (gfSq a).val = a.val ^ 2 := by
  rw [gfSq, val_gfMul, sq]

/-! ### The excess of the limbs -/

theorem Gf.Within.getD {a : Gf} {m : ℤ} (h : a.Within m) (i : ℕ) : |a.limbs.getD i 0| ≤ m := by
  have hm : 0 ≤ m := by
    have hlen := a.length_limbs
    obtain ⟨x, xs, hcons⟩ := List.exists_cons_of_length_eq_add_one hlen
    exact (abs_nonneg x).trans (h x (hcons ▸ List.mem_cons_self))
  rcases Nat.lt_or_ge i a.limbs.length with hi | hi
  · rw [List.getD_eq_getElem _ _ hi]
    exact h _ (List.getElem_mem hi)
  · rw [List.getD_eq_default _ _ hi, abs_zero]
    exact hm

theorem Gf.Within.mono {a : Gf} {m m' : ℤ} (h : a.Within m) (hm : m ≤ m') : a.Within m' :=
  fun x hx => (h x hx).trans hm

theorem within_of_getD {a : Gf} {m : ℤ} (h : ∀ i, |a.limbs.getD i 0| ≤ m) : a.Within m := by
  intro x hx
  obtain ⟨i, hi, rfl⟩ := List.getElem_of_mem hx
  rw [← List.getD_eq_getElem _ 0 hi]
  exact h i

theorem Gf.Within.gfAdd {a b : Gf} {m n : ℤ} (ha : a.Within m) (hb : b.Within n) :
    (gfAdd a b).Within (m + n) := by
  refine within_of_getD fun i => ?_
  rw [Rivr.gfAdd, getD_zipWith (add_zero 0) (by simp)]
  exact (abs_add_le _ _).trans (add_le_add (ha.getD i) (hb.getD i))

theorem Gf.Within.gfSub {a b : Gf} {m n : ℤ} (ha : a.Within m) (hb : b.Within n) :
    (gfSub a b).Within (m + n) := by
  refine within_of_getD fun i => ?_
  rw [Rivr.gfSub, getD_zipWith (sub_zero 0) (by simp)]
  exact (abs_sub _ _).trans (add_le_add (ha.getD i) (hb.getD i))

/-- The sums of products. -/
theorem abs_gfProducts_le {a b : Gf} {m n : ℤ} (ha : a.Within m) (hb : b.Within n) (k : ℕ) :
    |(gfProducts a b).getD k 0| ≤ 16 * (m * n) := by
  have h := abs_getD_mulRows_le (m := 16) (n := 16) (t := List.replicate 31 0) (by simp) ha.getD
    hb.getD k
  have hzero : (List.replicate 31 (0 : ℤ)).getD k 0 = 0 := by
    rw [List.getD_eq_getElem?_getD, List.getElem?_replicate]
    split_ifs <;> rfl
  rw [hzero, abs_zero, zero_add] at h
  exact h

theorem gfWrapped_within {a b : Gf} {m n : ℤ} (ha : a.Within m) (hb : b.Within n) :
    (gfWrapped a b).Within (624 * (m * n)) := by
  refine within_of_getD fun i => ?_
  have hi := abs_gfProducts_le ha hb i
  have hhigh := abs_gfProducts_le ha hb (i + 16)
  have hbound : |(wrapHigh 38 15 16 (gfProducts a b)).getD i 0| ≤ 624 * (m * n) := by
    rw [getD_wrapHigh (by omega) (by simp [gfProducts])]
    split_ifs
    · rw [abs_le] at hi hhigh ⊢
      omega
    · rw [abs_le] at hi ⊢
      omega
  rcases Nat.lt_or_ge i 16 with hlt | hge
  · rwa [gfWrapped, List.getD_eq_getElem?_getD, List.getElem?_take_of_lt hlt,
      ← List.getD_eq_getElem?_getD]
  · rw [List.getD_eq_default _ _ (by rw [Gf.length_limbs]; exact hge), abs_zero]
    exact (abs_nonneg _).trans hbound

/-- What `car25519` leaves: digits, but for what the last carry adds to the first of them. -/
theorem exists_car25519 (r : Gf) : ∃ d ds c, (carry (2 ^ 16) 0 r.limbs).2 = c ∧
    Digits (2 ^ 16) (d :: ds) ∧ ds.length = 15 ∧ (car25519 r).limbs = (d + 38 * c) :: ds ∧
    value (2 ^ 16) (d :: ds) + 2 ^ 256 * c = value (2 ^ 16) r.limbs := by
  have hdigits := digits_carry (B := 2 ^ 16) (by norm_num) 0 r.limbs
  have hlen := length_carry (B := 2 ^ 16) 0 r.limbs
  have hvalue := value_carry (B := 2 ^ 16) 0 r.limbs
  have hlimbs := limbs_car25519 r
  rw [r.length_limbs, ← pow_mul, add_zero] at hvalue
  rw [r.length_limbs] at hlen
  obtain ⟨d, ds, hcons⟩ := List.exists_cons_of_length_eq_add_one hlen
  rw [hcons] at hdigits hlen hvalue hlimbs
  exact ⟨d, ds, _, rfl, hdigits, by simpa using hlen, hlimbs, hvalue⟩

/-- After one pass the excess of the first limb is used up by three more carries. -/
theorem abs_carry_le_one {x : ℤ} {ds : List ℤ} (hx : |x| ≤ 2 ^ 40) (hlen : ds.length = 15)
    (hds : Digits (2 ^ 16) ds) : |(carry (2 ^ 16) 0 (x :: ds)).2| ≤ 1 := by
  rcases ds with _ | ⟨d₁, _ | ⟨d₂, ds⟩⟩
  · cases hlen
  · cases hlen
  · obtain ⟨hd₁, hds⟩ := digits_cons.mp hds
    obtain ⟨hd₂, hds⟩ := digits_cons.mp hds
    simp only [carry]
    refine carry_digits (by norm_num) hds ?_
    rw [abs_le] at hx ⊢
    omega

theorem abs_add_mul_le {d c k : ℤ} (hd : 0 ≤ d ∧ d < 2 ^ 16) (hc : |c| ≤ k) :
    |d + 38 * c| ≤ 2 ^ 16 + 38 * k := by
  rw [abs_le] at hc ⊢
  omega

/-- Two passes over limbs of at most 46 bits leave digits, but for at most `38` in the first. -/
theorem car25519_car25519_within {r : Gf} (h : r.Within (2 ^ 46)) :
    (car25519 (car25519 r)).Within (2 ^ 16 + 38) := by
  obtain ⟨d, ds, c, hc, hdigits, hlen, hlimbs, -⟩ := exists_car25519 r
  obtain ⟨e, es, c', hc', hdigits', -, hlimbs', -⟩ := exists_car25519 (car25519 r)
  have habs : |c| ≤ 2 ^ 31 := hc ▸ abs_carry_le (by norm_num) h (by norm_num) (by norm_num)
  have hd := abs_add_mul_le (digits_cons.mp hdigits).1 habs
  have habs' : |c'| ≤ 1 := by
    rw [← hc', hlimbs]
    exact abs_carry_le_one (hd.trans (by norm_num)) hlen (digits_cons.mp hdigits).2
  intro x hx
  rw [hlimbs'] at hx
  rcases List.mem_cons.mp hx with rfl | hx
  · exact (abs_add_mul_le (digits_cons.mp hdigits').1 habs').trans (by norm_num)
  · have hdigit := (digits_cons.mp hdigits').2 x hx
    rw [abs_le]
    omega

/-- The bound of the limbs that the operations take. -/
def looseBound : ℤ := 2 ^ 18

/-- The bound of the limbs that the multiplication gives. -/
def tightBound : ℤ := 2 ^ 16 + 38

theorem Gf.Within.gfMul {a b : Gf} (ha : a.Within looseBound) (hb : b.Within looseBound) :
    (gfMul a b).Within tightBound := by
  refine car25519_car25519_within ((gfWrapped_within ha hb).mono ?_)
  rw [looseBound]
  norm_num

/-! ### Integers of 64 bits -/

/-- The integer is one of `long long`. -/
def FitsInt64 (x : ℤ) : Prop := -2 ^ 63 ≤ x ∧ x < 2 ^ 63

theorem fitsInt64_of_abs_le {x m : ℤ} (h : |x| ≤ m) (hm : m < 2 ^ 63) : FitsInt64 x := by
  have hx := abs_le.mp h
  exact ⟨by linarith, by linarith⟩

/-- No integer that `gf_mul` comes by overflows: the products and their sums, the limbs that wrap,
and the carries of both passes. -/
structure GfMulFits (a b : Gf) : Prop where
  product : ∀ i j, FitsInt64 (a.limbs.getD i 0 * b.limbs.getD j 0)
  row : ∀ i < 16, ∀ n ≤ 16, ∀ k, FitsInt64 ((addRow i n
    (fun j => a.limbs.getD i 0 * b.limbs.getD j 0)
    (mulRows a.limbs b.limbs i 16 (List.replicate 31 0))).getD k 0)
  high : ∀ k, FitsInt64 (38 * (gfProducts a b).getD k 0)
  wrap : ∀ n ≤ 15, ∀ k, FitsInt64 ((wrapHigh 38 n 16 (gfProducts a b)).getD k 0)
  carry : ∀ r ∈ [gfWrapped a b, car25519 (gfWrapped a b)], ∀ i ≤ 16, ∀ k,
    FitsInt64 (((List.range i).foldl carStep r.limbs).getD k 0) ∧
      FitsInt64 (38 * (((List.range i).foldl carStep r.limbs).getD k 0 / 2 ^ 16))

/-- In the course of `car25519` only the limb whose turn comes exceeds the bound of the limbs. -/
theorem abs_foldl_carStep_le {r : Gf} {m : ℤ} (hm : 2 ^ 16 ≤ m) (h : r.Within m) {i : ℕ}
    (hi : i ≤ 16) (k : ℕ) :
    |((List.range i).foldl carStep r.limbs).getD k 0| ≤ if k = i % 16 then 2 * m else m := by
  induction i generalizing k with
  | zero =>
    refine (h.getD k).trans ?_
    split_ifs <;> omega
  | succ i ih =>
    have hlen := length_foldl length_carStep (List.range i) r.limbs
    rw [r.length_limbs] at hlen
    rw [List.range_succ, List.foldl_append, List.foldl_cons, List.foldl_nil]
    generalize (List.range i).foldl carStep r.limbs = t at ih hlen
    have hturn := ih (by omega) i
    have hk := ih (by omega) k
    rw [if_pos (Nat.mod_eq_of_lt (by omega)).symm] at hturn
    rw [Nat.mod_eq_of_lt (by omega : i < 16)] at hk
    rw [carStep, getD_modify, getD_modify, List.length_modify, hlen]
    generalize t.getD i 0 = x at hturn
    generalize t.getD k 0 = y at hk
    rw [abs_le] at hturn hk ⊢
    split_ifs at hk ⊢ <;> omega

/-- **No overflow** in the multiplication of limbs that the operations give. -/
theorem gfMul_fits {a b : Gf} (ha : a.Within looseBound) (hb : b.Within looseBound) :
    GfMulFits a b := by
  have hprod (i j : ℕ) : |a.limbs.getD i 0 * b.limbs.getD j 0| ≤ 2 ^ 36 := by
    rw [abs_mul]
    exact (mul_le_mul (ha.getD i) (hb.getD j) (abs_nonneg _) (by norm_num [looseBound])).trans
      (by norm_num [looseBound])
  have hproducts (k : ℕ) : |(gfProducts a b).getD k 0| ≤ 2 ^ 40 :=
    (abs_gfProducts_le ha hb k).trans (by norm_num [looseBound])
  have hzero (k : ℕ) : (List.replicate 31 (0 : ℤ)).getD k 0 = 0 := by
    rw [List.getD_eq_getElem?_getD, List.getElem?_replicate]
    split_ifs <;> rfl
  have hwrapped : (gfWrapped a b).Within (2 ^ 46) :=
    (gfWrapped_within ha hb).mono (by norm_num [looseBound])
  have hpass : (car25519 (gfWrapped a b)).Within (2 ^ 47) := within_of_getD fun k => by
    have hloop : (car25519 (gfWrapped a b)).limbs =
        (List.range 16).foldl carStep (gfWrapped a b).limbs := by rw [car25519]
    rw [hloop]
    refine (abs_foldl_carStep_le (by norm_num) hwrapped le_rfl k).trans ?_
    split_ifs <;> norm_num
  have hcarry {r : Gf} (hr : r.Within (2 ^ 47)) (i : ℕ) (hi : i ≤ 16) (k : ℕ) :
      |((List.range i).foldl carStep r.limbs).getD k 0| ≤ 2 ^ 48 :=
    (abs_foldl_carStep_le (by norm_num) hr hi k).trans (by split_ifs <;> norm_num)
  refine ⟨fun i j => fitsInt64_of_abs_le (hprod i j) (by norm_num), fun i hi n hn k => ?_,
    fun k => ?_, fun n hn k => ?_, fun r hr i hi k => ?_⟩
  · have hrows := abs_getD_mulRows_le (m := i) (n := 16) (t := List.replicate 31 0)
      (by simp; omega) ha.getD hb.getD k
    rw [hzero, abs_zero, zero_add] at hrows
    have hsum : |(mulRows a.limbs b.limbs i 16 (List.replicate 31 0)).getD k 0| ≤ 2 ^ 40 :=
      hrows.trans (by rw [looseBound]; omega)
    rw [getD_addRow (by rw [length_mulRows, List.length_replicate]; omega)]
    have hlast : |if i ≤ k ∧ k < i + n then a.limbs.getD i 0 * b.limbs.getD (k - i) 0 else 0| ≤
        2 ^ 36 := by
      split_ifs
      · exact hprod i _
      · norm_num
    exact fitsInt64_of_abs_le ((abs_add_le _ _).trans (add_le_add hsum hlast)) (by norm_num)
  · have hk := abs_le.mp (hproducts k)
    constructor <;> omega
  · rw [getD_wrapHigh (by omega) (by simp [gfProducts])]
    have hk := abs_le.mp (hproducts k)
    have hk' := abs_le.mp (hproducts (k + 16))
    constructor <;> split_ifs <;> omega
  · have hk : |((List.range i).foldl carStep r.limbs).getD k 0| ≤ 2 ^ 48 := by
      rcases List.mem_pair.mp hr with rfl | rfl
      · exact hcarry (hwrapped.mono (by norm_num)) i hi k
      · exact hcarry hpass i hi k
    refine ⟨fitsInt64_of_abs_le hk (by norm_num), ?_⟩
    rw [abs_le] at hk
    constructor <;> omega

/-- **Multiplication in the field.** Limbs that stand for two elements give limbs of their product,
within the bound that every operation takes, and no integer on the way overflows. -/
theorem gfMul_spec {a b : Gf} (ha : a.Within looseBound) (hb : b.Within looseBound) :
    GfMulFits a b ∧ (gfMul a b).val = a.val * b.val ∧ (gfMul a b).Within tightBound :=
  ⟨gfMul_fits ha hb, val_gfMul a b, ha.gfMul hb⟩

theorem gfMul_spec_base : (gfMul gfBX gfBY).val = gfBX.val * gfBY.val :=
  (gfMul_spec (a := gfBX) (b := gfBY) (by unfold Gf.Within looseBound; decide)
    (by unfold Gf.Within looseBound; decide)).2.1

/-! ### Representation -/

/-- The limbs stand for the element, and are within the bound. -/
structure Gf.Rep (m : ℤ) (a : Gf) (v : ZMod p25519) : Prop where
  val_eq : a.val = v
  within : a.Within m

namespace Gf.Rep

variable {m n : ℤ} {a b : Gf} {v w : ZMod p25519}

theorem mono (h : a.Rep m v) (hm : m ≤ n) : a.Rep n v := ⟨h.val_eq, h.within.mono hm⟩

theorem loose (h : a.Rep tightBound v) : a.Rep looseBound v :=
  h.mono (by rw [tightBound, looseBound]; norm_num)

theorem add (ha : a.Rep m v) (hb : b.Rep n w) : (gfAdd a b).Rep (m + n) (v + w) :=
  ⟨by rw [val_gfAdd, ha.val_eq, hb.val_eq], ha.within.gfAdd hb.within⟩

theorem sub (ha : a.Rep m v) (hb : b.Rep n w) : (gfSub a b).Rep (m + n) (v - w) :=
  ⟨by rw [val_gfSub, ha.val_eq, hb.val_eq], ha.within.gfSub hb.within⟩

theorem mul (ha : a.Rep looseBound v) (hb : b.Rep looseBound w) :
    (gfMul a b).Rep tightBound (v * w) :=
  ⟨by rw [val_gfMul, ha.val_eq, hb.val_eq], ha.within.gfMul hb.within⟩

theorem sq (ha : a.Rep looseBound v) : (gfSq a).Rep tightBound (v ^ 2) := by
  rw [pow_two]
  exact ha.mul ha

end Gf.Rep

end Rivr
