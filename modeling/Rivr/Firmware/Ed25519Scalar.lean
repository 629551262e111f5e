import Mathlib.Data.Int.ModEq
import Rivr.ForMathlib.Limbs
import Rivr.ForMathlib.LittleEndianNat

/-!
# Reduction of scalars

`sc_reduce` of `ed25519_verify.c`: the 64 bytes of a hash, reduced modulo the order of the base
point in limbs of 21 bits.
-/

namespace Rivr

open Limbs LittleEndian

/-- `l`, the order of the base point. -/
def groupOrder : ℕ := 2 ^ 252 + 27742317777372353535851937790883648493

/-- `load3`. -/
def load3 (p : List UInt8) : UInt64 :=
  (p.getD 0 0).toUInt64 ||| (p.getD 1 0).toUInt64 <<< 8 ||| (p.getD 2 0).toUInt64 <<< 16

/-- `load4`. -/
def load4 (p : List UInt8) : UInt64 :=
  (p.getD 0 0).toUInt64 ||| (p.getD 1 0).toUInt64 <<< 8 ||| (p.getD 2 0).toUInt64 <<< 16 |||
    (p.getD 3 0).toUInt64 <<< 24

/-- The limbs `s0` to `s23`: windows of 21 bits, and what is left. -/
def scLoad (s : List UInt8) : List ℤ :=
  ([load3 s, load4 (s.drop 2) >>> 5, load3 (s.drop 5) >>> 2, load4 (s.drop 7) >>> 7,
    load4 (s.drop 10) >>> 4, load3 (s.drop 13) >>> 1, load4 (s.drop 15) >>> 6,
    load3 (s.drop 18) >>> 3, load3 (s.drop 21), load4 (s.drop 23) >>> 5, load3 (s.drop 26) >>> 2,
    load4 (s.drop 28) >>> 7, load4 (s.drop 31) >>> 4, load4 (s.drop 34) >>> 1,
    load4 (s.drop 36) >>> 6, load3 (s.drop 39) >>> 3, load3 (s.drop 42), load4 (s.drop 44) >>> 5,
    load3 (s.drop 47) >>> 2, load4 (s.drop 49) >>> 7, load4 (s.drop 52) >>> 4,
    load3 (s.drop 55) >>> 1, load4 (s.drop 57) >>> 6].map fun w => ((2097151 &&& w).toNat : ℤ)) ++
  [((load4 (s.drop 60) >>> 3).toNat : ℤ)]

/-- The factors of the reduction: `2 ^ 252` is `c` modulo `l`. -/
def scTerms : List ℤ := [666643, 470296, 654183, -997805, 136657, -683901]

/-- One step of the reduction: a limb is folded into the six that stand twelve below it. -/
def scFold (t : List ℤ) (i : ℕ) : List ℤ :=
  (addRow (i - 12) 6 (fun j => t.getD i 0 * scTerms.getD j 0) t).modify i fun _ => 0

/-- The limbs of the reduction, in its order. -/
def foldOrder : List ℕ := [23, 22, 21, 20, 19, 18, 17, 16, 15, 14, 13, 12]

/-- A carry out of a limb, rounded by `r`. -/
def scPass (r : ℤ) (t : List ℤ) (i : ℕ) : List ℤ :=
  let c := (t.getD i 0 + r) / 2 ^ 21
  (t.modify (i + 1) (· + c)).modify i (· - c * 2 ^ 21)

/-- `CARRY`. -/
def scCarry : List ℤ → ℕ → List ℤ := scPass (2 ^ 20)

/-- `CFLR`. -/
def scCflr : List ℤ → ℕ → List ℤ := scPass 0

/-- The limbs of the first carries, in their order. -/
def carryOrder : List ℕ := [0, 2, 4, 6, 8, 10, 1, 3, 5, 7, 9, 11]

/-- The limbs after the reduction and the first carries, and the fold of `s12`. -/
def scSpread (s : List UInt8) : List ℤ :=
  scFold (carryOrder.foldl scCarry (foldOrder.foldl scFold (scLoad s))) 12

/-- The last carries, twice where the first time leaves something in `s12`. -/
def scSettle (t : List ℤ) : List ℤ :=
  let t := (List.range 12).foldl scCflr t
  if t.getD 12 0 ≠ 0 then (List.range 12).foldl scCflr (scFold t 12) else t

/-- The 32 bytes of the twelve limbs. -/
def scPack (t : List ℤ) : List UInt8 :=
  let lo i k := UInt8.ofInt (t.getD i 0 / 2 ^ k)
  let hi i k := UInt8.ofInt (t.getD i 0 * 2 ^ k)
  [lo 0 0, lo 0 8, lo 0 16 ||| hi 1 5, lo 1 3, lo 1 11, lo 1 19 ||| hi 2 2, lo 2 6,
    lo 2 14 ||| hi 3 7, lo 3 1, lo 3 9, lo 3 17 ||| hi 4 4, lo 4 4, lo 4 12, lo 4 20 ||| hi 5 1,
    lo 5 7, lo 5 15 ||| hi 6 6, lo 6 2, lo 6 10, lo 6 18 ||| hi 7 3, lo 7 5, lo 7 13, lo 8 0,
    lo 8 8, lo 8 16 ||| hi 9 5, lo 9 3, lo 9 11, lo 9 19 ||| hi 10 2, lo 10 6,
    lo 10 14 ||| hi 11 7, lo 11 1, lo 11 9, lo 11 17]

/-- `sc_reduce`, with the integers of 128 bits. -/
def scReduce (s : List UInt8) : List UInt8 := scPack (scSettle (scSpread s))

/-! ### The limbs of the hash -/

theorem or_shiftLeft_toNat {a : UInt64} {b : UInt8} {k : UInt64} (hk : k.toNat ≤ 56)
    (ha : a.toNat < 2 ^ k.toNat) :
    (a ||| b.toUInt64 <<< k).toNat = a.toNat + 2 ^ k.toNat * b.toNat := by
  have hb : b.toNat * 2 ^ k.toNat < 2 ^ 64 := by
    calc b.toNat * 2 ^ k.toNat < 2 ^ 8 * 2 ^ k.toNat :=
          (Nat.mul_lt_mul_right (Nat.two_pow_pos _)).mpr b.toNat_lt
      _ = 2 ^ (8 + k.toNat) := by rw [pow_add]
      _ ≤ 2 ^ 64 := Nat.pow_le_pow_right (by norm_num) (by omega)
  rw [UInt64.toNat_or, UInt64.toNat_shiftLeft, UInt8.toNat_toUInt64,
    Nat.mod_eq_of_lt (by omega : k.toNat < 64), Nat.shiftLeft_eq, Nat.mod_eq_of_lt hb, Nat.or_comm,
    mul_comm, ← Nat.two_pow_add_eq_or_of_lt ha, add_comm]

theorem load3_toNat (p : List UInt8) : (load3 p).toNat = natOfBytes p % 2 ^ 24 := by
  have h0 := (p.getD 0 0).toNat_lt
  have h1 := (p.getD 1 0).toNat_lt
  have e0 := getD_toNat p 0
  have e1 := getD_toNat p 1
  have e2 := getD_toNat p 2
  have hlow : ((p.getD 0 0).toUInt64 ||| (p.getD 1 0).toUInt64 <<< 8).toNat =
      (p.getD 0 0).toNat + 2 ^ 8 * (p.getD 1 0).toNat := by
    rw [or_shiftLeft_toNat (by decide) (by exact h0)]
    rfl
  rw [load3, or_shiftLeft_toNat (by decide) (by rw [hlow]; change _ < 2 ^ 16; omega), hlow]
  change _ + 2 ^ 16 * _ = _
  omega

theorem load4_toNat (p : List UInt8) : (load4 p).toNat = natOfBytes p % 2 ^ 32 := by
  have hlow := load3_toNat p
  have e3 := getD_toNat p 3
  have hload : load4 p = load3 p ||| (p.getD 3 0).toUInt64 <<< 24 := rfl
  rw [hload, or_shiftLeft_toNat (by decide) (by rw [hlow]; change _ < 2 ^ 24; omega), hlow]
  change _ + 2 ^ 24 * _ = _
  omega

theorem mask_toNat (x : UInt64) : (2097151 &&& x).toNat = x.toNat % 2 ^ 21 := by
  have hmask : (2097151 : UInt64).toNat = 2 ^ 21 - 1 := rfl
  rw [UInt64.toNat_and, hmask, Nat.and_comm, Nat.and_two_pow_sub_one_eq_mod]

/-- A window of the bits of a number. -/
theorem window_toNat {x k : UInt64} {n b : ℕ} (hx : x.toNat = n % 2 ^ b) (hb : b ≤ 32)
    (hk : k.toNat + 21 ≤ b) : (2097151 &&& x >>> k).toNat = n / 2 ^ k.toNat % 2 ^ 21 := by
  have hdvd : 2 ^ 21 ∣ 2 ^ (b - k.toNat) := pow_dvd_pow 2 (by omega)
  have hsplit : 2 ^ b = 2 ^ k.toNat * 2 ^ (b - k.toNat) := by
    rw [← pow_add, Nat.add_sub_cancel' (by omega)]
  rw [mask_toNat, UInt64.toNat_shiftRight, Nat.mod_eq_of_lt (by omega : k.toNat < 64),
    Nat.shiftRight_eq_div_pow, hx, hsplit, Nat.mod_mul_right_div_self, Nat.mod_mod_of_dvd _ hdvd]

theorem pow_byte (o : ℕ) : 2 ^ (8 * o) = 256 ^ o := by
  rw [pow_mul]
  norm_num

theorem window3 (s : List UInt8) (o : ℕ) {k : UInt64} (hk : k.toNat ≤ 3) :
    (2097151 &&& load3 (s.drop o) >>> k).toNat =
      natOfBytes s / 2 ^ (8 * o + k.toNat) % 2 ^ 21 := by
  rw [window_toNat (load3_toNat _) (by norm_num) (by omega), natOfBytes_drop,
    Nat.div_div_eq_div_mul, pow_add, pow_byte]

theorem window4 (s : List UInt8) (o : ℕ) {k : UInt64} (hk : k.toNat ≤ 11) :
    (2097151 &&& load4 (s.drop o) >>> k).toNat =
      natOfBytes s / 2 ^ (8 * o + k.toNat) % 2 ^ 21 := by
  rw [window_toNat (load4_toNat _) (by norm_num) (by omega), natOfBytes_drop,
    Nat.div_div_eq_div_mul, pow_add, pow_byte]

theorem window3_zero (s : List UInt8) (o : ℕ) :
    (2097151 &&& load3 (s.drop o)).toNat = natOfBytes s / 2 ^ (8 * o) % 2 ^ 21 := by
  rw [mask_toNat, load3_toNat, natOfBytes_drop, Nat.mod_mod_of_dvd _ (by norm_num), pow_byte]

/-- The limbs are the digits of the number. -/
theorem scLoad_eq (s : List UInt8) : scLoad s =
    ((List.range 23).map fun i => ((natOfBytes s / (2 ^ 21) ^ i % 2 ^ 21 : ℕ) : ℤ)) ++
      [((natOfBytes s / (2 ^ 21) ^ 23 % 2 ^ 29 : ℕ) : ℤ)] := by
  have hfirst := window3_zero s 0
  have hlast : (load4 (s.drop 60) >>> 3).toNat = natOfBytes s / 2 ^ (8 * 60 + 3) % 2 ^ 29 := by
    rw [UInt64.toNat_shiftRight, load4_toNat, natOfBytes_drop]
    change (natOfBytes s / 256 ^ 60 % 2 ^ 32) >>> 3 = _
    rw [pow_add, pow_byte, ← Nat.div_div_eq_div_mul, Nat.shiftRight_eq_div_pow]
    omega
  rw [List.drop_zero] at hfirst
  have hrange : List.range 23 =
      [0, 1, 2, 3, 4, 5, 6, 7, 8, 9, 10, 11, 12, 13, 14, 15, 16, 17, 18, 19, 20, 21, 22] := rfl
  simp only [scLoad, hrange, List.map_cons, List.map_nil, hfirst, hlast, window3_zero, ← pow_mul]
  rw [window4 s 2 (by decide), window3 s 5 (by decide), window4 s 7 (by decide),
    window4 s 10 (by decide), window3 s 13 (by decide), window4 s 15 (by decide),
    window3 s 18 (by decide), window4 s 23 (by decide), window3 s 26 (by decide),
    window4 s 28 (by decide), window4 s 31 (by decide), window4 s 34 (by decide),
    window4 s 36 (by decide), window3 s 39 (by decide), window4 s 44 (by decide),
    window3 s 47 (by decide), window4 s 49 (by decide), window4 s 52 (by decide),
    window3 s 55 (by decide), window4 s 57 (by decide)]
  simp only [UInt64.reduceToNat, Nat.reduceMul, Nat.reduceAdd]

theorem length_scLoad (s : List UInt8) : (scLoad s).length = 24 := rfl

theorem value_scLoad {s : List UInt8} (hs : s.length = 64) :
    value (2 ^ 21) (scLoad s) = natOfBytes s := by
  have hlt := natOfBytes_lt s
  have htop : natOfBytes s / (2 ^ 21) ^ 23 < 2 ^ 29 := by
    rw [hs] at hlt
    refine Nat.div_lt_of_lt_mul (hlt.trans_eq ?_)
    rw [← pow_mul, ← pow_add, ← pow_byte]
  have hdigits := value_map_digits (2 ^ 21) (natOfBytes s) 23
  have hcast : ((2 ^ 21 : ℕ) : ℤ) = 2 ^ 21 := rfl
  rw [hcast] at hdigits
  rw [scLoad_eq, value_append, Nat.mod_eq_of_lt htop, value_cons, value_nil, mul_zero, add_zero,
    List.length_map, List.length_range, hdigits]

/-! ### Folding -/

@[simp]
theorem length_scFold (t : List ℤ) (i : ℕ) : (scFold t i).length = t.length := by
  rw [scFold, List.length_modify, length_addRow]

section Fold

variable {t : List ℤ} {i : ℕ}

theorem getD_scFold (hi : 12 ≤ i) (hlen : i < t.length) (j : ℕ) : (scFold t i).getD j 0 =
    if j = i then 0 else t.getD j 0 +
      if i - 12 ≤ j ∧ j < i - 12 + 6 then t.getD i 0 * scTerms.getD (j - (i - 12)) 0 else 0 := by
  rw [scFold, getD_modify, length_addRow, getD_addRow (by omega)]
  by_cases hj : j = i
  · rw [if_pos ⟨hj.symm, hj ▸ hlen⟩, if_pos hj]
  · rw [if_neg fun h => hj h.1.symm, if_neg hj]

/-- The factors make up the order. -/
theorem sum_scTerms :
    ∑ j ∈ Finset.range 6, scTerms.getD j 0 * (2 ^ 21 : ℤ) ^ j = (2 ^ 21) ^ 12 - groupOrder := by
  norm_num [Finset.sum_range_succ, scTerms, groupOrder]

/-- A fold takes a multiple of the order away. -/
theorem value_scFold (hi : 12 ≤ i) (hlen : i < t.length) : value (2 ^ 21) (scFold t i) =
    value (2 ^ 21) t - t.getD i 0 * (2 ^ 21) ^ (i - 12) * groupOrder := by
  have hsum : ∑ j ∈ Finset.range 6, t.getD i 0 * scTerms.getD j 0 * (2 ^ 21 : ℤ) ^ j =
      t.getD i 0 * ((2 ^ 21) ^ 12 - groupOrder) := by
    rw [← sum_scTerms, Finset.mul_sum]
    exact Finset.sum_congr rfl fun j _ => mul_assoc _ _ _
  have hpow : (2 ^ 21 : ℤ) ^ i = (2 ^ 21) ^ (i - 12) * (2 ^ 21) ^ 12 := by
    rw [← pow_add, Nat.sub_add_cancel hi]
  rw [scFold, value_modify _ (by rw [length_addRow]; exact hlen), value_addRow (by omega), hsum,
    getD_addRow (by omega), if_neg (by omega), hpow]
  ring

theorem foldl_scFold_modEq (is : List ℕ) (his : ∀ i ∈ is, 12 ≤ i ∧ i < t.length) :
    value (2 ^ 21) (is.foldl scFold t) ≡ value (2 ^ 21) t [ZMOD groupOrder] := by
  induction is generalizing t with
  | nil => rfl
  | cons i is ih =>
    obtain ⟨hi, hlen⟩ := his i List.mem_cons_self
    refine (ih fun j hj => ?_).trans ?_
    · rw [length_scFold]
      exact his j (List.mem_cons_of_mem i hj)
    · rw [value_scFold hi hlen, mul_comm]
      exact Int.sub_modulus_mul_modEq_iff.mpr rfl

end Fold

theorem abs_scLoad_le (s : List UInt8) (j : ℕ) : |(scLoad s).getD j 0| ≤ 2 ^ 29 := by
  have hmem : ∀ x ∈ scLoad s, |x| ≤ 2 ^ 29 := by
    intro x hx
    rw [scLoad_eq, List.mem_append, List.mem_map, List.mem_singleton] at hx
    rcases hx with ⟨i, -, rfl⟩ | rfl
    · have hlt := Nat.mod_lt (natOfBytes s / (2 ^ 21) ^ i) (Nat.two_pow_pos 21)
      rw [Nat.abs_cast]
      exact_mod_cast hlt.le.trans (by norm_num)
    · have hlt := Nat.mod_lt (natOfBytes s / (2 ^ 21) ^ 23) (Nat.two_pow_pos 29)
      rw [Nat.abs_cast]
      exact_mod_cast hlt.le
  rcases Nat.lt_or_ge j (scLoad s).length with hj | hj
  · rw [List.getD_eq_getElem _ _ hj]
    exact hmem _ (List.getElem_mem hj)
  · rw [List.getD_eq_default _ _ hj, abs_zero]
    positivity

/-! ### Carries -/

@[simp]
theorem length_scPass (r : ℤ) (t : List ℤ) (i : ℕ) : (scPass r t i).length = t.length := by
  rw [scPass, List.length_modify, List.length_modify]

@[simp]
theorem length_scCarry (t : List ℤ) (i : ℕ) : (scCarry t i).length = t.length :=
  length_scPass _ t i

section Carry

variable {r : ℤ} {t : List ℤ} {i : ℕ}

theorem getD_scPass (hlen : i + 1 < t.length) (j : ℕ) : (scPass r t i).getD j 0 =
    if j = i then (t.getD i 0 + r) % 2 ^ 21 - r
    else if j = i + 1 then t.getD (i + 1) 0 + (t.getD i 0 + r) / 2 ^ 21 else t.getD j 0 := by
  rw [scPass, getD_modify, getD_modify, List.length_modify]
  rcases Nat.lt_trichotomy j i with h | rfl | h
  · rw [if_neg (by omega), if_neg (by omega), if_neg (by omega), if_neg (by omega)]
  · rw [if_pos ⟨rfl, by omega⟩, if_neg (by omega), if_pos rfl]
    omega
  · by_cases hj : j = i + 1
    · rw [if_neg (by omega), if_pos (by omega), if_neg (by omega), if_pos hj, hj]
    · rw [if_neg (by omega), if_neg (by omega), if_neg (by omega), if_neg hj]

theorem value_scPass (hlen : i + 1 < t.length) :
    value (2 ^ 21) (scPass r t i) = value (2 ^ 21) t := by
  have hlen' : i < (t.modify (i + 1) (· + (t.getD i 0 + r) / 2 ^ 21)).length := by
    rw [List.length_modify]
    omega
  rw [scPass, value_modify _ hlen', value_modify _ hlen, pow_succ]
  ring

theorem foldl_scPass (is : List ℕ) (his : ∀ i ∈ is, i + 1 < t.length) :
    (is.foldl (scPass r) t).length = t.length ∧
      value (2 ^ 21) (is.foldl (scPass r) t) = value (2 ^ 21) t := by
  induction is generalizing t with
  | nil => exact ⟨rfl, rfl⟩
  | cons i is ih =>
    have hi := his i List.mem_cons_self
    obtain ⟨hlen, hvalue⟩ := ih (t := scPass r t i) fun j hj => by
      rw [length_scPass]
      exact his j (List.mem_cons_of_mem i hj)
    rw [List.foldl_cons, hlen, hvalue, length_scPass, value_scPass hi]
    exact ⟨rfl, rfl⟩

end Carry

/-! ### Bounds -/

/-- The bounds of the limbs after a fold. -/
def boundFold (b : List ℤ) (i : ℕ) : List ℤ :=
  (addRow (i - 12) 6 (fun j => b.getD i 0 * |scTerms.getD j 0|) b).modify i fun _ => 0

/-- The bounds of the limbs after a carry. -/
def boundCarry (b : List ℤ) (i : ℕ) : List ℤ :=
  (b.modify (i + 1) (· + ((b.getD i 0 + 2 ^ 20) / 2 ^ 21 + 1))).modify i fun _ => 2 ^ 20

/-- The bounds of the limbs of the hash. -/
def boundLoad : List ℤ := List.replicate 23 (2 ^ 21) ++ [2 ^ 29]

/-- The bounds of the limbs after the reduction and the first carries. -/
def boundSpread : List ℤ :=
  boundFold (carryOrder.foldl boundCarry (foldOrder.foldl boundFold boundLoad)) 12

section Bounds

variable {b t : List ℤ} {i : ℕ}

theorem bounded_scFold (h : Bounded b t) (hlen : b.length = t.length) :
    Bounded (boundFold b i) (scFold t i) := by
  refine Bounded.modify (h.addRow hlen fun j _ => ?_) (by simp [hlen]) (by simp)
  rw [abs_mul]
  exact mul_le_mul_of_nonneg_right (h i) (abs_nonneg _)

theorem bounded_scCarry (h : Bounded b t) (hlen : b.length = t.length) :
    Bounded (boundCarry b i) (scCarry t i) := by
  have hi := abs_le.mp (h i)
  refine Bounded.modify (h.modify hlen ?_) (by simp [hlen]) ?_
  · refine (abs_add_le _ _).trans (add_le_add (h (i + 1)) (abs_le.mpr ⟨?_, ?_⟩)) <;> omega
  · have hkeep : (t.modify (i + 1) (· + (t.getD i 0 + 2 ^ 20) / 2 ^ 21)).getD i 0 =
        t.getD i 0 := by
      rw [getD_modify, if_neg (by omega)]
    rw [hkeep, abs_le]
    constructor <;> omega

end Bounds

@[simp]
theorem length_boundFold (b : List ℤ) (i : ℕ) : (boundFold b i).length = b.length := by
  rw [boundFold, List.length_modify, length_addRow]

@[simp]
theorem length_boundCarry (b : List ℤ) (i : ℕ) : (boundCarry b i).length = b.length := by
  rw [boundCarry, List.length_modify, List.length_modify]

theorem bounded_scLoad (s : List UInt8) : Bounded boundLoad (scLoad s) := by
  intro j
  rw [scLoad_eq, boundLoad]
  rcases Nat.lt_trichotomy j 23 with hj | rfl | hj
  · have hlt := Nat.mod_lt (natOfBytes s / (2 ^ 21) ^ j) (Nat.two_pow_pos 21)
    rw [List.getD_append _ _ _ _ (by simpa using hj), List.getD_append _ _ _ _ (by simpa using hj),
      List.getD_eq_getElem _ _ (by simpa using hj), List.getD_eq_getElem _ _ (by simpa using hj),
      List.getElem_map, List.getElem_range, List.getElem_replicate, Nat.abs_cast]
    exact_mod_cast hlt.le
  · have hlt := Nat.mod_lt (natOfBytes s / (2 ^ 21) ^ 23) (Nat.two_pow_pos 29)
    rw [List.getD_append_right _ _ _ _ (by simp), List.getD_append_right _ _ _ _ (by simp)]
    simp only [List.length_map, List.length_range, List.length_replicate, Nat.sub_self,
      List.getD_cons_zero, Nat.abs_cast]
    exact_mod_cast hlt.le
  · rw [List.getD_eq_default _ _ (by simpa using Nat.succ_le_of_lt hj),
      List.getD_eq_default _ _ (by simpa using Nat.succ_le_of_lt hj), abs_zero]

theorem length_carried (s : List UInt8) :
    (carryOrder.foldl scCarry (foldOrder.foldl scFold (scLoad s))).length = 24 := by
  rw [length_foldl length_scCarry, length_foldl length_scFold, length_scLoad]

theorem length_scSpread (s : List UInt8) : (scSpread s).length = 24 := by
  rw [scSpread, length_scFold, length_carried]

/-- The bounds of the limbs before the last carries. -/
theorem bounded_scSpread (s : List UInt8) : Bounded boundSpread (scSpread s) := by
  have hfold := Bounded.foldl length_boundFold length_scFold bounded_scFold foldOrder
    (bounded_scLoad s) rfl
  have hlen : (foldOrder.foldl boundFold boundLoad).length =
      (foldOrder.foldl scFold (scLoad s)).length := by
    rw [length_foldl length_boundFold, length_foldl length_scFold]
    rfl
  have hcarry := Bounded.foldl length_boundCarry length_scCarry bounded_scCarry carryOrder hfold
    hlen
  refine bounded_scFold hcarry ?_
  rw [length_foldl length_boundCarry, length_foldl length_scCarry, hlen]

/-- What the bounds come to. -/
private theorem boundSpread_spec :
    boundSpread.length = 24 ∧ value (2 ^ 21) boundSpread < 28 * (2 ^ 21) ^ 12 ∧
      boundSpread.drop 12 = List.replicate 12 0 := by
  decide +kernel

theorem abs_value_scSpread_lt (s : List UInt8) :
    |value (2 ^ 21) (scSpread s)| < 28 * (2 ^ 21) ^ 12 := by
  obtain ⟨hlen, hlt, -⟩ := boundSpread_spec
  rw [← length_scSpread s] at hlen
  exact ((bounded_scSpread s).abs_value_le hlen (by norm_num)).trans_lt hlt

/-- The upper limbs are folded. -/
theorem drop_scSpread (s : List UInt8) : (scSpread s).drop 12 = List.replicate 12 0 := by
  have hzero := boundSpread_spec.2.2
  refine List.ext_getElem (by rw [List.length_drop, length_scSpread, List.length_replicate])
    fun k hk _ => ?_
  have h := bounded_scSpread s (12 + k)
  have hb : boundSpread.getD (12 + k) 0 = 0 := by
    rw [List.getD_eq_getElem?_getD, ← List.getElem?_drop, hzero, List.getElem?_replicate]
    split_ifs <;> rfl
  rw [List.length_drop] at hk
  rw [hb, List.getD_eq_getElem _ _ (by omega)] at h
  rw [List.getElem_drop, List.getElem_replicate]
  exact abs_nonpos_iff.mp h

theorem value_scSpread_modEq {s : List UInt8} (hs : s.length = 64) :
    value (2 ^ 21) (scSpread s) ≡ natOfBytes s [ZMOD groupOrder] := by
  have hlen := length_carried s
  have hfold := foldl_scFold_modEq foldOrder (t := scLoad s) (by rw [length_scLoad]; decide)
  have hcarry : value (2 ^ 21) (carryOrder.foldl scCarry (foldOrder.foldl scFold (scLoad s))) =
      value (2 ^ 21) (foldOrder.foldl scFold (scLoad s)) :=
    (foldl_scPass carryOrder (by rw [length_foldl length_scFold, length_scLoad]; decide)).2
  rw [value_scLoad hs] at hfold
  rw [scSpread, value_scFold le_rfl (by omega), hcarry, mul_comm]
  exact Int.sub_modulus_mul_modEq_iff.mpr hfold

/-! ### The last carries -/

/-- A pass of carries over the twelve limbs leaves their digits, and the excess in the limb
above. -/
theorem foldl_scCflr {t : List ℤ} (hlen : t.length = 24) (hdrop : t.drop 12 = List.replicate 12 0) :
    ∃ ds, Digits (2 ^ 21) ds ∧ ds.length = 12 ∧
      value (2 ^ 21) ds = value (2 ^ 21) t % (2 ^ 21) ^ 12 ∧
      (List.range 12).foldl scCflr t =
        ds ++ value (2 ^ 21) t / (2 ^ 21) ^ 12 :: List.replicate 11 0 := by
  have hloop : (List.range 12).foldl scCflr t = ripple (2 ^ 21) (· / 2 ^ 21) 12 t := by
    refine List.foldl_ext _ _ _ fun l i _ => ?_
    have hkeep : (l.modify (i + 1) (· + l.getD i 0 / 2 ^ 21)).getD i 0 = l.getD i 0 := by
      rw [getD_modify, if_neg (by omega)]
    simp only [scCflr, scPass, add_zero]
    refine modify_congr ?_
    rw [hkeep]
    omega
  have hripple := ripple_eq (B := 2 ^ 21) (g := fun x => x / 2 ^ 21) (n := 12) (l := t) (by omega)
    fun _ _ => rfl
  have hcons : t.getD 12 0 :: t.drop 13 = 0 :: List.replicate 11 0 := by
    rw [List.getD_eq_getElem _ _ (by omega), ← List.drop_eq_getElem_cons (by omega), hdrop,
      List.replicate_succ]
  obtain ⟨htop, hrest⟩ := List.cons.inj hcons
  have hvalue := value_carry (B := 2 ^ 21) 0 (t.take 12)
  have hdigits := digits_carry (B := 2 ^ 21) (by norm_num) 0 (t.take 12)
  have hlow := hdigits.value_nonneg (by norm_num)
  have hhigh := hdigits.value_lt (by norm_num)
  have htake : (t.take 12).length = 12 := by rw [List.length_take, hlen]; rfl
  have hsplit := value_take_drop (B := 2 ^ 21) t 12 (by omega)
  rw [hdrop, value_replicate_zero, mul_zero, add_zero] at hsplit
  rw [length_carry, htake] at hhigh
  rw [htake, add_zero, ← hsplit] at hvalue
  rw [htop, zero_add, hrest] at hripple
  obtain ⟨hdiv, hmod⟩ := (Int.ediv_emod_unique (b := (2 ^ 21) ^ 12) (by norm_num)).mpr
    ⟨hvalue, hlow, hhigh⟩
  exact ⟨_, hdigits, by rw [length_carry, htake], hmod.symm, by rw [hloop, hripple, hdiv]⟩

/-! ### Bytes -/

theorem ofInt_eq_ofNat {x : ℤ} {n : ℕ} (h : x % 256 = (n % 256 : ℕ)) :
    UInt8.ofInt x = UInt8.ofNat n := by
  apply UInt8.toNat_inj.mp
  rw [UInt8.ofInt, UInt8.toNat_ofNat', UInt8.toNat_ofNat']
  omega

/-- A byte within a limb. -/
theorem ofInt_limb (W : ℕ) {k : ℕ} (hk : k + 8 ≤ 21) :
    UInt8.ofInt (((W % 2 ^ 21 : ℕ) : ℤ) / 2 ^ k) = UInt8.ofNat (W / 2 ^ k) := by
  have hsplit : 2 ^ 21 = 2 ^ k * 2 ^ (21 - k) := by rw [← pow_add, Nat.add_sub_cancel' (by omega)]
  have hdvd : 256 ∣ 2 ^ (21 - k) := pow_dvd_pow 2 (by omega : 8 ≤ 21 - k)
  have hdiv : W % 2 ^ 21 / 2 ^ k % 256 = W / 2 ^ k % 256 := by
    rw [hsplit, Nat.mod_mul_right_div_self, Nat.mod_mod_of_dvd _ hdvd]
  refine ofInt_eq_ofNat ?_
  rw [← hdiv]
  norm_cast

/-- A byte of two limbs. -/
theorem ofInt_limbs (W : ℕ) {k m : ℕ} (hk : k + m = 21) :
    UInt8.ofInt (((W % 2 ^ 21 : ℕ) : ℤ) / 2 ^ k) |||
      UInt8.ofInt (((W / 2 ^ 21 % 2 ^ 21 : ℕ) : ℤ) * 2 ^ m) = UInt8.ofNat (W / 2 ^ k) := by
  have hsplit : 2 ^ 21 = 2 ^ k * 2 ^ m := by rw [← pow_add, hk]
  have hlow : W % 2 ^ 21 / 2 ^ k = W / 2 ^ k % 2 ^ m := by
    rw [hsplit, Nat.mod_mul_right_div_self]
  have hhigh : W / 2 ^ 21 = W / 2 ^ k / 2 ^ m := by rw [hsplit, Nat.div_div_eq_div_mul]
  have hlo : UInt8.ofInt (((W % 2 ^ 21 : ℕ) : ℤ) / 2 ^ k) =
      UInt8.ofNat (W / 2 ^ k % 2 ^ m) := by
    refine ofInt_eq_ofNat ?_
    rw [← hlow]
    norm_cast
  have hhi : UInt8.ofInt (((W / 2 ^ 21 % 2 ^ 21 : ℕ) : ℤ) * 2 ^ m) =
      UInt8.ofNat (2 ^ m * (W / 2 ^ k / 2 ^ m)) := by
    refine ofInt_eq_ofNat ?_
    have hmod : 2 ^ m * (W / 2 ^ k / 2 ^ m % 2 ^ 21) % 256 = 2 ^ m * (W / 2 ^ k / 2 ^ m) % 256 :=
      Nat.ModEq.mul_left _ ((Nat.mod_modEq _ _).of_dvd (by norm_num))
    rw [← hmod, hhigh, mul_comm]
    norm_cast
  rw [hlo, hhi, ← UInt8.ofNat_or, Nat.or_comm,
    ← Nat.two_pow_add_eq_or_of_lt (Nat.mod_lt _ (Nat.two_pow_pos m)), Nat.div_add_mod]

/-- The bytes of twelve digits. -/
theorem scPack_eq {t : List ℤ} {n : ℕ} (hn : n < 2 ^ 252)
    (ht : ∀ i < 12, t.getD i 0 = (n / (2 ^ 21) ^ i % 2 ^ 21 : ℕ)) : scPack t = bytesOfNat 32 n := by
  have hdiv {i k j : ℕ} (h : 21 * i + k = 8 * j) : n / (2 ^ 21) ^ i / 2 ^ k = n / 256 ^ j := by
    rw [Nat.div_div_eq_div_mul, ← pow_mul, ← pow_add, h, pow_byte]
  have hlo (i k j : ℕ) (hi : i < 12) (hk : k + 8 ≤ 21) (h : 21 * i + k = 8 * j) :
      UInt8.ofInt (t.getD i 0 / 2 ^ k) = UInt8.ofNat (n / 256 ^ j) := by
    rw [ht i hi, ofInt_limb _ hk, hdiv h]
  have hor (i k m j : ℕ) (hi : i + 1 < 12) (hk : k + m = 21) (h : 21 * i + k = 8 * j) :
      UInt8.ofInt (t.getD i 0 / 2 ^ k) ||| UInt8.ofInt (t.getD (i + 1) 0 * 2 ^ m) =
        UInt8.ofNat (n / 256 ^ j) := by
    rw [ht i (by omega), ht (i + 1) hi, pow_succ (2 ^ 21) i, ← Nat.div_div_eq_div_mul,
      ofInt_limbs _ hk, hdiv h]
  have hlast : UInt8.ofInt (t.getD 11 0 / 2 ^ 17) = UInt8.ofNat (n / 256 ^ 31) := by
    have htop : n / (2 ^ 21) ^ 11 < 2 ^ 21 := Nat.div_lt_of_lt_mul (hn.trans_eq (by norm_num))
    rw [ht 11 (by omega), Nat.mod_eq_of_lt htop, ← hdiv (i := 11) (k := 17) (j := 31) (by norm_num)]
    refine ofInt_eq_ofNat ?_
    norm_cast
  have hrange : List.range 32 = [0, 1, 2, 3, 4, 5, 6, 7, 8, 9, 10, 11, 12, 13, 14, 15, 16, 17, 18,
    19, 20, 21, 22, 23, 24, 25, 26, 27, 28, 29, 30, 31] := rfl
  rw [bytesOfNat_eq_map, hrange]
  simp only [scPack, List.map_cons, List.map_nil]
  rw [hlo 0 0 0 (by omega) (by omega) rfl, hlo 0 8 1 (by omega) (by omega) rfl,
    hor 0 16 5 2 (by omega) rfl rfl, hlo 1 3 3 (by omega) (by omega) rfl,
    hlo 1 11 4 (by omega) (by omega) rfl, hor 1 19 2 5 (by omega) rfl rfl,
    hlo 2 6 6 (by omega) (by omega) rfl, hor 2 14 7 7 (by omega) rfl rfl,
    hlo 3 1 8 (by omega) (by omega) rfl, hlo 3 9 9 (by omega) (by omega) rfl,
    hor 3 17 4 10 (by omega) rfl rfl, hlo 4 4 11 (by omega) (by omega) rfl,
    hlo 4 12 12 (by omega) (by omega) rfl, hor 4 20 1 13 (by omega) rfl rfl,
    hlo 5 7 14 (by omega) (by omega) rfl, hor 5 15 6 15 (by omega) rfl rfl,
    hlo 6 2 16 (by omega) (by omega) rfl, hlo 6 10 17 (by omega) (by omega) rfl,
    hor 6 18 3 18 (by omega) rfl rfl, hlo 7 5 19 (by omega) (by omega) rfl,
    hlo 7 13 20 (by omega) (by omega) rfl, hlo 8 0 21 (by omega) (by omega) rfl,
    hlo 8 8 22 (by omega) (by omega) rfl, hor 8 16 5 23 (by omega) rfl rfl,
    hlo 9 3 24 (by omega) (by omega) rfl, hlo 9 11 25 (by omega) (by omega) rfl,
    hor 9 19 2 26 (by omega) rfl rfl, hlo 10 6 27 (by omega) (by omega) rfl,
    hor 10 14 7 28 (by omega) rfl rfl, hlo 11 1 29 (by omega) (by omega) rfl,
    hlo 11 9 30 (by omega) (by omega) rfl, hlast]

/-- The bytes of twelve digits, whatever stands above them. -/
theorem scPack_append {ds rest : List ℤ} (hdigits : Digits (2 ^ 21) ds) (hlen : ds.length = 12) :
    scPack (ds ++ rest) = bytesOfNat 32 (value (2 ^ 21) ds).toNat := by
  have hlow := hdigits.value_nonneg (by norm_num)
  have hhigh := hdigits.value_lt (by norm_num)
  rw [hlen, ← pow_mul] at hhigh
  obtain ⟨n, hn⟩ := Int.eq_ofNat_of_zero_le hlow
  rw [hn] at hhigh ⊢
  rw [Int.toNat_natCast]
  refine scPack_eq (by omega) fun i hi => ?_
  rw [List.getD_append _ _ _ _ (by omega), hdigits.getD_eq (by norm_num) (by omega), hn,
    Int.natCast_emod, Int.natCast_ediv, Nat.cast_pow]
  rfl

/-- The excess folded once more. -/
theorem scFold_excess {ds : List ℤ} {c : ℤ} (hds : ds.length = 12) :
    (scFold (ds ++ c :: List.replicate 11 0) 12).length = 24 ∧
      (scFold (ds ++ c :: List.replicate 11 0) 12).drop 12 = List.replicate 12 0 ∧
      value (2 ^ 21) (scFold (ds ++ c :: List.replicate 11 0) 12) =
        value (2 ^ 21) ds + (2 ^ 21) ^ 12 * c - c * groupOrder := by
  have hlen : (ds ++ c :: List.replicate 11 (0 : ℤ)).length = 24 := by simp [hds]
  have htop : (ds ++ c :: List.replicate 11 0).getD 12 0 = c := by
    rw [List.getD_append_right _ _ _ _ hds.le, hds, Nat.sub_self, List.getD_cons_zero]
  refine ⟨by rw [length_scFold, hlen], ?_, ?_⟩
  · refine List.ext_getElem (by simp [hds]) fun k hk _ => ?_
    rw [List.length_drop, length_scFold, hlen] at hk
    rw [List.getElem_drop, List.getElem_replicate, ← List.getD_eq_getElem _ 0,
      getD_scFold le_rfl (by omega)]
    split_ifs
    · rfl
    · omega
    · rw [add_zero, List.getD_append_right _ _ _ _ (by omega), hds, Nat.add_sub_cancel_left]
      cases k with
      | zero => omega
      | succ k =>
        rw [List.getD_cons_succ, List.getD_eq_getElem?_getD, List.getElem?_replicate]
        split_ifs <;> rfl
  · rw [value_scFold le_rfl (by omega), htop, value_append, hds, value_cons, value_replicate_zero,
      Nat.sub_self, pow_zero]
    ring

/-- The number that the last carries leave: in one pass, or with the excess folded once more. -/
theorem scPack_scSettle {t : List ℤ} (hlen : t.length = 24)
    (hdrop : t.drop 12 = List.replicate 12 0) :
    scPack (scSettle t) = bytesOfNat 32 ((value (2 ^ 21) t -
      value (2 ^ 21) t / (2 ^ 21) ^ 12 * groupOrder) % (2 ^ 21) ^ 12).toNat := by
  obtain ⟨ds, hdigits, hds, hvalue, hloop⟩ := foldl_scCflr hlen hdrop
  unfold scSettle
  simp only [hloop]
  generalize hc : value (2 ^ 21) t / (2 ^ 21) ^ 12 = c
  have htop : (ds ++ c :: List.replicate 11 0).getD 12 0 = c := by
    rw [List.getD_append_right _ _ _ _ hds.le, hds, Nat.sub_self, List.getD_cons_zero]
  have hsum : value (2 ^ 21) ds + (2 ^ 21) ^ 12 * c = value (2 ^ 21) t := by
    rw [hvalue, ← hc, Int.emod_add_mul_ediv]
  rw [htop]
  by_cases hzero : c = 0
  · rw [if_neg (not_not.mpr hzero), scPack_append hdigits hds, hvalue, hzero, zero_mul, sub_zero]
  · obtain ⟨hlen', hdrop', hvalue'⟩ := scFold_excess (c := c) hds
    obtain ⟨ds', hdigits', hds', hmod, hloop'⟩ := foldl_scCflr hlen' hdrop'
    rw [if_pos hzero, hloop', scPack_append hdigits' hds', hmod, hvalue', hsum]

/-- The bytes are those of the remainder, unless it comes so near to `0` or to `2 ^ 252` that the
excess of the limbs reaches over. -/
theorem scReduce_eq {s : List UInt8} (hs : s.length = 64)
    (hlow : 2 ^ 130 ≤ natOfBytes s % groupOrder)
    (hhigh : natOfBytes s % groupOrder + 2 ^ 130 ≤ 2 ^ 252) :
    scReduce s = bytesOfNat 32 (natOfBytes s % groupOrder) := by
  have habs := abs_lt.mp (abs_value_scSpread_lt s)
  have hmod := value_scSpread_modEq hs
  have hpow : ((2 ^ 21) ^ 12 : ℤ) = 2 ^ 252 := by rw [← pow_mul]
  have horder : (groupOrder : ℤ) = 2 ^ 252 + 27742317777372353535851937790883648493 := rfl
  rw [hpow] at habs
  rw [scReduce, scPack_scSettle (length_scSpread s) (drop_scSpread s), hpow]
  generalize value (2 ^ 21) (scSpread s) = V at *
  have hsub : V - V / 2 ^ 252 * groupOrder ≡ (natOfBytes s % groupOrder : ℕ) [ZMOD groupOrder] := by
    rw [mul_comm, Int.natCast_mod]
    exact (Int.sub_modulus_mul_modEq_iff.mpr hmod).trans (Int.mod_modEq _ _).symm
  obtain ⟨k, hk⟩ := hsub.symm.dvd
  have hremainder : V - V / 2 ^ 252 * groupOrder = (natOfBytes s % groupOrder : ℕ) := by
    rw [horder] at hk ⊢
    omega
  rw [hremainder, Int.emod_eq_of_lt (by omega) (by omega), Int.toNat_natCast]

@[simp]
theorem length_scReduce (s : List UInt8) : (scReduce s).length = 32 := rfl

/-- **Reduction.** The number of the bytes is below `2 ^ 252`, so that it is not the remainder where
that is greater; and it is the remainder where that keeps its distance from `0` and `2 ^ 252`. -/
theorem scReduce_spec {s : List UInt8} (hs : s.length = 64) :
    natOfBytes (scReduce s) < 2 ^ 252 ∧
      (2 ^ 252 ≤ natOfBytes s % groupOrder →
        natOfBytes (scReduce s) ≠ natOfBytes s % groupOrder) ∧
      (2 ^ 130 ≤ natOfBytes s % groupOrder → natOfBytes s % groupOrder + 2 ^ 130 ≤ 2 ^ 252 →
        natOfBytes (scReduce s) = natOfBytes s % groupOrder) := by
  have hlt : natOfBytes (scReduce s) < 2 ^ 252 := by
    have hpow : ((2 ^ 21) ^ 12 : ℤ) = 2 ^ 252 := by rw [← pow_mul]
    rw [scReduce, scPack_scSettle (length_scSpread s) (drop_scSpread s), hpow,
      natOfBytes_bytesOfNat]
    refine (Nat.mod_le _ _).trans_lt ?_
    omega
  refine ⟨hlt, fun hge heq => absurd hlt (by omega), fun hlow hhigh => ?_⟩
  rw [scReduce_eq hs hlow hhigh, natOfBytes_bytesOfNat, Nat.mod_eq_of_lt]
  have hpow : (256 : ℕ) ^ 32 = 2 ^ 256 := by norm_num
  omega

theorem scReduce_spec_ones :
    natOfBytes (scReduce (List.replicate 64 0xff)) =
      natOfBytes (List.replicate 64 0xff) % groupOrder :=
  (scReduce_spec (List.length_replicate)).2.2 (by decide) (by decide)

/-! ### Integers of 64 bits -/

/-- The limbs when the turn of `s16` comes. -/
def scUpper (s : List UInt8) : List ℤ := [23, 22, 21, 20, 19, 18, 17].foldl scFold (scLoad s)

/-- The bounds of these limbs. -/
def boundUpper : List ℤ := [23, 22, 21, 20, 19, 18, 17].foldl boundFold boundLoad

/-- Folds that do not reach a limb. -/
theorem getD_foldl_scFold {t : List ℤ} {j : ℕ} (is : List ℕ)
    (his : ∀ i ∈ is, 12 ≤ i ∧ i < t.length ∧ j ≠ i ∧ i - 12 + 6 ≤ j) :
    (is.foldl scFold t).getD j 0 = t.getD j 0 := by
  induction is generalizing t with
  | nil => rfl
  | cons i is ih =>
    obtain ⟨hi, hlen, hne, hreach⟩ := his i List.mem_cons_self
    rw [List.foldl_cons, ih fun k hk => by
      rw [length_scFold]
      exact his k (List.mem_cons_of_mem i hk), getD_scFold hi hlen, if_neg hne, if_neg (by omega),
      add_zero]

/-- Of what is folded before it, only `s23` reaches `s16`. -/
theorem getD_scUpper (s : List UInt8) :
    (scUpper s).getD 16 0 = (scLoad s).getD 16 0 - 683901 * (scLoad s).getD 23 0 := by
  have hlen := length_scLoad s
  have hterm : scTerms.getD 5 0 = -683901 := rfl
  rw [scUpper, List.foldl_cons, getD_foldl_scFold _ (by rw [length_scFold, hlen]; decide),
    getD_scFold (by norm_num) (by omega), if_neg (by norm_num), if_pos (by norm_num), hterm]
  ring

/-- Where the compiler has no integers of 128 bits, the limbs are integers of 64 bits. These hold
the limbs up to the turn of `s16`, but not its first product with a factor of the reduction, for any
hash whose last byte is seven or more. -/
theorem scUpper_overflow {s : List UInt8} (hlast : 7 ≤ (s.getD 63 0).toNat) :
    (∀ j, |(scUpper s).getD j 0| < 2 ^ 63) ∧ (scUpper s).getD 16 0 * 997805 < -2 ^ 63 := by
  constructor
  · have hbound : Bounded boundUpper (scUpper s) :=
      Bounded.foldl length_boundFold length_scFold bounded_scFold _ (bounded_scLoad s) rfl
    have hupper : ∀ j : Fin 24, boundUpper.getD j 0 < 2 ^ 63 := by decide +kernel
    have hlen : boundUpper.length = 24 := rfl
    intro j
    refine (hbound j).trans_lt ?_
    rcases Nat.lt_or_ge j 24 with hj | hj
    · exact hupper ⟨j, hj⟩
    · rw [List.getD_eq_default _ _ (by omega)]
      norm_num
  · have hbyte := getD_toNat s 63
    have h16 : (scLoad s).getD 16 0 = (natOfBytes s / (2 ^ 21) ^ 16 % 2 ^ 21 : ℕ) := by
      rw [scLoad_eq]
      rfl
    have h23 : (scLoad s).getD 23 0 = (natOfBytes s / (2 ^ 21) ^ 23 % 2 ^ 29 : ℕ) := by
      rw [scLoad_eq]
      rfl
    have hlow := Nat.mod_lt (natOfBytes s / (2 ^ 21) ^ 16) (Nat.two_pow_pos 21)
    have hhigh : (s.getD 63 0).toNat * 2 ^ 21 ≤ natOfBytes s / (2 ^ 21) ^ 23 % 2 ^ 29 := by
      have hpow : (256 : ℕ) ^ 63 = (2 ^ 21) ^ 23 * 2 ^ 21 := by
        rw [← pow_byte, ← pow_mul, ← pow_add]
      rw [hbyte, hpow, ← Nat.div_div_eq_div_mul]
      omega
    rw [getD_scUpper, h16, h23]
    generalize natOfBytes s / (2 ^ 21) ^ 16 % 2 ^ 21 = x at hlow
    generalize natOfBytes s / (2 ^ 21) ^ 23 % 2 ^ 29 = y at hhigh
    omega

theorem scUpper_overflow_ones : (scUpper (List.replicate 64 0xff)).getD 16 0 * 997805 < -2 ^ 63 :=
  (scUpper_overflow (by decide)).2

end Rivr
