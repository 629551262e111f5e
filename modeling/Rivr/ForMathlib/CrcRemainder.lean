import Mathlib.Algebra.CharP.Two
import Mathlib.Algebra.Field.ZMod
import Mathlib.Algebra.Polynomial.Div
import Mathlib.Tactic.LinearCombination
import Rivr.ForMathlib.Crc

/-!
# Cyclic redundancy checks as remainders

The bits of a register are the coefficients of a polynomial over the field of two elements
(`toPoly`). A move of the register multiplies it by `X`, modulo the generator `X ^ w + g`
(`X_mul_toPoly_eq_shift`), so what the register holds at the end is the remainder of the message, moved to
the left by `w` places, and of its own start (`toPoly_feed`).
-/

open Polynomial

namespace Crc

variable {w : ℕ} {g r r' : BitVec w} {bits : List Bool}

/-- The polynomial of a register: bit `i` is the coefficient of `X ^ i`. -/
noncomputable def toPoly (r : BitVec w) : (ZMod 2)[X] :=
  ∑ i ∈ Finset.range w, if r.getLsbD i then X ^ i else 0

/-- The polynomial of a message: its last bit is the constant term. -/
noncomputable def message : List Bool → (ZMod 2)[X]
  | [] => 0
  | b :: bits => (if b then X ^ bits.length else 0) + message bits

/-- The polynomial that divides: the register, behind a one. -/
noncomputable def generator (g : BitVec w) : (ZMod 2)[X] := X ^ w + toPoly g

theorem coeff_toPoly (r : BitVec w) (i : ℕ) :
    (toPoly r).coeff i = if r.getLsbD i then 1 else 0 := by
  have hterm : ∀ j, (if r.getLsbD j then X ^ j else 0 : (ZMod 2)[X]).coeff i =
      if i = j then (if r.getLsbD j then 1 else 0) else 0 := fun j => by
    split_ifs with hj hij hij <;> simp [hij, coeff_X_pow]
  rw [toPoly, finsetSum_coeff]
  simp only [hterm, Finset.sum_ite_eq, Finset.mem_range]
  by_cases hi : i < w
  · rw [if_pos hi]
  · rw [if_neg hi, BitVec.getLsbD_of_ge r i (Nat.not_lt.mp hi), if_neg (by decide)]

theorem degree_toPoly_lt (r : BitVec w) : (toPoly r).degree < w := by
  rw [degree_lt_iff_coeff_zero]
  intro i hi
  rw [coeff_toPoly, BitVec.getLsbD_of_ge r i hi, if_neg (by decide)]

theorem toPoly_xor (r r' : BitVec w) : toPoly (r ^^^ r') = toPoly r + toPoly r' := by
  ext i
  rw [coeff_add, coeff_toPoly, coeff_toPoly, coeff_toPoly, BitVec.getLsbD_xor]
  cases r.getLsbD i <;> cases r'.getLsbD i <;> decide

@[simp] theorem toPoly_zero : toPoly (0#w) = 0 := by
  ext i
  simp [coeff_toPoly]

theorem toPoly_top (hw : 0 < w) (b : Bool) :
    toPoly (top b : BitVec w) = if b then X ^ (w - 1) else 0 := by
  cases b with
  | false => simp [top]
  | true =>
    ext i
    have hlt : w - 1 < w := Nat.sub_one_lt_of_lt hw
    rw [coeff_toPoly, top, if_pos rfl, if_pos rfl, BitVec.getLsbD_twoPow, coeff_X_pow]
    by_cases hi : i = w - 1
    · simp [hi, hlt]
    · simp [hi, Ne.symm hi]

/-- The bit that leaves the register is the coefficient of `X ^ w`. -/
theorem X_mul_toPoly (r : BitVec w) :
    X * toPoly r = toPoly (r <<< 1) + if r.msb then X ^ w else 0 := by
  ext i
  have hout : (if r.msb then X ^ w else 0 : (ZMod 2)[X]).coeff i =
      if i = w then (if r.msb then 1 else 0) else 0 := by
    cases r.msb <;> simp [coeff_X_pow]
  rw [coeff_add, coeff_toPoly, hout, BitVec.getLsbD_shiftLeft]
  cases i with
  | zero =>
    rw [mul_coeff_zero, coeff_X_zero, zero_mul]
    split_ifs with hbit hw hmsb hw hmsb
    · simp at hbit
    · simp at hbit
    · simp at hbit
    · subst hw
      simp [BitVec.of_length_zero] at hmsb
    · simp
    · simp
  | succ i =>
    rw [coeff_X_mul, coeff_toPoly]
    by_cases hw : i + 1 = w
    · -- the leftmost bit
      subst hw
      rw [if_pos rfl, BitVec.msb_eq_getLsbD_last, Nat.add_sub_cancel]
      simp
    · rw [if_neg hw]
      by_cases hlt : i + 1 < w
      · simp [hlt]
      · rw [BitVec.getLsbD_of_ge r i (by omega)]
        simp [hlt]

/-- A move of the register multiplies by `X`, modulo the generator. -/
theorem X_mul_toPoly_eq_shift (g r : BitVec w) :
    X * toPoly r = toPoly (shift g r) + generator g * if r.msb then 1 else 0 := by
  rw [X_mul_toPoly, shift, toPoly_xor, generator]
  cases r.msb with
  | false => simp
  | true =>
    have htwo : toPoly g + toPoly g = 0 := CharTwo.add_self_eq_zero _
    simp only [if_true]
    linear_combination -htwo

theorem monic_generator (g : BitVec w) : (generator g).Monic := monic_X_pow_add (degree_toPoly_lt g)

theorem degree_generator (g : BitVec w) : (generator g).degree = w := by
  rw [generator, degree_add_eq_left_of_degree_lt, degree_X_pow]
  rw [degree_X_pow]
  exact degree_toPoly_lt g

/-- What the register does not hold at the end is a multiple of the generator. -/
theorem exists_quotient (hw : 0 < w) (g r : BitVec w) (bits : List Bool) :
    ∃ q, toPoly (feed g r bits) + generator g * q =
      X ^ bits.length * toPoly r + X ^ w * message bits := by
  induction bits generalizing r with
  | nil => exact ⟨0, by simp [feed, message]⟩
  | cons b bits ih =>
    obtain ⟨q, hq⟩ := ih (shift g (r ^^^ top b))
    have hshift := X_mul_toPoly_eq_shift g (r ^^^ top b)
    have htop : X * toPoly (top b : BitVec w) = if b then X ^ w else 0 := by
      rw [toPoly_top hw, mul_ite, mul_zero, mul_pow_sub_one hw.ne']
    have hbit : X ^ w * (if b then X ^ bits.length else 0 : (ZMod 2)[X]) =
        X ^ bits.length * if b then X ^ w else 0 := by
      cases b
      · simp
      · exact mul_comm _ _
    -- the bit that leaves the register adds its place in the message to the quotient
    rw [toPoly_xor] at hshift
    refine ⟨q + X ^ bits.length * if (r ^^^ top b).msb then 1 else 0, ?_⟩
    rw [feed, message, List.length_cons]
    linear_combination hq - X ^ bits.length * hshift + X ^ bits.length * htop - hbit

/-- The register holds the remainder of its start and the message. -/
theorem toPoly_feed (hw : 0 < w) (g r : BitVec w) (bits : List Bool) :
    toPoly (feed g r bits) =
      (X ^ bits.length * toPoly r + X ^ w * message bits) %ₘ generator g := by
  obtain ⟨q, hq⟩ := exists_quotient hw g r bits
  refine ((div_modByMonic_unique q _ (monic_generator g) ⟨hq, ?_⟩).2).symm
  rw [degree_generator]
  exact degree_toPoly_lt _

end Crc
