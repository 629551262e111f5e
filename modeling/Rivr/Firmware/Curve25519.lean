import Mathlib.NumberTheory.LegendreSymbol.Basic
import Mathlib.Tactic.NormNum.Prime
import Rivr.ForMathlib.Pratt
import Rivr.ForMathlib.TwistedEdwards

/-!
# The curve of the signatures

The prime `2 ^ 255 - 19`, and over its field the complete twisted Edwards curve
`-x² + y² = 1 + d x² y²` with its base point, as the comments of `ed25519_verify.c` give them.
-/

namespace Rivr

/-! ### The field -/

/-- The prime of the field. -/
def p25519 : ℕ := 2 ^ 255 - 19

/-- The numbers of the certificate pass the test of Lucas. -/
private theorem prattChecks :
    prattCheck 2773320623 32 5 [(2, 1), (2437, 1), (569003, 1)] = true ∧
    prattCheck 72106336199 37 7 [(2, 1), (13, 1), (2773320623, 1)] = true ∧
    prattCheck 1919519569386763 51 2
      [(2, 1), (3, 1), (7, 1), (19, 1), (47, 2), (127, 1), (8574133, 1)] = true ∧
    prattCheck 75445702479781427272750846543864801 116 7
      [(2, 5), (3, 2), (5, 2), (75707, 1), (72106336199, 1), (1919519569386763, 1)] = true ∧
    prattCheck 31757755568855353 55 10
      [(2, 3), (3, 1), (31, 1), (107, 1), (223, 1), (4153, 1), (430751, 1)] = true ∧
    prattCheck 74058212732561358302231226437062788676166966415465897661863160754340907 236 2
      [(2, 1), (3, 1), (353, 1), (57467, 1), (132049, 1), (1923133, 1), (31757755568855353, 1),
        (75445702479781427272750846543864801, 1)] = true ∧
    prattCheck p25519 255 2 [(2, 2), (3, 1), (65147, 1),
      (74058212732561358302231226437062788676166966415465897661863160754340907, 1)] = true := by
  decide +kernel

theorem prime_p25519 : p25519.Prime := by
  obtain ⟨h32, h37, h51, h116, h55, h236, h255⟩ := prattChecks
  have prime32 := prime_of_pratt 32 5 _ (by refine ⟨?_, ?_, ?_⟩ <;> norm_num) h32
  have prime37 := prime_of_pratt 37 7 _ (by refine ⟨?_, ?_, prime32⟩ <;> norm_num) h37
  have prime51 := prime_of_pratt 51 2 _
    (by refine ⟨?_, ?_, ?_, ?_, ?_, ?_, ?_⟩ <;> norm_num) h51
  have prime116 := prime_of_pratt 116 7 _
    (by refine ⟨?_, ?_, ?_, ?_, prime37, prime51⟩ <;> norm_num) h116
  have prime55 := prime_of_pratt 55 10 _
    (by refine ⟨?_, ?_, ?_, ?_, ?_, ?_, ?_⟩ <;> norm_num) h55
  have prime236 := prime_of_pratt 236 2 _
    (by refine ⟨?_, ?_, ?_, ?_, ?_, ?_, prime55, prime116⟩ <;> norm_num) h236
  exact prime_of_pratt 255 2 _ (by refine ⟨?_, ?_, ?_, prime236⟩ <;> norm_num) h255

example : powMod p25519 2 255 (p25519 - 1) = 1 := by decide +kernel

instance : Fact p25519.Prime := ⟨prime_p25519⟩

/-! ### The curve -/

/-- The coefficient `-121665 / 121666` of the curve. -/
def edwardsD : ℕ :=
  37095705934669439343138083508754565189542113879843219016388785533085940283555

/-- A square root of `-1`. -/
def sqrtM1 : ℕ :=
  19681161376707505956807079304988542015446066515923890162744021073123829784752

theorem edwardsD_mul : (edwardsD : ZMod p25519) * 121666 = -121665 := by
  rw [eq_neg_iff_add_eq_zero]
  have h : ((edwardsD * 121666 + 121665 : ℕ) : ZMod p25519) = 0 :=
    (ZMod.natCast_eq_zero_iff _ _).mpr (by norm_num [edwardsD, p25519])
  exact_mod_cast h

theorem sqrtM1_mul_self : (sqrtM1 : ZMod p25519) * sqrtM1 = -1 := by
  rw [eq_neg_iff_add_eq_zero]
  have h : ((sqrtM1 * sqrtM1 + 1 : ℕ) : ZMod p25519) = 0 :=
    (ZMod.natCast_eq_zero_iff _ _).mpr (by norm_num [sqrtM1, p25519])
  exact_mod_cast h

theorem not_isSquare_edwardsD : ¬IsSquare (edwardsD : ZMod p25519) := by
  intro h
  have hne : (edwardsD : ZMod p25519) ≠ 0 := by
    rw [Ne, ZMod.natCast_eq_zero_iff]
    norm_num [edwardsD, p25519]
  rw [ZMod.euler_criterion p25519 hne,
    zmod_pow_eq_one_iff 255 (by norm_num [p25519]) (by norm_num [p25519])] at h
  revert h
  decide +kernel

/-- The curve. -/
def curve25519 : TwistedEdwards (ZMod p25519) where
  a := -1
  d := edwardsD
  two_ne_zero h := by
    have hdvd : p25519 ∣ 2 := (ZMod.natCast_eq_zero_iff _ _).mp (by exact_mod_cast h)
    exact absurd hdvd (by norm_num [p25519])
  a_ne_zero := neg_ne_zero.mpr one_ne_zero
  isSquare_a := ⟨sqrtM1, sqrtM1_mul_self.symm⟩
  not_isSquare_d := not_isSquare_edwardsD

/-- The coordinates of the base point. -/
def baseX : ℕ :=
  15112221349535400772501151409588531511454012693041857206046113283949847762202

/-- The coordinates of the base point. -/
def baseY : ℕ :=
  46316835694926478169428394003475163141307993866256225615783033603165251855960

/-- The base point. -/
def basePoint : curve25519.Point where
  x := baseX
  y := baseY
  onCurve := by
    have h : ((baseY ^ 2 : ℕ) : ZMod p25519) =
        (1 + edwardsD * baseX ^ 2 * baseY ^ 2 + baseX ^ 2 : ℕ) :=
      (ZMod.natCast_eq_natCast_iff' _ _ _).mpr (by norm_num [baseX, baseY, edwardsD, p25519])
    push_cast at h
    change (-1 : ZMod p25519) * baseX ^ 2 + baseY ^ 2 = 1 + edwardsD * baseX ^ 2 * baseY ^ 2
    linear_combination h

end Rivr
