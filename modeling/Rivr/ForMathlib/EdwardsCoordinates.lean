import Mathlib.Algebra.Field.ZMod
import Rivr.ForMathlib.TwistedEdwards

/-!
# Points of a twisted Edwards curve that evaluate

Extended coordinates of the points of a curve over the integers modulo a prime, as integers, with
addition and multiples that evaluate. That a multiple of a point is zero is a computation with them
(`nsmul_eq_zero_of_coordinates`).
-/

namespace TwistedEdwards

/-- Extended coordinates, as integers. -/
structure Coordinates where
  X : ℤ
  Y : ℤ
  Z : ℤ
  T : ℤ

namespace Coordinates

/-- The unified addition modulo `m`, for the coefficients `-1` and `d`. -/
def add (m d : ℤ) (C D : Coordinates) : Coordinates :=
  let a := (C.Y - C.X) * (D.Y - D.X)
  let b := (C.X + C.Y) * (D.X + D.Y)
  let c := C.T * D.T * (2 * d)
  let z := 2 * (C.Z * D.Z)
  ⟨(b - a) * (z - c) % m, (b + a) * (z + c) % m, (z + c) * (z - c) % m, (b - a) * (b + a) % m⟩

/-- The multiple by a number of at most the given number of bits. -/
def mul (m d : ℤ) (C : Coordinates) : ℕ → ℕ → Coordinates
  | 0, _ => ⟨0, 1, 1, 0⟩
  | bits + 1, n =>
    let D := mul m d C bits (n / 2)
    if n % 2 = 1 then (D.add m d D).add m d C else D.add m d D

variable {m : ℕ} [Fact m.Prime] {E : TwistedEdwards (ZMod m)} {P Q : E.Point} {d : ℤ}
  {C D : Coordinates}

/-- The coordinates are coordinates of the point. -/
def IsFor (C : Coordinates) (P : E.Point) : Prop :=
  P.HasCoords (C.X : ZMod m) (C.Y : ZMod m) (C.Z : ZMod m) (C.T : ZMod m)

theorem IsFor.add (ha : E.a = -1) (hd : E.d = d) (hC : C.IsFor P) (hD : D.IsFor Q) :
    (C.add m d D).IsFor (P + Q) := by
  have h := Point.HasCoords.add ha hC hD rfl rfl rfl rfl
  simpa only [IsFor, Coordinates.add, ZMod.intCast_mod, Int.cast_mul, Int.cast_sub, Int.cast_add,
    Int.cast_ofNat, hd] using h

theorem IsFor.mul (ha : E.a = -1) (hd : E.d = d) (hC : C.IsFor P) {bits n : ℕ}
    (hn : n < 2 ^ bits) : (C.mul m d bits n).IsFor (n • P) := by
  induction bits generalizing n with
  | zero =>
    obtain rfl : n = 0 := by simpa using hn
    rw [zero_nsmul]
    exact ⟨by simp [Coordinates.mul], by simp [Coordinates.mul], by simp [Coordinates.mul],
      by simp [Coordinates.mul]⟩
  | succ bits ih =>
    have hhalf := ih (n := n / 2) (by rw [pow_succ] at hn; omega)
    have hdouble := hhalf.add ha hd hhalf
    rw [← two_nsmul, ← mul_nsmul'] at hdouble
    rw [Coordinates.mul]
    split_ifs with hodd
    · have h := hdouble.add ha hd hC
      rwa [← succ_nsmul, show 2 * (n / 2) + 1 = n by omega] at h
    · rwa [show 2 * (n / 2) = n by omega] at hdouble

end Coordinates

/-- **A multiple that the coordinates show to be zero.** -/
theorem nsmul_eq_zero_of_coordinates {m : ℕ} [Fact m.Prime] {E : TwistedEdwards (ZMod m)}
    {P : E.Point} {d : ℤ} {C : Coordinates} (bits : ℕ) (ha : E.a = -1) (hd : E.d = d)
    (hC : C.IsFor P) {n : ℕ} (hn : n < 2 ^ bits) (hX : (C.mul m d bits n).X = 0)
    (hY : (C.mul m d bits n).Y = (C.mul m d bits n).Z) : n • P = 0 := by
  have hmul := hC.mul ha hd hn
  obtain ⟨hx, hy⟩ := hmul.eq_div
  refine Point.ext ?_ ?_
  · rw [hx, hX, Int.cast_zero, zero_mul]
    rfl
  · rw [hy, hY, mul_inv_cancel₀ hmul.z_ne_zero]
    rfl

end TwistedEdwards
