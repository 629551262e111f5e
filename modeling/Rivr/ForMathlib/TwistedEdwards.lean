import Mathlib.Algebra.Field.Basic
import Mathlib.Algebra.Group.Even
import Mathlib.Tactic.FieldSimp
import Mathlib.Tactic.LinearCombination
import Mathlib.Tactic.Ring

/-!
# Complete twisted Edwards curves

The curve `a x² + y² = 1 + d x² y²` over a field in which two is not zero. When `a` is a square and
`d` is none, the denominators of the addition law vanish nowhere on the curve
(`TwistedEdwards.denominators`), and the points of the curve are a commutative group under it
without any exception.
-/

/-- A complete twisted Edwards curve. -/
structure TwistedEdwards (F : Type*) [Field F] where
  /-- The coefficient of `x²`. -/
  a : F
  /-- The coefficient of `x² y²`. -/
  d : F
  two_ne_zero : (2 : F) ≠ 0
  a_ne_zero : a ≠ 0
  isSquare_a : IsSquare a
  not_isSquare_d : ¬IsSquare d

namespace TwistedEdwards

variable {F : Type*} [Field F] (E : TwistedEdwards F)

/-- The equation of the curve. -/
def OnCurve (x y : F) : Prop := E.a * x ^ 2 + y ^ 2 = 1 + E.d * x ^ 2 * y ^ 2

/-- A point of the curve. -/
@[ext]
structure Point where
  /-- The first coordinate. -/
  x : F
  /-- The second coordinate. -/
  y : F
  onCurve : E.OnCurve x y

variable {E}

/-! ### Completeness -/

theorem sq_ne_one {x₁ y₁ x₂ y₂ : F} (h₁ : E.OnCurve x₁ y₁) (h₂ : E.OnCurve x₂ y₂) :
    (E.d * x₁ * x₂ * y₁ * y₂) ^ 2 ≠ 1 := by
  intro h
  rw [OnCurve] at h₁ h₂
  have hprod : E.d * x₁ * x₂ * y₁ * y₂ ≠ 0 := fun hzero => by simp [hzero] at h
  have hx₁y₁ : x₁ * y₁ ≠ 0 := fun hzero => hprod (by linear_combination E.d * x₂ * y₂ * hzero)
  have hx₂ : x₂ ≠ 0 := fun hzero => hprod (by rw [hzero, mul_zero, zero_mul, zero_mul])
  -- `d` would be a square if `t x₂ + y₂` were not zero for one of the roots `t` of `a`
  have key : ∀ t : F, t * t = E.a → t * x₂ + y₂ = 0 := by
    intro t ht
    by_contra hsum
    have hden : x₁ * y₁ * (t * x₂ + y₂) ≠ 0 := mul_ne_zero hx₁y₁ hsum
    refine E.not_isSquare_d
      ⟨(t * x₁ + E.d * x₁ * x₂ * y₁ * y₂ * y₁) / (x₁ * y₁ * (t * x₂ + y₂)), ?_⟩
    rw [div_mul_div_comm, eq_div_iff (mul_ne_zero hden hden)]
    linear_combination E.d * x₁ ^ 2 * y₁ ^ 2 * h₂ - h₁ + (1 - y₁ ^ 2) * h +
      (E.d * x₁ ^ 2 * x₂ ^ 2 * y₁ ^ 2 - x₁ ^ 2) * ht
  obtain ⟨s, hs⟩ := E.isSquare_a
  have hplus := key s hs.symm
  have hminus := key (-s) (by rw [neg_mul_neg, hs])
  have hs₀ : s ≠ 0 := by
    rintro rfl
    exact E.a_ne_zero (by rw [hs, mul_zero])
  exact mul_ne_zero (mul_ne_zero E.two_ne_zero hs₀) hx₂ (by linear_combination hplus - hminus)

/-- **The denominators of the addition law** are not zero. -/
theorem denominators {x₁ y₁ x₂ y₂ : F} (h₁ : E.OnCurve x₁ y₁) (h₂ : E.OnCurve x₂ y₂) :
    1 + E.d * x₁ * x₂ * y₁ * y₂ ≠ 0 ∧ 1 - E.d * x₁ * x₂ * y₁ * y₂ ≠ 0 := by
  have h := sq_ne_one h₁ h₂
  refine ⟨fun hzero => h ?_, fun hzero => h ?_⟩
  · linear_combination (E.d * x₁ * x₂ * y₁ * y₂ - 1) * hzero
  · linear_combination (-E.d * x₁ * x₂ * y₁ * y₂ - 1) * hzero

/-! ### The addition law -/

/-- The first coordinate of a sum. -/
def addX (E : TwistedEdwards F) (x₁ y₁ x₂ y₂ : F) : F :=
  (x₁ * y₂ + y₁ * x₂) / (1 + E.d * x₁ * x₂ * y₁ * y₂)

/-- The second coordinate of a sum. -/
def addY (E : TwistedEdwards F) (x₁ y₁ x₂ y₂ : F) : F :=
  (y₁ * y₂ - E.a * x₁ * x₂) / (1 - E.d * x₁ * x₂ * y₁ * y₂)

theorem onCurve_add {x₁ y₁ x₂ y₂ : F} (h₁ : E.OnCurve x₁ y₁) (h₂ : E.OnCurve x₂ y₂) :
    E.OnCurve (E.addX x₁ y₁ x₂ y₂) (E.addY x₁ y₁ x₂ y₂) := by
  obtain ⟨hp, hm⟩ := denominators h₁ h₂
  rw [OnCurve, addX, addY]
  rw [OnCurve] at h₁ h₂
  generalize hp' : 1 + E.d * x₁ * x₂ * y₁ * y₂ = p at *
  generalize hm' : 1 - E.d * x₁ * x₂ * y₁ * y₂ = m at *
  field_simp
  grind

theorem OnCurve.neg {x y : F} (h : E.OnCurve x y) : E.OnCurve (-x) y := by
  rwa [OnCurve, neg_sq]

instance : Zero E.Point := ⟨⟨0, 1, by simp [OnCurve]⟩⟩

instance : Neg E.Point := ⟨fun P => ⟨-P.x, P.y, P.onCurve.neg⟩⟩

instance : Add E.Point := ⟨fun P Q =>
  ⟨E.addX P.x P.y Q.x Q.y, E.addY P.x P.y Q.x Q.y, onCurve_add P.onCurve Q.onCurve⟩⟩

@[simp]
theorem zero_x : (0 : E.Point).x = 0 := rfl

@[simp]
theorem zero_y : (0 : E.Point).y = 1 := rfl

@[simp]
theorem neg_x (P : E.Point) : (-P).x = -P.x := rfl

@[simp]
theorem neg_y (P : E.Point) : (-P).y = P.y := rfl

theorem add_x (P Q : E.Point) : (P + Q).x =
    (P.x * Q.y + P.y * Q.x) / (1 + E.d * P.x * Q.x * P.y * Q.y) := rfl

theorem add_y (P Q : E.Point) : (P + Q).y =
    (P.y * Q.y - E.a * P.x * Q.x) / (1 - E.d * P.x * Q.x * P.y * Q.y) := rfl

/-! ### The group -/

protected theorem zero_add (P : E.Point) : 0 + P = P := by
  ext <;> simp [add_x, add_y]

protected theorem add_comm (P Q : E.Point) : P + Q = Q + P := by
  ext
  · rw [add_x, add_x]
    congr 1 <;> ring
  · rw [add_y, add_y]
    congr 1 <;> ring

protected theorem neg_add_cancel (P : E.Point) : -P + P = 0 := by
  obtain ⟨hp, hm⟩ := denominators P.onCurve P.onCurve
  have h := P.onCurve
  rw [OnCurve] at h
  ext
  · rw [add_x, neg_x, neg_y, zero_x]
    ring
  · rw [add_y, neg_x, neg_y, zero_y, div_eq_one_iff_eq (by convert hp using 1; ring)]
    linear_combination h

/-- A sum with a sum, over its common denominator. -/
private theorem addX_div {p q : F} (hp : p ≠ 0) (hq : q ≠ 0) (u v x y : F) :
    E.addX (u / p) (v / q) x y = (u * q * y + v * p * x) / (p * q + E.d * u * x * v * y) := by
  rw [addX, ← mul_div_mul_left _ (1 + _) (mul_ne_zero hp hq)]
  congr 1 <;> field_simp

private theorem addY_div {p q : F} (hp : p ≠ 0) (hq : q ≠ 0) (u v x y : F) :
    E.addY (u / p) (v / q) x y = (v * p * y - E.a * u * q * x) / (p * q - E.d * u * x * v * y) := by
  rw [addY, ← mul_div_mul_left _ (1 - _) (mul_ne_zero hp hq)]
  congr 1 <;> field_simp

private theorem denominators_div {p q u v x y : F} (hp : p ≠ 0) (hq : q ≠ 0)
    (h : E.OnCurve (u / p) (v / q)) (h' : E.OnCurve x y) :
    p * q + E.d * u * x * v * y ≠ 0 ∧ p * q - E.d * u * x * v * y ≠ 0 := by
  obtain ⟨hplus, hminus⟩ := denominators h h'
  have hpq := mul_ne_zero hp hq
  have hk : p * q * (E.d * (u / p) * x * (v / q) * y) = E.d * u * x * v * y := by
    field_simp
  refine ⟨?_, ?_⟩
  · have hne := mul_ne_zero hpq hplus
    rwa [mul_add, mul_one, hk] at hne
  · have hne := mul_ne_zero hpq hminus
    rwa [mul_sub, mul_one, hk] at hne

protected theorem add_assoc (P Q R : E.Point) : P + Q + R = P + (Q + R) := by
  obtain ⟨x₁, y₁, h₁⟩ := P
  obtain ⟨x₂, y₂, h₂⟩ := Q
  obtain ⟨x₃, y₃, h₃⟩ := R
  obtain ⟨hp, hm⟩ := denominators h₁ h₂
  obtain ⟨hp', hm'⟩ := denominators h₂ h₃
  obtain ⟨hl, hl'⟩ := denominators_div hp hm (onCurve_add h₁ h₂) h₃
  obtain ⟨hr, hr'⟩ := denominators_div hp' hm' (onCurve_add h₂ h₃) h₁
  rw [TwistedEdwards.add_comm ⟨x₁, y₁, h₁⟩ (_ + _)]
  rw [OnCurve] at h₁ h₂ h₃
  ext
  · change E.addX (_ / _) (_ / _) x₃ y₃ = E.addX (_ / _) (_ / _) x₁ y₁
    rw [addX_div hp hm, addX_div hp' hm', div_eq_div_iff hl hr]
    clear hp hm hp' hm' hl hl' hr hr'
    grind
  · change E.addY (_ / _) (_ / _) x₃ y₃ = E.addY (_ / _) (_ / _) x₁ y₁
    rw [addY_div hp hm, addY_div hp' hm', div_eq_div_iff hl' hr']
    clear hp hm hp' hm' hl hl' hr hr'
    grind

/-- **The points of a complete twisted Edwards curve are a commutative group.** -/
instance : AddCommGroup E.Point where
  add_assoc := TwistedEdwards.add_assoc
  zero_add := TwistedEdwards.zero_add
  add_zero P := (TwistedEdwards.add_comm P 0).trans (TwistedEdwards.zero_add P)
  add_comm := TwistedEdwards.add_comm
  neg_add_cancel := TwistedEdwards.neg_add_cancel
  nsmul := nsmulRec
  zsmul := zsmulRec

/-! ### Points with a given second coordinate -/

theorem onCurve_iff {x y : F} : E.OnCurve x y ↔ (E.d * y ^ 2 - E.a) * x ^ 2 = y ^ 2 - 1 := by
  rw [OnCurve]
  constructor <;> intro h <;> linear_combination -h

theorem d_mul_sub_ne_zero (E : TwistedEdwards F) (y : F) : E.d * y ^ 2 - E.a ≠ 0 := by
  intro h
  obtain ⟨s, hs⟩ := E.isSquare_a
  have hy : y ≠ 0 := by
    rintro rfl
    exact E.a_ne_zero (by linear_combination -h)
  refine E.not_isSquare_d ⟨s / y, ?_⟩
  rw [div_mul_div_comm, eq_div_iff (mul_ne_zero hy hy)]
  linear_combination h + hs

/-- Up to its sign, the first coordinate is determined by the second. -/
theorem x_eq_or_neg {P Q : E.Point} (h : P.y = Q.y) : P.x = Q.x ∨ P.x = -Q.x := by
  have hP := onCurve_iff.mp P.onCurve
  rw [h, ← onCurve_iff.mp Q.onCurve] at hP
  exact sq_eq_sq_iff_eq_or_eq_neg.mp (mul_left_cancel₀ (E.d_mul_sub_ne_zero Q.y) hP)

/-! ### Extended coordinates -/

/-- `(X : Y : Z : T)` are extended coordinates of the point. -/
structure Point.HasCoords (P : E.Point) (X Y Z T : F) : Prop where
  z_ne_zero : Z ≠ 0
  x_mul : X = P.x * Z
  y_mul : Y = P.y * Z
  t_mul : T = P.x * P.y * Z

theorem Point.hasCoords (P : E.Point) : P.HasCoords P.x P.y 1 (P.x * P.y) :=
  ⟨one_ne_zero, (mul_one _).symm, (mul_one _).symm, (mul_one _).symm⟩

/-- **The unified addition of extended coordinates**, for curves with `a = -1`. -/
theorem Point.HasCoords.add (ha : E.a = -1) {P Q : E.Point} {X₁ Y₁ Z₁ T₁ X₂ Y₂ Z₂ T₂ e f g h : F}
    (hP : P.HasCoords X₁ Y₁ Z₁ T₁) (hQ : Q.HasCoords X₂ Y₂ Z₂ T₂)
    (he : e = (X₁ + Y₁) * (X₂ + Y₂) - (Y₁ - X₁) * (Y₂ - X₂))
    (hf : f = 2 * (Z₁ * Z₂) - T₁ * T₂ * (2 * E.d)) (hg : g = 2 * (Z₁ * Z₂) + T₁ * T₂ * (2 * E.d))
    (hh : h = (X₁ + Y₁) * (X₂ + Y₂) + (Y₁ - X₁) * (Y₂ - X₂)) :
    (P + Q).HasCoords (e * f) (h * g) (g * f) (e * h) := by
  obtain ⟨hplus, hminus⟩ := denominators P.onCurve Q.onCurve
  obtain ⟨hZ₁, rfl, rfl, rfl⟩ := hP
  obtain ⟨hZ₂, rfl, rfl, rfl⟩ := hQ
  have hZ : 2 * (Z₁ * Z₂) ≠ 0 := mul_ne_zero E.two_ne_zero (mul_ne_zero hZ₁ hZ₂)
  have hf' : f = 2 * (Z₁ * Z₂) * (1 - E.d * P.x * Q.x * P.y * Q.y) := by
    rw [hf]
    ring
  have hg' : g = 2 * (Z₁ * Z₂) * (1 + E.d * P.x * Q.x * P.y * Q.y) := by
    rw [hg]
    ring
  have he' : e = (P + Q).x * g := by
    have hx := div_mul_cancel₀ (P.x * Q.y + P.y * Q.x) hplus
    rw [← add_x] at hx
    rw [hg', he]
    linear_combination -(2 * (Z₁ * Z₂)) * hx
  have hh' : h = (P + Q).y * f := by
    have hy := div_mul_cancel₀ (P.y * Q.y - E.a * P.x * Q.x) hminus
    rw [← add_y, ha] at hy
    rw [hf', hh]
    linear_combination -(2 * (Z₁ * Z₂)) * hy
  refine ⟨?_, ?_, ?_, ?_⟩
  · rw [hf', hg']
    exact mul_ne_zero (mul_ne_zero hZ hplus) (mul_ne_zero hZ hminus)
  · rw [he', mul_assoc]
  · rw [hh']
    ring
  · rw [he', hh']
    ring

/-- The point is determined by its coordinates. -/
theorem Point.HasCoords.eq_div {P : E.Point} {X Y Z T : F} (h : P.HasCoords X Y Z T) :
    P.x = X * Z⁻¹ ∧ P.y = Y * Z⁻¹ := by
  obtain ⟨hZ, rfl, rfl, -⟩ := h
  exact ⟨(mul_inv_cancel_right₀ hZ _).symm, (mul_inv_cancel_right₀ hZ _).symm⟩

end TwistedEdwards
