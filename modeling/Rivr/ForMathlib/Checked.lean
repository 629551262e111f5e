import Mathlib.Algebra.Order.Ring.Nat
import Mathlib.Data.Nat.Notation

/-!
# Checked arithmetic

Arithmetic on natural numbers that fails where the arithmetic of machine words would wrap: `mul` at
the bound of the word, `sub` below zero, `div` at a divisor of zero. A calculation that succeeds
with them never wraps. Scaling by a fraction of at most one (`ratio`) succeeds when its product
fits, and does not make a number greater (`fits_ratio`).
-/

namespace Checked

/-- The product, if it is below the bound. -/
def mul (bound a b : ℕ) : Option ℕ := if a * b < bound then some (a * b) else none

/-- The difference, if it is not negative. -/
def sub (a b : ℕ) : Option ℕ := if b ≤ a then some (a - b) else none

/-- The quotient, if there is one. -/
def div (a b : ℕ) : Option ℕ := if b = 0 then none else some (a / b)

/-- The number scaled by a fraction: first multiplied, then divided. -/
def ratio (bound x num den : ℕ) : Option ℕ := do
  let product ← mul bound x num
  div product den

/-- The calculation succeeds with a value that is at most the bound. -/
structure Fits (c : Option ℕ) (v bound : ℕ) : Prop where
  eq : c = some v
  le : v ≤ bound

variable {bound bound' a b v w x num den : ℕ} {c : Option ℕ}

theorem Fits.mono (h : Fits c v bound) (hle : bound ≤ bound') : Fits c v bound' :=
  ⟨h.eq, h.le.trans hle⟩

/-- One calculation after another. -/
theorem Fits.bind (h : Fits c v bound) {f : ℕ → Option ℕ} (hf : Fits (f v) w bound') :
    Fits (c >>= f) w bound' := by
  rw [h.eq]
  exact hf

theorem fits_some (h : v ≤ bound) : Fits (some v) v bound := ⟨rfl, h⟩

theorem fits_sub (h : b ≤ a) : Fits (sub a b) (a - b) a := ⟨if_pos h, Nat.sub_le a b⟩

/-- A fraction of at most one does not make a number greater. -/
theorem fits_ratio (hfits : x * num < bound) (hle : num ≤ den) (hden : den ≠ 0) :
    Fits (ratio bound x num den) (x * num / den) x := by
  have hmul : mul bound x num = some (x * num) := if_pos hfits
  refine ⟨?_, Nat.div_le_of_le_mul ((Nat.mul_le_mul_left x hle).trans_eq (Nat.mul_comm x den))⟩
  rw [ratio, hmul]
  exact if_neg hden

/-- The machine scales a number as the checked calculation does. -/
theorem toNat_ratio {x num den : UInt32} (hfits : x.toNat * num.toNat < 2 ^ 32) :
    (x * num / den).toNat = x.toNat * num.toNat / den.toNat := by
  rw [UInt32.toNat_div, UInt32.toNat_mul, Nat.mod_eq_of_lt hfits]

end Checked
