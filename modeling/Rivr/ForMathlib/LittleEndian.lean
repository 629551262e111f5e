import Mathlib.Data.Nat.Bitwise
import Mathlib.Tactic.NormNum
import Mathlib.Tactic.Positivity

/-!
# Little-endian words as bytes

The bytes of a 16- or 32-bit word as shift-and-mask expressions, and the word rebuilt from
its bytes as a disjunction of shifted bytes. Both are given an arithmetic reading (`toNat`),
in which the two round trips are facts about quotients and remainders.
-/

namespace LittleEndian

/-- The byte of `x` that starts at bit `k`. -/
def u16Byte (x k : UInt16) : UInt8 := ((x >>> k) &&& 0xFF).toUInt8

/-- The byte of `x` that starts at bit `k`. -/
def u32Byte (x k : UInt32) : UInt8 := ((x >>> k) &&& 0xFF).toUInt8

/-- The 16-bit word with the given bytes, least significant first. -/
def u16OfBytes (b₀ b₁ : UInt8) : UInt16 := b₀.toUInt16 ||| b₁.toUInt16 <<< 8

/-- The 32-bit word with the given bytes, least significant first. -/
def u32OfBytes (b₀ b₁ b₂ b₃ : UInt8) : UInt32 :=
  b₀.toUInt32 ||| b₁.toUInt32 <<< 8 ||| b₂.toUInt32 <<< 16 ||| b₃.toUInt32 <<< 24

/-! ### Arithmetic readings -/

/-- A disjunction with disjoint bit ranges is a sum. -/
theorem or_shiftLeft_eq_add {a b i : ℕ} (h : a < 2 ^ i) : a ||| b <<< i = a + b * 2 ^ i := by
  rw [Nat.or_comm, Nat.shiftLeft_eq, Nat.mul_comm, ← Nat.two_pow_add_eq_or_of_lt h, Nat.add_comm]

/-- Shifting a byte left by at most 24 places stays within 32 bits. -/
private theorem byte_shiftLeft_lt (b : UInt8) {k : ℕ} (hk : k ≤ 24) :
    b.toNat <<< k < 2 ^ 32 := by
  rw [Nat.shiftLeft_eq]
  calc b.toNat * 2 ^ k < 2 ^ 8 * 2 ^ k := (Nat.mul_lt_mul_right (by positivity)).mpr b.toNat_lt
    _ ≤ 2 ^ 8 * 2 ^ 24 := Nat.mul_le_mul_left _ (Nat.pow_le_pow_right (by norm_num) hk)
    _ = 2 ^ 32 := by norm_num

theorem u16Byte_toNat (x k : UInt16) :
    (u16Byte x k).toNat = x.toNat / 2 ^ (k.toNat % 16) % 256 := by
  have h : ∀ n : ℕ, n &&& 255 = n % 256 := fun n => Nat.and_two_pow_sub_one_eq_mod n 8
  simp [u16Byte, h, Nat.shiftRight_eq_div_pow]

theorem u32Byte_toNat (x k : UInt32) :
    (u32Byte x k).toNat = x.toNat / 2 ^ (k.toNat % 32) % 256 := by
  have h : ∀ n : ℕ, n &&& 255 = n % 256 := fun n => Nat.and_two_pow_sub_one_eq_mod n 8
  simp [u32Byte, h, Nat.shiftRight_eq_div_pow]

theorem u16OfBytes_toNat (b₀ b₁ : UInt8) :
    (u16OfBytes b₀ b₁).toNat = b₀.toNat + b₁.toNat * 2 ^ 8 := by
  have h₀ := b₀.toNat_lt
  have h₁ := b₁.toNat_lt
  have hs : b₁.toNat <<< 8 % 2 ^ 16 = b₁.toNat <<< 8 := by
    rw [Nat.shiftLeft_eq]
    omega
  have e : (u16OfBytes b₀ b₁).toNat = b₀.toNat ||| b₁.toNat <<< 8 := by
    rw [← hs]
    simp only [u16OfBytes, UInt16.toNat_or, UInt8.toNat_toUInt16, UInt16.toNat_shiftLeft]
    rfl
  rw [e, or_shiftLeft_eq_add h₀]

theorem u32OfBytes_toNat (b₀ b₁ b₂ b₃ : UInt8) :
    (u32OfBytes b₀ b₁ b₂ b₃).toNat
      = b₀.toNat + b₁.toNat * 2 ^ 8 + b₂.toNat * 2 ^ 16 + b₃.toNat * 2 ^ 24 := by
  have h₀ := b₀.toNat_lt
  have h₁ := b₁.toNat_lt
  have h₂ := b₂.toNat_lt
  have hs : ∀ (b : UInt8) {k : ℕ}, k ≤ 24 → b.toNat <<< k % 2 ^ 32 = b.toNat <<< k :=
    fun b _ hk => Nat.mod_eq_of_lt (byte_shiftLeft_lt b hk)
  have e : (u32OfBytes b₀ b₁ b₂ b₃).toNat
      = b₀.toNat ||| b₁.toNat <<< 8 ||| b₂.toNat <<< 16 ||| b₃.toNat <<< 24 := by
    rw [← hs b₁ (k := 8) (by norm_num), ← hs b₂ (k := 16) (by norm_num), ← hs b₃ (k := 24) le_rfl]
    simp only [u32OfBytes, UInt32.toNat_or, UInt8.toNat_toUInt32, UInt32.toNat_shiftLeft]
    rfl
  have e₁ := or_shiftLeft_eq_add (b := b₁.toNat) h₀
  have e₂ : (b₀.toNat + b₁.toNat * 2 ^ 8) ||| b₂.toNat <<< 16
      = b₀.toNat + b₁.toNat * 2 ^ 8 + b₂.toNat * 2 ^ 16 := or_shiftLeft_eq_add (by omega)
  have e₃ : (b₀.toNat + b₁.toNat * 2 ^ 8 + b₂.toNat * 2 ^ 16) ||| b₃.toNat <<< 24
      = b₀.toNat + b₁.toNat * 2 ^ 8 + b₂.toNat * 2 ^ 16 + b₃.toNat * 2 ^ 24 :=
    or_shiftLeft_eq_add (by omega)
  rw [e, e₁, e₂, e₃]

/-! ### Round trips -/

/-- A 16-bit word is rebuilt from its bytes. -/
@[simp]
theorem u16OfBytes_u16Byte (x : UInt16) : u16OfBytes (u16Byte x 0) (u16Byte x 8) = x := by
  apply UInt16.toNat_inj.mp
  have h := x.toNat_lt
  simp only [u16OfBytes_toNat, u16Byte_toNat, UInt16.reduceToNat, Nat.reduceMod, Nat.reducePow]
  omega

/-- A 32-bit word is rebuilt from its bytes. -/
@[simp]
theorem u32OfBytes_u32Byte (x : UInt32) :
    u32OfBytes (u32Byte x 0) (u32Byte x 8) (u32Byte x 16) (u32Byte x 24) = x := by
  apply UInt32.toNat_inj.mp
  have h := x.toNat_lt
  simp only [u32OfBytes_toNat, u32Byte_toNat, UInt32.reduceToNat, Nat.reduceMod, Nat.reducePow]
  omega

@[simp]
theorem u16Byte_u16OfBytes_zero (b₀ b₁ : UInt8) : u16Byte (u16OfBytes b₀ b₁) 0 = b₀ := by
  apply UInt8.toNat_inj.mp
  have h := b₀.toNat_lt
  simp only [u16OfBytes_toNat, u16Byte_toNat, UInt16.reduceToNat, Nat.reduceMod, Nat.reducePow]
  omega

@[simp]
theorem u16Byte_u16OfBytes_eight (b₀ b₁ : UInt8) : u16Byte (u16OfBytes b₀ b₁) 8 = b₁ := by
  apply UInt8.toNat_inj.mp
  have h := b₀.toNat_lt
  have h' := b₁.toNat_lt
  simp only [u16OfBytes_toNat, u16Byte_toNat, UInt16.reduceToNat, Nat.reduceMod, Nat.reducePow]
  omega

/-- The four bytes of a 32-bit word rebuilt from bytes are those bytes. -/
theorem u32Byte_u32OfBytes (b₀ b₁ b₂ b₃ : UInt8) :
    u32Byte (u32OfBytes b₀ b₁ b₂ b₃) 0 = b₀ ∧ u32Byte (u32OfBytes b₀ b₁ b₂ b₃) 8 = b₁ ∧
      u32Byte (u32OfBytes b₀ b₁ b₂ b₃) 16 = b₂ ∧ u32Byte (u32OfBytes b₀ b₁ b₂ b₃) 24 = b₃ := by
  have h₀ := b₀.toNat_lt
  have h₁ := b₁.toNat_lt
  have h₂ := b₂.toNat_lt
  have h₃ := b₃.toNat_lt
  refine ⟨?_, ?_, ?_, ?_⟩ <;> apply UInt8.toNat_inj.mp <;>
    simp only [u32OfBytes_toNat, u32Byte_toNat, UInt32.reduceToNat, Nat.reduceMod,
      Nat.reducePow] <;> omega

end LittleEndian
