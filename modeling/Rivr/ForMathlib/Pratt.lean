import Mathlib.Data.List.Prime
import Mathlib.NumberTheory.LucasPrimality

/-!
# Primes and powers that the kernel can check

Powers modulo `m` by squaring, as a function that evaluates (`powMod`), and with it the step of a
Pratt certificate: a number is prime when the prime factors of its predecessor are known and pass
the test of Lucas (`prime_of_pratt`).
-/

/-- The power modulo `m`, for exponents of at most the given number of bits. -/
def powMod (m a : ℕ) : ℕ → ℕ → ℕ
  | 0, _ => 1 % m
  | bits + 1, n =>
    let r := powMod m a bits (n / 2)
    if n % 2 = 1 then r * r % m * a % m else r * r % m

theorem powMod_eq (m a : ℕ) {bits n : ℕ} (h : n < 2 ^ bits) : powMod m a bits n = a ^ n % m := by
  induction bits generalizing n with
  | zero =>
    obtain rfl : n = 0 := by simpa using h
    rfl
  | succ bits ih =>
    rw [powMod, ih (by rw [pow_succ] at h; omega)]
    have hsplit : a ^ n = a ^ (n / 2) * a ^ (n / 2) * a ^ (n % 2) := by
      rw [← pow_add, ← pow_add]
      congr 1
      omega
    rw [hsplit]
    rcases Nat.mod_two_eq_zero_or_one n with hn | hn
    · simp [hn, Nat.mul_mod]
    · simp [hn, Nat.mul_mod]

theorem zmod_pow_eq_one_iff {m a n : ℕ} (bits : ℕ) (hm : 1 < m) (h : n < 2 ^ bits) :
    (a : ZMod m) ^ n = 1 ↔ powMod m a bits n = 1 := by
  rw [powMod_eq m a h, ← Nat.cast_pow, ← Nat.cast_one, ZMod.natCast_eq_natCast_iff',
    Nat.one_mod_eq_one.mpr hm.ne']

/-- The test of Lucas, with the factors of `p - 1` and their exponents. -/
def prattCheck (p bits a : ℕ) (factors : List (ℕ × ℕ)) : Bool :=
  decide (1 < p) && decide (p ≤ 2 ^ bits) &&
    decide ((factors.map fun f => f.1 ^ f.2).prod = p - 1) &&
    decide (powMod p a bits (p - 1) = 1) &&
    factors.all fun f => decide (powMod p a bits ((p - 1) / f.1) ≠ 1)

/-- **A number that passes the test of Lucas is prime.** -/
theorem prime_of_pratt {p : ℕ} (bits a : ℕ) (factors : List (ℕ × ℕ))
    (hfactors : (factors.map Prod.fst).Forall Nat.Prime)
    (h : prattCheck p bits a factors = true) : p.Prime := by
  simp only [prattCheck, Bool.and_eq_true, decide_eq_true_eq, List.all_eq_true] at h
  obtain ⟨⟨⟨⟨hp, hbits⟩, hprod⟩, hone⟩, hne⟩ := h
  have hlt : ∀ q, (p - 1) / q < 2 ^ bits := fun q => by
    have hdiv := Nat.div_le_self (p - 1) q
    omega
  refine lucas_primality p (a : ZMod p) ?_ fun q hq hdvd => ?_
  · have hlt₁ : p - 1 < 2 ^ bits := by omega
    rw [zmod_pow_eq_one_iff bits hp hlt₁]
    exact hone
  · rw [← hprod] at hdvd
    obtain ⟨r, hr, hqr⟩ := (Prime.dvd_prod_iff hq.prime).mp hdvd
    obtain ⟨f, hf, rfl⟩ := List.mem_map.mp hr
    have hfirst := List.forall_iff_forall_mem.mp hfactors f.1 (List.mem_map_of_mem hf)
    obtain rfl := (Nat.prime_dvd_prime_iff_eq hq hfirst).mp (hq.dvd_of_dvd_pow hqr)
    rw [Ne, zmod_pow_eq_one_iff bits hp (hlt f.1)]
    exact hne f hf
