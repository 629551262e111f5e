import Mathlib.Tactic.Ring

/-!
# Numbers as little-endian bytes

Numbers of any length as bytes, the least significant first, and back.
-/

namespace LittleEndian

/-- The number with the given bytes. -/
def natOfBytes : List UInt8 → ℕ
  | [] => 0
  | b :: bs => b.toNat + 256 * natOfBytes bs

/-- The least `k` bytes of a number. -/
def bytesOfNat : ℕ → ℕ → List UInt8
  | 0, _ => []
  | k + 1, n => UInt8.ofNat n :: bytesOfNat k (n / 256)

@[simp]
theorem natOfBytes_nil : natOfBytes [] = 0 := rfl

@[simp]
theorem natOfBytes_cons (b : UInt8) (bs : List UInt8) :
    natOfBytes (b :: bs) = b.toNat + 256 * natOfBytes bs := rfl

theorem natOfBytes_append (bs cs : List UInt8) :
    natOfBytes (bs ++ cs) = natOfBytes bs + 256 ^ bs.length * natOfBytes cs := by
  induction bs with
  | nil => simp
  | cons b bs ih =>
    rw [List.cons_append, natOfBytes_cons, natOfBytes_cons, ih, List.length_cons, pow_succ]
    ring

theorem natOfBytes_lt (bs : List UInt8) : natOfBytes bs < 256 ^ bs.length := by
  induction bs with
  | nil => exact Nat.one_pos
  | cons b bs ih =>
    have hb := b.toNat_lt
    rw [natOfBytes_cons, List.length_cons, pow_succ]
    omega

theorem natOfBytes_drop (bs : List UInt8) (o : ℕ) :
    natOfBytes (bs.drop o) = natOfBytes bs / 256 ^ o := by
  induction o generalizing bs with
  | zero => rw [List.drop_zero, pow_zero, Nat.div_one]
  | succ o ih =>
    cases bs with
    | nil => rw [List.drop_nil, natOfBytes_nil, Nat.zero_div]
    | cons b bs =>
      have hb := b.toNat_lt
      have hdiv : (b.toNat + 256 * natOfBytes bs) / 256 = natOfBytes bs := by omega
      rw [List.drop_succ_cons, ih, natOfBytes_cons, pow_succ', ← Nat.div_div_eq_div_mul, hdiv]

theorem getD_toNat (bs : List UInt8) (i : ℕ) :
    (bs.getD i 0).toNat = natOfBytes bs / 256 ^ i % 256 := by
  induction bs generalizing i with
  | nil => rw [List.getD_nil, natOfBytes_nil, Nat.zero_div]; rfl
  | cons b bs ih =>
    have hb := b.toNat_lt
    cases i with
    | zero =>
      rw [List.getD_cons_zero, natOfBytes_cons, pow_zero, Nat.div_one]
      omega
    | succ i =>
      have hdiv : (b.toNat + 256 * natOfBytes bs) / 256 = natOfBytes bs := by omega
      rw [List.getD_cons_succ, ih, natOfBytes_cons, pow_succ', ← Nat.div_div_eq_div_mul, hdiv]

@[simp]
theorem length_bytesOfNat (k n : ℕ) : (bytesOfNat k n).length = k := by
  induction k generalizing n with
  | zero => rfl
  | succ k ih => rw [bytesOfNat, List.length_cons, ih]

theorem bytesOfNat_succ (k n : ℕ) :
    bytesOfNat (k + 1) n = bytesOfNat k n ++ [UInt8.ofNat (n / 256 ^ k)] := by
  induction k generalizing n with
  | zero => rw [bytesOfNat, bytesOfNat, bytesOfNat, pow_zero, Nat.div_one, List.nil_append]
  | succ k ih =>
    rw [bytesOfNat, ih, bytesOfNat, List.cons_append, Nat.div_div_eq_div_mul, ← pow_succ']

theorem bytesOfNat_eq_map (k n : ℕ) :
    bytesOfNat k n = (List.range k).map fun j => UInt8.ofNat (n / 256 ^ j) := by
  induction k with
  | zero => rfl
  | succ k ih => rw [bytesOfNat_succ, ih, List.range_succ, List.map_append, List.map_singleton]

/-- The bytes do not tell what is above them. -/
theorem bytesOfNat_add_mul (k n m : ℕ) : bytesOfNat k (n + 256 ^ k * m) = bytesOfNat k n := by
  induction k generalizing n with
  | zero => rfl
  | succ k ih =>
    have hmul : n + 256 ^ (k + 1) * m = n + 256 * (256 ^ k * m) := by
      rw [pow_succ]
      ring
    rw [bytesOfNat, bytesOfNat, hmul, Nat.add_mul_div_left _ _ (by norm_num), ih]
    congr 1
    apply UInt8.toNat_inj.mp
    simp

theorem natOfBytes_bytesOfNat (k n : ℕ) : natOfBytes (bytesOfNat k n) = n % 256 ^ k := by
  induction k generalizing n with
  | zero => rw [pow_zero, Nat.mod_one, bytesOfNat, natOfBytes_nil]
  | succ k ih =>
    rw [bytesOfNat, natOfBytes_cons, ih, pow_succ, mul_comm (256 ^ k), Nat.mod_mul]
    rfl

theorem bytesOfNat_natOfBytes (bs : List UInt8) : bytesOfNat bs.length (natOfBytes bs) = bs := by
  induction bs with
  | nil => rfl
  | cons b bs ih =>
    have hb := b.toNat_lt
    rw [natOfBytes_cons, List.length_cons, bytesOfNat]
    have hdiv : (b.toNat + 256 * natOfBytes bs) / 256 = natOfBytes bs := by omega
    rw [hdiv, ih]
    congr 1
    apply UInt8.toNat_inj.mp
    rw [UInt8.toNat_ofNat']
    omega

theorem natOfBytes_inj {bs cs : List UInt8} (hlen : bs.length = cs.length)
    (h : natOfBytes bs = natOfBytes cs) : bs = cs := by
  rw [← bytesOfNat_natOfBytes bs, ← bytesOfNat_natOfBytes cs, h, hlen]

end LittleEndian
