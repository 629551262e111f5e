import Mathlib.Algebra.BigOperators.Ring.Finset
import Mathlib.Algebra.Order.BigOperators.Group.Finset
import Mathlib.Algebra.Order.Ring.Abs
import Mathlib.Data.List.GetD
import Mathlib.Tactic.Linarith
import Mathlib.Tactic.LinearCombination
import Mathlib.Tactic.Ring

/-!
# Numbers in limbs

A list of limbs stands for a number in a base, its least limb first. The limbs are any integers, not
only digits: sums and products are taken limb by limb, and it is the passing on of carries that
brings the limbs back to digits (`Limbs.carry`).
-/

namespace Limbs

variable {B : ℤ}

/-! ### Values -/

/-- The number that limbs stand for. -/
def value (B : ℤ) : List ℤ → ℤ
  | [] => 0
  | x :: xs => x + B * value B xs

@[simp]
theorem value_nil : value B [] = 0 := rfl

@[simp]
theorem value_cons (x : ℤ) (xs : List ℤ) : value B (x :: xs) = x + B * value B xs := rfl

theorem value_append (xs ys : List ℤ) :
    value B (xs ++ ys) = value B xs + B ^ xs.length * value B ys := by
  induction xs with
  | nil => simp
  | cons x xs ih =>
    rw [List.cons_append, value_cons, value_cons, ih, List.length_cons, pow_succ]
    ring

theorem value_eq_sum (l : List ℤ) :
    value B l = ∑ j ∈ Finset.range l.length, l.getD j 0 * B ^ j := by
  induction l with
  | nil => rfl
  | cons x xs ih =>
    rw [value_cons, ih, List.length_cons, Finset.sum_range_succ', Finset.mul_sum, add_comm]
    congr 1
    · refine Finset.sum_congr rfl fun j _ => ?_
      rw [List.getD_cons_succ, pow_succ]
      ring
    · simp

theorem value_take_drop (l : List ℤ) (n : ℕ) (h : n ≤ l.length) :
    value B l = value B (l.take n) + B ^ n * value B (l.drop n) := by
  conv_lhs => rw [← List.take_append_drop n l, value_append, List.length_take, min_eq_left h]

theorem value_modify {l : List ℤ} {i : ℕ} (f : ℤ → ℤ) (h : i < l.length) :
    value B (l.modify i f) = value B l + B ^ i * (f (l.getD i 0) - l.getD i 0) := by
  induction l generalizing i with
  | nil => simp at h
  | cons x xs ih =>
    cases i with
    | zero =>
      rw [List.modify_zero_cons, value_cons, value_cons, List.getD_cons_zero]
      ring
    | succ i =>
      rw [List.modify_succ_cons, value_cons, value_cons, ih (Nat.lt_of_succ_lt_succ h),
        List.getD_cons_succ, pow_succ]
      ring

theorem modify_congr {l : List ℤ} {i : ℕ} {f g : ℤ → ℤ} (h : f (l.getD i 0) = g (l.getD i 0)) :
    l.modify i f = l.modify i g := by
  induction l generalizing i with
  | nil => rw [List.modify_nil, List.modify_nil]
  | cons x xs ih =>
    cases i with
    | zero =>
      rw [List.getD_cons_zero] at h
      rw [List.modify_zero_cons, List.modify_zero_cons, h]
    | succ i =>
      rw [List.getD_cons_succ] at h
      rw [List.modify_succ_cons, List.modify_succ_cons, ih h]

theorem value_replicate_zero (n : ℕ) : value B (List.replicate n 0) = 0 := by
  induction n with
  | zero => rfl
  | succ n ih => rw [List.replicate_succ, value_cons, ih, mul_zero, add_zero]

theorem value_zipWith_add {xs ys : List ℤ} (h : xs.length = ys.length) :
    value B (List.zipWith (· + ·) xs ys) = value B xs + value B ys := by
  induction xs generalizing ys with
  | nil =>
    obtain rfl := List.length_eq_zero_iff.mp h.symm
    rfl
  | cons x xs ih =>
    cases ys with
    | nil => simp at h
    | cons y ys =>
      rw [List.zipWith_cons_cons, value_cons, value_cons, value_cons, ih (by simpa using h)]
      ring

theorem value_zipWith_sub {xs ys : List ℤ} (h : xs.length = ys.length) :
    value B (List.zipWith (· - ·) xs ys) = value B xs - value B ys := by
  induction xs generalizing ys with
  | nil =>
    obtain rfl := List.length_eq_zero_iff.mp h.symm
    rfl
  | cons x xs ih =>
    cases ys with
    | nil => simp at h
    | cons y ys =>
      rw [List.zipWith_cons_cons, value_cons, value_cons, value_cons, ih (by simpa using h)]
      ring

theorem getD_zipWith {f : ℤ → ℤ → ℤ} (hf : f 0 0 = 0) {xs ys : List ℤ}
    (hlen : xs.length = ys.length) (i : ℕ) :
    (List.zipWith f xs ys).getD i 0 = f (xs.getD i 0) (ys.getD i 0) := by
  rcases Nat.lt_or_ge i xs.length with hi | hi
  · rw [List.getD_eq_getElem _ _ (by rw [List.length_zipWith]; omega), List.getElem_zipWith,
      List.getD_eq_getElem _ _ hi, List.getD_eq_getElem _ _ (hlen ▸ hi)]
  · rw [List.getD_eq_default _ _ (by rw [List.length_zipWith]; omega),
      List.getD_eq_default _ _ hi, List.getD_eq_default _ _ (hlen ▸ hi), hf]

/-! ### Additions to single limbs -/

theorem getD_modify (l : List ℤ) (i j : ℕ) (f : ℤ → ℤ) :
    (l.modify i f).getD j 0 =
      if i = j ∧ j < l.length then f (l.getD j 0) else l.getD j 0 := by
  rw [List.getD_eq_getElem?_getD, List.getElem?_modify, List.getD_eq_getElem?_getD]
  rcases Nat.lt_or_ge j l.length with hj | hj
  · rw [List.getElem?_eq_getElem hj]
    by_cases hij : i = j <;> simp [hij, hj]
  · rw [List.getElem?_eq_none hj]
    simp [hj.not_gt]

/-- One summand into each of `n` limbs, from the limb `i` on. -/
def addRow (i n : ℕ) (f : ℕ → ℤ) (t : List ℤ) : List ℤ :=
  (List.range n).foldl (fun t j => t.modify (i + j) (· + f j)) t

theorem addRow_succ (i n : ℕ) (f : ℕ → ℤ) (t : List ℤ) :
    addRow i (n + 1) f t = (addRow i n f t).modify (i + n) (· + f n) := by
  rw [addRow, List.range_succ, List.foldl_append]
  rfl

@[simp]
theorem length_addRow (i n : ℕ) (f : ℕ → ℤ) (t : List ℤ) : (addRow i n f t).length = t.length := by
  induction n with
  | zero => rfl
  | succ n ih => rw [addRow_succ, List.length_modify, ih]

theorem getD_addRow {i n : ℕ} {f : ℕ → ℤ} {t : List ℤ} (h : i + n ≤ t.length) (k : ℕ) :
    (addRow i n f t).getD k 0 =
      t.getD k 0 + if i ≤ k ∧ k < i + n then f (k - i) else 0 := by
  induction n with
  | zero =>
    rw [if_neg (by omega), add_zero]
    rfl
  | succ n ih =>
    rw [addRow_succ, getD_modify, length_addRow, ih (by omega)]
    rcases Nat.lt_trichotomy k (i + n) with hk | rfl | hk
    · rw [if_neg (by omega)]
      congr 1
      exact if_congr (by omega) rfl rfl
    · rw [if_pos ⟨rfl, by omega⟩, if_neg (by omega), if_pos (by omega), add_zero,
        Nat.add_sub_cancel_left]
    · rw [if_neg (by omega), if_neg (by omega), if_neg (by omega)]

theorem value_addRow {i n : ℕ} {f : ℕ → ℤ} {t : List ℤ} (h : i + n ≤ t.length) :
    value B (addRow i n f t) = value B t + B ^ i * ∑ j ∈ Finset.range n, f j * B ^ j := by
  induction n with
  | zero => simp [addRow]
  | succ n ih =>
    rw [addRow_succ, value_modify _ (by rw [length_addRow]; omega), ih (by omega),
      Finset.sum_range_succ, pow_add]
    ring

theorem length_foldl {α : Type*} {step : List ℤ → α → List ℤ}
    (hstep : ∀ t a, (step t a).length = t.length) (as : List α) (t : List ℤ) :
    (as.foldl step t).length = t.length := by
  induction as generalizing t with
  | nil => rfl
  | cons a as ih => rw [List.foldl_cons, ih, hstep]

/-! ### Bounds -/

/-- Each limb is within the bound of its place. -/
def Bounded (b t : List ℤ) : Prop := ∀ j, |t.getD j 0| ≤ b.getD j 0

section Bounded

variable {b t : List ℤ} {i n : ℕ}

theorem Bounded.modify {f g : ℤ → ℤ} (h : Bounded b t) (hlen : b.length = t.length)
    (hf : |f (t.getD i 0)| ≤ g (b.getD i 0)) : Bounded (b.modify i g) (t.modify i f) := by
  intro j
  rw [getD_modify, getD_modify, hlen]
  by_cases hj : i = j ∧ j < t.length
  · rw [if_pos hj, if_pos hj, ← hj.1]
    exact hf
  · rw [if_neg hj, if_neg hj]
    exact h j

theorem Bounded.addRow {f g : ℕ → ℤ} (h : Bounded b t) (hlen : b.length = t.length)
    (hf : ∀ j < n, |f j| ≤ g j) : Bounded (addRow i n g b) (addRow i n f t) := by
  induction n with
  | zero => exact h
  | succ n ih =>
    rw [addRow_succ, addRow_succ]
    have hrow := ih fun j hj => hf j (by omega)
    exact hrow.modify (by simp [hlen])
      ((abs_add_le _ _).trans (add_le_add (hrow _) (hf n n.lt_succ_self)))

theorem Bounded.abs_value_le (h : Bounded b t) (hlen : b.length = t.length) (hB : 0 ≤ B) :
    |value B t| ≤ value B b := by
  rw [value_eq_sum, value_eq_sum, hlen]
  refine (Finset.abs_sum_le_sum_abs _ _).trans (Finset.sum_le_sum fun j _ => ?_)
  rw [abs_mul, abs_of_nonneg (pow_nonneg hB j)]
  exact mul_le_mul_of_nonneg_right (h j) (pow_nonneg hB j)

/-- Steps that keep to bounds, one after the other. -/
theorem Bounded.foldl {α : Type*} {bound step : List ℤ → α → List ℤ}
    (hbound : ∀ b a, (bound b a).length = b.length) (hstep : ∀ t a, (step t a).length = t.length)
    (h : ∀ {b t a}, Bounded b t → b.length = t.length → Bounded (bound b a) (step t a))
    (as : List α) (hb : Bounded b t) (hlen : b.length = t.length) :
    Bounded (as.foldl bound b) (as.foldl step t) := by
  induction as generalizing b t with
  | nil => exact hb
  | cons a as ih => exact ih (h hb hlen) (by rw [hbound, hstep, hlen])

end Bounded

/-! ### Products -/

/-- The products of all limbs, each added to the limb of its place, row by row. -/
def mulRows (a b : List ℤ) (m n : ℕ) (t : List ℤ) : List ℤ :=
  (List.range m).foldl (fun t i => addRow i n (fun j => a.getD i 0 * b.getD j 0) t) t

theorem mulRows_succ (a b : List ℤ) (m n : ℕ) (t : List ℤ) : mulRows a b (m + 1) n t =
    addRow m n (fun j => a.getD m 0 * b.getD j 0) (mulRows a b m n t) := by
  rw [mulRows, List.range_succ, List.foldl_append]
  rfl

@[simp]
theorem length_mulRows (a b : List ℤ) (m n : ℕ) (t : List ℤ) :
    (mulRows a b m n t).length = t.length := by
  induction m with
  | zero => rfl
  | succ m ih => rw [mulRows_succ, length_addRow, ih]

theorem value_mulRows {a b : List ℤ} {m : ℕ} {t : List ℤ} (hm : m + b.length ≤ t.length + 1) :
    value B (mulRows a b m b.length t) =
      value B t + (∑ i ∈ Finset.range m, a.getD i 0 * B ^ i) * value B b := by
  induction m with
  | zero => simp [mulRows]
  | succ m ih =>
    rw [mulRows_succ, value_addRow (by rw [length_mulRows]; omega), ih (by omega),
      Finset.sum_range_succ, value_eq_sum b, add_mul, ← add_assoc]
    congr 1
    rw [Finset.mul_sum, Finset.mul_sum]
    exact Finset.sum_congr rfl fun j _ => by ring

/-- The rows add at most one product to a limb. -/
theorem abs_getD_mulRows_le {a b : List ℤ} {m n : ℕ} {t : List ℤ} (hm : m + n ≤ t.length + 1)
    {α β : ℤ} (ha : ∀ i, |a.getD i 0| ≤ α) (hb : ∀ j, |b.getD j 0| ≤ β) (k : ℕ) :
    |(mulRows a b m n t).getD k 0| ≤ |t.getD k 0| + m * (α * β) := by
  have hα : 0 ≤ α := (abs_nonneg _).trans (ha 0)
  have hβ : 0 ≤ β := (abs_nonneg _).trans (hb 0)
  induction m with
  | zero => simp [mulRows]
  | succ m ih =>
    rw [mulRows_succ, getD_addRow (by rw [length_mulRows]; omega)]
    have hprod : |if m ≤ k ∧ k < m + n then a.getD m 0 * b.getD (k - m) 0 else 0| ≤ α * β := by
      split_ifs
      · rw [abs_mul]
        exact mul_le_mul (ha m) (hb _) (abs_nonneg _) hα
      · rw [abs_zero]
        exact mul_nonneg hα hβ
    refine (abs_add_le _ _).trans ?_
    push_cast
    linarith [ih (by omega)]

/-- The limbs from the `k`-th on, times a constant, added to the first limbs. -/
def wrapHigh (c : ℤ) (n k : ℕ) (t : List ℤ) : List ℤ :=
  (List.range n).foldl (fun t i => t.modify i (· + c * t.getD (i + k) 0)) t

theorem wrapHigh_succ (c : ℤ) (n k : ℕ) (t : List ℤ) : wrapHigh c (n + 1) k t =
    (wrapHigh c n k t).modify n (· + c * (wrapHigh c n k t).getD (n + k) 0) := by
  rw [wrapHigh, List.range_succ, List.foldl_append]
  rfl

@[simp]
theorem length_wrapHigh (c : ℤ) (n k : ℕ) (t : List ℤ) :
    (wrapHigh c n k t).length = t.length := by
  induction n with
  | zero => rfl
  | succ n ih => rw [wrapHigh_succ, List.length_modify, ih]

theorem getD_wrapHigh {c : ℤ} {n k : ℕ} {t : List ℤ} (hn : n ≤ k) (hk : k ≤ t.length) (j : ℕ) :
    (wrapHigh c n k t).getD j 0 = t.getD j 0 + if j < n then c * t.getD (j + k) 0 else 0 := by
  induction n generalizing j with
  | zero =>
    rw [if_neg (Nat.not_lt_zero j), add_zero]
    rfl
  | succ n ih =>
    rw [wrapHigh_succ, getD_modify, length_wrapHigh, ih (by omega), ih (by omega),
      if_neg (show ¬n + k < n by omega), add_zero]
    rcases Nat.lt_trichotomy j n with hj | rfl | hj
    · rw [if_neg (by omega), if_pos hj, if_pos (by omega)]
    · rw [if_pos ⟨rfl, by omega⟩, if_neg (by omega), if_pos (by omega), add_zero]
    · rw [if_neg (by omega), if_neg (by omega), if_neg (by omega)]

theorem drop_wrapHigh {c : ℤ} {n k : ℕ} {t : List ℤ} (hn : n ≤ k) :
    (wrapHigh c n k t).drop k = t.drop k := by
  induction n with
  | zero => rfl
  | succ n ih => rw [wrapHigh_succ, List.drop_modify_of_lt _ _ _ _ (by omega), ih (by omega)]

theorem value_wrapHigh {c : ℤ} {n k : ℕ} {t : List ℤ} (hn : n ≤ k) (hlen : t.length = k + n) :
    value B ((wrapHigh c n k t).take k) = value B (t.take k) + c * value B (t.drop k) := by
  have hdrop : value B (t.drop k) = ∑ i ∈ Finset.range n, t.getD (i + k) 0 * B ^ i := by
    rw [value_eq_sum, List.length_drop, hlen, Nat.add_sub_cancel_left]
    refine Finset.sum_congr rfl fun i _ => ?_
    rw [List.getD_eq_getElem?_getD, List.getElem?_drop, ← List.getD_eq_getElem?_getD, add_comm k]
  have hall : ∀ m ≤ n, value B (wrapHigh c m k t) =
      value B t + c * ∑ i ∈ Finset.range m, t.getD (i + k) 0 * B ^ i := by
    intro m hm
    induction m with
    | zero => simp [wrapHigh]
    | succ m ih =>
      have hread : (wrapHigh c m k t).getD (m + k) 0 = t.getD (m + k) 0 := by
        rw [getD_wrapHigh (by omega) (by omega), if_neg (by omega), add_zero]
      rw [wrapHigh_succ, value_modify _ (by rw [length_wrapHigh]; omega), ih (by omega), hread,
        Finset.sum_range_succ]
      ring
  have hsplit := value_take_drop (B := B) (wrapHigh c n k t) k (by rw [length_wrapHigh]; omega)
  rw [hall n le_rfl, drop_wrapHigh hn, ← hdrop, value_take_drop t k (by omega)] at hsplit
  linear_combination -hsplit

/-! ### Digits -/

/-- The limbs are digits in the base. -/
def Digits (B : ℤ) (l : List ℤ) : Prop := ∀ x ∈ l, 0 ≤ x ∧ x < B

theorem digits_nil : Digits B [] := fun _ h => absurd h List.not_mem_nil

theorem digits_cons {x : ℤ} {xs : List ℤ} :
    Digits B (x :: xs) ↔ (0 ≤ x ∧ x < B) ∧ Digits B xs := List.forall_mem_cons

theorem Digits.value_nonneg {l : List ℤ} (hB : 0 < B) (h : Digits B l) : 0 ≤ value B l := by
  induction l with
  | nil => exact le_rfl
  | cons x xs ih =>
    rw [digits_cons] at h
    exact add_nonneg h.1.1 (mul_nonneg hB.le (ih h.2))

theorem Digits.value_lt {l : List ℤ} (hB : 0 < B) (h : Digits B l) :
    value B l < B ^ l.length := by
  induction l with
  | nil => simp
  | cons x xs ih =>
    rw [digits_cons] at h
    calc x + B * value B xs < B + B * value B xs := by linarith [h.1.2]
      _ = B * (value B xs + 1) := by ring
      _ ≤ B * B ^ xs.length := mul_le_mul_of_nonneg_left (Int.add_one_le_of_lt (ih h.2)) hB.le
      _ = B ^ (x :: xs).length := by rw [List.length_cons, pow_succ, mul_comm]

/-- The least digit and the others. -/
theorem Digits.emod_ediv {x : ℤ} {xs : List ℤ} (h : Digits B (x :: xs)) :
    value B (x :: xs) % B = x ∧ value B (x :: xs) / B = value B xs := by
  obtain ⟨⟨hx, hxB⟩, -⟩ := digits_cons.mp h
  have hB : 0 < B := hx.trans_lt hxB
  rw [value_cons]
  constructor
  · rw [Int.add_mul_emod_self_left, Int.emod_eq_of_lt hx hxB]
  · rw [Int.add_mul_ediv_left _ _ hB.ne', Int.ediv_eq_zero_of_lt hx hxB, zero_add]

/-- The digits of a number are its remainders. -/
theorem Digits.getD_eq (hB : 0 < B) {l : List ℤ} (h : Digits B l) {i : ℕ} (hi : i < l.length) :
    l.getD i 0 = value B l / B ^ i % B := by
  induction l generalizing i with
  | nil => simp at hi
  | cons x xs ih =>
    obtain ⟨hmod, hdiv⟩ := h.emod_ediv
    cases i with
    | zero => rw [List.getD_cons_zero, pow_zero, Int.ediv_one, hmod]
    | succ i =>
      rw [List.getD_cons_succ, ih (digits_cons.mp h).2 (Nat.lt_of_succ_lt_succ hi), pow_succ',
        ← Int.ediv_ediv_of_nonneg hB.le, hdiv]

/-- A number has one list of digits of a length. -/
theorem Digits.inj {l l' : List ℤ} (h : Digits B l) (h' : Digits B l')
    (hlen : l.length = l'.length) (hvalue : value B l = value B l') : l = l' := by
  induction l generalizing l' with
  | nil => exact (List.length_eq_zero_iff.mp hlen.symm).symm
  | cons x xs ih =>
    cases l' with
    | nil => simp at hlen
    | cons y ys =>
      obtain ⟨hx, hxs⟩ := h.emod_ediv
      obtain ⟨hy, hys⟩ := h'.emod_ediv
      rw [hvalue] at hx hxs
      rw [← hx, hy, ih (digits_cons.mp h).2 (digits_cons.mp h').2 (by simpa using hlen)
        (hxs.symm.trans hys)]

/-! ### Carries -/

/-- The carries are passed on from the least limb: the digits, and the carry that is left. -/
def carry (B : ℤ) : ℤ → List ℤ → List ℤ × ℤ
  | c, [] => ([], c)
  | c, x :: xs =>
    let rest := carry B ((x + c) / B) xs
    ((x + c) % B :: rest.1, rest.2)

@[simp]
theorem length_carry (c : ℤ) (l : List ℤ) : (carry B c l).1.length = l.length := by
  induction l generalizing c with
  | nil => rfl
  | cons x xs ih => rw [carry, List.length_cons, ih, List.length_cons]

theorem carry_append (c : ℤ) (xs ys : List ℤ) : carry B c (xs ++ ys) =
    ((carry B c xs).1 ++ (carry B (carry B c xs).2 ys).1, (carry B (carry B c xs).2 ys).2) := by
  induction xs generalizing c with
  | nil => rfl
  | cons x xs ih => rw [List.cons_append, carry, ih, carry, List.cons_append]

theorem value_carry (c : ℤ) (l : List ℤ) :
    value B (carry B c l).1 + B ^ l.length * (carry B c l).2 = value B l + c := by
  induction l generalizing c with
  | nil => simp [carry]
  | cons x xs ih =>
    rw [carry, value_cons, value_cons, List.length_cons, pow_succ]
    linear_combination B * ih ((x + c) / B) + Int.emod_add_mul_ediv (x + c) B

theorem digits_carry (hB : 0 < B) (c : ℤ) (l : List ℤ) : Digits B (carry B c l).1 := by
  induction l generalizing c with
  | nil => exact digits_nil
  | cons x xs ih =>
    exact digits_cons.mpr ⟨⟨Int.emod_nonneg _ hB.ne', Int.emod_lt_of_pos _ hB⟩, ih _⟩

/-- A carry stays within a bound that covers the limbs. -/
theorem abs_carry_le (hB : 0 < B) {C K c : ℤ} {l : List ℤ} (hl : ∀ x ∈ l, |x| ≤ C) (hc : |c| ≤ K)
    (hK : C + K ≤ B * K) : |(carry B c l).2| ≤ K := by
  induction l generalizing c with
  | nil => exact hc
  | cons x xs ih =>
    refine ih (fun y hy => hl y (List.mem_cons_of_mem _ hy)) (abs_le.mpr ?_)
    have hx := abs_le.mp (hl x List.mem_cons_self)
    have hc' := abs_le.mp hc
    constructor
    · rw [Int.le_ediv_iff_mul_le hB]
      linarith
    · have hlt : x + c < (K + 1) * B := by linarith
      exact Int.le_of_lt_add_one (Int.ediv_lt_of_lt_mul hB hlt)

/-- Digits and a carry into them: only a carry of one can come out. -/
theorem carry_digits (hB : 0 < B) {c : ℤ} {l : List ℤ} (hl : Digits B l) (hc : |c| ≤ 1) :
    |(carry B c l).2| ≤ 1 := by
  induction l generalizing c with
  | nil => exact hc
  | cons x xs ih =>
    obtain ⟨⟨hx, hxB⟩, hxs⟩ := digits_cons.mp hl
    have hc' := abs_le.mp hc
    refine ih hxs (abs_le.mpr ⟨?_, ?_⟩)
    · rw [Int.le_ediv_iff_mul_le hB]
      linarith
    · exact Int.le_of_lt_add_one (Int.ediv_lt_of_lt_mul hB (by linarith))

/-- Differences of digits, and a borrow: only a borrow of one can come out. -/
theorem carry_borrow (hB : 0 < B) {c : ℤ} {l : List ℤ} (hl : ∀ x ∈ l, -B < x ∧ x < B)
    (hc : -1 ≤ c ∧ c ≤ 0) : -1 ≤ (carry B c l).2 ∧ (carry B c l).2 ≤ 0 := by
  induction l generalizing c with
  | nil => exact hc
  | cons x xs ih =>
    have hx := hl x List.mem_cons_self
    refine ih (fun y hy => hl y (List.mem_cons_of_mem _ hy)) ⟨?_, ?_⟩
    · rw [Int.le_ediv_iff_mul_le hB]
      linarith
    · exact Int.le_of_lt_add_one (Int.ediv_lt_of_lt_mul hB (by linarith))

theorem carry_of_digits {l : List ℤ} (h : Digits B l) : carry B 0 l = (l, 0) := by
  induction l with
  | nil => rfl
  | cons x xs ih =>
    obtain ⟨⟨hx, hxB⟩, hxs⟩ := digits_cons.mp h
    rw [carry, add_zero, Int.emod_eq_of_lt hx hxB, Int.ediv_eq_zero_of_lt hx hxB, ih hxs]

theorem Digits.append {l l' : List ℤ} (h : Digits B l) (h' : Digits B l') : Digits B (l ++ l') :=
  fun x hx => (List.mem_append.mp hx).elim (h x) (h' x)

/-- The digits of a number, and what is left above them. -/
theorem value_map_digits (b N n : ℕ) :
    value b ((List.range n).map fun i => ((N / b ^ i % b : ℕ) : ℤ)) +
      b ^ n * (N / b ^ n : ℕ) = N := by
  induction n with
  | zero => simp
  | succ n ih =>
    have hlen : ((List.range n).map fun i => ((N / b ^ i % b : ℕ) : ℤ)).length = n := by simp
    have hdiv : ((N / b ^ n % b : ℕ) : ℤ) + b * (N / b ^ n / b : ℕ) = (N / b ^ n : ℕ) := by
      exact_mod_cast Nat.mod_add_div _ _
    rw [List.range_succ, List.map_append, value_append, hlen, List.map_singleton, value_cons,
      value_nil, mul_zero, add_zero, pow_succ (b : ℤ), pow_succ b, ← Nat.div_div_eq_div_mul]
    linear_combination ih + (b : ℤ) ^ n * hdiv

/-- The carries passed on in place, limb by limb: `g` is the carry of a limb. -/
def ripple (B : ℤ) (g : ℤ → ℤ) (n : ℕ) (l : List ℤ) : List ℤ :=
  (List.range n).foldl
    (fun l i => (l.modify (i + 1) (· + g (l.getD i 0))).modify i (· % B)) l

theorem modify_append_right {α : Type*} (ds l : List α) (k : ℕ) (f : α → α) :
    (ds ++ l).modify (ds.length + k) f = ds ++ l.modify k f := by
  induction ds with
  | nil => rw [List.length_nil, Nat.zero_add, List.nil_append, List.nil_append]
  | cons x xs ih =>
    rw [List.length_cons, Nat.succ_add, List.cons_append, List.modify_succ_cons, ih,
      List.cons_append]

theorem ripple_eq {g : ℤ → ℤ} {n : ℕ} {l : List ℤ} (hn : n < l.length)
    (hg : ∀ i < n, g (l.getD i 0 + (carry B 0 (l.take i)).2) =
      (l.getD i 0 + (carry B 0 (l.take i)).2) / B) :
    ripple B g n l = (carry B 0 (l.take n)).1 ++
      (l.getD n 0 + (carry B 0 (l.take n)).2) :: l.drop (n + 1) := by
  induction n with
  | zero =>
    cases l with
    | nil => simp at hn
    | cons x xs => simp [ripple, carry]
  | succ n ih =>
    have hlen : ((carry B 0 (l.take n)).1).length = n := by
      rw [length_carry, List.length_take, min_eq_left (by omega)]
    have hstep : ripple B g (n + 1) l = ((ripple B g n l).modify (n + 1)
        (· + g ((ripple B g n l).getD n 0))).modify n (· % B) := by
      rw [ripple, List.range_succ, List.foldl_append]
      rfl
    have htake : l.take (n + 1) = l.take n ++ [l.getD n 0] := by
      rw [List.take_succ_eq_append_getElem (by omega), List.getD_eq_getElem _ _ (by omega)]
    have hdrop : l.drop (n + 1) = l.getD (n + 1) 0 :: l.drop (n + 2) := by
      rw [List.drop_eq_getElem_cons hn, List.getD_eq_getElem _ _ hn]
    have hget : ((carry B 0 (l.take n)).1 ++ (l.getD n 0 + (carry B 0 (l.take n)).2) ::
        l.drop (n + 1)).getD n 0 = l.getD n 0 + (carry B 0 (l.take n)).2 := by
      rw [List.getD_append_right _ _ _ _ hlen.le, hlen, Nat.sub_self, List.getD_cons_zero]
    rw [hstep, ih (by omega) fun i hi => hg i (by omega), hget, hg n (Nat.lt_succ_self n), htake,
      carry_append, hdrop]
    generalize carry B 0 (l.take n) = done at hlen
    have h₁ := modify_append_right done.1
    rw [hlen] at h₁
    rw [h₁, ← Nat.add_zero n, h₁]
    simp [carry]

end Limbs
