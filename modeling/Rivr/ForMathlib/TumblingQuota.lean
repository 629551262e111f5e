import Mathlib.Algebra.Order.Group.Nat
import Mathlib.Data.List.Basic

/-!
# Quotas of tumbling windows

Time is cut into windows of width `w`, the `k`-th being `[k * w, (k + 1) * w)`. An operator sees
arrivals in the order of their times and serves an arrival when its rule allows one more after the
`n` it has served in that window. How many it serves of the first arrivals of a window is then a
function of their number (`quota`), and what it serves in an interval of the width of a window,
which meets two windows, follows from the numbers of arrivals alone (`Served.countIn_interval`).

The invariant `Served` relates the arrivals and the served times; `Served.snoc` is its only rule.
-/

namespace TumblingQuota

/-- How many of the times lie in `[a, b)`. -/
def countIn (a b : ℕ) (times : List ℕ) : ℕ := times.countP fun t => a ≤ t ∧ t < b

variable {a b c t : ℕ} {times ts out : List ℕ}

@[simp] theorem countIn_nil (a b : ℕ) : countIn a b [] = 0 := rfl

theorem countIn_append (a b : ℕ) (l l' : List ℕ) :
    countIn a b (l ++ l') = countIn a b l + countIn a b l' := List.countP_append

theorem countIn_singleton (a b t : ℕ) : countIn a b [t] = if a ≤ t ∧ t < b then 1 else 0 := by
  simp [countIn, List.countP_cons]

theorem countIn_congr (h : ∀ t ∈ times, (a ≤ t ∧ t < b) ↔ (a ≤ t ∧ t < c)) :
    countIn a b times = countIn a c times :=
  List.countP_congr fun t ht => by simpa using h t ht

theorem countIn_eq_zero (h : ∀ t ∈ times, t < a) : countIn a b times = 0 := by
  rw [countIn, List.countP_eq_zero]
  intro t ht hin
  have hlt := h t ht
  simp only [decide_eq_true_eq] at hin
  omega

/-- An interval is counted in two parts. -/
theorem countIn_split (hab : a ≤ b) (hbc : b ≤ c) (times : List ℕ) :
    countIn a c times = countIn a b times + countIn b c times := by
  induction times with
  | nil => rfl
  | cons t times ih =>
    have hcons : ∀ x y, countIn x y (t :: times) = countIn x y [t] + countIn x y times :=
      fun x y => countIn_append x y [t] times
    rw [hcons, hcons a b, hcons b c, ih]
    simp only [countIn_singleton]
    split_ifs <;> omega

/-! ### Quotas -/

/-- How many of the first `n` arrivals of a window are served by the rule. -/
def quota (rule : ℕ → Prop) [DecidablePred rule] : ℕ → ℕ
  | 0 => 0
  | n + 1 => if rule (quota rule n) then quota rule n + 1 else quota rule n

section Quota

variable (rule : ℕ → Prop) [DecidablePred rule]

/-- A rule that allows up to `cap` serves the first `cap`. -/
theorem quota_eq_min {cap : ℕ} (h : ∀ n, n ≤ cap → (rule n ↔ n < cap)) (n : ℕ) :
    quota rule n = min n cap := by
  induction n with
  | zero => simp [quota]
  | succ n ih =>
    rw [quota, ih]
    have hrule := h (min n cap) (by omega)
    split_ifs with hif
    · have := hrule.mp hif
      omega
    · have := mt hrule.mpr hif
      omega

end Quota

/-! ### Served arrivals -/

section Served

variable {w : ℕ} {rule : ℕ → ℕ → Prop} [∀ k, DecidablePred (rule k)]

/-- The times `out` are those of the arrivals `ts` that the rules of the windows serve, counted up
to any time of a window. -/
def Served (w : ℕ) (rule : ℕ → ℕ → Prop) [∀ k, DecidablePred (rule k)] (ts out : List ℕ) : Prop :=
  ∀ k x, k * w ≤ x → x ≤ (k + 1) * w →
    countIn (k * w) x out = quota (rule k) (countIn (k * w) x ts)

theorem served_nil : Served w rule [] [] := fun _ _ _ _ => rfl

/-- One more arrival, not before the others, is served by the rule of its window. -/
theorem Served.snoc (h : Served w rule ts out) (hlast : ∀ t' ∈ ts, t' ≤ t) {k : ℕ}
    (hk : k * w ≤ t) (ht : t < (k + 1) * w) :
    Served w rule (ts ++ [t])
      (out ++ if rule k (quota (rule k) (countIn (k * w) ((k + 1) * w) ts)) then [t] else []) := by
  intro j x hjx hxj
  rw [countIn_append, countIn_append, countIn_singleton, h j x hjx hxj]
  by_cases hin : j * w ≤ t ∧ t < x
  · -- the interval sees the arrival, so it is in the same window and has seen all before it
    obtain rfl : j = k := by
      have hkj : k < j + 1 := Nat.lt_of_mul_lt_mul_right (a := w) (by omega)
      have hjk : j < k + 1 := Nat.lt_of_mul_lt_mul_right (a := w) (by omega)
      omega
    have hcount : countIn (j * w) x ts = countIn (j * w) ((j + 1) * w) ts := by
      refine countIn_congr fun t' ht' => ?_
      have := hlast t' ht'
      omega
    rw [if_pos hin, hcount, quota]
    split_ifs
    · rw [countIn_singleton, if_pos hin]
    · rfl
  · rw [if_neg hin]
    split_ifs
    · rw [countIn_singleton, if_neg hin]
      rfl
    · rfl

/-- **What an interval serves.** An interval of the width of a window serves what is left of the
quota of the window it starts in, and what the next window's quota gives to the arrivals in it. -/
theorem Served.countIn_interval (h : Served w rule ts out) (hw : 0 < w) (x : ℕ) :
    countIn x (x + w) out =
      quota (rule (x / w)) (countIn (x / w * w) ((x / w + 1) * w) ts)
        - quota (rule (x / w)) (countIn (x / w * w) x ts)
        + quota (rule (x / w + 1)) (countIn ((x / w + 1) * w) (x + w) ts) := by
  have hdiv : x / w * w ≤ x := Nat.div_mul_le_self x w
  have hlt : x < (x / w + 1) * w := by
    rw [Nat.add_mul, Nat.one_mul]
    exact Nat.lt_div_mul_add hw
  have hend : x + w ≤ (x / w + 1 + 1) * w := by
    rw [Nat.add_mul (x / w + 1), Nat.one_mul]
    omega
  have hstart : (x / w + 1) * w ≤ x + w := by
    rw [Nat.add_mul, Nat.one_mul]
    omega
  rw [countIn_split hlt.le hstart, ← h (x / w + 1) (x + w) hstart hend,
    ← h (x / w) x hdiv hlt.le, ← h (x / w) ((x / w + 1) * w) (by omega) le_rfl,
    countIn_split hdiv hlt.le]
  omega

end Served

end TumblingQuota
