import Mathlib.Data.List.Basic
import Mathlib.Tactic.Ring

/-!
# Iterated hashing by blocks

A compression function folds the complete blocks of an input into a state, and what is left over
waits. An input that comes in pieces is absorbed like the whole, and the padding fills one block
or two.
-/

namespace MerkleDamgard

variable {α σ : Type*}

/-- Folds the complete blocks of `k` entries into the state: the state, and the rest. -/
def absorb (k : ℕ) (f : σ → List α → σ) (s : σ) (l : List α) : σ × List α :=
  if 0 < k ∧ k ≤ l.length then absorb k f (f s (l.take k)) (l.drop k) else (s, l)
termination_by l.length
decreasing_by
  rw [List.length_drop]
  omega

/-- The padding of an input of `n` entries: a first entry, zeros, and a suffix of `w` entries that
ends a block. -/
def padding (k w : ℕ) (one zero : α) (n : ℕ) (suffix : List α) : List α :=
  one :: (List.replicate ((2 * k - w - 1 - n % k) % k) zero ++ suffix)

variable {k : ℕ} {f : σ → List α → σ}

theorem absorb_of_lt {l : List α} (h : l.length < k) (s : σ) : absorb k f s l = (s, l) := by
  rw [absorb, if_neg fun hk => absurd hk.2 (Nat.not_le.mpr h)]

theorem absorb_of_le {l : List α} (hk : 0 < k) (h : k ≤ l.length) (s : σ) :
    absorb k f s l = absorb k f (f s (l.take k)) (l.drop k) := by
  rw [absorb, if_pos ⟨hk, h⟩]

/-- A block and what follows it. -/
theorem absorb_block_append {b : List α} (hk : 0 < k) (hb : b.length = k) (s : σ) (l : List α) :
    absorb k f s (b ++ l) = absorb k f (f s b) l := by
  rw [absorb_of_le hk (by rw [List.length_append, hb]; exact Nat.le_add_right _ _), ← hb,
    List.take_left, List.drop_left]

theorem absorb_block {b : List α} (hk : 0 < k) (hb : b.length = k) (s : σ) :
    absorb k f s b = (f s b, []) := by
  have h := absorb_block_append (f := f) hk hb s []
  rw [List.append_nil] at h
  rw [h, absorb_of_lt (by exact hk)]

/-- An induction along the blocks. -/
theorem absorb_append (hk : 0 < k) (s : σ) (l m : List α) :
    absorb k f s (l ++ m) = absorb k f (absorb k f s l).1 ((absorb k f s l).2 ++ m) := by
  induction hn : l.length using Nat.strong_induction_on generalizing s l with
  | _ n ih =>
    subst hn
    by_cases hl : l.length < k
    · rw [absorb_of_lt hl]
    · have hle := Nat.not_lt.mp hl
      have hdrop : (l.drop k).length < l.length := by
        rw [List.length_drop]
        omega
      have htake : (l.take k).length = k := by rw [List.length_take, Nat.min_eq_left hle]
      rw [absorb_of_le hk hle, ← ih _ hdrop _ _ rfl, ← absorb_block_append hk htake,
        ← List.append_assoc, List.take_append_drop]

/-- What is left over is the input's tail below a block. -/
theorem length_absorb_snd (hk : 0 < k) (s : σ) (l : List α) :
    (absorb k f s l).2.length = l.length % k := by
  induction hn : l.length using Nat.strong_induction_on generalizing s l with
  | _ n ih =>
    subst hn
    by_cases hl : l.length < k
    · rw [absorb_of_lt hl, Nat.mod_eq_of_lt hl]
    · have hle := Nat.not_lt.mp hl
      have hdrop : (l.drop k).length < l.length := by
        rw [List.length_drop]
        omega
      rw [absorb_of_le hk hle, ih _ hdrop _ _ rfl, List.length_drop, ← Nat.mod_eq_sub_mod hle]

/-- The padding that fits into the last block, or takes one more. -/
theorem absorb_padding {w : ℕ} {one zero : α} {r suffix : List α} (hw : w < k)
    (hr : r.length < k) (hlen : suffix.length = w) (n : ℕ) (hn : n % k = r.length) (s : σ) :
    absorb k f s (r ++ padding k w one zero n suffix) =
      (if k < r.length + 1 + w then
        f (f s (r ++ one :: List.replicate (k - 1 - r.length) zero))
          (List.replicate (k - w) zero ++ suffix)
      else f s (r ++ one :: (List.replicate (k - w - 1 - r.length) zero ++ suffix)), []) := by
  have hk : 0 < k := by omega
  rw [padding, hn]
  split_ifs with hfit
  · have hz : (2 * k - w - 1 - r.length) % k = (k - 1 - r.length) + (k - w) := by
      rw [Nat.mod_eq_of_lt (by omega)]
      omega
    have hfirst : (r ++ one :: List.replicate (k - 1 - r.length) zero).length = k := by
      simp only [List.length_append, List.length_cons, List.length_replicate]
      omega
    have hsecond : (List.replicate (k - w) zero ++ suffix).length = k := by
      simp only [List.length_append, List.length_replicate]
      omega
    rw [hz, List.replicate_add, List.append_assoc, ← List.cons_append, ← List.append_assoc r,
      absorb_block_append hk hfirst, absorb_block hk hsecond]
  · have hz : (2 * k - w - 1 - r.length) % k = k - w - 1 - r.length := by
      rw [show 2 * k - w - 1 - r.length = k - w - 1 - r.length + k by omega, Nat.add_mod_right,
        Nat.mod_eq_of_lt (by omega)]
    have hone :
        (r ++ one :: (List.replicate (k - w - 1 - r.length) zero ++ suffix)).length = k := by
      simp only [List.length_append, List.length_cons, List.length_replicate]
      omega
    rw [hz, absorb_block hk hone]

/-- A padded input: the blocks of the input, then the block or two of the padding. -/
theorem absorb_append_padding {w : ℕ} {one zero : α} {suffix : List α} (hw : w < k)
    (hlen : suffix.length = w) (s : σ) (l : List α) :
    absorb k f s (l ++ padding k w one zero l.length suffix) =
      (if k < (absorb k f s l).2.length + 1 + w then
        f (f (absorb k f s l).1 ((absorb k f s l).2 ++
            one :: List.replicate (k - 1 - (absorb k f s l).2.length) zero))
          (List.replicate (k - w) zero ++ suffix)
      else f (absorb k f s l).1 ((absorb k f s l).2 ++
        one :: (List.replicate (k - w - 1 - (absorb k f s l).2.length) zero ++ suffix)), []) := by
  have hk : 0 < k := by omega
  have hrest := length_absorb_snd (f := f) hk s l
  rw [absorb_append hk, absorb_padding hw (by rw [hrest]; exact Nat.mod_lt _ hk) hlen _ hrest.symm]

end MerkleDamgard
