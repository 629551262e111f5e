import Mathlib.Algebra.Order.BigOperators.Group.List
import Mathlib.Algebra.Order.Group.Nat
import Mathlib.Algebra.Ring.Nat

/-!
# Sums over a trailing window

A log of timed costs, newest first. The cost inside the trailing window of width `w` at time
`t` is that of the entries with times in `(t - w, t]`. If it stays within a budget at the time
of every entry, counting what the log held then, it stays within the budget at every time:
between entries the window only loses (`windowSum_le`).
-/

namespace WindowSum

/-- The entries of the log in the window `(t - w, t]`. -/
def inWindow (w t : ℕ) (log : List (ℕ × ℕ)) : List (ℕ × ℕ) :=
  log.filter fun x => x.1 ≤ t ∧ t < x.1 + w

/-- The cost in the window `(t - w, t]`. -/
def windowSum (w t : ℕ) (log : List (ℕ × ℕ)) : ℕ := ((inWindow w t log).map Prod.snd).sum

/-- At every entry, the window that ends there keeps to the budget. -/
def Within (w budget : ℕ) : List (ℕ × ℕ) → Prop
  | [] => True
  | x :: log => windowSum w x.1 (x :: log) ≤ budget ∧ Within w budget log

/-- The times of a log, newest first, do not increase. -/
def Sorted (log : List (ℕ × ℕ)) : Prop := log.Pairwise fun x y => y.1 ≤ x.1

/-- A window that ends later, but not before any entry, sees no more. -/
theorem windowSum_mono {w t t' : ℕ} {log : List (ℕ × ℕ)} (hle : ∀ x ∈ log, x.1 ≤ t)
    (ht : t ≤ t') : windowSum w t' log ≤ windowSum w t log := by
  have hnested : inWindow w t' log =
      (inWindow w t log).filter fun x => x.1 ≤ t' ∧ t' < x.1 + w := by
    rw [inWindow, inWindow, List.filter_filter]
    refine List.filter_congr fun x hx => ?_
    have := hle x hx
    simp only [← Bool.decide_and, decide_eq_decide]
    omega
  have hsub : (inWindow w t' log).Sublist (inWindow w t log) := by
    rw [hnested]
    exact List.filter_sublist
  exact (hsub.map Prod.snd).sum_le_sum fun _ _ => Nat.zero_le _

/-- **Every window.** -/
theorem windowSum_le {w budget : ℕ} {log : List (ℕ × ℕ)} (h : Within w budget log)
    (hsorted : Sorted log) (t : ℕ) : windowSum w t log ≤ budget := by
  induction log with
  | nil => simp [windowSum, inWindow]
  | cons x log ih =>
    obtain ⟨hx, hlog⟩ := h
    obtain ⟨hle, hsorted⟩ := List.pairwise_cons.mp hsorted
    by_cases ht : x.1 ≤ t
    · refine (windowSum_mono ?_ ht).trans hx
      simpa using hle
    · have hout : windowSum w t (x :: log) = windowSum w t log := by
        simp only [windowSum, inWindow]
        rw [List.filter_cons_of_neg (by simp [ht])]
      rw [hout]
      exact ih hlog hsorted

end WindowSum
