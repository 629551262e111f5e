import Mathlib.Data.List.Basic
import Mathlib.Data.List.Count
import Mathlib.Order.Nat

/-!
# Logs of a bounded-memory filter

A filter that remembers the last `cap` keys it accepted, each for `window` time units, accepts
a key again only after it forgot it. Its log, newest first, is then `Spaced`: among the `cap`
entries before an entry there is none with the same key less than `window + 1` older. From
this alone follows what two acceptances of one key imply about everything that lies between
them (`Spaced.between`).
-/

namespace RecentLog

variable {κ : Type*}

/-- In a log, newest first: an accepted key that is tracked does not occur among the `cap`
entries before it, unless more than `window` older. -/
def Spaced (tracked : κ → Prop) (cap window : ℕ) : List (κ × ℕ) → Prop
  | [] => True
  | x :: log =>
    (tracked x.1 → ∀ i < cap, ∀ t, log[i]? = some (x.1, t) → window < x.2 - t) ∧
      Spaced tracked cap window log

/-- The times of a log, newest first, do not increase. -/
def Sorted (log : List (κ × ℕ)) : Prop := log.Pairwise fun x y => y.2 ≤ x.2

variable {tracked : κ → Prop} {cap window : ℕ}

theorem Spaced.of_append {A log : List (κ × ℕ)} (h : Spaced tracked cap window (A ++ log)) :
    Spaced tracked cap window log := by
  induction A with
  | nil => exact h
  | cons x A ih => exact ih h.2

/-- The last entry with a given key before the end of a log that ends in one: everything
newer has another key. -/
private theorem exists_last [DecidableEq κ] (k : κ) (t₀ : ℕ) (C : List (κ × ℕ)) :
    ∀ B : List (κ × ℕ), ∃ (B₁ rest : List (κ × ℕ)) (t : ℕ),
      B ++ (k, t₀) :: C = B₁ ++ (k, t) :: rest ∧ (∀ x ∈ B₁, x.1 ≠ k) ∧
        B₁.length ≤ B.countP (fun x => x.1 ≠ k) ∧ ((k, t) = (k, t₀) ∨ (k, t) ∈ B) := by
  intro B
  induction B with
  | nil => exact ⟨[], C, t₀, by simp⟩
  | cons x B ih =>
    by_cases hx : x.1 = k
    · obtain ⟨k', t⟩ := x
      obtain rfl : k' = k := hx
      exact ⟨[], B ++ (k', t₀) :: C, t, by simp⟩
    · obtain ⟨B₁, rest, t, heq, hne, hlen, ht⟩ := ih
      refine ⟨x :: B₁, rest, t, by simp [heq], ?_, ?_, ?_⟩
      · simpa [hx] using hne
      · simp only [List.length_cons, List.countP_cons, ne_eq, hx, not_false_eq_true, decide_true,
          if_true]
        simp only [ne_eq] at hlen
        omega
      · exact ht.imp_right fun h => List.mem_cons_of_mem _ h

/-- **What lies between two acceptances.** When a tracked key is accepted twice, either `cap`
entries with other keys came in between, or more than `window` time units passed. -/
theorem Spaced.between [DecidableEq κ] {B C : List (κ × ℕ)} {k : κ} {t₀ t₁ : ℕ}
    (h : Spaced tracked cap window ((k, t₁) :: (B ++ (k, t₀) :: C)))
    (hsorted : Sorted (B ++ (k, t₀) :: C)) (hk : tracked k) :
    cap ≤ B.countP (fun x => x.1 ≠ k) ∨ window < t₁ - t₀ := by
  obtain ⟨B₁, rest, t, heq, -, hlen, ht⟩ := exists_last k t₀ C B
  rcases Nat.lt_or_ge B₁.length cap with hlt | hge
  · right
    have hget : (B ++ (k, t₀) :: C)[B₁.length]? = some (k, t) := by simp [heq]
    have hwin : window < t₁ - t := h.1 hk _ hlt t hget
    have hle : t₀ ≤ t := by
      rcases ht with ht | ht
      · exact (congrArg Prod.snd ht).ge
      · exact (List.pairwise_append.mp hsorted).2.2 _ ht _ List.mem_cons_self
    omega
  · exact Or.inl (le_trans hge hlen)

end RecentLog
