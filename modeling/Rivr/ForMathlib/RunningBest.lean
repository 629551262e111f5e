import Mathlib.Data.List.MinMax
import Mathlib.Data.List.Induction

/-!
# The best so far

A scan that carries along the best entry it has met and its score, and lets an entry take its place
only with a strictly greater score. It starts with no entry and a score to beat, and ends with the
first entry of greatest score, if any entry beats that score (`foldl_step`).
-/

namespace RunningBest

variable {α β : Type*} [LinearOrder β] (score : α → β)

/-- The scan on one more entry. -/
def step (best : Option α × β) (x : α) : Option α × β :=
  if score x > best.2 then (some x, score x) else best

/-- The first entry of greatest score among those that beat `b`. -/
def bestAbove (b : β) (xs : List α) : Option α := (xs.filter fun x => b < score x).argmax score

variable {score} {b : β} {xs : List α} {x : α}

theorem step_of_gt {best : Option α × β} (h : score x > best.2) :
    step score best x = (some x, score x) := if_pos h

theorem step_of_le {best : Option α × β} (h : score x ≤ best.2) : step score best x = best :=
  if_neg (not_lt.mpr h)

theorem bestAbove_eq_none_iff : bestAbove score b xs = none ↔ ∀ x ∈ xs, score x ≤ b := by
  rw [bestAbove, List.argmax_eq_none, List.filter_eq_nil_iff]
  refine forall₂_congr fun x _ => ?_
  rw [decide_eq_true_eq, not_lt]

theorem bestAbove_eq_some (h : bestAbove score b xs = some x) :
    x ∈ xs ∧ b < score x ∧ ∀ y ∈ xs, score y ≤ score x := by
  obtain ⟨hmem, habove⟩ := List.mem_filter.mp (List.argmax_mem (f := score) h)
  have hlt : b < score x := of_decide_eq_true habove
  refine ⟨hmem, hlt, fun y hy => ?_⟩
  rcases le_or_gt (score y) b with hle | hgt
  · exact hle.trans hlt.le
  · exact List.le_of_mem_argmax (List.mem_filter.mpr ⟨hy, decide_eq_true hgt⟩) h

/-- The score that the scan carries along with its entry. -/
def carried (score : α → β) (b : β) : Option α → Option α × β
  | none => (none, b)
  | some x => (some x, score x)

/-- **The scan ends with the best entry.** -/
theorem foldl_step (score : α → β) (b : β) (xs : List α) :
    xs.foldl (step score) (none, b) = carried score b (bestAbove score b xs) := by
  induction xs using List.reverseRecOn with
  | nil => rfl
  | append_singleton xs x ih =>
    rw [List.foldl_append, ih, List.foldl_cons, List.foldl_nil]
    -- the scores that the scan carries are never below the one to beat
    have hcarried : b ≤ (carried score b (bestAbove score b xs)).2 := by
      cases hbest : bestAbove score b xs with
      | none => exact le_rfl
      | some c => exact (bestAbove_eq_some hbest).2.1.le
    by_cases hx : b < score x
    · have hconcat : bestAbove score b (xs ++ [x]) =
          ((xs.filter fun x => b < score x) ++ [x]).argmax score := by
        rw [bestAbove, List.filter_append, List.filter_cons_of_pos (by simpa using hx),
          List.filter_nil]
      rw [hconcat, List.argmax_concat]
      change step score (carried score b (bestAbove score b xs)) x =
        carried score b (Option.casesOn (bestAbove score b xs) (some x) fun c =>
          if score c < score x then some x else some c)
      cases bestAbove score b xs with
      | none => exact step_of_gt hx
      | some c =>
        dsimp only
        split_ifs with hlt
        · exact step_of_gt hlt
        · exact step_of_le (not_lt.mp hlt)
    · have hconcat : bestAbove score b (xs ++ [x]) = bestAbove score b xs := by
        rw [bestAbove, List.filter_append, List.filter_cons_of_neg (by simpa using hx),
          List.filter_nil, List.append_nil]
        rfl
      rw [hconcat]
      exact step_of_le ((not_lt.mp hx).trans hcarried)

end RunningBest
