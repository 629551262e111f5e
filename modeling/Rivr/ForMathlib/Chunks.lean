import Mathlib.Data.List.Basic

/-!
# Lists in pieces

A list that is packed of pieces of one length is read piece by piece.
-/

namespace Chunks

variable {α : Type*} {k : ℕ}

/-- The piece at an index of a packed list. -/
theorem take_drop_flatten {L : List (List α)} (hk : ∀ l ∈ L, l.length = k) {i : ℕ}
    (hi : i < L.length) : (L.flatten.drop (k * i)).take k = L[i] := by
  induction L generalizing i with
  | nil => exact absurd hi (Nat.not_lt_zero _)
  | cons l L ih =>
    have hl : l.length = k := hk l List.mem_cons_self
    cases i with
    | zero =>
      rw [Nat.mul_zero, List.drop_zero, List.flatten_cons, ← hl, List.take_left]
      rfl
    | succ i =>
      rw [List.flatten_cons, Nat.mul_succ, Nat.add_comm, ← List.drop_drop, ← hl, List.drop_left, hl,
        ih (fun m hm => hk m (List.mem_cons_of_mem _ hm)) (Nat.lt_of_succ_lt_succ hi)]
      rfl

end Chunks
