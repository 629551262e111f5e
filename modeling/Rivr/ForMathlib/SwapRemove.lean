import Mathlib.Data.List.Perm.Basic

/-!
# Removal by swapping with the last entry

An entry of a list is removed by moving the last entry into its place (`swapRemove`). A sweep goes
through the list and so removes every entry that has a property: it looks at the place of a removed
entry again, since another one has moved there. What is left are the entries without the property,
in some order (`sweep_perm`).
-/

namespace SwapRemove

variable {α : Type*} {p : α → Prop} [DecidablePred p] {l : List α} {x : α} {i turns : ℕ}

/-- The list without entry `i`, in whose place the last entry stands. -/
def swapRemove (l : List α) (i : ℕ) : List α :=
  match l.getLast? with
  | some last => (l.set i last).dropLast
  | none => []

/-- The removal of all entries that have the property, from place `i` on. -/
def sweep (p : α → Prop) [DecidablePred p] : ℕ → ℕ → List α → List α
  | 0, _, l => l
  | turns + 1, i, l =>
    match l[i]? with
    | some x => if p x then sweep p turns i (swapRemove l i) else sweep p turns (i + 1) l
    | none => l

/-- The last entry is dropped. -/
theorem swapRemove_concat_length (l : List α) (x : α) : swapRemove (l ++ [x]) l.length = l := by
  rw [swapRemove, List.getLast?_concat]
  dsimp only
  rw [List.set_append_right _ _ (Nat.le_refl _), Nat.sub_self, List.set_cons_zero, List.dropLast_concat]

/-- Another entry gives its place to the last one. -/
theorem swapRemove_concat (hi : i < l.length) (x : α) : swapRemove (l ++ [x]) i = l.set i x := by
  rw [swapRemove, List.getLast?_concat]
  dsimp only
  rw [List.set_append_left _ _ hi, List.dropLast_concat]

theorem perm_swapRemove (hx : l[i]? = some x) : l.Perm (x :: swapRemove l i) := by
  obtain ⟨hi, hget⟩ := List.getElem?_eq_some_iff.mp hx
  rcases List.eq_nil_or_concat' l with rfl | ⟨l, last, rfl⟩
  · exact absurd hi (Nat.not_lt_zero i)
  rw [List.length_append, List.length_singleton] at hi
  rcases Nat.lt_succ_iff_lt_or_eq.mp hi with hlt | rfl
  · rw [swapRemove_concat hlt]
    rw [List.getElem_append_left hlt] at hget
    have hset := List.set_perm_cons_eraseIdx hlt last
    have herase := List.getElem_cons_eraseIdx_perm hlt
    rw [hget] at herase
    calc (l ++ [last]).Perm (last :: l) := List.perm_append_singleton last l
      List.Perm _ (last :: x :: l.eraseIdx i) := herase.symm.cons last
      List.Perm _ (x :: last :: l.eraseIdx i) := List.Perm.swap x last _
      List.Perm _ (x :: l.set i last) := hset.symm.cons x
  · rw [swapRemove_concat_length]
    rw [List.getElem_concat_length rfl] at hget
    subst hget
    exact List.perm_append_singleton _ l

theorem length_swapRemove (hx : l[i]? = some x) : (swapRemove l i).length + 1 = l.length :=
  ((perm_swapRemove hx).length_eq).symm

/-- The entries before the removed one stay. -/
theorem take_swapRemove (hx : l[i]? = some x) : (swapRemove l i).take i = l.take i := by
  obtain ⟨hi, -⟩ := List.getElem?_eq_some_iff.mp hx
  rcases List.eq_nil_or_concat' l with rfl | ⟨l, last, rfl⟩
  · exact absurd hi (Nat.not_lt_zero i)
  rw [List.length_append, List.length_singleton] at hi
  rw [List.take_append_of_le_length (Nat.le_of_lt_succ hi)]
  rcases Nat.lt_succ_iff_lt_or_eq.mp hi with hlt | rfl
  · rw [swapRemove_concat hlt, List.take_set_of_le (Nat.le_refl _)]
  · rw [swapRemove_concat_length]

/-- **The sweep** leaves the entries without the property, when it has a turn for every place. -/
theorem sweep_perm (hturns : l.length ≤ i + turns) (hkept : ∀ x ∈ l.take i, ¬p x) :
    (sweep p turns i l).Perm (l.filter fun x => ¬p x) := by
  have hdone : ∀ {l : List α} {i : ℕ}, l.length ≤ i → (∀ x ∈ l.take i, ¬p x) →
      l.Perm (l.filter fun x => ¬p x) := by
    intro l i hle hkept
    rw [List.take_of_length_le hle] at hkept
    rw [List.filter_eq_self.mpr fun x hx => decide_eq_true (hkept x hx)]
  induction turns generalizing i l with
  | zero => exact hdone hturns hkept
  | succ turns ih =>
    rw [sweep]
    cases hx : l[i]? with
    | none => exact hdone (List.getElem?_eq_none_iff.mp hx) hkept
    | some x =>
      dsimp only
      split_ifs with hp
      · have hlen := length_swapRemove hx
        have hperm := (perm_swapRemove hx).filter fun x => ¬p x
        rw [List.filter_cons_of_neg (by simpa using hp)] at hperm
        refine (ih (by omega) ?_).trans hperm.symm
        rwa [take_swapRemove hx]
      · refine ih (by omega) ?_
        rw [List.take_add_one, hx]
        intro y hy
        rcases List.mem_append.mp hy with hy | hy
        · exact hkept y hy
        · obtain rfl := List.mem_singleton.mp hy
          exact hp

end SwapRemove
