import Mathlib.Data.List.Basic

/-!
# The lines of a stream

A stream is cut at the elements that `p` holds of, its newlines. As it is read element by element, a
newline completes the open line (`completedLines_concat_newline`), and another element is added to
it (`openLine_concat`).
-/

namespace StreamLines

variable {α : Type*} {p : α → Bool}

/-- An element that is no newline goes to the last piece. -/
theorem splitOnP_concat {a : α} (ha : p a = false) (l : List α) :
    ∃ init last, l.splitOnP p = init ++ [last] ∧
      (l ++ [a]).splitOnP p = init ++ [last ++ [a]] := by
  induction l with
  | nil => exact ⟨[], [], rfl, by simp [List.splitOnP_cons_eq_if_modifyHead, ha]⟩
  | cons b l ih =>
    obtain ⟨init, last, hl, hla⟩ := ih
    rw [List.cons_append, List.splitOnP_cons_eq_if_modifyHead, List.splitOnP_cons_eq_if_modifyHead,
      hl, hla]
    by_cases hb : p b
    · exact ⟨[] :: init, last, by simp [hb], by simp [hb]⟩
    · cases init with
      | nil => exact ⟨[], b :: last, by simp [hb], by simp [hb]⟩
      | cons x init => exact ⟨(b :: x) :: init, last, by simp [hb], by simp [hb]⟩

/-- The lines that are completed, other than empty ones. -/
def completedLines (p : α → Bool) (l : List α) : List (List α) :=
  (l.splitOnP p).dropLast.filter (!·.isEmpty)

/-- The line that is still open at the end. -/
def openLine (p : α → Bool) (l : List α) : List α :=
  (l.splitOnP p).getLast (List.splitOnP_ne_nil p l)

@[simp] theorem completedLines_nil : completedLines p [] = [] := rfl

@[simp] theorem openLine_nil : openLine p [] = [] := rfl

theorem completedLines_concat {a : α} (ha : p a = false) (l : List α) :
    completedLines p (l ++ [a]) = completedLines p l := by
  obtain ⟨init, last, hl, hla⟩ := splitOnP_concat ha l
  rw [completedLines, completedLines, hl, hla, List.dropLast_concat, List.dropLast_concat]

theorem openLine_concat {a : α} (ha : p a = false) (l : List α) :
    openLine p (l ++ [a]) = openLine p l ++ [a] := by
  obtain ⟨init, last, hl, hla⟩ := splitOnP_concat ha l
  simp only [openLine, hl, hla, List.getLast_append_singleton]

theorem openLine_concat_newline {a : α} (ha : p a) (l : List α) : openLine p (l ++ [a]) = [] := by
  simp only [openLine, List.splitOnP_append_cons l [] ha, List.splitOnP_nil,
    List.getLast_append_singleton]

theorem completedLines_concat_newline {a : α} (ha : p a) (l : List α) :
    completedLines p (l ++ [a]) =
      completedLines p l ++ if (openLine p l).isEmpty then [] else [openLine p l] := by
  rw [completedLines, List.splitOnP_append_cons l [] ha, List.splitOnP_nil, List.dropLast_concat,
    ← List.dropLast_append_getLast (List.splitOnP_ne_nil p l), List.filter_append]
  change completedLines p l ++ [openLine p l].filter _ = _
  cases h : (openLine p l).isEmpty <;> simp [h]

end StreamLines
