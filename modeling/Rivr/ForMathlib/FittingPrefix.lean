import Mathlib.Algebra.Order.Ring.Nat
import Mathlib.Data.List.Induction

/-!
# The longest prefix that fits

The members of a list have weights, and only a list of a limited weight has room. The longest prefix
with room is `fitting` (`fitting_isPrefix`, `weight_fitting_le`, `prefix_fitting`).

A place of `n` takes lists one after another, of each the longest prefix that there is still room
for (`push`). What it holds always starts with the longest prefix of all of them together that fits
(`fitting_flatten_isPrefix`); it holds more than that if a list finds room behind one that was cut,
and only then (`content_eq_fitting_iff`).
-/

namespace FittingPrefix

variable {α : Type*} {w : α → ℕ} {n : ℕ} {l₁ l₂ l : List α}

/-- The weight of a list. -/
def weight (w : α → ℕ) (l : List α) : ℕ := (l.map w).sum

/-- The longest prefix of a weight of at most `n`. -/
def fitting (w : α → ℕ) (n : ℕ) : List α → List α
  | [] => []
  | a :: l => if w a ≤ n then a :: fitting w (n - w a) l else []

theorem fitting_cons (w : α → ℕ) (n : ℕ) (a : α) (l : List α) :
    fitting w n (a :: l) = if w a ≤ n then a :: fitting w (n - w a) l else [] := rfl

@[simp] theorem weight_nil : weight w [] = 0 := rfl

@[simp] theorem weight_cons (a : α) (l : List α) : weight w (a :: l) = w a + weight w l := by
  simp [weight]

@[simp] theorem weight_append (l₁ l₂ : List α) :
    weight w (l₁ ++ l₂) = weight w l₁ + weight w l₂ := by
  simp [weight]

/-! ### One list -/

theorem fitting_isPrefix (w : α → ℕ) (n : ℕ) (l : List α) : fitting w n l <+: l := by
  induction l generalizing n with
  | nil => exact List.prefix_rfl
  | cons a l ih =>
    rw [fitting_cons]
    split_ifs
    · exact (List.prefix_cons_inj a).mpr (ih _)
    · exact List.nil_prefix

theorem weight_fitting_le (w : α → ℕ) (n : ℕ) (l : List α) : weight w (fitting w n l) ≤ n := by
  induction l generalizing n with
  | nil => exact Nat.zero_le n
  | cons a l ih =>
    rw [fitting_cons]
    split_ifs with ha
    · rw [weight_cons]
      exact Nat.add_le_of_le_sub' ha (ih _)
    · exact Nat.zero_le n

/-- No other prefix that fits is longer. -/
theorem prefix_fitting (hl : l₁ <+: l) (hw : weight w l₁ ≤ n) : l₁ <+: fitting w n l := by
  induction l generalizing n l₁ with
  | nil => exact hl
  | cons a l ih =>
    cases l₁ with
    | nil => exact List.nil_prefix
    | cons b l₁ =>
      obtain ⟨rfl, htail⟩ := List.cons_prefix_cons.mp hl
      rw [weight_cons] at hw
      rw [fitting_cons, if_pos (Nat.le_of_add_right_le hw)]
      exact (List.prefix_cons_inj b).mpr (ih htail (Nat.le_sub_of_add_le' hw))

theorem fitting_of_weight_le (h : weight w l ≤ n) : fitting w n l = l :=
  (fitting_isPrefix w n l).eq_of_length_le (prefix_fitting List.prefix_rfl h).length_le

/-- A list that fits leaves its room to the next one. -/
theorem fitting_append_of_weight_le (h : weight w l₁ ≤ n) (l₂ : List α) :
    fitting w n (l₁ ++ l₂) = l₁ ++ fitting w (n - weight w l₁) l₂ := by
  induction l₁ generalizing n with
  | nil => rfl
  | cons a l₁ ih =>
    rw [weight_cons] at h
    rw [List.cons_append, fitting_cons, if_pos (Nat.le_of_add_right_le h),
      ih (Nat.le_sub_of_add_le' h), weight_cons, Nat.sub_sub]
    rfl

/-- What comes after a list that does not fit does not matter. -/
theorem fitting_append_of_lt_weight (h : n < weight w l₁) (l₂ : List α) :
    fitting w n (l₁ ++ l₂) = fitting w n l₁ := by
  induction l₁ generalizing n with
  | nil => exact absurd h (Nat.not_lt_zero n)
  | cons a l₁ ih =>
    rw [List.cons_append, fitting_cons, fitting_cons]
    split_ifs with ha
    · rw [weight_cons] at h
      rw [ih (Nat.sub_lt_left_of_lt_add ha h)]
    · rfl

/-! ### Lists one after another -/

/-- What a place holds, and whether it has ever cut a list. -/
structure Filled (α : Type*) where
  content : List α
  cut : Bool

/-- A list comes to a place of `n`. -/
def Filled.push (w : α → ℕ) (n : ℕ) (f : Filled α) (l : List α) : Filled α where
  content := f.content ++ fitting w (n - weight w f.content) l
  cut := f.cut || decide (n - weight w f.content < weight w l)

/-- The lists come to the empty place. -/
def pushAll (w : α → ℕ) (n : ℕ) (ls : List (List α)) : Filled α :=
  ls.foldl (Filled.push w n) ⟨[], false⟩

theorem pushAll_concat (w : α → ℕ) (n : ℕ) (ls : List (List α)) (l : List α) :
    pushAll w n (ls ++ [l]) = (pushAll w n ls).push w n l := by
  rw [pushAll, List.foldl_append]
  rfl

variable {ls : List (List α)}

theorem weight_content_le (w : α → ℕ) (n : ℕ) (ls : List (List α)) :
    weight w (pushAll w n ls).content ≤ n := by
  induction ls using List.reverseRecOn with
  | nil => exact Nat.zero_le n
  | append_singleton ls l ih =>
    rw [pushAll_concat, Filled.push, weight_append]
    exact Nat.add_le_of_le_sub' ih (weight_fitting_le _ _ _)

theorem content_prefix_push (f : Filled α) (l : List α) : f.content <+: (f.push w n l).content :=
  List.prefix_append _ _

/-- As long as no list is cut all of them are held. -/
theorem content_of_not_cut (h : ¬(pushAll w n ls).cut) : (pushAll w n ls).content = ls.flatten := by
  induction ls using List.reverseRecOn with
  | nil => rfl
  | append_singleton ls l ih =>
    rw [pushAll_concat, Filled.push] at h ⊢
    simp only [Bool.or_eq_true, decide_eq_true_eq, not_or, Nat.not_lt] at h
    rw [List.flatten_concat, fitting_of_weight_le h.2, ih h.1]

/-- Lists of which one was cut do not fit together. -/
theorem lt_weight_of_cut (h : (pushAll w n ls).cut) : n < weight w ls.flatten := by
  induction ls using List.reverseRecOn with
  | nil => exact absurd h (by simp [pushAll])
  | append_singleton ls l ih =>
    rw [List.flatten_concat, weight_append]
    by_cases hcut : (pushAll w n ls).cut
    · exact Nat.lt_add_right _ (ih hcut)
    · rw [pushAll_concat, Filled.push, Bool.or_eq_true, or_iff_right hcut, decide_eq_true_eq] at h
      rw [← content_of_not_cut hcut]
      exact Nat.sub_lt_iff_lt_add' (weight_content_le w n ls) |>.mp h

theorem fitting_flatten_concat_of_cut (h : (pushAll w n ls).cut) (l : List α) :
    fitting w n (ls ++ [l]).flatten = fitting w n ls.flatten := by
  rw [List.flatten_concat, fitting_append_of_lt_weight (lt_weight_of_cut h)]

theorem content_concat_of_not_cut (h : ¬(pushAll w n ls).cut) (l : List α) :
    (pushAll w n (ls ++ [l])).content = fitting w n (ls ++ [l]).flatten := by
  have hcontent := content_of_not_cut h
  rw [pushAll_concat, Filled.push, List.flatten_concat, fitting_append_of_weight_le, ← hcontent]
  rw [← hcontent]
  exact weight_content_le w n ls

/-- The place holds the longest prefix of all lists together that fits. -/
theorem fitting_flatten_isPrefix (w : α → ℕ) (n : ℕ) (ls : List (List α)) :
    fitting w n ls.flatten <+: (pushAll w n ls).content := by
  induction ls using List.reverseRecOn with
  | nil => exact List.prefix_rfl
  | append_singleton ls l ih =>
    by_cases hcut : (pushAll w n ls).cut
    · rw [fitting_flatten_concat_of_cut hcut, pushAll_concat]
      exact ih.trans (content_prefix_push _ l)
    · exact ⟨[], by rw [List.append_nil, content_concat_of_not_cut hcut]⟩

/-- It holds nothing else exactly if nothing is added once a list was cut. -/
theorem content_eq_fitting_iff (w : α → ℕ) (n : ℕ) (ls : List (List α)) :
    (pushAll w n ls).content = fitting w n ls.flatten ↔
      ∀ as, as <+: ls → (pushAll w n as).cut →
        (pushAll w n ls).content = (pushAll w n as).content := by
  induction ls using List.reverseRecOn with
  | nil =>
    refine iff_of_true rfl fun as has _ => ?_
    rw [List.prefix_nil.mp has]
  | append_singleton ls l ih =>
    by_cases hcut : (pushAll w n ls).cut
    · -- behind a cut list the law says that this one adds nothing, and that it held before
      have hpre : (pushAll w n ls).content <+: (pushAll w n (ls ++ [l])).content := by
        rw [pushAll_concat]
        exact content_prefix_push _ l
      rw [fitting_flatten_concat_of_cut hcut]
      constructor
      · intro heq as has hascut
        have hls : (pushAll w n ls).content = (pushAll w n (ls ++ [l])).content :=
          hpre.eq_of_length_le (heq ▸ (fitting_flatten_isPrefix w n ls).length_le)
        rcases List.prefix_concat_iff.mp has with rfl | has
        · rfl
        · exact hls.symm.trans (ih.mp (hls.trans heq) as has hascut)
      · intro h
        have hls := h ls (List.prefix_append _ _) hcut
        rw [hls]
        exact ih.mpr fun as has hascut =>
          hls.symm.trans (h as (has.trans (List.prefix_append _ _)) hascut)
    · refine iff_of_true (content_concat_of_not_cut hcut l) fun as has hascut => ?_
      rcases List.prefix_concat_iff.mp has with rfl | ⟨t, rfl⟩
      · rfl
      · have hle := weight_content_le w n (as ++ t)
        rw [content_of_not_cut hcut, List.flatten_append, weight_append] at hle
        have hlt := lt_weight_of_cut hascut
        omega

end FittingPrefix
