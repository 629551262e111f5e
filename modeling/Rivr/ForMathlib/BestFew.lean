import Mathlib.Data.List.DropRight
import Mathlib.Data.List.Induction
import Mathlib.Data.List.Sort
import Mathlib.Order.Defs.LinearOrder

/-!
# The best few

From a list of scored entries the best `k` are to be kept, in one pass: an entry joins as long as
there are fewer than `k`, and later it takes the place of the weakest one that is kept, if it is
better (`keep`). This leaves the first `k` of the entries when they are all sorted by their scores,
with the earlier one first of two equals (`foldl_keep`).
-/

namespace BestFew

variable {α β : Type*} [LinearOrder β] {score : α → β} {k : ℕ} {x : α} {l : List α}

/-- The first entry is not better than the second. -/
def NoBetter (score : α → β) (x y : α) : Prop := score x ≤ score y

instance : DecidableRel (NoBetter score) := fun x y =>
  inferInstanceAs (Decidable (score x ≤ score y))

instance : Std.Total (NoBetter score) := ⟨fun x y => le_total (score x) (score y)⟩

instance : IsTrans α (NoBetter score) := ⟨fun _ _ _ => le_trans⟩

/-- All entries, the best first, and of two equals the earlier one. -/
def ranking (score : α → β) (l : List α) : List α :=
  (l.reverse.insertionSort (NoBetter score)).reverse

/-- An entry takes the place of the weakest one, if it is better. -/
def displace (score : α → β) (x : α) : List α → List α
  | [] => []
  | weakest :: rest =>
    if score weakest < score x then rest.orderedInsert (NoBetter score) x else weakest :: rest

/-- One more entry for the `k` best, which are listed from the weakest to the best. -/
def keep (score : α → β) (k : ℕ) (kept : List α) (x : α) : List α :=
  if kept.length < k then kept.orderedInsert (NoBetter score) x else displace score x kept

/-! ### The ranking -/

theorem ranking_perm (score : α → β) (l : List α) : (ranking score l).Perm l :=
  (List.reverse_perm _).trans ((List.perm_insertionSort _ _).trans (List.reverse_perm l))

theorem pairwise_ranking (score : α → β) (l : List α) :
    (ranking score l).Pairwise fun x y => score y ≤ score x :=
  List.pairwise_reverse.mpr (List.pairwise_insertionSort (NoBetter score) l.reverse)

/-- An entry that is inserted comes before its equals. -/
theorem filter_orderedInsert (score : α → β) (s : β) (x : α) (l : List α) :
    (l.orderedInsert (NoBetter score) x).filter (score · = s) =
      (x :: l).filter (score · = s) := by
  induction l with
  | nil => rfl
  | cons y l ih =>
    by_cases hle : NoBetter score x y
    · rw [List.orderedInsert_cons_of_le _ _ hle]
    · rw [List.orderedInsert_of_not_le _ _ hle, List.filter_cons, ih, List.filter_cons,
        List.filter_cons, List.filter_cons]
      have hlt : score y < score x := lt_of_not_ge hle
      by_cases hy : score y = s
      · have hx : score x ≠ s := fun hx => (hlt.trans_eq hx).ne hy
        simp [hx]
      · simp [hy]

/-- **Stability.** Among equals the ranking keeps the order. -/
theorem filter_ranking (score : α → β) (s : β) (l : List α) :
    (ranking score l).filter (score · = s) = l.filter (score · = s) := by
  have hsort : ∀ l : List α, (l.insertionSort (NoBetter score)).filter (score · = s) =
      l.filter (score · = s) := by
    intro l
    induction l with
    | nil => rfl
    | cons x l ih =>
      rw [List.insertionSort_cons, filter_orderedInsert]
      simp only [List.filter_cons, ih]
  rw [ranking, List.filter_reverse, hsort, List.filter_reverse, List.reverse_reverse]

/-- The first entries of the ranking are the best. -/
theorem le_of_mem_drop_ranking {y : α} (hx : x ∈ (ranking score l).take k)
    (hy : y ∈ (ranking score l).drop k) : score y ≤ score x := by
  have hsorted := pairwise_ranking score l
  rw [← List.take_append_drop k (ranking score l)] at hsorted
  exact (List.pairwise_append.mp hsorted).2.2 x hx y hy

/-! ### One pass -/

theorem orderedInsert_append_of_lt {before : List α} (h : ∀ y ∈ before, score y < score x) :
    (before ++ l).orderedInsert (NoBetter score) x =
      before ++ l.orderedInsert (NoBetter score) x := by
  induction before with
  | nil => rfl
  | cons y before ih =>
    have hy : ¬NoBetter score x y := not_le_of_gt (h y List.mem_cons_self)
    rw [List.cons_append, List.orderedInsert_of_not_le _ _ hy,
      ih fun z hz => h z (List.mem_cons_of_mem y hz), List.cons_append]

/-- An entry that is not better than `y` comes before it. -/
theorem exists_orderedInsert_append {y : α} (h : score x ≤ score y) (before : List α) :
    ∃ before', (before ++ y :: l).orderedInsert (NoBetter score) x = before' ++ y :: l := by
  induction before with
  | nil => exact ⟨[x], List.orderedInsert_cons_of_le _ _ h⟩
  | cons z before ih =>
    by_cases hle : NoBetter score x z
    · refine ⟨x :: z :: before, ?_⟩
      rw [List.cons_append, List.orderedInsert_cons_of_le _ _ hle]
      rfl
    · obtain ⟨before', hinsert⟩ := ih
      refine ⟨z :: before', ?_⟩
      rw [List.cons_append, List.orderedInsert_of_not_le _ _ hle, hinsert]
      rfl

theorem rtake_append_length (before l : List α) : (before ++ l).rtake l.length = l := by
  rw [List.rtake, List.length_append, Nat.add_sub_cancel, List.drop_left]

theorem rtake_of_length_le (h : l.length ≤ k) : l.rtake k = l := by
  rw [List.rtake, Nat.sub_eq_zero_of_le h, List.drop_zero]

/-- Keeping the best `k` and inserting one more entry. -/
theorem rtake_orderedInsert (hsorted : l.Pairwise (NoBetter score)) :
    (l.orderedInsert (NoBetter score) x).rtake k = keep score k (l.rtake k) x := by
  by_cases hlen : l.length < k
  · rw [rtake_of_length_le hlen.le, keep, if_pos hlen]
    exact rtake_of_length_le (by rw [List.orderedInsert_length]; exact hlen)
  obtain ⟨before, kept, rfl, rfl⟩ : ∃ before kept, l = before ++ kept ∧ kept.length = k :=
    ⟨l.take (l.length - k), l.drop (l.length - k), (List.take_append_drop _ _).symm, by
      rw [List.length_drop]; omega⟩
  rw [rtake_append_length, keep, if_neg (lt_irrefl _)]
  cases kept with
  | nil =>
    rw [List.length_nil, List.rtake_zero]
    rfl
  | cons weakest rest =>
    rw [displace]
    split_ifs with hbetter
    · have hbefore : ∀ y ∈ before ++ [weakest], score y < score x := by
        intro y hy
        rcases List.mem_append.mp hy with hy | hy
        · have hle : score y ≤ score weakest :=
            (List.pairwise_append.mp hsorted).2.2 y hy weakest List.mem_cons_self
          exact hle.trans_lt hbetter
        · obtain rfl := List.mem_singleton.mp hy
          exact hbetter
      have hlength : (weakest :: rest).length =
          (rest.orderedInsert (NoBetter score) x).length := by
        rw [List.orderedInsert_length, List.length_cons]
      rw [← @List.singleton_append α weakest, ← List.append_assoc,
        orderedInsert_append_of_lt hbefore, List.singleton_append, hlength, rtake_append_length]
    · -- an entry that does not beat the weakest lands before it, outside the best `k`
      obtain ⟨before', hinsert⟩ := exists_orderedInsert_append (not_lt.mp hbetter) before
      rw [hinsert, rtake_append_length]

/-- **One pass** keeps the best `k` entries. -/
theorem foldl_keep (score : α → β) (k : ℕ) (l : List α) :
    (l.foldl (keep score k) []).reverse = (ranking score l).take k := by
  have hfold : l.foldl (keep score k) [] =
      (l.reverse.insertionSort (NoBetter score)).rtake k := by
    induction l using List.reverseRecOn with
    | nil => rw [List.reverse_nil, List.insertionSort_nil, List.rtake_nil]; rfl
    | append_singleton l x ih =>
      rw [List.foldl_concat, ih, List.reverse_concat, List.insertionSort_cons,
        rtake_orderedInsert (List.pairwise_insertionSort _ _)]
  rw [hfold, List.rtake_eq_reverse_take_reverse, List.reverse_reverse, ranking]

end BestFew
