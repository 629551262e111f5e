import Mathlib.Data.Finset.Card
import Mathlib.Data.List.Induction

/-!
# Eviction in the order of arrival

A place remembers the last `n` keys that arrived. A key that it remembers is not noted again when it
comes once more, and keeps its place in the order (`touch`). So a key that arrives is forgotten only
after `n` different other keys have come (`mem_take_or_card`), however often it comes itself
meanwhile.
-/

namespace FifoEviction

variable {α : Type*} [DecidableEq α] {n : ℕ} {key : α}

/-- A key comes to the log of arrivals, of which the last are remembered. -/
def touch (n : ℕ) (log : List α) (k : α) : List α := if k ∈ log.take n then log else k :: log

/-- The key is among the last `n`, behind some of the keys `ks`, each of them once. -/
def Behind (n : ℕ) (key : α) (ks log : List α) : Prop :=
  ∃ front rest, log = front ++ key :: rest ∧ front.length < n ∧ front.Nodup ∧
    ∀ k ∈ front, k ∈ ks.toFinset.erase key

theorem Behind.mem_take {ks log : List α} (h : Behind n key ks log) : key ∈ log.take n := by
  obtain ⟨front, rest, rfl, hlen, -⟩ := h
  rw [List.mem_take_iff_getElem]
  exact ⟨front.length, by simp [hlen], by simp⟩

/-- The keys that come later only add to those that have come. -/
theorem erase_subset_concat (ks : List α) (k : α) :
    ks.toFinset.erase key ⊆ (ks ++ [k]).toFinset.erase key := by
  refine Finset.erase_subset_erase key fun x hx => ?_
  rw [List.mem_toFinset] at hx ⊢
  exact List.mem_append_left _ hx

/-- A key that has arrived is among the last, unless enough others have come. -/
theorem behind_or_card (hn : 0 < n) (log : List α) (ks : List α) :
    Behind n key ks (ks.foldl (touch n) (key :: log)) ∨ n ≤ (ks.toFinset.erase key).card := by
  induction ks using List.reverseRecOn with
  | nil => exact .inl ⟨[], log, rfl, hn, List.nodup_nil, by simp⟩
  | append_singleton ks k ih =>
    rcases ih with hbehind | hcard
    · have hkey := hbehind.mem_take
      obtain ⟨front, rest, hlog, hlen, hnodup, hfront⟩ := hbehind
      have hmono : ∀ x ∈ front, x ∈ (ks ++ [k]).toFinset.erase key := fun x hx =>
        erase_subset_concat ks k (hfront x hx)
      rw [List.foldl_append, List.foldl_cons, List.foldl_nil, touch]
      split_ifs with hk
      · exact .inl ⟨front, rest, hlog, hlen, hnodup, hmono⟩
      · -- another key goes to the front, and is none of those that are there
        have hne : k ≠ key := fun h => hk (h ▸ hkey)
        have hnew : k ∈ (ks ++ [k]).toFinset.erase key := by simp [hne]
        have hfresh : k ∉ front := by
          intro hmem
          refine hk ?_
          rw [hlog, List.take_append, List.take_of_length_le (Nat.le_of_lt hlen)]
          exact List.mem_append_left _ hmem
        have hnodup' : (k :: front).Nodup := List.nodup_cons.mpr ⟨hfresh, hnodup⟩
        have hall : ∀ x ∈ k :: front, x ∈ (ks ++ [k]).toFinset.erase key :=
          List.forall_mem_cons.mpr ⟨hnew, hmono⟩
        by_cases hfull : (k :: front).length < n
        · exact .inl ⟨k :: front, rest, by rw [hlog]; rfl, hfull, hnodup', hall⟩
        · refine .inr (Nat.le_trans (Nat.not_lt.mp hfull) ?_)
          rw [← List.toFinset_card_of_nodup hnodup']
          exact Finset.card_le_card fun x hx => hall x (List.mem_toFinset.mp hx)
    · exact .inr (Nat.le_trans hcard (Finset.card_le_card (erase_subset_concat ks k)))

/-- A key that has arrived is remembered, unless enough others have come. -/
theorem mem_take_or_card (hn : 0 < n) (log : List α) (ks : List α) :
    key ∈ (ks.foldl (touch n) (key :: log)).take n ∨ n ≤ (ks.toFinset.erase key).card :=
  (behind_or_card hn log ks).imp_left Behind.mem_take

end FifoEviction
