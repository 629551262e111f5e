import Mathlib.Data.List.Basic

/-!
# Rings that hold the end of a log

A ring of slots in which each new entry overwrites the oldest one. Against the log of all entries,
newest first, the ring is described slot by slot (`Holds`), and so holds exactly the entries that
are not yet overwritten (`Holds.mem_iff`).
-/

namespace RingLog

variable {α : Type*}

/-- The `i`-th last entry of the log sits `i + 1` places behind the head; places that were never
written are `empty`. -/
structure Holds (empty : α) (log ring : List α) (head : ℕ) : Prop where
  head_lt : head < ring.length
  slot : ∀ i < ring.length,
    ring[(head + (ring.length - 1 - i)) % ring.length]? = some (log[i]?.getD empty)

variable {empty : α} {log ring : List α} {head : ℕ}

theorem holds_replicate {n : ℕ} (hn : 0 < n) : Holds empty [] (List.replicate n empty) 0 := by
  refine ⟨by simpa using hn, fun i _ => ?_⟩
  have hlt : (0 + ((List.replicate n empty).length - 1 - i)) %
      (List.replicate n empty).length < n := by
    rw [List.length_replicate]
    exact Nat.mod_lt _ hn
  rw [List.getElem?_eq_getElem (by simpa using hlt)]
  simp

/-- A new entry goes to the head. -/
theorem Holds.push (h : Holds empty log ring head) (x : α) :
    Holds empty (x :: log) (ring.set head x) ((head + 1) % ring.length) := by
  obtain ⟨hhead, hslot⟩ := h
  refine ⟨?_, ?_⟩
  · rw [List.length_set]
    exact Nat.mod_lt _ (Nat.zero_lt_of_lt hhead)
  · intro i hi
    rw [List.length_set] at hi ⊢
    rw [Nat.mod_add_mod]
    cases i with
    | zero =>
      -- the entry just written is one place behind the new head
      have hidx : (head + 1 + (ring.length - 1 - 0)) % ring.length = head := by
        have hsum : head + 1 + (ring.length - 1 - 0) = head + ring.length := by omega
        rw [hsum, Nat.add_mod_right, Nat.mod_eq_of_lt hhead]
      rw [hidx, List.getElem?_set_self hhead]
      rfl
    | succ i =>
      have hsum : head + 1 + (ring.length - 1 - (i + 1)) = head + (ring.length - 1 - i) := by omega
      have hne : head ≠ (head + (ring.length - 1 - i)) % ring.length := by
        intro heq
        by_cases hwrap : head + (ring.length - 1 - i) < ring.length
        · rw [Nat.mod_eq_of_lt hwrap] at heq
          omega
        · rw [Nat.mod_eq_sub_mod (by omega), Nat.mod_eq_of_lt (by omega)] at heq
          omega
      rw [hsum, List.getElem?_set_ne hne, hslot i (by omega)]
      rfl

/-- Entries may be changed in place, in the ring and in the log alike. -/
theorem Holds.map (h : Holds empty log ring head) {f : α → α} (hempty : f empty = empty) :
    Holds empty (log.map f) (ring.map f) head := by
  refine ⟨by simpa using h.head_lt, fun i hi => ?_⟩
  rw [List.length_map] at hi ⊢
  rw [List.getElem?_map, h.slot i hi, List.getElem?_map]
  rcases log[i]? with _ | x
  · exact congrArg some hempty
  · rfl

/-- Every slot is one of those behind the head. -/
theorem exists_slot {n k : ℕ} (hk : k < n) (hhead : head < n) :
    ∃ i < n, (head + (n - 1 - i)) % n = k := by
  by_cases hle : head ≤ k
  · refine ⟨n - 1 - (k - head), by omega, ?_⟩
    have hsum : head + (n - 1 - (n - 1 - (k - head))) = k := by omega
    rw [hsum, Nat.mod_eq_of_lt hk]
  · refine ⟨head - 1 - k, by omega, ?_⟩
    have hsum : head + (n - 1 - (head - 1 - k)) = k + n := by omega
    rw [hsum, Nat.add_mod_right, Nat.mod_eq_of_lt hk]

/-- **What the ring holds** is what the log ends in. -/
theorem Holds.mem_iff (h : Holds empty log ring head) {x : α} (hx : x ≠ empty) :
    x ∈ ring ↔ x ∈ log.take ring.length := by
  constructor
  · intro hmem
    obtain ⟨k, hk⟩ := List.mem_iff_getElem?.mp hmem
    have hlt : k < ring.length := (List.getElem?_eq_some_iff.mp hk).1
    obtain ⟨i, hi, rfl⟩ := exists_slot hlt h.head_lt
    rw [h.slot i hi] at hk
    rcases hlog : log[i]? with _ | y
    · rw [hlog] at hk
      exact absurd (Option.some.inj hk).symm hx
    · rw [hlog] at hk
      obtain rfl : y = x := Option.some.inj hk
      rw [List.mem_iff_getElem?]
      exact ⟨i, by rw [List.getElem?_take_of_lt hi, hlog]⟩
  · intro hmem
    obtain ⟨i, hi⟩ := List.mem_iff_getElem?.mp hmem
    rw [List.getElem?_take] at hi
    split_ifs at hi with hlt
    have hslot := h.slot i hlt
    rw [hi] at hslot
    exact List.mem_of_getElem? hslot

end RingLog
