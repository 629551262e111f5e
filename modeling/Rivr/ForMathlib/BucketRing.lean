import Mathlib.Algebra.BigOperators.Group.List.Basic
import Mathlib.Algebra.Order.Group.Nat
import Mathlib.Algebra.Ring.Nat
import Mathlib.Data.List.Nodup

/-!
# Counts in a ring of buckets

A ring of `n` counts, one for each unit of time, in which the count of a unit takes the place of the
one `n` units before it. Against the times of all events so far, the ring is described slot by slot
(`Holds`): a slot counts the events of the only unit in the last `n` that belongs to it. So the sum
of the ring counts the events of the last `n` units (`Holds.sum_eq`).
-/

namespace BucketRing

/-- The ring holds the counts of the last `n` units up to `last`, for the events at the given
times. -/
structure Holds (n last : ℕ) (times ring : List ℕ) : Prop where
  length_eq : ring.length = n
  past : ∀ t ∈ times, t ≤ last
  slot : ∀ i < n, ring[i]? = some (times.countP fun t => last < t + n ∧ t % n = i)

variable {n last last' : ℕ} {times ring : List ℕ}

/-- No events yet. -/
theorem holds_nil (n last : ℕ) : Holds n last [] (List.replicate n 0) where
  length_eq := List.length_replicate
  past _ ht := absurd ht List.not_mem_nil
  slot _ hi := List.getElem?_replicate_of_lt hi

/-- A unit passes: its bucket is cleared. -/
theorem Holds.next (h : Holds n last times ring) :
    Holds n (last + 1) times (ring.set ((last + 1) % n) 0) where
  length_eq := by rw [List.length_set, h.length_eq]
  past t ht := (h.past t ht).trans (Nat.le_succ last)
  slot i hi := by
    by_cases hidx : (last + 1) % n = i
    · -- the events of the bucket are older than the ring
      have hzero : times.countP (fun t => last + 1 < t + n ∧ t % n = i) = 0 := by
        refine List.countP_eq_zero.mpr fun t ht hin => ?_
        obtain ⟨hwindow, hslot⟩ := of_decide_eq_true hin
        have hpast := h.past t ht
        have hsame : (last + 1 - t) % n = 0 :=
          Nat.sub_mod_eq_zero_of_mod_eq (hidx.trans hslot.symm)
        rw [Nat.mod_eq_of_lt (by omega)] at hsame
        omega
      rw [hzero, hidx, List.getElem?_set_self (by rwa [h.length_eq])]
    · rw [List.getElem?_set_ne hidx, h.slot i hi]
      refine congrArg some (List.countP_congr fun t ht => ?_)
      rw [decide_eq_true_eq, decide_eq_true_eq]
      refine and_congr_left fun hslot => ⟨fun hlt => ?_, fun hlt => by omega⟩
      -- the event that leaves the window would be in the cleared bucket
      by_contra hge
      have hunit : last + 1 = t + n := by omega
      exact hidx (by rw [hunit, Nat.add_mod_right, hslot])

/-- Once all events have left the ring, any time may pass. -/
theorem Holds.later (h : Holds n last times ring) (hleft : ∀ t ∈ times, t + n ≤ last)
    (hle : last ≤ last') : Holds n last' times ring where
  length_eq := h.length_eq
  past t ht := (h.past t ht).trans hle
  slot i hi := by
    rw [h.slot i hi]
    refine congrArg some (List.countP_congr fun t ht => ?_)
    have hgone := hleft t ht
    rw [decide_eq_true_eq, decide_eq_true_eq]
    exact and_congr_left fun _ => iff_of_false (by omega) (by omega)

/-- An event of the current unit is counted. -/
theorem Holds.count (h : Holds n last times ring) :
    Holds n last (last :: times) (ring.modify (last % n) (· + 1)) where
  length_eq := by rw [List.length_modify, h.length_eq]
  past t ht := by
    rcases List.mem_cons.mp ht with rfl | ht
    · exact le_rfl
    · exact h.past t ht
  slot i hi := by
    rw [List.getElem?_modify, h.slot i hi, List.countP_cons]
    split_ifs with hidx hcounted hcounted
    · rfl
    · exact absurd (decide_eq_true ⟨by omega, hidx⟩) hcounted
    · exact absurd (of_decide_eq_true hcounted).2 hidx
    · rfl

/-- A list is counted bucket by bucket. -/
theorem sum_countP_mod (hn : 0 < n) (times : List ℕ) (p : ℕ → Prop) [DecidablePred p] :
    ((List.range n).map fun i => times.countP fun t => p t ∧ t % n = i).sum =
      times.countP fun t => p t := by
  induction times with
  | nil => simp
  | cons t times ih =>
    have hone : ((List.range n).map fun i => if decide (p t ∧ t % n = i) = true then 1 else 0).sum =
        if decide (p t) = true then 1 else 0 := by
      by_cases hp : p t
      · have hmem : t % n ∈ List.range n := List.mem_range.mpr (Nat.mod_lt t hn)
        have hothers : ∀ i, i ≠ t % n → i ∈ List.range n →
            (if decide (p t ∧ t % n = i) = true then 1 else 0) = 0 :=
          fun i hi _ => if_neg fun h => hi (of_decide_eq_true h).2.symm
        rw [List.sum_map_eq_nsmul_single _ _ hothers,
          List.count_eq_one_of_mem List.nodup_range hmem]
        simp [hp]
      · simp [hp]
    simp only [List.countP_cons, List.sum_map_add]
    rw [ih, hone]

/-- **The sum of the ring** counts the events of its units. -/
theorem Holds.sum_eq (h : Holds n last times ring) (hn : 0 < n) :
    ring.sum = times.countP fun t => last < t + n := by
  have hring : ring =
      (List.range n).map fun i => times.countP fun t => last < t + n ∧ t % n = i := by
    refine List.ext_getElem? fun i => ?_
    by_cases hi : i < n
    · rw [h.slot i hi, List.getElem?_map, List.getElem?_range hi, Option.map_some]
    · rw [List.getElem?_eq_none (by rw [h.length_eq]; omega),
        List.getElem?_eq_none (by simp; omega)]
  rw [hring, sum_countP_mod hn]

end BucketRing
