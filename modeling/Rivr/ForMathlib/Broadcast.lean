import Mathlib.Combinatorics.SimpleGraph.Metric

/-!
# Broadcast in rounds

What one vertex of a graph starts, and every other vertex repeats once, in the round after it first
heard it and while there are rounds left, reaches the vertices by their distance: the vertices that
send in a round are those at that distance (`Broadcast.sends_iff`), and each vertex hears first in
the round of its distance (`Broadcast.first_hears_iff`).
-/

namespace SimpleGraph

variable {V : Type*} {G : SimpleGraph V} {o v : V}

/-- A vertex away from the origin has a neighbour that is nearer. -/
theorem exists_adj_of_edist_eq_succ {k : ℕ} (h : G.edist o v = k + 1) :
    ∃ u, G.Adj u v ∧ G.edist o u = k := by
  obtain ⟨p, hp⟩ := exists_walk_of_edist_eq_coe (k := k + 1) (by exact_mod_cast h)
  have hnil : ¬p.Nil := by
    rw [← Walk.length_eq_zero_iff, hp]
    exact Nat.succ_ne_zero k
  refine ⟨p.penultimate, p.adj_penultimate hnil, le_antisymm ?_ ?_⟩
  · refine (edist_le p.dropLast).trans ?_
    rw [Walk.length_dropLast, hp, Nat.add_sub_cancel]
  · have htriangle := G.edist_triangle (u := o) (v := p.penultimate) (w := v)
    rw [h, edist_eq_one_iff_adj.mpr (p.adj_penultimate hnil)] at htriangle
    exact (ENat.add_le_add_iff_right ENat.one_ne_top).mp htriangle

/-- A neighbour is at most one farther. -/
theorem edist_le_add_one_of_adj {u : V} (h : G.Adj u v) : G.edist o v ≤ G.edist o u + 1 := by
  rw [← edist_eq_one_iff_adj.mpr h]
  exact G.edist_triangle

/-- Who sends and who hears in each round, for `T` rounds after the first. -/
structure Broadcast (G : SimpleGraph V) (o : V) (T : ℕ) (sends hears : ℕ → V → Prop) : Prop where
  start : ∀ v, sends 0 v ↔ v = o
  silent : ∀ v, ¬hears 0 v
  hears_succ : ∀ k v, hears (k + 1) v ↔ ∃ u, G.Adj u v ∧ sends k u
  sends_succ : ∀ k v, sends (k + 1) v ↔
    k + 1 ≤ T ∧ v ≠ o ∧ hears (k + 1) v ∧ ∀ j ≤ k, ¬hears j v

namespace Broadcast

variable {T : ℕ} {sends hears : ℕ → V → Prop}

/-- **Layers.** By induction on the round. -/
theorem sends_iff (h : Broadcast G o T sends hears) (k : ℕ) (v : V) :
    sends k v ↔ G.edist o v = k ∧ k ≤ T := by
  induction k using Nat.strong_induction_on generalizing v with
  | _ k ih =>
    cases k with
    | zero =>
      rw [h.start, Nat.cast_zero, edist_eq_zero_iff]
      exact ⟨fun hv => ⟨hv.symm, Nat.zero_le T⟩, fun hv => hv.1.symm⟩
    | succ k =>
      have hhears : ∀ j ≤ k, ∀ v, hears (j + 1) v ↔
          ∃ u, G.Adj u v ∧ G.edist o u = j ∧ j ≤ T := fun j hj v => by
        rw [h.hears_succ]
        exact exists_congr fun u => and_congr_right fun _ => ih j (Nat.lt_succ_of_le hj) u
      rw [h.sends_succ]
      constructor
      · rintro ⟨hT, hne, hhear, hfirst⟩
        obtain ⟨u, hadj, hu, -⟩ := (hhears k le_rfl v).mp hhear
        have hle : G.edist o v ≤ (k + 1 : ℕ) := by
          refine (edist_le_add_one_of_adj hadj).trans ?_
          rw [hu, Nat.cast_succ]
        refine ⟨le_antisymm hle ?_, hT⟩
        -- were the vertex nearer, it would have heard before
        by_contra hlt
        obtain ⟨d, hd⟩ := ENat.ne_top_iff_exists.mp (ne_top_of_le_ne_top (ENat.natCast_ne_top _) hle)
        rw [← hd, Nat.cast_le, Nat.not_le] at hlt
        cases d with
        | zero => exact hne (edist_eq_zero_iff.mp (hd.symm.trans Nat.cast_zero)).symm
        | succ d =>
          obtain ⟨w, hw, hwd⟩ := exists_adj_of_edist_eq_succ (hd.symm.trans (Nat.cast_succ d))
          exact hfirst (d + 1) (by omega) ((hhears d (by omega) v).mpr ⟨w, hw, hwd, by omega⟩)
      · rintro ⟨hdist, hT⟩
        have hne : v ≠ o := by
          rintro rfl
          rw [edist_self] at hdist
          exact absurd hdist.symm (Nat.cast_ne_zero.mpr (Nat.succ_ne_zero k))
        obtain ⟨u, hadj, hu⟩ := exists_adj_of_edist_eq_succ (hdist.trans (Nat.cast_succ k))
        refine ⟨hT, hne, (hhears k le_rfl v).mpr ⟨u, hadj, hu, by omega⟩, fun j hj hhear => ?_⟩
        cases j with
        | zero => exact h.silent v hhear
        | succ j =>
          obtain ⟨w, hw, hwj, -⟩ := (hhears j (by omega) v).mp hhear
          have hle := edist_le_add_one_of_adj (o := o) hw
          rw [hdist, hwj, ← Nat.cast_succ, Nat.cast_le] at hle
          omega

/-- Every vertex hears first in the round of its distance, one round longer than it is repeated. -/
theorem first_hears_iff (h : Broadcast G o T sends hears) (hne : v ≠ o) (k : ℕ) :
    (hears k v ∧ ∀ j < k, ¬hears j v) ↔ G.edist o v = k ∧ k ≤ T + 1 := by
  have hhears : ∀ j v, hears (j + 1) v ↔ ∃ u, G.Adj u v ∧ G.edist o u = j ∧ j ≤ T := fun j v => by
    rw [h.hears_succ]
    exact exists_congr fun u => and_congr_right fun _ => h.sends_iff j u
  have hfar : ∀ j, hears j v → G.edist o v ≤ j := fun j hj => by
    cases j with
    | zero => exact absurd hj (h.silent v)
    | succ j =>
      obtain ⟨u, hadj, hu, -⟩ := (hhears j v).mp hj
      refine (edist_le_add_one_of_adj hadj).trans ?_
      rw [hu, Nat.cast_succ]
  have hnear : ∀ d : ℕ, G.edist o v = d → d ≤ T + 1 → hears d v := fun d hd hT => by
    cases d with
    | zero => exact absurd (edist_eq_zero_iff.mp (hd.trans Nat.cast_zero)).symm hne
    | succ d =>
      obtain ⟨u, hadj, hu⟩ := exists_adj_of_edist_eq_succ (hd.trans (Nat.cast_succ d))
      exact (hhears d v).mpr ⟨u, hadj, hu, by omega⟩
  constructor
  · rintro ⟨hhear, hfirst⟩
    have hle := hfar k hhear
    have hT : k ≤ T + 1 := by
      cases k with
      | zero => exact absurd hhear (h.silent v)
      | succ k =>
        obtain ⟨-, -, -, hkT⟩ := (hhears k v).mp hhear
        omega
    obtain ⟨d, hd⟩ := ENat.ne_top_iff_exists.mp (ne_top_of_le_ne_top (ENat.natCast_ne_top _) hle)
    rw [← hd, Nat.cast_le] at hle
    -- a vertex nearer than `k` would have heard before
    rcases Nat.lt_or_eq_of_le hle with hlt | rfl
    · exact absurd (hnear d hd.symm (by omega)) (hfirst d hlt)
    · exact ⟨hd.symm, hT⟩
  · rintro ⟨hdist, hT⟩
    refine ⟨hnear k hdist hT, fun j hj hhear => ?_⟩
    have hle := hfar j hhear
    rw [hdist, Nat.cast_le] at hle
    omega

end Broadcast

end SimpleGraph
