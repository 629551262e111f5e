import Mathlib.Algebra.BigOperators.Group.Multiset.Basic
import Mathlib.Algebra.Order.BigOperators.Group.Multiset
import Mathlib.Algebra.Order.BigOperators.Group.List
import Mathlib.Logic.Relation
import Mathlib.Tactic.Ring

/-!
# Worklists with a decreasing potential

A worklist is a multiset of items, each with a weight. Taking out an item and putting in items
whose weights add up to less makes the total weight, the *potential*, go down; so a system
whose every step is of that kind stops, and the number of steps it makes is bounded by the
potential it started with, whatever order the items are taken in.

Two weights are built here. `fanWeight b r` is for items with a rank that drops at every step
and at most `b` successors. `topoWeight b succ n u` is for items that sit at the nodes of a
graph whose edges go up in node order, where processing an item at `u` yields at most `b`
values, each of which goes to every successor of `u`.
-/

namespace Worklist

variable {α σ : Type*}

/-! ### Potential -/

/-- The total weight of a worklist. -/
def potential (μ : α → ℕ) (work : Multiset α) : ℕ := (work.map μ).sum

@[simp]
theorem potential_zero (μ : α → ℕ) : potential μ 0 = 0 := by simp [potential]

@[simp]
theorem potential_cons (μ : α → ℕ) (x : α) (work : Multiset α) :
    potential μ (x ::ₘ work) = μ x + potential μ work := by simp [potential]

@[simp]
theorem potential_add (μ : α → ℕ) (work new : Multiset α) :
    potential μ (work + new) = potential μ work + potential μ new := by simp [potential]

/-- Items of weight at most `k` weigh at most `k` times their number. -/
theorem potential_le_card_mul {μ : α → ℕ} {work : Multiset α} {k : ℕ}
    (h : ∀ x ∈ work, μ x ≤ k) : potential μ work ≤ work.card * k := by
  have hsum : (work.map μ).sum ≤ (work.map μ).card • k :=
    Multiset.sum_le_card_nsmul _ k fun y hy => by
      obtain ⟨x, hx, rfl⟩ := Multiset.mem_map.mp hy
      exact h x hx
  simpa [potential] using hsum

/-! ### Runs -/

/-- A run of `k` steps of `step`. -/
inductive Steps (step : σ → σ → Prop) : ℕ → σ → σ → Prop
  | refl (s : σ) : Steps step 0 s s
  | tail {k : ℕ} {s t u : σ} : Steps step k s t → step t u → Steps step (k + 1) s u

/-- A step before a run. -/
theorem Steps.head {step : σ → σ → Prop} {k : ℕ} {s t u : σ} (h : step s t)
    (hrun : Steps step k t u) : Steps step (k + 1) s u := by
  induction hrun with
  | refl t => exact (Steps.refl s).tail h
  | tail _ hlast ih => exact (ih h).tail hlast

/-- A run that is not empty starts with a step. -/
theorem Steps.exists_head {step : σ → σ → Prop} {k : ℕ} {s u : σ}
    (hrun : Steps step (k + 1) s u) : ∃ t, step s t ∧ Steps step k t u := by
  induction k generalizing u with
  | zero =>
    obtain ⟨⟩ | ⟨hnil, hlast⟩ := hrun
    obtain ⟨⟩ := hnil
    exact ⟨u, hlast, .refl u⟩
  | succ k ih =>
    obtain ⟨⟩ | ⟨hinit, hlast⟩ := hrun
    obtain ⟨t, hfirst, hmid⟩ := ih hinit
    exact ⟨t, hfirst, hmid.tail hlast⟩

/-- A run after a run. -/
theorem Steps.trans {step : σ → σ → Prop} {k l : ℕ} {s t u : σ} (h : Steps step k s t)
    (h' : Steps step l t u) : Steps step (k + l) s u := by
  induction h' with
  | refl t => exact h
  | tail _ hlast ih => exact (ih h).tail hlast

/-- **Invariants.** What every step keeps holds at the end of a run. -/
theorem Steps.invariant {step : σ → σ → Prop} {Inv : σ → Prop} {k : ℕ} {s t : σ}
    (hrun : Steps step k s t) (hstart : Inv s) (hstep : ∀ s t, Inv s → step s t → Inv t) :
    Inv t := by
  induction hrun with
  | refl s => exact hstart
  | tail _ hlast ih => exact hstep _ _ (ih hstart) hlast

/-- **Bounded runs.** When every step from where an invariant holds makes the potential go down, a
run is no longer than the potential it started with. -/
theorem Steps.add_potential_le {step : σ → σ → Prop} {Inv : σ → Prop} {pot : σ → ℕ} {k : ℕ}
    {s t : σ} (hrun : Steps step k s t) (hstart : Inv s)
    (hstep : ∀ s t, Inv s → step s t → Inv t ∧ pot t < pot s) : Inv t ∧ k + pot t ≤ pot s := by
  induction hrun with
  | refl s => exact ⟨hstart, (Nat.zero_add _).le⟩
  | tail _ hlast ih =>
    obtain ⟨hinv, hle⟩ := ih hstart
    obtain ⟨hinv', hlt⟩ := hstep _ _ hinv hlast
    exact ⟨hinv', by omega⟩

/-! ### Ranked items -/

/-- The most steps that one item of rank `r` can cause, itself included, when an item of rank
`r + 1` has at most `b` successors, of rank `r`, and an item of rank `0` is only dropped. -/
def fanWeight (b : ℕ) : ℕ → ℕ
  | 0 => 0
  | r + 1 => 1 + b * fanWeight b r

theorem fanWeight_mono (b : ℕ) : Monotone (fanWeight b) := by
  refine monotone_nat_of_le_succ fun r => ?_
  induction r with
  | zero => simp [fanWeight]
  | succ r ih =>
    have := Nat.mul_le_mul_left b ih
    simp only [fanWeight] at this ⊢
    omega

/-- Replacing an item of rank `r + 1` by at most `b` items of rank at most `r` makes the
potential go down. -/
theorem potential_lt_fanWeight {rank : α → ℕ} {new : Multiset α} {b r : ℕ}
    (hcard : new.card ≤ b) (hrank : ∀ x ∈ new, rank x ≤ r) :
    potential (fun x => fanWeight b (rank x)) new < fanWeight b (r + 1) := by
  have h₁ : potential (fun x => fanWeight b (rank x)) new ≤ new.card * fanWeight b r :=
    potential_le_card_mul fun x hx => fanWeight_mono b (hrank x hx)
  have h₂ : new.card * fanWeight b r ≤ b * fanWeight b r := Nat.mul_le_mul_right _ hcard
  simp only [fanWeight]
  omega

/-! ### Items at the nodes of an ordered graph -/

/-- The weight of an item at node `u` of a graph with nodes below `n` whose edges go up: one
for processing it, and the weight of `b` copies at every successor. Edges that do not go up,
or leave the graph, count for nothing. -/
def topoWeight (b : ℕ) (succ : ℕ → List ℕ) (n u : ℕ) : ℕ :=
  1 + b * ((succ u).attach.map fun v =>
    if u < v.1 ∧ v.1 < n then topoWeight b succ n v.1 else 0).sum
termination_by n - u
decreasing_by omega

/-- The defining equation when the edges out of `u` go up and stay in the graph. -/
theorem topoWeight_eq {b : ℕ} {succ : ℕ → List ℕ} {n u : ℕ}
    (h : ∀ v ∈ succ u, u < v ∧ v < n) :
    topoWeight b succ n u = 1 + b * ((succ u).map (topoWeight b succ n)).sum := by
  have hmap : ((succ u).attach.map fun v =>
      if u < v.1 ∧ v.1 < n then topoWeight b succ n v.1 else 0) =
      (succ u).map (topoWeight b succ n) := by
    rw [← List.attach_map_val (f := topoWeight b succ n) (l := succ u)]
    exact List.map_congr_left fun v _ => if_pos (h v.1 v.2)
  rw [topoWeight, hmap]

/-- Replacing an item at `u` by at most `b` copies at each successor makes the potential go
down. -/
theorem potential_lt_topoWeight {β : Type*} {b : ℕ} {succ : ℕ → List ℕ} {n u : ℕ}
    (h : ∀ v ∈ succ u, u < v ∧ v < n) {vals : List β} (hvals : vals.length ≤ b)
    (node : α → ℕ) (item : β → ℕ → α) (hnode : ∀ x v, node (item x v) = v) :
    potential (fun i => topoWeight b succ n (node i))
        ↑(vals.flatMap fun x => (succ u).map (item x)) < topoWeight b succ n u := by
  have hcopies : potential (fun i => topoWeight b succ n (node i))
      ↑(vals.flatMap fun x => (succ u).map (item x)) =
      vals.length * ((succ u).map (topoWeight b succ n)).sum := by
    induction vals with
    | nil => simp [potential]
    | cons x vals ih =>
      have hx : potential (fun i => topoWeight b succ n (node i)) ↑((succ u).map (item x)) =
          ((succ u).map (topoWeight b succ n)).sum := by
        simp [potential, Function.comp_def, hnode]
      rw [List.flatMap_cons, ← Multiset.coe_add, potential_add, hx,
        ih (by simp only [List.length_cons] at hvals; omega), List.length_cons]
      ring
  have hmul : vals.length * ((succ u).map (topoWeight b succ n)).sum ≤
      b * ((succ u).map (topoWeight b succ n)).sum := Nat.mul_le_mul_right _ hvals
  rw [hcopies, topoWeight_eq h]
  omega

end Worklist
