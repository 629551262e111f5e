import Mathlib.Logic.Function.Basic

/-!
# Clients of one machine

A machine answers inputs one after another, or gets stuck. Several clients feed it, each of them its
own inputs in their order, and nothing is said about the order between clients. When each input of a
plan is answered as planned whatever the other clients have done so far (an invariant of the machine
and of what is left of the plans), every client gets its planned answers in every interleaving.
-/

namespace Interleave

variable {σ α β ι : Type*}

/-- The answers to the inputs, and the state after them. -/
def run (step : σ → α → Option (β × σ)) : σ → List α → Option (List β × σ)
  | s, [] => some ([], s)
  | s, a :: as => (step s a).bind fun r => (run step r.2 as).map fun rs => (r.1 :: rs.1, rs.2)

theorem run_cons {step : σ → α → Option (β × σ)} {s s' : σ} {a : α} {b : β} {as : List α}
    (h : step s a = some (b, s')) :
    run step s (a :: as) = (run step s' as).map fun rs => (b :: rs.1, rs.2) := by
  rw [run, h, Option.bind_some]

theorem length_run {step : σ → α → Option (β × σ)} {s s' : σ} {as : List α} {bs : List β}
    (h : run step s as = some (bs, s')) : bs.length = as.length := by
  induction as generalizing s bs with
  | nil =>
    obtain ⟨rfl, rfl⟩ := Prod.mk.inj (Option.some.inj h)
    rfl
  | cons a as ih =>
    rw [run, Option.bind_eq_some_iff] at h
    obtain ⟨r, -, hrest⟩ := h
    obtain ⟨⟨bs', s''⟩, hbs, heq⟩ := Option.map_eq_some_iff.mp hrest
    obtain ⟨rfl, rfl⟩ := Prod.mk.inj heq
    rw [List.length_cons, List.length_cons, ih hbs]

/-- A machine that keeps an invariant, and never gets stuck in it, answers every input. -/
theorem exists_run {step : σ → α → Option (β × σ)} {Inv : σ → Prop}
    (hstep : ∀ s a, Inv s → ∃ b s', step s a = some (b, s') ∧ Inv s') {s : σ} (hs : Inv s)
    (as : List α) : ∃ bs s', run step s as = some (bs, s') ∧ Inv s' := by
  induction as generalizing s with
  | nil => exact ⟨[], s, rfl, hs⟩
  | cons a as ih =>
    obtain ⟨b, s₁, hb, hs₁⟩ := hstep s a hs
    obtain ⟨bs, s₂, hbs, hs₂⟩ := ih hs₁
    exact ⟨b :: bs, s₂, by rw [run_cons hb, hbs]; rfl, hs₂⟩

variable [DecidableEq ι]

/-- What belongs to a client. -/
def proj (i : ι) (l : List (ι × α)) : List α := (l.filter fun p => p.1 = i).map Prod.snd

theorem proj_cons_self (i : ι) (a : α) (l : List (ι × α)) :
    proj i ((i, a) :: l) = a :: proj i l := by
  simp [proj]

theorem proj_cons_of_ne {i j : ι} (h : j ≠ i) (a : α) (l : List (ι × α)) :
    proj i ((j, a) :: l) = proj i l := by
  simp [proj, h]

/-- A client that is alone. -/
theorem proj_unit (l : List (Unit × α)) : proj () l = l.map Prod.snd := by
  rw [proj, List.filter_eq_self.mpr fun _ _ => decide_eq_true rfl]

/-- **Every interleaving.** By induction on the inputs, for what is left of the plans. -/
theorem exists_run_of_plan {step : σ → α → Option (β × σ)} {Inv : σ → (ι → List (α × β)) → Prop}
    (hstep : ∀ s plan i a b rest, Inv s plan → plan i = (a, b) :: rest →
      ∃ s', step s a = some (b, s') ∧ Inv s' (Function.update plan i rest))
    (trace : List (ι × α)) {s : σ} {plan : ι → List (α × β)} (hs : Inv s plan)
    (htrace : ∀ i, proj i trace = (plan i).map Prod.fst) :
    ∃ bs s', run step s (trace.map Prod.snd) = some (bs, s') ∧
      ∀ i, proj i ((trace.map Prod.fst).zip bs) = (plan i).map Prod.snd := by
  induction trace generalizing s plan with
  | nil =>
    refine ⟨[], s, rfl, fun i => ?_⟩
    have hnil : plan i = [] := List.map_eq_nil_iff.mp (htrace i).symm
    rw [hnil]
    rfl
  | cons p trace ih =>
    obtain ⟨i, a⟩ := p
    have hi := htrace i
    rw [proj_cons_self] at hi
    obtain ⟨⟨a', b⟩, rest, hplan, rfl, hrest⟩ := List.map_eq_cons_iff.mp hi.symm
    obtain ⟨s₁, hb, hs₁⟩ := hstep s plan i a' b rest hs hplan
    obtain ⟨bs, s₂, hbs, hproj⟩ := ih hs₁ fun j => by
      by_cases hj : j = i
      · rw [hj, Function.update_self, hrest]
      · rw [Function.update_of_ne hj, ← htrace j, proj_cons_of_ne (Ne.symm hj)]
    refine ⟨b :: bs, s₂, by rw [List.map_cons, run_cons hb, hbs]; rfl, fun j => ?_⟩
    rw [List.map_cons, List.zip_cons_cons]
    by_cases hj : j = i
    · rw [hj, proj_cons_self, hproj, Function.update_self, hplan, List.map_cons]
    · rw [proj_cons_of_ne (Ne.symm hj), hproj, Function.update_of_ne hj]

end Interleave
