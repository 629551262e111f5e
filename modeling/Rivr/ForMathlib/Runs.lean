import Mathlib.Data.List.Basic

/-!
# Runs of a step function

A system whose actions change its state by a function. `Run step kind s₀ s` says that the state
`s` is reached from `s₀` by actions that are all of the given kind in the state where they happen;
what holds at the start and is kept by these actions holds in every state reached
(`Run.invariant`). Lists of actions give runs on concrete inputs.
-/

namespace Runs

variable {σ α : Type*}

/-- The states that are reached by actions of the kind. -/
inductive Run (step : σ → α → σ) (kind : σ → α → Prop) (s₀ : σ) : σ → Prop
  | start : Run step kind s₀ s₀
  | act {s : σ} {a : α} (run : Run step kind s₀ s) (ha : kind s a) : Run step kind s₀ (step s a)

/-- Every action of the list is of the kind in the state where it happens. -/
def Allows (step : σ → α → σ) (kind : σ → α → Prop) : σ → List α → Prop
  | _, [] => True
  | s, a :: actions => kind s a ∧ Allows step kind (step s a) actions

instance Allows.decidable (step : σ → α → σ) (kind : σ → α → Prop)
    [∀ s a, Decidable (kind s a)] : ∀ s actions, Decidable (Allows step kind s actions)
  | _, [] => inferInstanceAs (Decidable True)
  | s, a :: actions =>
    haveI := Allows.decidable step kind (step s a) actions
    inferInstanceAs (Decidable (_ ∧ _))

variable {step : σ → α → σ} {kind : σ → α → Prop} {s₀ s : σ}

/-- What holds at the start and is kept by every action of the kind holds in every state that is
reached. -/
theorem Run.invariant {Inv : σ → Prop} (run : Run step kind s₀ s) (hstart : Inv s₀)
    (hact : ∀ s a, Inv s → kind s a → Inv (step s a)) : Inv s := by
  induction run with
  | start => exact hstart
  | act _ ha ih => exact hact _ _ ih ha

theorem Run.trans {s' : σ} (run : Run step kind s₀ s) (run' : Run step kind s s') :
    Run step kind s₀ s' := by
  induction run' with
  | start => exact run
  | act _ ha ih => exact ih.act ha

/-- Actions of the kind, one after the other, make a run. -/
theorem run_foldl {actions : List α} (h : Allows step kind s₀ actions) :
    Run step kind s₀ (actions.foldl step s₀) := by
  induction actions generalizing s₀ with
  | nil => exact .start
  | cons a actions ih => exact (Run.start.act h.1).trans (ih h.2)

/-- **What an observer records.** If one action keeps the property exactly when it is of the kind,
then a list of actions keeps it exactly when all of them are. -/
theorem foldl_iff_allows (Inv P : σ → Prop) (hinv : ∀ s a, Inv s → Inv (step s a))
    (hstep : ∀ s a, Inv s → (P (step s a) ↔ P s ∧ kind s a)) (hstart : Inv s) (hs : P s)
    (actions : List α) : P (actions.foldl step s) ↔ Allows step kind s actions := by
  have hlater : ∀ (actions : List α) (s : σ), Inv s → P (actions.foldl step s) → P s := by
    intro actions
    induction actions with
    | nil => exact fun _ _ h => h
    | cons a actions ih =>
      intro s hi h
      exact ((hstep s a hi).mp (ih (step s a) (hinv s a hi) h)).1
  induction actions generalizing s with
  | nil => exact iff_of_true hs trivial
  | cons a actions ih =>
    constructor
    · intro h
      have hnext : P (step s a) := hlater actions (step s a) (hinv s a hstart) h
      exact ⟨((hstep s a hstart).mp hnext).2, (ih (hinv s a hstart) hnext).mp h⟩
    · rintro ⟨ha, hrest⟩
      exact (ih (hinv s a hstart) ((hstep s a hstart).mpr ⟨hs, ha⟩)).mpr hrest

/-- **What never fails.** If from where the property holds one action keeps it exactly when it is of
the kind, then it holds all along a list of actions exactly when all of them are. -/
theorem forall_take_iff_allows {P : σ → Prop}
    (hstep : ∀ s a, P s → (P (step s a) ↔ kind s a)) (hs : P s) (actions : List α) :
    (∀ m, P ((actions.take m).foldl step s)) ↔ Allows step kind s actions := by
  induction actions generalizing s with
  | nil => exact iff_of_true (fun m => by rwa [List.take_nil]) trivial
  | cons a actions ih =>
    constructor
    · intro h
      have hnext : P (step s a) := h 1
      exact ⟨(hstep s a hs).mp hnext, (ih hnext).mp fun m => h (m + 1)⟩
    · rintro ⟨ha, hrest⟩ (_ | m)
      · exact hs
      · exact (ih ((hstep s a hs).mpr ha)).mpr hrest m

/-- Any list of actions makes a run of the kind that asks for nothing. -/
theorem allows_true (step : σ → α → σ) (s : σ) (actions : List α) :
    Allows step (fun _ _ => True) s actions := by
  induction actions generalizing s with
  | nil => trivial
  | cons a actions ih => exact ⟨trivial, ih (step s a)⟩

end Runs
