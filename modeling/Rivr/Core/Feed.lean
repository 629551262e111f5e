import Rivr.Core.Process

/-!
# Events through one node

A sequence of events through one node, each processed in the state the one before left. What is
kept by every event of a sequence in the order of its ticks holds at its end (`feed_invariant`).

The ticks of a sequence are read as natural numbers; what the checked additions return is their
sum modulo `2 ^ 64`, in either build.
-/

namespace Rivr.Core

variable {checks : Bool}

/-! ### What the checked operations return -/

theorem addU64_eq {a b c : UInt64} (h : addU64 checks a b = .ok c) : c = a + b := by
  simp only [addU64] at h
  split_ifs at h
  exact (Except.ok.inj h).symm

theorem subU64_eq {a b c : UInt64} (h : subU64 checks a b = .ok c) : c = a - b := by
  simp only [subU64] at h
  split_ifs at h
  exact (Except.ok.inj h).symm

theorem mulU64_eq {a b c : UInt64} (h : mulU64 checks a b = .ok c) : c = a * b := by
  simp only [mulU64] at h
  split_ifs at h
  exact (Except.ok.inj h).symm

theorem divU64_eq {a b c : UInt64} (h : divU64 a b = .ok c) : b ≠ 0 ∧ c = a / b := by
  simp only [divU64] at h
  split_ifs at h with hb
  exact ⟨hb, (Except.ok.inj h).symm⟩

/-! ### The airtime budgets -/

/-- The budget after a roll of its window. -/
def AirtimeBudget.rolled (b : AirtimeBudget) (roll : Option UInt64) : AirtimeBudget :=
  { b with
    windowStart := roll.getD b.windowStart
    used := if roll.isSome then 0 else b.used }

theorem AirtimeBudget.process_eq (b : AirtimeBudget) (ev : Event) :
    b.process checks ev = (do
      let roll ← rollWindow checks ev.stamp.tick b.windowStart b.windowTicks
      if (b.rolled roll).used < b.budgetPerWindow then
        let used ← addU64 checks (b.rolled roll).used 1
        .ok ([ev], { b.rolled roll with used := used })
      else
        let dropped ← addU64 checks b.totalDropped 1
        .ok ([], { b.rolled roll with totalDropped := dropped })) := by
  refine congrArg _ (funext fun roll => ?_)
  cases roll <;> rfl

/-- The budget after a roll of its window. -/
def ToaBudget.rolled (b : ToaBudget) (roll : Option UInt64) : ToaBudget :=
  { b with
    windowStart := roll.getD b.windowStart
    usedUs := if roll.isSome then 0 else b.usedUs }

theorem ToaBudget.process_eq (b : ToaBudget) (ev : Event) :
    b.process checks ev = (do
      let roll ← rollWindow checks ev.stamp.tick b.windowStart b.windowMs
      let sum ← addU64 checks (b.rolled roll).usedUs b.toaUsPerEvent
      if sum ≤ b.budgetUs then .ok ([ev], { b.rolled roll with usedUs := sum })
      else
        let dropped ← addU64 checks b.totalDropped 1
        .ok ([], { b.rolled roll with totalDropped := dropped })) := by
  refine congrArg _ (funext fun roll => ?_)
  cases roll <;> rfl

/-! ### Feeding a node -/

/-- The events one after the other through a node: everything it sends on, and its state at the
end. -/
def NodeKind.feed (checks : Bool) : NodeKind → List Event → ProcessResult
  | kind, [] => .ok ([], kind)
  | kind, ev :: evs => do
    let (out, kind) ← kind.process checks ev
    let (rest, kind) ← kind.feed checks evs
    .ok (out ++ rest, kind)

/-- The events come in the order of their ticks. -/
def TickSorted (evs : List Event) : Prop := evs.Pairwise fun a b => a.stamp.tick ≤ b.stamp.tick

/-- The ticks of the events. -/
def ticks (evs : List Event) : List ℕ := evs.map fun ev => ev.stamp.tick.toNat

@[simp] theorem ticks_nil : ticks [] = [] := rfl

@[simp] theorem ticks_append (evs evs' : List Event) :
    ticks (evs ++ evs') = ticks evs ++ ticks evs' := List.map_append

@[simp] theorem ticks_singleton (ev : Event) : ticks [ev] = [ev.stamp.tick.toNat] := rfl

theorem NodeKind.feed_cons_eq_ok {kind kind' : NodeKind} {ev : Event} {evs out : List Event}
    (h : kind.feed checks (ev :: evs) = .ok (out, kind')) :
    ∃ out₁ kind₁ out₂, kind.process checks ev = .ok (out₁, kind₁) ∧
      kind₁.feed checks evs = .ok (out₂, kind') ∧ out = out₁ ++ out₂ := by
  obtain ⟨⟨out₁, kind₁⟩, h₁, h⟩ := Except.of_bind_eq_ok h
  obtain ⟨⟨out₂, kind₂⟩, h₂, h⟩ := Except.of_bind_eq_ok h
  cases h
  exact ⟨out₁, kind₁, out₂, h₁, h₂, rfl⟩

section Invariant

variable {Inv : List Event → List Event → NodeKind → Prop}
  (hstep : ∀ {done sent : List Event} {kind kind' : NodeKind} {ev : Event} {out : List Event},
    Inv done sent kind → (∀ e ∈ done, e.stamp.tick ≤ ev.stamp.tick) →
    kind.process checks ev = .ok (out, kind') → Inv (done ++ [ev]) (sent ++ out) kind')

include hstep

private theorem feed_invariant_from {done sent evs out : List Event} {kind kind' : NodeKind}
    (hinv : Inv done sent kind) (hsorted : TickSorted (done ++ evs))
    (h : kind.feed checks evs = .ok (out, kind')) : Inv (done ++ evs) (sent ++ out) kind' := by
  induction evs generalizing done sent kind out with
  | nil =>
    cases h
    simpa using hinv
  | cons ev evs ih =>
    obtain ⟨out₁, kind₁, out₂, h₁, h₂, rfl⟩ := NodeKind.feed_cons_eq_ok h
    have hlast : ∀ e ∈ done, e.stamp.tick ≤ ev.stamp.tick := fun e he =>
      (List.pairwise_append.mp hsorted).2.2 e he ev List.mem_cons_self
    have hnext := ih (hstep hinv hlast h₁) (by simpa using hsorted) h₂
    simpa using hnext

variable (Inv) in
/-- What one event keeps, of the events so far, of what was sent and of the state, a sequence in
the order of its ticks keeps. -/
theorem NodeKind.feed_invariant {evs out : List Event} {kind kind' : NodeKind}
    (hinit : Inv [] [] kind) (hsorted : TickSorted evs)
    (h : kind.feed checks evs = .ok (out, kind')) : Inv evs out kind' :=
  feed_invariant_from hstep hinit hsorted h

end Invariant

end Rivr.Core
