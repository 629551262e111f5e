import Rivr.ForMathlib.ByteParser

/-!
# What a parser returns

`Yields P f` says that every value that `f` returns satisfies `P`, wherever it reads and whatever is
left after it. There is one rule for each way to build a parser; a loop keeps an invariant of its
rounds.
-/

namespace ByteParser

variable {ε α β : Type} {P : α → Prop} {Q : β → Prop}

/-- Every value that the parser returns satisfies the predicate. -/
def Yields (P : α → Prop) (f : Parser ε α) : Prop :=
  ∀ ⦃pos pos' : ℕ⦄ ⦃rest r : List UInt8⦄ ⦃a : α⦄, f pos rest = .ok a pos' r → P a

namespace Yields

theorem pure {a : α} (h : P a) : Yields P (pure a : Parser ε α) := by
  intro pos pos' rest r a' hok
  rw [pure_apply, Outcome.ok.injEq] at hok
  exact hok.1 ▸ h

theorem fail (e : ε) : Yields P (fail e : Parser ε α) := fun _ _ _ _ _ hok => nomatch hok

theorem failAt (pos : ℕ) (e : ε) : Yields P (failAt pos e : Parser ε α) :=
  fun _ _ _ _ _ hok => nomatch hok

theorem bind {f : Parser ε β} {g : β → Parser ε α} (hf : Yields Q f)
    (hg : ∀ b, Q b → Yields P (g b)) : Yields P (f >>= g) := by
  intro pos pos' rest r a hok
  obtain ⟨b, mid, s, hfok, hgok⟩ := bind_eq_ok.mp hok
  exact hg b (hf hfok) hgok

/-- What the first parser returns does not matter. -/
theorem bind_any {f : Parser ε β} {g : β → Parser ε α} (hg : ∀ b, Yields P (g b)) :
    Yields P (f >>= g) :=
  bind (Q := fun _ => True) (fun _ _ _ _ _ _ => trivial) fun b _ => hg b

theorem ite {p : Prop} [Decidable p] {f g : Parser ε α} (hf : p → Yields P f)
    (hg : ¬p → Yields P g) : Yields P (if p then f else g) := by
  by_cases hp : p
  · rw [if_pos hp]
    exact hf hp
  · rw [if_neg hp]
    exact hg hp

variable {step : β → Parser ε (β ⊕ α)}

theorem loopN (hstep : ∀ b, Q b → Yields (Sum.elim Q P) (step b)) (n : ℕ) {b : β} (hb : Q b) :
    Yields P (loopN step n b) := by
  induction n generalizing b with
  | zero => exact fun _ _ _ _ _ hok => nomatch hok
  | succ n ih =>
    refine bind (hstep b hb) fun next hnext => ?_
    match next with
    | .inl b' => exact ih hnext
    | .inr a => exact pure hnext

/-- A loop whose rounds keep `Q` and end in `P`. -/
theorem loop (hstep : ∀ b, Q b → Yields (Sum.elim Q P) (step b)) {b : β} (hb : Q b) :
    Yields P (loop step b) :=
  fun _ _ rest _ _ hok => loopN hstep (rest.length + 1) hb hok

end Yields

end ByteParser
