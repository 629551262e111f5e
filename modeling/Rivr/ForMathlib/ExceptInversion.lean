/-!
# Inverting computations that can fail

What the halves of a bind or a map returned, read off the result of the whole; and which errors a
computation does not end in (`Avoids`), with one rule for each way to build a computation.
-/

namespace Except

variable {ε α β : Type}

/-- A successful bind has two successful halves. -/
theorem of_bind_eq_ok {x : Except ε α} {f : α → Except ε β} {b : β} (h : x >>= f = .ok b) :
    ∃ a, x = .ok a ∧ f a = .ok b := by
  cases x with
  | error e => cases h
  | ok a => exact ⟨a, rfl, h⟩

/-- A failed bind failed in one of its halves. -/
theorem of_bind_eq_error {x : Except ε α} {f : α → Except ε β} {e : ε}
    (h : x >>= f = .error e) : x = .error e ∨ ∃ a, x = .ok a ∧ f a = .error e := by
  cases x with
  | error e' =>
    obtain rfl : e' = e := by simpa [bind, Except.bind] using h
    exact Or.inl rfl
  | ok a => exact Or.inr ⟨a, rfl, h⟩

/-- A successful map has a successful argument. -/
theorem of_map_eq_ok {x : Except ε α} {f : α → β} {b : β} (h : x.map f = .ok b) :
    ∃ a, x = .ok a ∧ f a = b := by
  cases x with
  | error e => cases h
  | ok a => exact ⟨a, rfl, by simpa [Except.map] using h⟩

/-- A failed map has a failed argument. -/
theorem of_map_eq_error {x : Except ε α} {f : α → β} {e : ε} (h : x.map f = .error e) :
    x = .error e := by
  cases x with
  | error e' => simpa [Except.map] using h
  | ok a => cases h

/-- The computation does not end in an error of the kind. -/
def Avoids (bad : ε → Prop) (x : Except ε α) : Prop := ∀ e, x = .error e → ¬bad e

variable {bad : ε → Prop}

theorem avoids_ok (a : α) : Avoids bad (.ok a : Except ε α) := nofun

theorem avoids_error_iff {e : ε} : Avoids bad (.error e : Except ε α) ↔ ¬bad e := by
  constructor
  · exact fun h => h e rfl
  · rintro h _ ⟨⟩
    exact h

/-- A bind avoids the errors that its first half avoids, and its second half after every result. -/
theorem avoids_bind_iff {x : Except ε α} {f : α → Except ε β} :
    Avoids bad (x >>= f) ↔ Avoids bad x ∧ ∀ a, x = .ok a → Avoids bad (f a) := by
  constructor
  · intro h
    constructor
    · rintro e rfl
      exact h e rfl
    · rintro a rfl
      exact h
  · rintro ⟨hx, hf⟩ e he
    rcases of_bind_eq_error he with he | ⟨a, ha, he⟩
    · exact hx e he
    · exact hf a ha e he

theorem avoids_map_iff {x : Except ε α} {f : α → β} : Avoids bad (x.map f) ↔ Avoids bad x := by
  cases x with
  | error e => exact avoids_error_iff.trans avoids_error_iff.symm
  | ok a => exact iff_of_true (avoids_ok _) (avoids_ok _)

end Except
