import Rivr.ForMathlib.ByteParser

/-!
# What a parser takes from a text

`Takes f w a next` says that the parser `f` takes the characters `w` and returns `a`, wherever they
stand in a text that goes on with the character `next`. One character is as far as these parsers
look ahead, so the parts of a phrase are put together by comparing first characters (`Takes.bind`),
and a loop round by round (`Takes.more`, `Takes.done`).
-/

open Utf8

namespace ByteParser

variable {ε α β γ : Type}

/-- On a text that starts with `w` and goes on with `next`, the parser takes `w` and returns `a`. -/
def Takes (f : Parser ε α) (w : List Char) (a : α) (next : Option Char) : Prop :=
  ∀ pos s, s.head? = next → f pos (utf8 (w ++ s)) = .ok a (pos + (utf8 w).length) (utf8 s)

variable {f : Parser ε α} {g : α → Parser ε β} {w w' : List Char} {a : α} {b : β}
  {next next' : Option Char}

/-- The same text, put together otherwise. -/
theorem Takes.of_eq (h : Takes f w a next) (heq : w = w') : Takes f w' a next := heq ▸ h

theorem Takes.pure (a : α) (next : Option Char) : Takes (pure a : Parser ε α) [] a next :=
  fun _ _ _ => rfl

theorem Takes.bind (hf : Takes f w a next') (hg : Takes (g a) w' b next)
    (hnext : w'.head?.or next = next') : Takes (f >>= g) (w ++ w') b next := by
  intro pos s hs
  have hhead : (w' ++ s).head? = next' := by rw [List.head?_append, hs, hnext]
  rw [List.append_assoc, bind_of_ok (hf pos (w' ++ s) hhead), hg _ s hs, utf8_append,
    List.length_append, Nat.add_assoc]

/-- A parser that does not look ahead comes first. -/
theorem Takes.bind_any (hf : ∀ next, Takes f w a next) (hg : Takes (g a) w' b next) :
    Takes (f >>= g) (w ++ w') b next :=
  (hf _).bind hg rfl

/-- A parser that takes nothing comes first. -/
theorem Takes.bind_nil (hf : Takes f [] a next') (hg : Takes (g a) w' b next)
    (hnext : w'.head?.or next = next') : Takes (f >>= g) w' b next :=
  hf.bind hg hnext

/-- A parser that takes nothing comes last. -/
theorem Takes.bind_last (hf : Takes f w a next) (hg : Takes (g a) [] b next) :
    Takes (f >>= g) w b next := by
  have h := hf.bind hg rfl
  rwa [List.append_nil] at h

theorem Takes.bind_pure (hf : Takes f w a next) {h : α → β} :
    Takes (do let x ← f; return h x) w (h a) next :=
  hf.bind_last (.pure _ _)

/-- A parser that does what a scanner says. -/
theorem Takes.of_reads {scan : List Char → α × ℕ} (h : Reads f scan)
    (hscan : ∀ s, s.head? = next → scan (w ++ s) = (a, w.length)) : Takes f w a next := by
  intro pos s hs
  rw [h, hscan s hs, List.take_left, List.drop_left]

section Loop

variable {step : β → Parser ε (β ⊕ α)} {b b' : β}

/-- A round that ends the loop. -/
theorem Takes.done (h : Takes (step b) w (.inr a) next) : Takes (loop step b) w a next :=
  fun pos s hs => loopN_of_done (h pos s hs)

/-- A round after which the loop goes on, with less of the text left. -/
theorem Takes.more (h : Takes (step b) w (.inl b') next') (hloop : Takes (loop step b') w' a next)
    (hnext : w'.head?.or next = next') (hne : w ≠ []) : Takes (loop step b) (w ++ w') a next := by
  intro pos s hs
  have hhead : (w' ++ s).head? = next' := by rw [List.head?_append, hs, hnext]
  have hrest := hloop (pos + (utf8 w).length) s hs
  have hlen : (utf8 (w' ++ s)).length + 1 ≤ (utf8 (w ++ (w' ++ s))).length := by
    have hpos := List.length_pos_of_ne_nil (utf8_ne_nil hne)
    rw [utf8_append w, List.length_append]
    omega
  have hmono : loopN step (utf8 (w ++ (w' ++ s))).length b' (pos + (utf8 w).length)
      (utf8 (w' ++ s)) = _ := loopN_mono hlen fun hhang => nomatch hrest.symm.trans hhang
  rw [List.append_assoc]
  refine (loopN_of_more (h pos (w' ++ s) hhead)).trans (hmono.trans (hrest.trans ?_))
  rw [utf8_append, List.length_append, Nat.add_assoc]

end Loop

end ByteParser
