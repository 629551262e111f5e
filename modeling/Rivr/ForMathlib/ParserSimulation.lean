import Rivr.ForMathlib.ByteParser

/-!
# Two parsers on related texts

`Simulates R f f' S` says that whatever `f` returns on a text, `f'` returns on every text that `R`
relates to it, and that what they leave is related by `S`; neither the positions nor the errors
matter. There is one rule for each way to build a parser. A loop keeps a relation of its rounds, and
the fuel of the other side is enough when its rounds are safe and read something
(`Simulates.loop`).
-/

open Utf8

namespace ByteParser

variable {ε α β : Type}

/-- Whatever the first parser returns, the other one returns on a related text, and they leave
related texts. -/
def Simulates (R : List Char → List Char → Prop) (f f' : Parser ε α)
    (S : α → List Char → List Char → Prop) : Prop :=
  ∀ (pos pos' : ℕ) ⦃p : ℕ⦄ ⦃s s' : List Char⦄ ⦃a : α⦄ ⦃r : List UInt8⦄, R s s' →
    f pos (utf8 s) = .ok a p r →
      ∃ p' t t', r = utf8 t ∧ f' pos' (utf8 s') = .ok a p' (utf8 t') ∧ S a t t'

/-- What a safe loop returns with some fuel is what it returns. -/
theorem loop_of_loopN {q : Char} {e : ε} {step : β → Parser ε (β ⊕ α)}
    (hsafe : ∀ b, Safe q e (step b)) (hadv : ∀ b, Advances (step b)) {m pos p : ℕ} {b : β}
    {s : List Char} {a : α} {r : List UInt8}
    (h : loopN step m b pos (utf8 s) = .ok a p r) : loop step b pos (utf8 s) = .ok a p r := by
  have hfuel : loop step b pos (utf8 s) ≠ .hang := loopN_ne_hang hsafe hadv (Nat.lt_succ_self _)
  have hne : loopN step m b pos (utf8 s) ≠ .hang := by
    rw [h]
    exact nofun
  -- both bounds of the rounds are below a common one
  rw [← h, ← loopN_mono (Nat.le_max_left m ((utf8 s).length + 1)) hne]
  exact (loopN_mono (Nat.le_max_right m _) hfuel).symm

namespace Simulates

variable {R R' M : List Char → List Char → Prop} {f f' : Parser ε α} {g g' : α → Parser ε β}
  {S S' : α → List Char → List Char → Prop} {T : β → List Char → List Char → Prop}

theorem mono (h : Simulates R f f' S) (hR : ∀ s s', R' s s' → R s s')
    (hS : ∀ a t t', S a t t' → S' a t t') : Simulates R' f f' S' := by
  intro pos pos' p s s' a r hrel hok
  obtain ⟨p', t, t', hr, hok', hrest⟩ := h pos pos' (hR s s' hrel) hok
  exact ⟨p', t, t', hr, hok', hS a t t' hrest⟩

theorem pure (a : α) (h : ∀ s s', R s s' → S a s s') :
    Simulates R (pure a) (Pure.pure a : Parser ε α) S := by
  intro pos pos' p s s' b r hrel hok
  obtain ⟨rfl, -, rfl⟩ := Outcome.ok.inj hok
  exact ⟨pos', s, s', rfl, rfl, h s s' hrel⟩

/-- What returns nothing is simulated by anything. -/
theorem of_ne_ok (h : ∀ pos s a p r, f pos (utf8 s) ≠ .ok a p r) : Simulates R f f' S :=
  fun _ _ _ _ _ _ _ _ hok => absurd hok (h _ _ _ _ _)

theorem fail (e : ε) : Simulates R (fail e) f' S := of_ne_ok fun _ _ _ _ _ => nofun

theorem failAt (pos : ℕ) (e : ε) : Simulates R (failAt pos e) f' S :=
  of_ne_ok fun _ _ _ _ _ => nofun

/-- A parser that does what a scanner says. -/
theorem of_reads {scan : List Char → α × ℕ} (hf : Reads f scan)
    (h : ∀ s s', R s s' → (scan s').1 = (scan s).1 ∧
      S (scan s).1 (s.drop (scan s).2) (s'.drop (scan s').2)) : Simulates R f f S := by
  intro pos pos' p s s' a r hrel hok
  obtain ⟨hsame, hrest⟩ := h s s' hrel
  rw [hf] at hok
  obtain ⟨rfl, -, rfl⟩ := Outcome.ok.inj hok
  refine ⟨pos' + (utf8 (s'.take (scan s').2)).length, s.drop (scan s).2, s'.drop (scan s').2, rfl,
    ?_, hrest⟩
  rw [hf, hsame]

theorem bind (hf : Simulates R f f' S) (hg : ∀ a, Simulates (S a) (g a) (g' a) T) :
    Simulates R (f >>= g) (f' >>= g') T := by
  intro pos pos' p s s' b r hrel hok
  obtain ⟨a, mid, r₁, hfok, hgok⟩ := bind_eq_ok.mp hok
  obtain ⟨mid', t, t', rfl, hfok', hrest⟩ := hf pos pos' hrel hfok
  obtain ⟨p', u, u', hr, hgok', hlast⟩ := hg a mid mid' hrest hgok
  exact ⟨p', u, u', hr, (bind_of_ok hfok').trans hgok', hlast⟩

/-- The positions that are read need not be the same. -/
theorem getPos {k k' : ℕ → Parser ε β} (h : ∀ p p', Simulates R (k p) (k' p') T) :
    Simulates R (ByteParser.getPos >>= k) (ByteParser.getPos >>= k') T := by
  intro pos pos' p s s' b r hrel hok
  exact h pos pos' pos pos' hrel hok

/-- A condition that is parsed decides between two ways to go on. -/
theorem bind_cond {f f' : Parser ε Bool} {x x' y y' : Parser ε β}
    {S : Bool → List Char → List Char → Prop} (hf : Simulates R f f' S)
    (htrue : Simulates (S true) x x' T) (hfalse : Simulates (S false) y y' T) :
    Simulates R (f >>= fun b => if b then x else y) (f' >>= fun b => if b then x' else y') T := by
  refine hf.bind fun b => ?_
  match b with
  | true => exact htrue
  | false => exact hfalse

theorem ite {q : Prop} [Decidable q] {f f' g g' : Parser ε α} (hf : q → Simulates R f f' S)
    (hg : ¬q → Simulates R g g' S) :
    Simulates R (if q then f else g) (if q then f' else g') S := by
  by_cases hq : q
  · rw [if_pos hq, if_pos hq]
    exact hf hq
  · rw [if_neg hq, if_neg hq]
    exact hg hq

variable {q : Char} {e : ε} {step step' : β → Parser ε (β ⊕ α)}
  {I : β → List Char → List Char → Prop}

/-- Rounds that keep `I` and end in `S`. -/
theorem loopN (h : ∀ b, Simulates (I b) (step b) (step' b) fun next t t' =>
      next.elim (fun b' => I b' t t') fun a => S a t t') (n : ℕ) {b : β} (pos pos' : ℕ) {p : ℕ}
    {s s' : List Char} {a : α} {r : List UInt8} (hrel : I b s s')
    (hok : loopN step n b pos (utf8 s) = .ok a p r) :
    ∃ m p' t t', r = utf8 t ∧ loopN step' m b pos' (utf8 s') = .ok a p' (utf8 t') ∧ S a t t' := by
  induction n generalizing b pos pos' s s' with
  | zero => exact nomatch hok
  | succ n ih =>
    obtain ⟨next, mid, r₁, hround, hrest⟩ := bind_eq_ok.mp hok
    obtain ⟨mid', t, t', rfl, hround', hrel'⟩ := h b pos pos' hrel hround
    match next with
    | .inl b' =>
      obtain ⟨m, p', u, u', hr, hlast, hS⟩ := ih mid mid' hrel' hrest
      exact ⟨m + 1, p', u, u', hr, (loopN_of_more hround').trans hlast, hS⟩
    | .inr a' =>
      obtain ⟨rfl, -, rfl⟩ := Outcome.ok.inj hrest
      exact ⟨1, mid', t, t', rfl, loopN_of_done hround', hrel'⟩

theorem loop (hsafe : ∀ b, Safe q e (step' b)) (hadv : ∀ b, Advances (step' b))
    (h : ∀ b, Simulates (I b) (step b) (step' b) fun next t t' =>
      next.elim (fun b' => I b' t t') fun a => S a t t') (b : β) :
    Simulates (I b) (ByteParser.loop step b) (ByteParser.loop step' b) S := by
  intro pos pos' p s s' a r hrel hok
  obtain ⟨m, p', t, t', hr, hok', hS⟩ := loopN h _ pos pos' hrel hok
  exact ⟨p', t, t', hr, loop_of_loopN hsafe hadv hok', hS⟩

end Simulates

end ByteParser
