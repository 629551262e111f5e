import Rivr.ForMathlib.Utf8

/-!
# Parsers that walk over the bytes of a UTF-8 text

A parser reads the bytes from a position on and comes to a result, an error, a panic (a slice of the
text off a character boundary) or no end at all. Its texts are the encodings `utf8 s` of lists of
characters.

`Safe q e f` says how far ahead `f` looks. The character `q` closes literals, the error `e` is the
one for a text that ends inside a literal, and `f` panics exactly on a text that goes on with a
character outside ASCII where it could have ended with `e` (`Safe.opened`, `Safe.panics`). For this
to compose, what a parser makes of its input must not depend on what comes after the next `q` that
it leaves (`Safe.stable`). The rules are one for each way to build a parser: `Safe.pure`,
`Safe.bind`, `Safe.fail`, `Safe.scan`, `Safe.loop`.
-/

open Utf8

namespace ByteParser

/-- What a parser comes to: a result with the position and the bytes after it, an error with its
position, a panic, or no end within the fuel. -/
inductive Outcome (ε α : Type) where
  | ok (a : α) (pos : ℕ) (rest : List UInt8)
  | err (pos : ℕ) (e : ε)
  | panic
  | hang

/-- The parser returned: a result or an error. -/
def Outcome.returns {ε α : Type} : Outcome ε α → Bool
  | .ok .. | .err .. => true
  | .panic | .hang => false

/-- What the parser returns. -/
def Outcome.value? {ε α : Type} : Outcome ε α → Option α
  | .ok a _ _ => some a
  | _ => none

theorem Outcome.value?_eq_some_iff {ε α : Type} {o : Outcome ε α} {a : α} :
    o.value? = some a ↔ ∃ pos rest, o = .ok a pos rest := by
  cases o <;> simp [Outcome.value?]

/-- A parser is given its position and the bytes from there on. -/
def Parser (ε α : Type) : Type := ℕ → List UInt8 → Outcome ε α

variable {ε α β γ : Type}

/-- Return a value and read nothing. -/
protected def Parser.pure (a : α) : Parser ε α := fun pos rest => .ok a pos rest

/-- Go on from where the first parser ends. -/
protected def Parser.bind (f : Parser ε α) (g : α → Parser ε β) : Parser ε β := fun pos rest =>
  match f pos rest with
  | .ok a pos rest => g a pos rest
  | .err pos e => .err pos e
  | .panic => .panic
  | .hang => .hang

instance : Monad (Parser ε) where
  pure := Parser.pure
  bind := Parser.bind

instance : LawfulMonad (Parser ε) := LawfulMonad.mk' (Parser ε)
  (fun f => by
    funext pos rest
    change Parser.bind f _ pos rest = _
    unfold Parser.bind
    cases f pos rest <;> rfl)
  (fun _ _ => rfl)
  (fun f _ _ => by
    funext pos rest
    change Parser.bind (Parser.bind f _) _ pos rest = Parser.bind f _ pos rest
    unfold Parser.bind
    cases f pos rest <;> rfl)

/-- The position. -/
def getPos : Parser ε ℕ := fun pos rest => .ok pos pos rest

/-- An error at a position that is given. -/
def failAt (at' : ℕ) (e : ε) : Parser ε α := fun _ _ => .err at' e

/-- An error at the current position. -/
def fail (e : ε) : Parser ε α := fun pos _ => .err pos e

/-- Repeat the step until it is done, at most `fuel` times. -/
def loopN (step : β → Parser ε (β ⊕ α)) : ℕ → β → Parser ε α
  | 0, _ => fun _ _ => .hang
  | fuel + 1, b => step b >>= fun r =>
    match r with
    | .inl b => loopN step fuel b
    | .inr a => pure a

/-- A loop, with one round for each byte that is left and one more to end in. -/
def loop (step : β → Parser ε (β ⊕ α)) (b : β) : Parser ε α := fun pos rest =>
  loopN step (rest.length + 1) b pos rest

theorem pure_apply (a : α) (pos : ℕ) (rest : List UInt8) :
    (pure a : Parser ε α) pos rest = .ok a pos rest := rfl

theorem bind_eq_ok {f : Parser ε α} {g : α → Parser ε β} {pos pos' : ℕ} {rest rest' : List UInt8}
    {b : β} : (f >>= g) pos rest = .ok b pos' rest' ↔
      ∃ a mid r, f pos rest = .ok a mid r ∧ g a mid r = .ok b pos' rest' := by
  change Parser.bind f g pos rest = _ ↔ _
  unfold Parser.bind
  cases f pos rest <;> simp

theorem bind_of_ok {f : Parser ε α} {g : α → Parser ε β} {pos mid : ℕ} {rest r : List UInt8}
    {a : α} (h : f pos rest = .ok a mid r) : (f >>= g) pos rest = g a mid r := by
  change Parser.bind f g pos rest = _
  rw [Parser.bind, h]

theorem bind_eq_err {f : Parser ε α} {g : α → Parser ε β} {pos pos' : ℕ} {rest : List UInt8}
    {e : ε} : (f >>= g) pos rest = .err pos' e ↔
      f pos rest = .err pos' e ∨
        ∃ a mid r, f pos rest = .ok a mid r ∧ g a mid r = .err pos' e := by
  change Parser.bind f g pos rest = _ ↔ _
  unfold Parser.bind
  cases f pos rest <;> simp

theorem bind_eq_panic {f : Parser ε α} {g : α → Parser ε β} {pos : ℕ} {rest : List UInt8} :
    (f >>= g) pos rest = .panic ↔ f pos rest = .panic ∨
      ∃ a mid r, f pos rest = .ok a mid r ∧ g a mid r = .panic := by
  change Parser.bind f g pos rest = _ ↔ _
  unfold Parser.bind
  cases f pos rest <;> simp

theorem bind_eq_hang {f : Parser ε α} {g : α → Parser ε β} {pos : ℕ} {rest : List UInt8} :
    (f >>= g) pos rest = .hang ↔ f pos rest = .hang ∨
      ∃ a mid r, f pos rest = .ok a mid r ∧ g a mid r = .hang := by
  change Parser.bind f g pos rest = _ ↔ _
  unfold Parser.bind
  cases f pos rest <;> simp

section

variable {step : β → Parser ε (β ⊕ α)} {n pos pos' : ℕ} {b b' : β} {a : α} {rest r : List UInt8}

/-- A round after which the loop goes on. -/
theorem loopN_of_more (h : step b pos rest = .ok (.inl b') pos' r) :
    loopN step (n + 1) b pos rest = loopN step n b' pos' r := by
  rw [loopN, bind_of_ok h]

/-- A round that ends the loop. -/
theorem loopN_of_done (h : step b pos rest = .ok (.inr a) pos' r) :
    loopN step (n + 1) b pos rest = .ok a pos' r := by
  rw [loopN, bind_of_ok h]
  rfl

theorem loopN_of_err {e : ε} (h : step b pos rest = .err pos' e) :
    loopN step (n + 1) b pos rest = .err pos' e :=
  bind_eq_err.mpr (.inl h)

theorem loopN_of_panic (h : step b pos rest = .panic) :
    loopN step (n + 1) b pos rest = .panic :=
  bind_eq_panic.mpr (.inl h)

end

/-! ### How far a parser looks ahead -/

/-- What `f` does on a text is decided before the next `q` that it leaves, and `f` panics on a text
that goes on outside ASCII where it could have ended with the error `e`. -/
structure Local (q : Char) (e : ε) (f : Parser ε α) : Prop where
  consumes : ∀ {pos pos' : ℕ} {s : List Char} {a : α} {r : List UInt8},
    f pos (utf8 s) = .ok a pos' r →
      ∃ p s', s = p ++ s' ∧ r = utf8 s' ∧ pos' = pos + (utf8 p).length
  stable : ∀ {pos pos' : ℕ} {s s' t : List Char} {a : α}, q ∈ s' →
    (f pos (utf8 s) = .ok a pos' (utf8 s') ↔
      f pos (utf8 (s ++ t)) = .ok a pos' (utf8 (s' ++ t)))
  opened : ∀ {pos pos' : ℕ} {s : List Char}, f pos (utf8 s) = .err pos' e →
    q ∈ s ∧ ∀ c t, ¬IsAscii c → f pos (utf8 (s ++ c :: t)) = .panic
  panics : ∀ {pos : ℕ} {s : List Char}, f pos (utf8 s) = .panic →
    ∃ p c t pos', s = p ++ c :: t ∧ ¬IsAscii c ∧ f pos (utf8 p) = .err pos' e

/-- A parser that looks no further than it may, and always comes to an end. -/
structure Safe (q : Char) (e : ε) (f : Parser ε α) : Prop extends Local q e f where
  halts : ∀ (pos : ℕ) (s : List Char), f pos (utf8 s) ≠ .hang

variable {q : Char} {e : ε}

/-- A parser that neither panics nor ends inside a literal is local if it consumes characters and is
stable. -/
theorem Local.of_stable {f : Parser ε α}
    (consumes : ∀ {pos pos' : ℕ} {s : List Char} {a : α} {r : List UInt8},
      f pos (utf8 s) = .ok a pos' r →
        ∃ p s', s = p ++ s' ∧ r = utf8 s' ∧ pos' = pos + (utf8 p).length)
    (stable : ∀ {pos pos' : ℕ} {s s' t : List Char} {a : α}, q ∈ s' →
      (f pos (utf8 s) = .ok a pos' (utf8 s') ↔
        f pos (utf8 (s ++ t)) = .ok a pos' (utf8 (s' ++ t))))
    (opened : ∀ pos pos' s, f pos (utf8 s) ≠ .err pos' e)
    (panics : ∀ pos s, f pos (utf8 s) ≠ .panic) : Local q e f where
  consumes := consumes
  stable := stable
  opened h := absurd h (opened _ _ _)
  panics h := absurd h (panics _ _)

namespace Safe

theorem pure (a : α) : Safe q e (pure a : Parser ε α) where
  consumes h := by
    obtain ⟨rfl, rfl, rfl⟩ := Outcome.ok.inj h
    exact ⟨[], _, rfl, rfl, rfl⟩
  stable := by
    intro pos pos' s s' t a' _
    simp only [pure_apply, Outcome.ok.injEq, utf8_injective.eq_iff, List.append_cancel_right_eq]
  opened h := nomatch h
  panics h := nomatch h
  halts _ _ h := nomatch h

theorem getPos : Safe q e (ByteParser.getPos : Parser ε ℕ) where
  consumes h := by
    obtain ⟨-, rfl, rfl⟩ := Outcome.ok.inj h
    exact ⟨[], _, rfl, rfl, rfl⟩
  stable := by
    intro pos pos' s s' t a' _
    simp only [ByteParser.getPos, Outcome.ok.injEq, utf8_injective.eq_iff,
      List.append_cancel_right_eq]
  opened h := nomatch h
  panics h := nomatch h
  halts _ _ h := nomatch h

theorem failAt {e' : ε} (h : e' ≠ e) (at' : ℕ) : Safe q e (ByteParser.failAt at' e' : Parser ε α) where
  consumes h := nomatch h
  stable _ := ⟨(nomatch ·), (nomatch ·)⟩
  opened herr := absurd (Outcome.err.inj herr).2 h
  panics h := nomatch h
  halts _ _ h := nomatch h

theorem fail {e' : ε} (h : e' ≠ e) : Safe q e (ByteParser.fail e' : Parser ε α) where
  consumes h := nomatch h
  stable _ := ⟨(nomatch ·), (nomatch ·)⟩
  opened herr := absurd (Outcome.err.inj herr).2 h
  panics h := nomatch h
  halts _ _ h := nomatch h

end Safe

/-! ### Sequences -/

variable {f : Parser ε α} {g : α → Parser ε β}

/-- What is left after the second parser is left after the first. -/
theorem Local.bind (hf : Local q e f) (hg : ∀ a, Local q e (g a)) : Local q e (f >>= g) where
  consumes h := by
    obtain ⟨a, mid, r, hfok, hgok⟩ := bind_eq_ok.mp h
    obtain ⟨p, s₁, rfl, rfl, rfl⟩ := hf.consumes hfok
    obtain ⟨p', s₂, rfl, rfl, rfl⟩ := (hg a).consumes hgok
    refine ⟨p ++ p', s₂, (List.append_assoc _ _ _).symm, rfl, ?_⟩
    rw [utf8_append, List.length_append, Nat.add_assoc]
  stable := by
    intro pos pos' s s' t b hq
    constructor
    · intro h
      obtain ⟨a, mid, r, hfok, hgok⟩ := bind_eq_ok.mp h
      obtain ⟨p, s₁, rfl, rfl, rfl⟩ := hf.consumes hfok
      obtain ⟨p', s₂, rfl, hs₂, rfl⟩ := (hg a).consumes hgok
      obtain rfl := utf8_injective hs₂
      have hq' : q ∈ p' ++ s' := List.mem_append_right _ hq
      rw [bind_of_ok ((hf.stable hq').mp hfok)]
      exact ((hg a).stable hq).mp hgok
    · intro h
      obtain ⟨a, mid, r, hfok, hgok⟩ := bind_eq_ok.mp h
      obtain ⟨p, s₁, hs, rfl, rfl⟩ := hf.consumes hfok
      obtain ⟨p', s₂, rfl, hs₂, rfl⟩ := (hg a).consumes hgok
      obtain rfl := utf8_injective hs₂
      obtain rfl : s = p ++ (p' ++ s') := by
        refine List.append_cancel_right (hs.trans ?_)
        simp only [List.append_assoc]
      have hq' : q ∈ p' ++ s' := List.mem_append_right _ hq
      rw [← List.append_assoc p'] at hfok hgok
      rw [bind_of_ok ((hf.stable hq').mpr hfok)]
      exact ((hg a).stable hq).mpr hgok
  opened := by
    intro pos pos' s h
    rcases bind_eq_err.mp h with hferr | ⟨a, mid, r, hfok, hgerr⟩
    · obtain ⟨hq, hpanic⟩ := hf.opened hferr
      exact ⟨hq, fun c t hc => bind_eq_panic.mpr (.inl (hpanic c t hc))⟩
    · obtain ⟨p, s₁, rfl, rfl, rfl⟩ := hf.consumes hfok
      obtain ⟨hq, hpanic⟩ := (hg a).opened hgerr
      refine ⟨List.mem_append_right _ hq, fun c t hc => ?_⟩
      rw [bind_of_ok ((hf.stable hq).mp hfok)]
      exact hpanic c t hc
  panics := by
    intro pos s h
    rcases bind_eq_panic.mp h with hfpanic | ⟨a, mid, r, hfok, hgpanic⟩
    · obtain ⟨p, c, t, pos', rfl, hc, herr⟩ := hf.panics hfpanic
      exact ⟨p, c, t, pos', rfl, hc, bind_eq_err.mpr (.inl herr)⟩
    · obtain ⟨p, s₁, rfl, rfl, rfl⟩ := hf.consumes hfok
      obtain ⟨p', c, t, pos', rfl, hc, herr⟩ := (hg a).panics hgpanic
      -- the second parser ends inside a literal that it opened itself
      have hq : q ∈ p' := ((hg a).opened herr).1
      refine ⟨p ++ p', c, t, pos', (List.append_assoc _ _ _).symm, hc, ?_⟩
      rw [← List.append_assoc] at hfok
      exact bind_eq_err.mpr (.inr ⟨a, _, _, (hf.stable hq).mpr hfok, herr⟩)

theorem Safe.bind (hf : Safe q e f) (hg : ∀ a, Safe q e (g a)) : Safe q e (f >>= g) where
  toLocal := hf.toLocal.bind fun a => (hg a).toLocal
  halts pos s h := by
    rcases bind_eq_hang.mp h with hfhang | ⟨a, mid, r, hfok, hghang⟩
    · exact hf.halts pos s hfhang
    · obtain ⟨p, s₁, rfl, rfl, rfl⟩ := hf.consumes hfok
      exact (hg a).halts _ _ hghang

theorem Safe.ite {p : Prop} [Decidable p] {f g : Parser ε α} (hf : Safe q e f) (hg : Safe q e g) :
    Safe q e (if p then f else g) := by
  split_ifs
  · exact hf
  · exact hg

/-! ### Scanners -/

/-- A scanner looks at the characters that are left and says what it found and how many characters
it takes; `q` after them decides what it does. -/
def Scans (q : Char) (scan : List Char → α × ℕ) : Prop :=
  ∀ s t, q ∈ s.drop (scan s).2 ∨ q ∈ s.drop (scan (s ++ t)).2 → scan (s ++ t) = scan s

/-- The parser does what the scanner says. -/
def Reads (f : Parser ε α) (scan : List Char → α × ℕ) : Prop :=
  ∀ pos s, f pos (utf8 s) =
    .ok (scan s).1 (pos + (utf8 (s.take (scan s).2)).length) (utf8 (s.drop (scan s).2))

theorem Safe.scan (scan : List Char → α × ℕ) (hscan : Scans q scan) (hf : Reads f scan) :
    Safe q e f where
  consumes {pos pos' s a r} h := by
    rw [hf, Outcome.ok.injEq] at h
    obtain ⟨rfl, rfl, rfl⟩ := h
    exact ⟨_, _, (List.take_append_drop _ s).symm, rfl, rfl⟩
  stable := by
    intro pos pos' s s' t a hq
    simp only [hf pos, Outcome.ok.injEq, utf8_injective.eq_iff]
    have hlen : 0 < s'.length := List.length_pos_of_mem hq
    constructor
    · rintro ⟨rfl, rfl, rfl⟩
      have hle : (scan s).2 ≤ s.length := by
        rw [List.length_drop] at hlen
        omega
      rw [hscan s t (.inl hq), List.take_append_of_le_length hle,
        List.drop_append_of_le_length hle]
      exact ⟨rfl, rfl, rfl⟩
    · rintro ⟨rfl, rfl, hdrop⟩
      have hle : (scan (s ++ t)).2 ≤ s.length := by
        have := congrArg List.length hdrop
        simp only [List.length_drop, List.length_append] at this
        omega
      rw [List.drop_append_of_le_length hle] at hdrop
      have hdrop' := List.append_cancel_right hdrop
      rw [← hdrop'] at hq
      have hsame := hscan s t (.inr hq)
      rw [hsame] at hdrop' hle
      rw [hsame, List.take_append_of_le_length hle]
      exact ⟨rfl, rfl, hdrop'⟩
  opened h := by
    rw [hf] at h
    exact nomatch h
  panics h := by
    rw [hf] at h
    exact nomatch h
  halts pos s h := by
    rw [hf] at h
    exact nomatch h

/-- Taking the characters of a predicate. -/
theorem scans_takeWhile (P : Char → Bool) (a : List Char → γ) :
    Scans q fun s => (a (s.takeWhile P), (s.takeWhile P).length) := by
  intro s t h
  dsimp only at h ⊢
  -- a character of the text that is left over ends the span
  have hex : (s.takeWhile P).length < s.length := by
    by_contra hge
    have hall : s.takeWhile P = s :=
      List.IsPrefix.eq_of_length_le (List.takeWhile_prefix P) (Nat.not_lt.mp hge)
    have hpos : ∀ x ∈ s, P x = true := List.takeWhile_eq_self_iff.mp hall
    have hle : s.length ≤ ((s ++ t).takeWhile P).length := by
      rw [List.takeWhile_append_of_pos hpos, List.length_append]
      exact Nat.le_add_right _ _
    rcases h with h | h
    · rw [hall, List.drop_length] at h
      exact List.not_mem_nil h
    · rw [List.drop_eq_nil_of_le hle] at h
      exact List.not_mem_nil h
  have hsame : (s ++ t).takeWhile P = s.takeWhile P := by
    rw [List.takeWhile_append, if_neg (Nat.ne_of_lt hex)]
  rw [hsame]

theorem reads_takeWhile {f : Parser ε γ} {P : UInt8 → Bool} (hP : Uniform P) {a : List UInt8 → γ}
    (hf : ∀ pos s, f pos (utf8 s) = .ok (a ((utf8 s).takeWhile P))
      (pos + ((utf8 s).takeWhile P).length) ((utf8 s).dropWhile P)) :
    Reads f fun s => (a (utf8 (s.takeWhile (onChar P))), (s.takeWhile (onChar P)).length) := by
  intro pos s
  have happend := List.takeWhile_append_dropWhile (p := onChar P) (l := s)
  have htake : s.take (s.takeWhile (onChar P)).length = s.takeWhile (onChar P) := calc
    _ = (s.takeWhile (onChar P) ++ s.dropWhile (onChar P)).take _ := by rw [happend]
    _ = _ := List.take_left
  have hdrop : s.drop (s.takeWhile (onChar P)).length = s.dropWhile (onChar P) := calc
    _ = (s.takeWhile (onChar P) ++ s.dropWhile (onChar P)).drop _ := by rw [happend]
    _ = _ := List.drop_left
  rw [hf, takeWhile_utf8 hP, dropWhile_utf8 hP, htake, hdrop]

/-- Looking at the next character. -/
theorem scans_head (a : Option Char → γ) : Scans q fun s => (a s.head?, 0) := by
  intro s t h
  dsimp only at h ⊢
  have hne : s ≠ [] := by
    rintro rfl
    simp at h
  rw [List.head?_append_of_ne_nil _ hne]

/-- An ASCII word that has `q` at its end at most starts the text or not whatever comes after
`q`. -/
theorem isPrefixOf_append_of_mem {w s t : List Char} (hw : q ∉ w.dropLast) (hq : q ∈ s) :
    w.isPrefixOf (s ++ t) = w.isPrefixOf s := by
  induction w generalizing s with
  | nil => simp
  | cons d w ih =>
    match s, hq with
    | c :: s, hq =>
      simp only [List.cons_append, List.isPrefixOf]
      match w, hw with
      | [], _ => simp
      | d' :: w, hw =>
        rw [List.dropLast_cons_cons, List.mem_cons, not_or] at hw
        rcases List.mem_cons.mp hq with rfl | hq
        · rw [beq_eq_false_iff_ne.mpr (Ne.symm hw.1), Bool.false_and, Bool.false_and]
        · rw [ih hw.2 hq]

/-! ### Loops -/

/-- Where the result is of the kind `P`, something was read. -/
def Strict (P : α → Prop) (f : Parser ε α) : Prop :=
  ∀ ⦃pos pos' s a r⦄, f pos (utf8 s) = .ok a pos' r → P a → pos < pos'

/-- Something was read by the first parser, or else by the second. -/
theorem Strict.bind {P : β → Prop} {Q : α → Prop} (hlocal : Local q e f) (hf : Strict Q f)
    (hlocal' : ∀ a, Local q e (g a)) (hg : ∀ a, ¬Q a → Strict P (g a)) : Strict P (f >>= g) := by
  intro pos pos' s b r h hP
  obtain ⟨a, mid, r', hfok, hgok⟩ := bind_eq_ok.mp h
  obtain ⟨p, s₁, rfl, rfl, rfl⟩ := hlocal.consumes hfok
  obtain ⟨p', s₂, rfl, rfl, rfl⟩ := (hlocal' a).consumes hgok
  by_cases hQ : Q a
  · have := hf hfok hQ
    omega
  · have := hg a hQ hgok hP
    omega

/-- The first parser decides nothing. -/
theorem Strict.bind_right {P : β → Prop} (hlocal : Local q e f) (hlocal' : ∀ a, Local q e (g a))
    (hg : ∀ a, Strict P (g a)) : Strict P (f >>= g) :=
  Strict.bind hlocal (fun _ _ _ _ _ _ hno => False.elim hno) hlocal' fun a _ => hg a

/-- The first parser reads something. -/
theorem Strict.bind_left {P : β → Prop} (hlocal : Local q e f) (hf : Strict (fun _ => True) f)
    (hlocal' : ∀ a, Local q e (g a)) : Strict P (f >>= g) :=
  Strict.bind hlocal hf hlocal' fun _ hno => absurd trivial hno

theorem Strict.pure {P : α → Prop} {a : α} (h : ¬P a) : Strict P (pure a : Parser ε α) := by
  intro pos pos' s a' r hok hP
  rw [pure_apply, Outcome.ok.injEq] at hok
  exact absurd (hok.1 ▸ hP) h

theorem Strict.ite {P : α → Prop} {p : Prop} [Decidable p] {f g : Parser ε α} (hf : Strict P f)
    (hg : Strict P g) : Strict P (if p then f else g) := by
  split_ifs
  · exact hf
  · exact hg

theorem Strict.fail {P : α → Prop} {e' : ε} : Strict P (fail e' : Parser ε α) :=
  fun _ _ _ _ _ hok => nomatch hok

/-- A round that asks for another one has read something. -/
abbrev Advances (f : Parser ε (β ⊕ α)) : Prop := Strict (fun r => r.isLeft) f

variable {step : β → Parser ε (β ⊕ α)}

theorem Local.loopN (h : ∀ b, Local q e (step b)) (fuel : ℕ) (b : β) :
    Local q e (loopN step fuel b) := by
  induction fuel generalizing b with
  | zero =>
    exact .of_stable (nomatch ·) (fun _ => ⟨(nomatch ·), (nomatch ·)⟩)
      (fun _ _ _ => (nomatch ·)) (fun _ _ => (nomatch ·))
  | succ fuel ih =>
    refine (h b).bind fun r => ?_
    match r with
    | .inl b => exact ih b
    | .inr a => exact (Safe.pure a).toLocal

/-- More fuel makes no difference to a loop that ends. -/
theorem loopN_mono {n m : ℕ} (hnm : n ≤ m) {b : β} {pos : ℕ} {rest : List UInt8}
    (h : loopN step n b pos rest ≠ .hang) : loopN step m b pos rest = loopN step n b pos rest := by
  induction n generalizing m b pos rest with
  | zero => exact absurd rfl h
  | succ n ih =>
    obtain ⟨m, rfl⟩ : ∃ k, m = k + 1 := ⟨m - 1, by omega⟩
    change Parser.bind _ _ _ _ = Parser.bind _ _ _ _
    change Parser.bind _ _ _ _ ≠ _ at h
    unfold Parser.bind at h ⊢
    match hstep : step b pos rest with
    | .ok (.inl b') pos' rest' =>
      rw [hstep] at h
      exact ih (Nat.le_of_succ_le_succ hnm) h
    | .ok (.inr a) pos' rest' => rfl
    | .err pos' e => rfl
    | .panic => rfl
    | .hang => rfl

/-- A loop whose rounds read something ends before its fuel does. -/
theorem loopN_ne_hang (h : ∀ b, Safe q e (step b)) (hadv : ∀ b, Advances (step b)) {n : ℕ} {b : β}
    {pos : ℕ} {s : List Char} (hn : (utf8 s).length < n) : loopN step n b pos (utf8 s) ≠ .hang := by
  induction n generalizing b pos s with
  | zero => exact absurd hn (Nat.not_lt_zero _)
  | succ n ih =>
    intro hhang
    rcases bind_eq_hang.mp hhang with hstep | ⟨r, mid, rest, hstep, hnext⟩
    · exact (h b).halts _ _ hstep
    · obtain ⟨p, s', rfl, rfl, rfl⟩ := (h b).consumes hstep
      match r with
      | .inl b' =>
        have hlt := hadv b hstep rfl
        rw [utf8_append, List.length_append] at hn
        exact ih (by omega) hnext
      | .inr a => exact nomatch hnext

/-- A loop of rounds that read something: the fuel is no part of what it does. -/
theorem Safe.loop (h : ∀ b, Safe q e (step b)) (hadv : ∀ b, Advances (step b)) (b : β) :
    Safe q e (loop step b) := by
  -- any fuel above the number of bytes gives the same
  have hfuel : ∀ {n pos} {s : List Char}, (utf8 s).length < n →
      ByteParser.loop step b pos (utf8 s) = loopN step n b pos (utf8 s) := fun hn =>
    (loopN_mono hn (loopN_ne_hang h hadv (Nat.lt_succ_self _))).symm
  have hlocal := Local.loopN fun b => (h b).toLocal
  exact {
    consumes := fun {pos pos' s a r} hok => (hlocal _ b).consumes hok
    stable := fun {pos pos' s s' t a} hq => by
      have hlt : (utf8 s).length < (utf8 (s ++ t)).length + 1 := by
        rw [utf8_append, List.length_append]
        omega
      rw [hfuel hlt, hfuel (Nat.lt_succ_self _)]
      exact (hlocal _ b).stable hq
    opened := fun {pos pos' s} herr => by
      obtain ⟨hq, hpanic⟩ := (hlocal _ b).opened herr
      refine ⟨hq, fun c t hc => ?_⟩
      have hne : loopN step ((utf8 s).length + 1) b pos (utf8 (s ++ c :: t)) ≠ .hang := by
        rw [hpanic c t hc]
        exact (nomatch ·)
      have hle : (utf8 s).length + 1 ≤ (utf8 (s ++ c :: t)).length + 1 := by
        rw [utf8_append, List.length_append]
        omega
      rw [hfuel (Nat.lt_succ_self _), loopN_mono hle hne]
      exact hpanic c t hc
    panics := fun {pos s} hpanic => by
      obtain ⟨p, c, t, pos', rfl, hc, herr⟩ := (hlocal _ b).panics hpanic
      refine ⟨p, c, t, pos', rfl, hc, ?_⟩
      have hlt : (utf8 p).length < (utf8 (p ++ c :: t)).length + 1 := by
        rw [utf8_append, List.length_append]
        omega
      rw [hfuel hlt]
      exact herr
    halts := fun pos s => loopN_ne_hang h hadv (Nat.lt_succ_self _) }

/-! ### Texts of some characters only -/

/-- The parsers do the same on the texts whose characters are all of the kind `P`. -/
def AgreeOn (P : Char → Prop) (f g : Parser ε α) : Prop :=
  ∀ pos s, (∀ c ∈ s, P c) → f pos (utf8 s) = g pos (utf8 s)

namespace AgreeOn

variable {P : Char → Prop} {f f' : Parser ε α} {g g' : α → Parser ε β}

theorem refl (f : Parser ε α) : AgreeOn P f f := fun _ _ _ => rfl

/-- What the first parser leaves is a text of the same characters. -/
theorem bind (hlocal : Safe q e f) (hf : AgreeOn P f f') (hg : ∀ a, AgreeOn P (g a) (g' a)) :
    AgreeOn P (f >>= g) (f' >>= g') := by
  intro pos s hs
  change Parser.bind f g pos (utf8 s) = Parser.bind f' g' pos (utf8 s)
  unfold Parser.bind
  rw [← hf pos s hs]
  match hok : f pos (utf8 s) with
  | .ok a pos' r =>
    obtain ⟨p, s', rfl, rfl, -⟩ := hlocal.consumes hok
    exact hg a pos' s' fun c hc => hs c (List.mem_append_right _ hc)
  | .err _ _ => rfl
  | .panic => rfl
  | .hang => rfl

/-- The same first parser. -/
theorem andThen (hlocal : Safe q e f) (hg : ∀ a, AgreeOn P (g a) (g' a)) :
    AgreeOn P (f >>= g) (f >>= g') :=
  bind hlocal (refl f) hg

theorem ite {p : Prop} [Decidable p] {f f' g g' : Parser ε α} (hf : AgreeOn P f f')
    (hg : AgreeOn P g g') : AgreeOn P (if p then f else g) (if p then f' else g') := by
  split_ifs
  · exact hf
  · exact hg

theorem loop {step' : β → Parser ε (β ⊕ α)} (hlocal : ∀ b, Safe q e (step b))
    (h : ∀ b, AgreeOn P (step b) (step' b)) (b : β) :
    AgreeOn P (ByteParser.loop step b) (ByteParser.loop step' b) := by
  have hloopN : ∀ n b, AgreeOn P (loopN step n b) (loopN step' n b) := by
    intro n
    induction n with
    | zero => exact fun _ => refl _
    | succ n ih =>
      refine fun b => bind (hlocal b) (h b) fun r => ?_
      match r with
      | .inl b' => exact ih b'
      | .inr a => exact refl _
  exact fun pos s => hloopN _ b pos s

end AgreeOn

end ByteParser
