import Rivr.Core.ParserPhrases

/-!
# Tokens and layout

`Laid uni tight toks s` says that the text `s` consists of the tokens `toks` with blanks and
comments between them, as little or as much as keeps the tokens apart. A tight text has none between
a `(` and a `)` that follows it. Every text is laid out in some way (`exists_laid`), and the tokens
of each can also be laid out tightly (`Laid.exists_tight`).
-/

open ByteParser Utf8

namespace Rivr.Core

variable {uni : Char → Bool}

/-! ### Layout -/

/-- Blanks and comments, each up to the end of its line; the last line of a text need not end. -/
inductive IsLayout (last : Bool) : List Char → Prop
  | blanks {ws : List Char} (hws : Blanks ws) : IsLayout last ws
  | comment {ws body rest : List Char} (hws : Blanks ws) (hbody : '\n' ∉ body)
      (hrest : IsLayout last ('\n' :: rest)) :
      IsLayout last (ws ++ ('/' :: '/' :: body ++ '\n' :: rest))
  | openComment {ws body : List Char} (hlast : last = true) (hws : Blanks ws)
      (hbody : '\n' ∉ body) : IsLayout last (ws ++ '/' :: '/' :: body)

/-- The text starts with no layout. -/
def Settled (s : List Char) : Prop :=
  (∀ c ∈ s.head?, isBlank c = false) ∧ ¬['/', '/'] <+: s

theorem settled_nil : Settled [] := ⟨nofun, by simp⟩

theorem IsLayout.nil {last : Bool} : IsLayout last [] := .blanks blanks_nil

theorem IsLayout.cons {last : Bool} {c : Char} {l : List Char} (hc : isBlank c = true)
    (h : IsLayout last l) : IsLayout last (c :: l) := by
  have hcons : ∀ {ws : List Char}, Blanks ws → Blanks (c :: ws) := fun hws =>
    List.forall_mem_cons.mpr ⟨hc, hws⟩
  cases h with
  | blanks hws => exact .blanks (hcons hws)
  | comment hws hbody hrest => exact .comment (hcons hws) hbody hrest
  | openComment hlast hws hbody => exact .openComment hlast (hcons hws) hbody

/-- Layout that is not empty does not start like a token. -/
theorem IsLayout.eq_nil_of_settled {last : Bool} {l u : List Char} (h : IsLayout last l)
    (hsettled : Settled (l ++ u)) : l = [] := by
  have hblanks : ∀ {ws rest : List Char}, Blanks ws → Settled (ws ++ rest) → ws = [] := by
    intro ws rest hws hs
    match ws with
    | [] => rfl
    | c :: ws =>
      have hc := hs.1 c rfl
      rw [hws c List.mem_cons_self] at hc
      exact nomatch hc
  cases h with
  | blanks hws => exact hblanks hws hsettled
  | comment hws =>
    rw [List.append_assoc] at hsettled
    obtain rfl := hblanks hws hsettled
    exact absurd ⟨_, rfl⟩ hsettled.2
  | openComment _ hws =>
    rw [List.append_assoc] at hsettled
    obtain rfl := hblanks hws hsettled
    exact absurd ⟨_, rfl⟩ hsettled.2

/-! ### Tokens -/

/-- A character of a word: of an identifier, of a dotted name or of a number. -/
def isNameChar (uni : Char → Bool) (c : Char) : Bool := isWordChar uni c || c == '.'

/-- The characters between the quotes of a string literal. -/
inductive LitChars : List Char → Prop
  | nil : LitChars []
  | plain {c : Char} {body : List Char} (hquote : c ≠ '"') (hback : c ≠ '\\')
      (h : LitChars body) : LitChars (c :: body)
  | escape {body : List Char} (c : Char) (h : LitChars body) : LitChars ('\\' :: c :: body)

/-- A token, with the text that follows it: a word as long as it goes, a string literal, which may
be open at the end of the text, the pipe operator, or a single character. -/
inductive Lexeme (uni : Char → Bool) : List Char → List Char → Prop
  | word {w u : List Char} (hne : w ≠ []) (hw : ∀ c ∈ w, isNameChar uni c = true)
      (hend : ∀ c ∈ u.head?, isNameChar uni c = false) : Lexeme uni w u
  | literal {body u : List Char} (hbody : LitChars body) : Lexeme uni ('"' :: (body ++ ['"'])) u
  | openLiteral {body tail : List Char} (hbody : LitChars body)
      (htail : tail = [] ∨ tail = ['\\']) : Lexeme uni ('"' :: (body ++ tail)) []
  | pipe {u : List Char} : Lexeme uni ['|', '>'] u
  | symbol {c : Char} {u : List Char} (hblank : isBlank c = false)
      (hname : isNameChar uni c = false) (hquote : c ≠ '"') (hslash : c = '/' → u.head? ≠ some '/')
      (hpipe : c = '|' → u.head? ≠ some '>') : Lexeme uni [c] u

/-- The text consists of the tokens, with layout between them and at its ends. In a tight text a `)`
follows a `(` immediately, if it is the next token. -/
inductive Laid (uni : Char → Bool) (tight : Bool) : List (List Char) → List Char → Prop
  | done {l : List Char} (hl : IsLayout true l) : Laid uni tight [] l
  | cons {l tok u : List Char} {toks : List (List Char)} (hl : IsLayout false l)
      (htok : Lexeme uni tok u)
      (htight : tight = true → tok = ['('] → toks.head? = some [')'] → u.head? = some ')')
      (h : Laid uni tight toks u) : Laid uni tight (tok :: toks) (l ++ (tok ++ u))

theorem eq_of_isBlank {c : Char} (h : isBlank c = true) :
    c ∈ [' ', '\t', '\n', '\x0c', '\r'] := by
  have hall : ∀ n < 0x80, isBlank (Char.ofNat n) = true →
      Char.ofNat n ∈ [' ', '\t', '\n', '\x0c', '\r'] := by decide
  have hc := hall c.toNat (isAscii_of_onChar isAsciiWhitespace_lt h)
  rw [Char.ofNat_toNat] at hc
  exact hc h

theorem isBlank_of_isNameChar {c : Char} (h : isNameChar uni c = true) : isBlank c = false := by
  rw [← Bool.not_eq_true]
  intro hblank
  have hc := eq_of_isBlank hblank
  simp only [List.mem_cons, List.not_mem_nil, or_false] at hc
  obtain rfl | rfl | rfl | rfl | rfl := hc <;> exact nomatch h

theorem Lexeme.ne_nil {tok u : List Char} (h : Lexeme uni tok u) : tok ≠ [] := by
  cases h with
  | word hne => exact hne
  | _ => exact List.cons_ne_nil _ _

/-- A text that starts with something else than a blank and a slash starts with no layout. -/
theorem settled_cons {c : Char} {s : List Char} (hblank : isBlank c = false)
    (hslash : c = '/' → s.head? ≠ some '/') : Settled (c :: s) := by
  refine ⟨fun d hd => ?_, ?_⟩
  · obtain rfl : c = d := Option.some.inj hd
    exact hblank
  · rintro ⟨t, ht⟩
    obtain ⟨rfl, rfl⟩ := List.cons.inj ht
    exact hslash rfl rfl

/-- A token does not start like layout. -/
theorem Lexeme.settled {tok u : List Char} (h : Lexeme uni tok u) : Settled (tok ++ u) := by
  cases h with
  | word hne hw hend =>
    obtain ⟨c, w, rfl⟩ := List.exists_cons_of_ne_nil hne
    have hc := hw c List.mem_cons_self
    refine settled_cons (isBlank_of_isNameChar hc) ?_
    rintro rfl
    exact nomatch hc
  | literal | openLiteral | pipe => exact settled_cons (by decide) (by simp)
  | symbol hblank hname hquote hslash hpipe => exact settled_cons hblank hslash

/-- A token that starts with a character of a word is a word, as long as it goes. -/
theorem Lexeme.isName {c : Char} {tok u : List Char} (h : Lexeme uni (c :: tok) u)
    (hc : isNameChar uni c = true) : (∀ d ∈ c :: tok, isNameChar uni d = true) ∧
      ∀ d ∈ u.head?, isNameChar uni d = false := by
  generalize htok : c :: tok = w at h
  cases h with
  | word _ hw hend => exact ⟨hw, hend⟩
  | symbol _ hname =>
    obtain ⟨rfl, -⟩ := List.cons.inj htok
    rw [hc] at hname
    exact nomatch hname
  | literal | openLiteral | pipe =>
    obtain ⟨rfl, -⟩ := List.cons.inj htok
    exact nomatch hc

/-- A token that starts with another character is that character, but for literals and pipes. -/
theorem Lexeme.eq_symbol {c : Char} {tok u : List Char} (h : Lexeme uni (c :: tok) u)
    (hname : isNameChar uni c = false) (hquote : c ≠ '"') (hpipe : c ≠ '|') : tok = [] := by
  generalize htok : c :: tok = w at h
  cases h with
  | word _ hw =>
    rw [hw c (htok ▸ List.mem_cons_self)] at hname
    exact nomatch hname
  | symbol => exact (List.cons.inj htok).2
  | literal | openLiteral => exact absurd (List.cons.inj htok).1 hquote
  | pipe => exact absurd (List.cons.inj htok).1 hpipe

/-- A token that starts with a quote is a literal, or the text ends in it. -/
theorem Lexeme.isLiteral {w u : List Char} (h : Lexeme uni ('"' :: w) u) :
    (∃ body, LitChars body ∧ w = body ++ ['"']) ∨
      ∃ body tail, LitChars body ∧ (tail = [] ∨ tail = ['\\']) ∧ w = body ++ tail ∧ u = [] := by
  cases h with
  | word _ hw => exact nomatch hw _ List.mem_cons_self
  | literal hbody => exact .inl ⟨_, hbody, rfl⟩
  | openLiteral hbody htail => exact .inr ⟨_, _, hbody, htail, rfl, rfl⟩
  | symbol _ _ hquote => exact absurd rfl hquote

/-! ### What is laid out -/

variable {tight : Bool} {toks : List (List Char)} {s : List Char}

theorem Laid.eq_nil_of_settled (h : Laid uni tight [] s) (hs : Settled s) : s = [] := by
  cases h with
  | done hl =>
    rw [← List.append_nil s] at hs
    exact hl.eq_nil_of_settled hs

/-- A text that starts with a token. -/
theorem Laid.of_settled {tok : List Char} (h : Laid uni tight (tok :: toks) s) (hs : Settled s) :
    ∃ u, s = tok ++ u ∧ Lexeme uni tok u ∧
      (tight = true → tok = ['('] → toks.head? = some [')'] → u.head? = some ')') ∧
        Laid uni tight toks u := by
  cases h with
  | @cons l _ u _ hl htok htight h =>
    obtain rfl := hl.eq_nil_of_settled hs
    exact ⟨u, rfl, htok, htight, h⟩

/-- The text without the layout at its start. -/
theorem Laid.exists_settled (h : Laid uni tight toks s) : ∃ l u last, s = l ++ u ∧
    IsLayout last l ∧ (last = true → u = []) ∧ Settled u ∧ Laid uni tight toks u ∧
      ∀ tight', Laid uni tight' toks u → Laid uni tight' toks s := by
  cases h with
  | done hl =>
    exact ⟨s, [], true, (List.append_nil s).symm, hl, fun _ => rfl, settled_nil, .done .nil,
      fun _ _ => .done hl⟩
  | @cons l tok u toks hl htok htight h =>
    refine ⟨l, tok ++ u, false, rfl, hl, nofun, htok.settled, .cons .nil htok htight h, ?_⟩
    intro tight' h'
    obtain ⟨u', hsame, htok', htight', hrest⟩ := h'.of_settled htok.settled
    obtain rfl := List.append_cancel_left hsame
    exact .cons hl htok' htight' hrest

/-! ### Every text is laid out -/

theorem Laid.blank {c : Char} (hc : isBlank c = true) (h : Laid uni tight toks s) :
    Laid uni tight toks (c :: s) := by
  cases h with
  | done hl => exact .done (hl.cons hc)
  | cons hl htok htight h => exact .cons (hl.cons hc) htok htight h

/-- A comment before the end of a line. -/
theorem Laid.comment {body : List Char} (hbody : '\n' ∉ body)
    (h : Laid uni tight toks ('\n' :: s)) :
    Laid uni tight toks ('/' :: '/' :: body ++ '\n' :: s) := by
  generalize hline : '\n' :: s = line at h
  cases h with
  | done hl =>
    subst hline
    exact .done (.comment blanks_nil hbody hl)
  | @cons l tok u toks hl htok htight h =>
    match l, hl with
    | [], _ =>
      -- a token does not start with the end of a line
      have hsettled := htok.settled
      rw [List.nil_append] at hline
      rw [← hline] at hsettled
      exact absurd (hsettled.1 '\n' rfl) (by decide)
    | d :: l, hl =>
      obtain ⟨rfl, -⟩ := List.cons.inj hline
      have hcomment : IsLayout false ([] ++ ('/' :: '/' :: body ++ '\n' :: l)) :=
        .comment blanks_nil hbody hl
      have hall := Laid.cons hcomment htok htight h
      simpa using hall

/-- A literal is read up to its quote, or the text ends before. -/
theorem exists_litChars : ∀ s : List Char, ∃ body rest, LitChars body ∧ s = body ++ rest ∧
    ((∃ u, rest = '"' :: u) ∨ rest = [] ∨ rest = ['\\'])
  | [] => ⟨[], [], .nil, rfl, .inr (.inl rfl)⟩
  | [c] => by
    by_cases hquote : c = '"'
    · exact ⟨[], [c], .nil, rfl, .inl ⟨[], by rw [hquote]⟩⟩
    by_cases hback : c = '\\'
    · exact ⟨[], [c], .nil, rfl, .inr (.inr (by rw [hback]))⟩
    · exact ⟨[c], [], .plain hquote hback .nil, rfl, .inr (.inl rfl)⟩
  | c :: d :: s => by
    by_cases hquote : c = '"'
    · exact ⟨[], c :: d :: s, .nil, rfl, .inl ⟨d :: s, by rw [hquote]⟩⟩
    by_cases hback : c = '\\'
    · obtain ⟨body, rest, hbody, hs, hrest⟩ := exists_litChars s
      exact ⟨'\\' :: d :: body, rest, .escape d hbody, by rw [hback, hs]; rfl, hrest⟩
    · obtain ⟨body, rest, hbody, hs, hrest⟩ := exists_litChars (d :: s)
      exact ⟨c :: body, rest, .plain hquote hback hbody, by rw [hs]; rfl, hrest⟩

/-- A token in front of a text. -/
theorem Laid.token {tok u : List Char} (htok : Lexeme uni tok u) (h : Laid uni false toks u) :
    Laid uni false (tok :: toks) (tok ++ u) :=
  .cons .nil htok (fun h => absurd h Bool.false_ne_true) h

theorem mem_dropWhile_head {P : Char → Bool} {s : List Char} {c : Char}
    (h : c ∈ (s.dropWhile P).head?) : P c = false := by
  have hnot := List.head?_dropWhile_not P s
  rw [Option.mem_def.mp h] at hnot
  exact hnot

/-- **Every text is laid out.** By induction on its length, from what it starts with. -/
theorem exists_laid (uni : Char → Bool) (s : List Char) : ∃ toks, Laid uni false toks s := by
  induction hn : s.length using Nat.strong_induction_on generalizing s with
  | _ n ih =>
    subst hn
    match s with
    | [] => exact ⟨[], .done .nil⟩
    | c :: s =>
      by_cases hblank : isBlank c = true
      · obtain ⟨toks, h⟩ := ih s.length (Nat.lt_succ_self _) s rfl
        exact ⟨toks, h.blank hblank⟩
      by_cases hname : isNameChar uni c = true
      · -- a word, as long as it goes
        have hlen : (s.dropWhile (isNameChar uni)).length < (c :: s).length :=
          Nat.lt_succ_of_le (List.dropWhile_suffix _).length_le
        obtain ⟨toks, h⟩ := ih _ hlen _ rfl
        have hword : Lexeme uni (c :: s.takeWhile (isNameChar uni))
            (s.dropWhile (isNameChar uni)) := by
          refine .word (List.cons_ne_nil _ _) ?_ fun d hd => mem_dropWhile_head hd
          exact List.forall_mem_cons.mpr ⟨hname, fun d hd => List.mem_takeWhile_imp hd⟩
        have hall := h.token hword
        rw [List.cons_append, List.takeWhile_append_dropWhile] at hall
        exact ⟨_, hall⟩
      -- a string literal, which may be open at the end of the text
      by_cases hquote : c = '"'
      · obtain ⟨body, rest, hbody, rfl, ⟨u, rfl⟩ | htail⟩ := exists_litChars s
        · obtain ⟨toks, h⟩ := ih u.length (by simp; omega) u rfl
          refine ⟨('"' :: (body ++ ['"'])) :: toks, ?_⟩
          simpa [hquote] using h.token (.literal hbody)
        · have hnil : Laid uni false [] [] := .done .nil
          refine ⟨['"' :: (body ++ rest)], ?_⟩
          simpa [hquote] using hnil.token (.openLiteral hbody htail)
      by_cases hcomment : c = '/' ∧ s.head? = some '/'
      · obtain ⟨rfl, hslash⟩ := hcomment
        obtain ⟨s, rfl⟩ := exists_cons_of_head? hslash
        have hbody : '\n' ∉ s.takeWhile (· != '\n') := fun hmem => by
          have hne := List.mem_takeWhile_imp hmem
          exact absurd hne (by decide)
        have hsplit := List.takeWhile_append_dropWhile (p := (· != '\n')) (l := s)
        rcases hrest : s.dropWhile (· != '\n') with _ | ⟨d, r⟩
        · -- the last line of the text
          rw [hrest, List.append_nil] at hsplit
          rw [hsplit] at hbody
          exact ⟨[], .done (.openComment rfl blanks_nil hbody)⟩
        · have hd : (d != '\n') = false :=
            mem_dropWhile_head (P := (· != '\n')) (s := s) (by rw [hrest]; rfl)
          obtain rfl : d = '\n' := by simpa using hd
          have hlen : ('\n' :: r).length < ('/' :: '/' :: s).length := by
            rw [← hrest]
            exact Nat.lt_succ_of_le
              ((List.dropWhile_suffix _).length_le.trans (Nat.le_succ _))
          obtain ⟨toks, h⟩ := ih _ hlen _ rfl
          have hall := h.comment hbody
          rw [List.cons_append, List.cons_append, ← hrest, hsplit] at hall
          exact ⟨toks, hall⟩
      -- the pipe operator, or else a single character
      by_cases hpipe : c = '|' ∧ s.head? = some '>'
      · obtain ⟨rfl, hangle⟩ := hpipe
        obtain ⟨s, rfl⟩ := exists_cons_of_head? hangle
        obtain ⟨toks, h⟩ := ih s.length (by rw [List.length_cons, List.length_cons]; omega) s rfl
        exact ⟨['|', '>'] :: toks, h.token .pipe⟩
      · obtain ⟨toks, h⟩ := ih s.length (Nat.lt_succ_self _) s rfl
        rw [Bool.not_eq_true] at hblank hname
        exact ⟨[c] :: toks, h.token (.symbol hblank hname hquote
          (fun hc hslash => hcomment ⟨hc, hslash⟩) fun hc hangle => hpipe ⟨hc, hangle⟩)⟩

/-! ### Tight texts -/

/-- What matters of the text after a token is the character that it starts with. -/
theorem Lexeme.congr_head {tok u u' : List Char} (h : Lexeme uni tok u)
    (hhead : u'.head? = u.head?) : Lexeme uni tok u' := by
  cases h with
  | word hne hw hend => exact .word hne hw (hhead ▸ hend)
  | literal hbody => exact .literal hbody
  | openLiteral hbody htail =>
    obtain rfl := List.head?_eq_none_iff.mp hhead
    exact .openLiteral hbody htail
  | pipe => exact .pipe
  | symbol hblank hname hquote hslash hpipe =>
    exact .symbol hblank hname hquote (hhead ▸ hslash) (hhead ▸ hpipe)

theorem lexeme_open (u : List Char) : Lexeme uni ['('] u :=
  .symbol (by decide) rfl (by decide) (fun h => absurd h (by decide))
    fun h => absurd h (by decide)

/-- **Tight layout.** The tokens of a text can be laid out tightly. By induction on the layout; what
stands between a `(` and a `)` is left out. -/
theorem Laid.exists_tight (h : Laid uni false toks s) :
    ∃ s', Laid uni true toks s' ∧ s'.head? = s.head? := by
  induction h with
  | @done l hl => exact ⟨l, .done hl, rfl⟩
  | @cons l tok u toks hl htok _ h ih =>
    obtain ⟨u', hlaid, hhead⟩ := ih
    have hhead' : ∀ v : List Char, (l ++ (tok ++ v)).head? = (l ++ (tok ++ u)).head? := by
      obtain ⟨c, tok, rfl⟩ := List.exists_cons_of_ne_nil htok.ne_nil
      exact fun v => by simp [List.head?_append]
    by_cases hempty : tok = ['('] ∧ toks.head? = some [')']
    · obtain ⟨rfl, hclose⟩ := hempty
      cases hlaid with
      | done => exact nomatch hclose
      | @cons l₁ tok₁ u₁ toks₁ _ htok₁ htight₁ h₁ =>
        obtain rfl : tok₁ = [')'] := Option.some.inj hclose
        exact ⟨l ++ (['('] ++ ([] ++ ([')'] ++ u₁))), .cons hl (lexeme_open _) (fun _ _ _ => rfl)
          (.cons .nil htok₁ htight₁ h₁), hhead' _⟩
    · exact ⟨l ++ (tok ++ u'), .cons hl (htok.congr_head hhead)
        (fun _ hopen hclose => absurd ⟨hopen, hclose⟩ hempty) hlaid, hhead' _⟩

/-- A tight layout is a layout. -/
theorem Laid.loose (h : Laid uni tight toks s) : Laid uni false toks s := by
  induction h with
  | done hl => exact .done hl
  | cons hl htok _ _ ih => exact .cons hl htok (fun h => absurd h Bool.false_ne_true) ih

end Rivr.Core
