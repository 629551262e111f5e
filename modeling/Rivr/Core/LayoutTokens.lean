import Rivr.Core.Layout
import Rivr.ForMathlib.ParserSimulation

/-!
# The token parsers on two layouts

What the token parsers of `parser.rs` return on a text they also return on another layout of the
same tokens, and they leave two layouts of the same tokens. Whether a `)` comes right after a `(` is
kept track of in `Match`: the second text is tight, and the first one has yet to turn out tight
(`goal`).
-/

open ByteParser Utf8

namespace Rivr.Core

variable {uni : Char → Bool} {α β : Type} {goal : Prop} {opened : Bool} {tok u u' s s' : List Char}

/-! ### Layout is skipped -/

theorem onChar_ne_newline (c : Char) : onChar (fun b => b != 10) c = (c != '\n') := by
  by_cases hc : IsAscii c
  · have hall : ∀ n < 0x80, onChar (fun b => b != 10) (Char.ofNat n) = (Char.ofNat n != '\n') := by
      decide
    have hn := hall c.toNat hc
    rwa [Char.ofNat_toNat] at hn
  · have hne : c ≠ '\n' := by
      rintro rfl
      exact hc (by decide)
    rw [bne_iff_ne.mpr hne, onChar, List.all_eq_true]
    obtain ⟨b, x, bs, heq, hb, hbs⟩ := utf8EncodeChar_of_not_isAscii hc
    intro y hy
    rw [bne_iff_ne]
    rintro rfl
    rw [heq, List.mem_cons] at hy
    obtain rfl | hy := hy
    · exact absurd hb (by decide)
    · exact absurd (hbs _ hy).1 (by decide)

/-- What a round of `skip_ws` skips before a comment. -/
theorem skipBlanks_apply {ws : List Char} (hws : Blanks ws) (hs : ∀ c ∈ s.head?, isBlank c = false)
    (pos : ℕ) : skipWhile isAsciiWhitespace pos (utf8 (ws ++ s)) =
      .ok () (pos + (utf8 ws).length) (utf8 s) :=
  takes_skipWhile (uniform_of_lt isAsciiWhitespace_lt) hws hs pos s rfl

/-- A round without a comment. -/
theorem skipWsStep_blanks {ws : List Char} (hws : Blanks ws) (hs : Settled s) (pos : ℕ) :
    skipWsStep () pos (utf8 (ws ++ s)) = .ok (.inr ()) (pos + (utf8 ws).length) (utf8 s) := by
  have hstart : ['/', '/'].isPrefixOf s = false := by
    rw [← Bool.not_eq_true, List.isPrefixOf_iff_prefix]
    exact hs.2
  refine (bind_of_ok (skipBlanks_apply hws hs.1 pos)).trans ((bind_of_ok
    (reads_startsWith isWord_comment _ s)).trans ?_)
  change (if ['/', '/'].isPrefixOf s = true then _ else _ : Parse (Unit ⊕ Unit)) _ _ = _
  rw [hstart]
  rfl

/-- A round with a comment, up to the end of its line. -/
theorem skipWsStep_comment {ws body : List Char} (hws : Blanks ws) (hbody : '\n' ∉ body)
    (hs : ∀ c ∈ s.head?, c = '\n') (pos : ℕ) :
    ∃ p, skipWsStep () pos (utf8 (ws ++ (('/' :: '/' :: body) ++ s))) =
      .ok (.inl ()) p (utf8 s) := by
  have hline : ∀ c ∈ '/' :: '/' :: body, onChar (fun b => b != 10) c = true := by
    intro c hc
    rw [onChar_ne_newline, bne_iff_ne]
    rintro rfl
    simp only [List.mem_cons] at hc
    obtain hc | hc | hc := hc
    · exact absurd hc (by decide)
    · exact absurd hc (by decide)
    · exact hbody hc
  have hend : ∀ c ∈ s.head?, onChar (fun b => b != 10) c = false := by
    intro c hc
    rw [onChar_ne_newline, hs c hc]
    rfl
  have hstart : ∀ c ∈ (('/' :: '/' :: body) ++ s).head?, isBlank c = false := by
    rintro c ⟨⟩
    decide
  have hskip := takes_skipWhile uniform_ne_newline hline hend (pos + (utf8 ws).length) s rfl
  refine ⟨_, (bind_of_ok (skipBlanks_apply hws hstart pos)).trans ((bind_of_ok
    (reads_startsWith isWord_comment _ _)).trans (bind_of_ok hskip))⟩

/-- `skip_ws` skips the layout at the start of a text. By induction on the layout, a comment at a
time. -/
theorem skipWs_layout {last : Bool} {l : List Char} (hl : IsLayout last l)
    (hlast : last = true → u = []) (hu : Settled u) (pos : ℕ) :
    ∃ p, skipWs pos (utf8 (l ++ u)) = .ok () p (utf8 u) := by
  obtain ⟨m, p, h⟩ : ∃ m p, loopN skipWsStep m () pos (utf8 (l ++ u)) = .ok () p (utf8 u) := by
    induction hl generalizing pos with
    | blanks hws => exact ⟨1, _, loopN_of_done (skipWsStep_blanks hws hu pos)⟩
    | @comment ws body rest hws hbody _ ih =>
      obtain ⟨mid, hround⟩ := skipWsStep_comment (s := '\n' :: rest ++ u) hws hbody
        (by rintro c ⟨⟩; rfl) pos
      obtain ⟨m, p, h⟩ := ih mid
      refine ⟨m + 1, p, ?_⟩
      rw [List.append_assoc, List.append_assoc]
      exact (loopN_of_more hround).trans h
    | @openComment ws body hopen hws hbody =>
      obtain rfl := hlast hopen
      obtain ⟨mid, hround⟩ := skipWsStep_comment (s := []) hws hbody nofun pos
      refine ⟨2, mid, ?_⟩
      rw [List.append_assoc]
      exact (loopN_of_more hround).trans
        (loopN_of_done (skipWsStep_blanks blanks_nil settled_nil mid))
  exact ⟨p, loop_of_loopN safe_skipWsStep advances_skipWsStep h⟩

/-! ### Two layouts of the same tokens -/

/-- Two layouts of the same tokens, the second one tight. It is left to show that the first one was
tight (`goal`), except where a `(` was just read and a `)` comes next. -/
def Match (uni : Char → Bool) (opened : Bool) (goal : Prop) (s s' : List Char) : Prop :=
  ∃ toks, Laid uni false toks s ∧ Laid uni true toks s' ∧
    ((opened = true ∧ toks.head? = some [')']) ∨ (Laid uni true toks s → goal))

/-- The same where both texts start with a token, or end. -/
structure MatchAt (uni : Char → Bool) (opened : Bool) (goal : Prop) (s s' : List Char) : Prop where
  same : Match uni opened goal s s'
  left : Settled s
  right : Settled s'

/-- A token at the start of both texts, and what follows it. -/
structure TokenMatch (uni : Char → Bool) (opened : Bool) (goal : Prop) (tok u u' : List Char) :
    Prop where
  left : Lexeme uni tok u
  right : Lexeme uni tok u'
  next : ∃ toks, Laid uni false toks u ∧ Laid uni true toks u' ∧
    (tok = ['('] → toks.head? = some [')'] → u'.head? = some ')') ∧
      ((opened = true ∧ tok = [')']) ∨ (Laid uni true (tok :: toks) (tok ++ u) → goal))

theorem Match.of_closed (h : Match uni false goal s s') : Match uni opened goal s s' := by
  obtain ⟨toks, hs, hs', hgoal⟩ := h
  exact ⟨toks, hs, hs', hgoal.imp_left fun hopen => absurd hopen.1 Bool.false_ne_true⟩

/-- Both texts end, or go on with the same token. -/
theorem MatchAt.eq_nil_or (h : MatchAt uni opened goal s s') : (s = [] ∧ s' = [] ∧ goal) ∨
    ∃ tok u u', s = tok ++ u ∧ s' = tok ++ u' ∧ TokenMatch uni opened goal tok u u' := by
  obtain ⟨⟨toks, hs, hs', hgoal⟩, hleft, hright⟩ := h
  match toks, hs, hs', hgoal with
  | [], hs, hs', hgoal =>
    obtain rfl := hs.eq_nil_of_settled hleft
    obtain rfl := hs'.eq_nil_of_settled hright
    exact .inl ⟨rfl, rfl, hgoal.elim (fun h => nomatch h.2) fun h => h (.done .nil)⟩
  | tok :: toks, hs, hs', hgoal =>
    obtain ⟨u, rfl, htok, -, hu⟩ := hs.of_settled hleft
    obtain ⟨u', rfl, htok', htight, hu'⟩ := hs'.of_settled hright
    exact .inr ⟨tok, u, u', rfl, rfl, htok, htok', toks, hu, hu', htight rfl,
      hgoal.imp_left fun h => ⟨h.1, Option.some.inj h.2⟩⟩

namespace TokenMatch

/-- The token is read, and is no parenthesis that matters. -/
theorem closed (h : TokenMatch uni opened goal tok u u') (hopen : tok ≠ ['('])
    (hclose : opened = true → tok ≠ [')']) : Match uni false goal u u' := by
  obtain ⟨toks, hu, hu', -, hgoal⟩ := h.next
  refine ⟨toks, hu, hu', .inr fun htight => ?_⟩
  obtain ⟨hopened, htok⟩ | hgoal := hgoal
  · exact absurd htok (hclose hopened)
  · exact hgoal (.cons .nil h.left (fun _ htok => absurd htok hopen) htight)

/-- A `(` is read. -/
theorem openParen (h : TokenMatch uni opened goal ['('] u u') : Match uni true goal u u' := by
  obtain ⟨toks, hu, hu', -, hgoal⟩ := h.next
  refine ⟨toks, hu, hu', ?_⟩
  by_cases hclose : toks.head? = some [')']
  · exact .inl ⟨rfl, hclose⟩
  · refine .inr fun htight => ?_
    obtain ⟨-, htok⟩ | hgoal := hgoal
    · exact absurd htok (by decide)
    · exact hgoal (.cons .nil h.left (fun _ _ hnext => absurd hnext hclose) htight)

/-- The characters of a word are read, or some of them. -/
theorem word {w w' : List Char} (h : TokenMatch uni opened goal (w ++ w') u u') (hne : w ≠ [])
    (hw : ∀ c ∈ w, isNameChar uni c = true) : Match uni false goal (w' ++ u) (w' ++ u') := by
  obtain ⟨c, w, rfl⟩ := List.exists_cons_of_ne_nil hne
  have hc := hw c List.mem_cons_self
  have hparen : ∀ {d : Char} {w : List Char}, isNameChar uni d = false →
      (∀ e ∈ w, isNameChar uni e = true) → w ≠ [d] := by
    rintro d w hd hall rfl
    rw [hall d List.mem_cons_self] at hd
    exact nomatch hd
  have hall := (h.left.isName hc).1
  match w' with
  | [] => exact h.closed (hparen rfl hall) fun _ => hparen rfl hall
  | d :: w' =>
    -- the characters that are left are the next token
    have hrest : ∀ e ∈ d :: w', isNameChar uni e = true := fun e he =>
      hall e (List.mem_append_right (c :: w) he)
    have hlex : ∀ {v : List Char}, Lexeme uni (c :: w ++ d :: w') v → Lexeme uni (d :: w') v :=
      fun hv => .word (List.cons_ne_nil d w') hrest (hv.isName hc).2
    obtain ⟨toks, hu, hu', -, hgoal⟩ := h.next
    refine ⟨(d :: w') :: toks, .cons .nil (hlex h.left) (fun h => absurd h Bool.false_ne_true) hu,
      .cons .nil (hlex h.right) (fun _ htok => absurd htok (hparen rfl hrest)) hu',
      .inr fun htight => ?_⟩
    obtain ⟨v, hsame, -, -, hv⟩ := htight.of_settled (hlex h.left).settled
    obtain rfl := List.append_cancel_left hsame
    obtain ⟨-, htok⟩ | hgoal := hgoal
    · exact absurd htok (hparen rfl hall)
    · exact hgoal (.cons .nil h.left (fun _ htok => absurd htok (hparen rfl hall)) hv)

/-- A `(` and the `)` that follows it at once. -/
theorem emptyParens (h : TokenMatch uni opened goal ['('] (')' :: u) u') :
    ∃ v', u' = ')' :: v' ∧ Match uni false goal u v' := by
  have hsettled : ∀ v : List Char, Settled (')' :: v) := fun v =>
    settled_cons (by decide) fun h => absurd h (by decide)
  obtain ⟨toks, hu, hu', htight, hgoal⟩ := h.next
  match toks, hu, hu', htight, hgoal with
  | [], hu, _, _, _ => exact absurd (hu.eq_nil_of_settled (hsettled u)) (List.cons_ne_nil _ _)
  | tok :: toks, hu, hu', htight, hgoal =>
    obtain ⟨v, hv, htok, -, hlaid⟩ := hu.of_settled (hsettled u)
    obtain ⟨c, tok, rfl⟩ := List.exists_cons_of_ne_nil htok.ne_nil
    obtain ⟨rfl, hrest⟩ := List.cons.inj hv
    obtain rfl := htok.eq_symbol rfl (by decide) (by decide)
    obtain rfl : u = v := hrest
    obtain ⟨v', rfl⟩ := exists_cons_of_head? (htight rfl rfl)
    obtain ⟨w, hw, -, -, hlaid'⟩ := hu'.of_settled (hsettled v')
    obtain rfl : v' = w := (List.cons.inj hw).2
    refine ⟨v', rfl, toks, hlaid, hlaid', .inr fun hu => ?_⟩
    obtain ⟨-, hparen⟩ | hgoal := hgoal
    · exact absurd hparen (by decide)
    · exact hgoal (.cons .nil h.left (fun _ _ _ => rfl)
        (.cons .nil htok (fun _ hparen => absurd hparen (by decide)) hu))

end TokenMatch

/-! ### Parsers on two layouts -/

/-- The layouts after a parser that has read a token if `moved`; `next` if this is a `(`. -/
def After (uni : Char → Bool) (opened next : Bool) (goal : Prop) (moved : α → Bool) (a : α) :
    List Char → List Char → Prop :=
  cond (moved a) (Match uni next goal) (MatchAt uni opened goal)

/-- A parser that leaves two layouts of the same tokens. -/
abbrev Keeps (uni : Char → Bool) (opened : Bool) (goal : Prop) (f : Parse α) : Prop :=
  Simulates (Match uni opened goal) f f fun _ => Match uni false goal

theorem After.same {next : Bool} {moved : α → Bool} {a : α}
    (h : After uni false next goal moved a s s') : Match uni next goal s s' := by
  unfold After at h
  match moved a, h with
  | true, h => exact h
  | false, h => exact h.same.of_closed

/-- A scanner that sees the first token only, and reads it or part of it. -/
theorem simulates_scan (next : Bool) (moved : α → Bool) {f : Parse α} {scan : List Char → α × ℕ}
    (hf : Reads f scan) (hnil : moved (scan []).1 = false)
    (hstay : ∀ s, moved (scan s).1 = false → (scan s).2 = 0)
    (hscan : ∀ {tok u}, Lexeme uni tok u → scan (tok ++ u) = scan tok)
    (hmove : ∀ {tok u u'}, moved (scan tok).1 = true → TokenMatch uni opened goal tok u u' →
      Match uni next goal ((tok ++ u).drop (scan tok).2) ((tok ++ u').drop (scan tok).2)) :
    Simulates (MatchAt uni opened goal) f f (After uni opened next goal moved) := by
  refine .of_reads hf fun s s' h => ?_
  obtain ⟨rfl, rfl, -⟩ | ⟨tok, u, u', rfl, rfl, htok⟩ := h.eq_nil_or
  · refine ⟨rfl, ?_⟩
    rw [After, hnil, hstay [] hnil]
    exact h
  · rw [hscan htok.left, hscan htok.right]
    refine ⟨rfl, ?_⟩
    unfold After
    match hmoved : moved (scan tok).1 with
    | true => exact hmove hmoved htok
    | false =>
      rw [hstay tok hmoved]
      exact h

/-- Layout is skipped on both sides. -/
theorem simulates_skipWs :
    Simulates (Match uni opened goal) skipWs skipWs fun _ => MatchAt uni opened goal := by
  rintro pos pos' p s s' ⟨⟩ r ⟨toks, hs, hs', hgoal⟩ hok
  obtain ⟨l, u, last, rfl, hl, hlast, hu, htoks, htight⟩ := hs.exists_settled
  obtain ⟨l', u', last', rfl, hl', hlast', hu', htoks', -⟩ := hs'.exists_settled
  obtain ⟨mid, hskip⟩ := skipWs_layout hl hlast hu pos
  obtain ⟨mid', hskip'⟩ := skipWs_layout hl' hlast' hu' pos'
  obtain ⟨-, -, rfl⟩ := Outcome.ok.inj (hok.symm.trans hskip)
  exact ⟨mid', u, u', rfl, hskip',
    ⟨⟨toks, htoks, htoks', hgoal.imp_right fun h => h ∘ htight true⟩, hu, hu'⟩⟩

/-! ### Scanners -/

theorem simulates_peek :
    Simulates (MatchAt uni opened goal) peek peek fun _ => MatchAt uni opened goal := by
  refine (simulates_scan false (fun _ => false) reads_peek rfl (fun _ _ => rfl)
    (fun {tok u} htok => ?_) nofun).mono (fun _ _ h => h) fun _ _ _ h => h
  rw [List.head?_append_of_ne_nil _ htok.ne_nil]

/-- The first token ends before a character that it could go on with. -/
theorem Lexeme.takeWhile_append {P : Char → Bool} (h : Lexeme uni tok u)
    (hP : ∀ c, P c = true → isNameChar uni c = true) :
    (tok ++ u).takeWhile P = tok.takeWhile P := by
  obtain ⟨c, tok, rfl⟩ := List.exists_cons_of_ne_nil h.ne_nil
  by_cases hc : P c = true
  · obtain ⟨-, hend⟩ := h.isName (hP c hc)
    have hu : u.takeWhile P = [] := by
      match u, hend with
      | [], _ => rfl
      | d :: u, hend =>
        have hd : ¬P d = true := fun hd => by
          have hnot := hend d rfl
          rw [hP d hd] at hnot
          exact nomatch hnot
        exact List.takeWhile_cons_of_neg hd
    rw [List.takeWhile_append]
    split_ifs with hall
    · rw [hu, List.append_nil, (List.takeWhile_prefix P).eq_of_length hall]
    · rfl
  · rw [List.cons_append, List.takeWhile_cons_of_neg hc, List.takeWhile_cons_of_neg hc]

/-- A slice of characters of words. -/
theorem simulates_sliceWhile {P : UInt8 → Bool} (hlt : ∀ b, P b = true → b.toNat < 0x80)
    (hP : ∀ c, onChar P c = true → isNameChar uni c = true) :
    Simulates (MatchAt uni opened goal) (sliceWhile P) (sliceWhile P)
      (After uni opened false goal fun slice => !slice.isEmpty) := by
  refine simulates_scan false (fun slice => !slice.isEmpty) (reads_sliceWhile hlt) rfl
    (fun s hs => ?_) (fun htok => ?_) fun {tok u u'} hmoved htok => ?_
  · have hempty : s.takeWhile (onChar P) = [] := by
      by_contra hne
      simp [isEmpty_utf8 hne] at hs
    exact congrArg List.length hempty
  · rw [htok.takeWhile_append hP]
  · have hne : tok.takeWhile (onChar P) ≠ [] := by
      intro hempty
      simp [hempty] at hmoved
    have hw : ∀ c ∈ tok.takeWhile (onChar P), isNameChar uni c = true := fun c hc =>
      hP c (List.mem_takeWhile_imp hc)
    obtain ⟨w', hsplit⟩ : ∃ w', tok.takeWhile (onChar P) ++ w' = tok :=
      ⟨_, List.takeWhile_append_dropWhile⟩
    generalize tok.takeWhile (onChar P) = w at *
    subst hsplit
    have hrest := htok.word hne hw
    dsimp only
    rwa [List.append_assoc, List.append_assoc, List.drop_left, List.drop_left]

theorem isNameChar_of_onChar {c : Char} (h : onChar isDottedByte c = true) :
    isNameChar uni c = true := by
  have hc : IsAscii c := isAscii_of_onChar isDottedByte_lt h
  have hall : ∀ n < 0x80, onChar isDottedByte (Char.ofNat n) = true →
      (asciiWordChar (Char.ofNat n) || Char.ofNat n == '.') = true := by
    decide
  have hword := hall c.toNat hc
  rw [Char.ofNat_toNat] at hword
  rw [isNameChar, isWordChar_of_isAscii hc]
  exact hword h

theorem onChar_mono {P Q : UInt8 → Bool} (h : ∀ b, P b = true → Q b = true) {c : Char}
    (hc : onChar P c = true) : onChar Q c = true :=
  List.all_eq_true.mpr fun b hb => h b (List.all_eq_true.mp hc b hb)

theorem isDottedByte_of_isIdentByte (b : UInt8) (h : isIdentByte b = true) :
    isDottedByte b = true := by
  rw [isDottedByte, h, Bool.true_or]

theorem isDottedByte_of_isAsciiDigit (b : UInt8) (h : isAsciiDigit b = true) :
    isDottedByte b = true :=
  isDottedByte_of_isIdentByte b (by simp [isIdentByte, h])

theorem isDottedByte_of_isFloatByte (b : UInt8) (h : isFloatByte b = true) :
    isDottedByte b = true := by
  rw [isFloatByte, Bool.or_eq_true] at h
  obtain h | h := h
  · exact isDottedByte_of_isAsciiDigit b h
  · rw [isDottedByte, h, Bool.or_true]

/-! ### Words and symbols -/

/-- A keyword made of characters of words. -/
structure IsKeyword (uni : Char → Bool) (kw : String) : Prop where
  isWord : IsWord kw
  chars : ∀ c ∈ kw.toList, isNameChar uni c = true
  ne_nil : kw.toList ≠ []

theorem isKeyword_of_isIdentByte {kw : String} (h : ∀ c ∈ kw.toList, onChar isIdentByte c = true)
    (hne : kw.toList ≠ []) : IsKeyword uni kw where
  isWord := isWord_named h
  chars c hc := isNameChar_of_onChar (onChar_mono isDottedByte_of_isIdentByte (h c hc))
  ne_nil := hne

theorem IsKeyword.isPrefixOf_append {kw : String} (hkw : IsKeyword uni kw) (h : Lexeme uni tok u) :
    kw.toList <+: tok ++ u ↔ kw.toList <+: tok := by
  refine ⟨fun hpre => ?_, fun hpre => hpre.trans (List.prefix_append tok u)⟩
  obtain ⟨t, ht⟩ := hpre
  have hspan := h.takeWhile_append (P := isNameChar uni) fun _ hc => hc
  rw [← ht, List.takeWhile_append_of_pos hkw.chars] at hspan
  have hspan' : kw.toList <+: tok.takeWhile (isNameChar uni) := ⟨_, hspan⟩
  exact hspan'.trans (List.takeWhile_prefix _)

/-- What follows a word goes on with none. -/
theorem isWordChar_headD (hend : ∀ d ∈ u.head?, isNameChar uni d = false) :
    isWordChar uni (u.headD '\x00') = false := by
  match u, hend with
  | [], _ => rfl
  | d :: u, hend => exact (Bool.or_eq_false_iff.mp (hend d rfl)).1

/-- What `eat` sees of a keyword is in the first token. -/
theorem IsKeyword.eatScan_append {kw : String} (hkw : IsKeyword uni kw) (h : Lexeme uni tok u) :
    eatScan uni kw (tok ++ u) = eatScan uni kw tok := by
  have hpre : kw.toList.isPrefixOf (tok ++ u) = kw.toList.isPrefixOf tok := by
    rw [Bool.eq_iff_iff, List.isPrefixOf_iff_prefix, List.isPrefixOf_iff_prefix]
    exact hkw.isPrefixOf_append h
  rw [eatScan, eatScan, hpre]
  by_cases hkwtok : kw.toList <+: tok
  · have hon : goesOn uni kw.toList (tok ++ u) = goesOn uni kw.toList tok := by
      obtain ⟨w, rfl⟩ := hkwtok
      rw [goesOn, goesOn, List.append_assoc, List.drop_left, List.drop_left]
      cases w with
      | cons d w => rfl
      | nil =>
        -- the keyword is the whole token, and the text goes on with no word
        obtain ⟨c, w, hw⟩ := List.exists_cons_of_ne_nil hkw.ne_nil
        have hc := hkw.chars c (hw ▸ List.mem_cons_self)
        rw [List.append_nil, hw] at h
        rw [List.nil_append, isWordChar_headD (h.isName hc).2, isWordChar_headD (u := []) (by simp)]
    rw [hon]
  · rw [← List.isPrefixOf_iff_prefix, Bool.not_eq_true] at hkwtok
    rw [hkwtok]
    rfl

theorem eatScan_of_eaten {kw : String} (h : (eatScan uni kw s).1 = true) :
    kw.toList <+: s ∧ (eatScan uni kw s).2 = kw.toList.length := by
  unfold eatScan at h ⊢
  split_ifs at h ⊢ with hpre
  rw [Bool.and_eq_true] at hpre
  exact ⟨List.isPrefixOf_iff_prefix.mp hpre.1, rfl⟩

theorem eatScan_of_left {kw : String} (h : (eatScan uni kw s).1 = false) :
    (eatScan uni kw s).2 = 0 := by
  unfold eatScan at h ⊢
  split_ifs at h ⊢ with hpre
  rfl

theorem eatScan_nil {kw : String} (hne : kw.toList ≠ []) : (eatScan uni kw []).1 = false := by
  rw [← Bool.not_eq_true]
  intro h
  exact hne (List.prefix_nil.mp (eatScan_of_eaten h).1)

/-- A keyword is eaten on both sides or on none. -/
theorem simulates_eat {kw : String} (hkw : IsKeyword uni kw) :
    Simulates (Match uni opened goal) (eat uni kw) (eat uni kw)
      (After uni opened false goal id) := by
  refine simulates_skipWs.bind fun _ => simulates_scan false id (reads_eatHere hkw.isWord)
    (eatScan_nil hkw.ne_nil) (fun _ => eatScan_of_left) hkw.eatScan_append
    fun {tok u u'} heaten htok => ?_
  obtain ⟨⟨w, rfl⟩, hlen⟩ := eatScan_of_eaten heaten
  rw [hlen, List.append_assoc, List.append_assoc, List.drop_left, List.drop_left]
  exact htok.word hkw.ne_nil hkw.chars

/-- A keyword made of one other character. -/
structure IsSymbol (uni : Char → Bool) (kw : String) (c : Char) : Prop where
  eq : kw.toList = [c]
  isWord : IsWord kw
  name : isNameChar uni c = false
  quote : c ≠ '"'
  pipe : c ≠ '|'

/-- What a parser sees of a symbol is in the first token. -/
theorem isPrefixOf_singleton {c : Char} (h : Lexeme uni tok u) :
    [c].isPrefixOf (tok ++ u) = [c].isPrefixOf tok := by
  obtain ⟨d, tok, rfl⟩ := List.exists_cons_of_ne_nil h.ne_nil
  rfl

theorem IsSymbol.eatScan_append {kw : String} {c : Char} (hkw : IsSymbol uni kw c)
    (h : Lexeme uni tok u) : eatScan uni kw (tok ++ u) = eatScan uni kw tok := by
  have hword : isWordChar uni c = false := (Bool.or_eq_false_iff.mp hkw.name).1
  have hon : ∀ t, goesOn uni kw.toList t = false := fun t => by simp [goesOn, hkw.eq, hword]
  rw [eatScan, eatScan, hon, hon, hkw.eq, isPrefixOf_singleton h]

theorem IsSymbol.eq_of_isPrefixOf {kw : String} {c : Char} (hkw : IsSymbol uni kw c)
    (h : Lexeme uni tok u) (hpre : kw.toList <+: tok) : tok = [c] := by
  rw [hkw.eq] at hpre
  obtain ⟨w, rfl⟩ := hpre
  rw [List.singleton_append] at h
  rw [h.eq_symbol hkw.name hkw.quote hkw.pipe]
  rfl

/-- A symbol is eaten on both sides or on none. -/
theorem IsSymbol.simulates_eat {kw : String} {c : Char} (hkw : IsSymbol uni kw c) (next : Bool)
    (hmove : ∀ {u u'}, TokenMatch uni opened goal [c] u u' → Match uni next goal u u') :
    Simulates (Match uni opened goal) (eat uni kw) (eat uni kw)
      (After uni opened next goal id) := by
  refine simulates_skipWs.bind fun _ => simulates_scan next id (reads_eatHere hkw.isWord)
    (eatScan_nil (hkw.eq ▸ List.cons_ne_nil c [])) (fun _ => eatScan_of_left) hkw.eatScan_append
    fun {tok u u'} heaten htok => ?_
  obtain ⟨hpre, hlen⟩ := eatScan_of_eaten heaten
  obtain rfl := hkw.eq_of_isPrefixOf htok.left hpre
  rw [hlen, hkw.eq]
  exact hmove htok

theorem isSymbol_open : IsSymbol uni "(" '(' := ⟨rfl, isWord_lparen, rfl, by decide, by decide⟩
theorem isSymbol_close : IsSymbol uni ")" ')' := ⟨rfl, isWord_rparen, rfl, by decide, by decide⟩
theorem isSymbol_comma : IsSymbol uni "," ',' := ⟨rfl, isWord_comma, rfl, by decide, by decide⟩
theorem isSymbol_equals : IsSymbol uni "=" '=' := ⟨rfl, isWord_equals, rfl, by decide, by decide⟩
theorem isSymbol_semicolon : IsSymbol uni ";" ';' :=
  ⟨rfl, isWord_semicolon, rfl, by decide, by decide⟩
theorem isSymbol_at : IsSymbol uni "@" '@' := ⟨rfl, isWord_at, rfl, by decide, by decide⟩
theorem isSymbol_lbrace : IsSymbol uni "\x7b" '\x7b' :=
  ⟨rfl, ⟨by decide, by decide⟩, rfl, by decide, by decide⟩
theorem isSymbol_rbrace : IsSymbol uni "\x7d" '\x7d' :=
  ⟨rfl, isWord_rbrace, rfl, by decide, by decide⟩

theorem IsSymbol.keeps_eat {kw : String} {c : Char} (hkw : IsSymbol uni kw c) (hc : c ≠ '(') :
    Keeps uni false goal (eat uni kw) :=
  (hkw.simulates_eat false fun h => h.closed (fun hparen => hc (List.cons.inj hparen).1)
    fun hopen => absurd hopen Bool.false_ne_true).mono (fun _ _ h => h) fun _ _ _ h => h.same

theorem failCtx_ne_ok {n : ℕ} {msg : String → ParseMsg} (pos : ℕ) (rest : List UInt8) (a : α)
    (p : ℕ) (r : List UInt8) : (failCtx n msg : Parse α) pos rest ≠ .ok a p r := by
  unfold failCtx
  split <;> exact nofun

theorem notFound_ne_ok (kw : String) (pos : ℕ) (rest : List UInt8) (a : α) (p : ℕ)
    (r : List UInt8) :
    (skipWs >>= fun _ => failCtx 12 (.expected kw) : Parse α) pos rest ≠ .ok a p r := by
  intro h
  obtain ⟨_, mid, r', -, hfail⟩ := bind_eq_ok.mp h
  exact failCtx_ne_ok _ _ _ _ _ hfail

/-- A word that is expected is there on both sides. -/
theorem simulates_expect {kw : String} {R : List Char → List Char → Prop}
    {S : Bool → List Char → List Char → Prop} (h : Simulates R (eat uni kw) (eat uni kw) S) :
    Simulates R (expect uni kw) (expect uni kw) fun _ => S true :=
  h.bind_cond (.pure _ fun _ _ h => h) (.of_ne_ok fun _ _ => notFound_ne_ok kw _ _)

theorem IsSymbol.keeps_expect {kw : String} {c : Char} (hkw : IsSymbol uni kw c) (hc : c ≠ '(') :
    Keeps uni false goal (expect uni kw) :=
  simulates_expect (hkw.keeps_eat hc)

theorem simulates_open : Simulates (Match uni false goal) (expect uni "(") (expect uni "(")
    fun _ => Match uni true goal :=
  simulates_expect (isSymbol_open.simulates_eat true fun h => h.openParen)

theorem keeps_close : Keeps uni false goal (expect uni ")") :=
  isSymbol_close.keeps_expect (by decide)

theorem keeps_comma : Keeps uni false goal (expect uni ",") :=
  isSymbol_comma.keeps_expect (by decide)

theorem keeps_equals : Keeps uni false goal (expect uni "=") :=
  isSymbol_equals.keeps_expect (by decide)

theorem keeps_semicolon : Keeps uni false goal (expect uni ";") :=
  isSymbol_semicolon.keeps_expect (by decide)

/-- The two parentheses are expected as one word: this is where a text has to be tight. -/
theorem keeps_emptyParens : Keeps uni false goal (expect uni "()") := by
  have hword : IsWord "()" := ⟨by decide, by decide⟩
  have hsplit : expect uni "()" = skipWs >>= fun _ => eatHere uni "()" >>= fun b =>
      if b then pure () else skipWs >>= fun _ => failCtx 12 (.expected "()") := by
    simp only [expect, eat, bind_assoc]
  rw [Keeps, hsplit]
  refine simulates_skipWs.bind fun _ => ?_
  rintro pos pos' p s s' ⟨⟩ r h hok
  obtain ⟨b, mid, r', heat, hrest⟩ := bind_eq_ok.mp hok
  cases b with
  | false => exact absurd hrest (notFound_ne_ok _ _ _ _ _ _)
  | true =>
    obtain ⟨-, -, rfl⟩ := Outcome.ok.inj hrest
    rw [reads_eatHere hword] at heat
    obtain ⟨heaten, -, rfl⟩ := Outcome.ok.inj heat
    obtain ⟨⟨t, rfl⟩, hlen⟩ := eatScan_of_eaten heaten
    obtain ⟨hnil, -⟩ | ⟨tok, u, u', hs, rfl, htok⟩ := h.eq_nil_or
    · cases hnil
    · obtain ⟨c, tok, rfl⟩ := List.exists_cons_of_ne_nil htok.left.ne_nil
      obtain ⟨rfl, hrest⟩ := List.cons.inj hs
      obtain rfl := htok.left.eq_symbol rfl (by decide) (by decide)
      obtain rfl : ')' :: t = u := hrest
      -- the tight text has the `)` right behind the `(` too
      obtain ⟨v', rfl, hmatch⟩ := htok.emptyParens
      refine ⟨pos' + 2, t, v', by rw [hlen]; rfl, ?_, hmatch⟩
      have hscan : eatScan uni "()" ('(' :: ')' :: v') = (true, 2) := rfl
      have heat' : eatHere uni "()" pos' (utf8 ('(' :: ')' :: v')) = _ :=
        reads_eatHere hword pos' _
      rw [hscan] at heat'
      exact bind_of_ok heat'

/-! ### Pipes, braces and the end -/

/-- What is skipped is a token of its own. -/
theorem keeps_skipStr {w : String} (hw : IsWord w) (hne : w.toList ≠ [])
    (hparen : w.toList ≠ ['(']) (htoken : ∀ {tok u}, Lexeme uni tok u → w.toList <+: tok ++ u →
      tok = w.toList) :
    Simulates (MatchAt uni false goal) (skipStr w) (skipStr w) fun _ => Match uni false goal := by
  have hpre : ∀ {tok u}, Lexeme uni tok u →
      w.toList.isPrefixOf (tok ++ u) = w.toList.isPrefixOf tok := by
    intro tok u htok
    rw [Bool.eq_iff_iff, List.isPrefixOf_iff_prefix, List.isPrefixOf_iff_prefix]
    exact ⟨fun h => htoken htok h ▸ List.prefix_rfl, fun h => h.trans (List.prefix_append _ _)⟩
  have hnil : w.toList.isPrefixOf [] = false := by
    rw [← Bool.not_eq_true, List.isPrefixOf_iff_prefix, List.prefix_nil]
    exact hne
  refine (simulates_scan false id (reads_skipStr hw) ?_ (fun s hs => ?_)
    (fun {tok u} htok => ?_) fun {tok u u'} hmoved htok => ?_).mono (fun _ _ h => h)
      fun _ _ _ h => h.same
  · rw [hnil]
    rfl
  · by_cases h : w.toList.isPrefixOf s = true
    · rw [if_pos h] at hs
      exact nomatch hs
    · rw [if_neg h]
  · rw [hpre htok]
  · by_cases h : w.toList.isPrefixOf tok = true
    · rw [if_pos h]
      rw [List.isPrefixOf_iff_prefix] at h
      obtain rfl := htoken htok.left (h.trans (List.prefix_append _ _))
      rw [List.drop_left, List.drop_left]
      exact htok.closed hparen fun hopen => absurd hopen Bool.false_ne_true
    · rw [if_neg h] at hmoved
      exact nomatch hmoved

theorem keeps_skipBrace : Simulates (MatchAt uni false goal) (skipStr "\x7d") (skipStr "\x7d")
    fun _ => Match uni false goal := by
  have hkw : IsSymbol uni "\x7d" '\x7d' := isSymbol_rbrace
  refine keeps_skipStr isWord_rbrace (by decide) (by decide) fun {tok u} htok hpre => ?_
  rw [← List.isPrefixOf_iff_prefix, hkw.eq, isPrefixOf_singleton htok, ← hkw.eq,
    List.isPrefixOf_iff_prefix] at hpre
  exact hkw.eq_of_isPrefixOf htok hpre

theorem keeps_skipPipe : Simulates (MatchAt uni false goal) (skipStr "|>") (skipStr "|>")
    fun _ => Match uni false goal := by
  refine keeps_skipStr isWord_pipe (by decide) (by decide) fun {tok u} htok hpre => ?_
  obtain ⟨t, ht⟩ := hpre
  have hpair : "|>".toList = ['|', '>'] := rfl
  rw [hpair] at ht
  cases htok with
  | pipe => rfl
  | word hne hw =>
    obtain ⟨c, w, rfl⟩ := List.exists_cons_of_ne_nil hne
    obtain ⟨rfl, -⟩ := List.cons.inj ht
    exact nomatch hw _ List.mem_cons_self
  | literal | openLiteral => exact absurd (List.cons.inj ht).1 (by decide)
  | symbol _ _ _ _ hpipe =>
    obtain ⟨rfl, hu⟩ := List.cons.inj ht
    obtain rfl : '>' :: t = u := hu
    exact absurd rfl (hpipe rfl)

/-- At the end of a text the first layout has turned out tight. -/
theorem simulates_atEnd : Simulates (Match uni false goal) atEnd atEnd fun b =>
    cond b (fun _ _ => goal) (Match uni false goal) := by
  refine simulates_skipWs.bind fun _ => .of_reads reads_isEnd fun s s' h => ?_
  obtain ⟨rfl, rfl, hgoal⟩ | ⟨tok, u, u', rfl, rfl, htok⟩ := h.eq_nil_or
  · exact ⟨rfl, hgoal⟩
  · have hsome : ∀ v : List Char, (tok ++ v).head?.isNone = false := fun v => by
      rw [List.head?_append_of_ne_nil _ htok.left.ne_nil]
      simpa using htok.left.ne_nil
    dsimp only
    rw [hsome, hsome]
    exact ⟨rfl, h.same⟩

/-! ### Names and numbers -/

/-- A slice that must not be empty, wherever it starts. -/
theorem simulates_slice {P : UInt8 → Bool} (hlt : ∀ b, P b = true → b.toNat < 0x80)
    (hP : ∀ b, P b = true → isDottedByte b = true) {e : ParseMsg} {k k' : List UInt8 → Parse α}
    (h : ∀ slice, Simulates (Match uni false goal) (k slice) (k' slice)
      fun _ => Match uni false goal) :
    Simulates (MatchAt uni opened goal)
      (sliceWhile P >>= fun slice => if slice.isEmpty then fail e else k slice)
      (sliceWhile P >>= fun slice => if slice.isEmpty then fail e else k' slice)
      fun _ => Match uni false goal := by
  refine (simulates_sliceWhile hlt fun c hc => isNameChar_of_onChar (onChar_mono hP hc)).bind
    fun slice => .ite (fun _ => .fail e) fun hne => (h slice).mono (fun s s' hafter => ?_)
      fun _ _ _ h => h
  rw [Bool.not_eq_true] at hne
  rw [After, hne] at hafter
  exact hafter

theorem simulates_parseIdent : Simulates (Match uni opened goal) parseIdent parseIdent
    fun _ => Match uni false goal :=
  simulates_skipWs.bind fun _ => simulates_slice isIdentByte_lt isDottedByte_of_isIdentByte
    fun _ => .pure _ fun _ _ h => h

theorem simulates_parseUint : Simulates (Match uni opened goal) parseUint parseUint
    fun _ => Match uni false goal :=
  simulates_skipWs.bind fun _ => .getPos fun _ _ =>
    simulates_slice isAsciiDigit_lt isDottedByte_of_isAsciiDigit fun _ =>
      .ite (fun _ => .pure _ fun _ _ h => h) fun _ => .failAt _ _

theorem simulates_parsePositiveUint {what : String} : Simulates (Match uni opened goal)
    (parsePositiveUint what) (parsePositiveUint what) fun _ => Match uni false goal :=
  simulates_parseUint.bind fun _ => .ite (fun _ => .fail _) fun _ => .pure _ fun _ _ h => h

theorem simulates_parseFloat : Simulates (Match uni opened goal) parseFloat parseFloat
    fun _ => Match uni false goal := by
  refine simulates_skipWs.bind fun _ => .getPos fun _ _ =>
    simulates_slice isFloatByte_lt isDottedByte_of_isFloatByte fun slice => ?_
  match parseF64 slice with
  | some value => exact .pure _ fun _ _ h => h
  | none => exact .failAt _ _

theorem keeps_readDottedName : Keeps uni false goal readDottedName :=
  simulates_skipWs.bind fun _ => (simulates_sliceWhile isDottedByte_lt fun _ hc =>
    isNameChar_of_onChar hc).bind fun _ => .pure _ fun _ _ h => h.same

/-! ### String literals -/

/-- A literal reads the same whatever comes after it. -/
theorem litBody_literal {body result a u : List Char} {pos p : ℕ} {r : List UInt8}
    (hbody : LitChars body) (h : litBody result pos (body ++ '"' :: u) = .ok a p r) :
    r = utf8 u ∧ ∀ (pos' : ℕ) (u' : List Char),
      ∃ p', litBody result pos' (body ++ '"' :: u') = .ok a p' (utf8 u') := by
  induction hbody generalizing result pos with
  | nil =>
    rw [List.nil_append, litBody_quote] at h
    obtain ⟨rfl, -, rfl⟩ := Outcome.ok.inj h
    exact ⟨rfl, fun pos' u' => ⟨pos' + 1, litBody_quote result pos' u'⟩⟩
  | @plain c body hquote hback _ ih =>
    by_cases hc : IsAscii c
    · rw [List.cons_append, litBody_plain hquote hback hc] at h
      obtain ⟨hr, hsame⟩ := ih h
      refine ⟨hr, fun pos' u' => ?_⟩
      rw [List.cons_append, litBody_plain hquote hback hc]
      exact hsame (pos' + 1) u'
    · rw [List.cons_append, litBody_of_not_isAscii hc] at h
      exact nomatch h
  | @escape body c _ ih =>
    rw [List.cons_append, List.cons_append] at h
    match hch : escaped (firstByte c) with
    | some ch =>
      rw [litBody_escaped hch] at h
      obtain ⟨hr, hsame⟩ := ih h
      refine ⟨hr, fun pos' u' => ?_⟩
      rw [List.cons_append, List.cons_append, litBody_escaped hch]
      exact hsame (pos' + 2) u'
    | none =>
      rw [litBody_unknown hch] at h
      exact nomatch h

/-- A literal that the text ends in is not read. -/
theorem litBody_openLiteral {body tail result a : List Char} {pos p : ℕ} {r : List UInt8}
    (hbody : LitChars body) (htail : tail = [] ∨ tail = ['\\']) :
    litBody result pos (body ++ tail) ≠ .ok a p r := by
  induction hbody generalizing result pos with
  | nil =>
    obtain rfl | rfl := htail
    · exact nofun
    · exact nofun
  | @plain c body hquote hback _ ih =>
    by_cases hc : IsAscii c
    · rw [List.cons_append, litBody_plain hquote hback hc]
      exact ih
    · rw [List.cons_append, litBody_of_not_isAscii hc]
      exact nofun
  | @escape body c _ ih =>
    rw [List.cons_append, List.cons_append]
    match hch : escaped (firstByte c) with
    | some ch =>
      rw [litBody_escaped hch]
      exact ih
    | none =>
      rw [litBody_unknown hch]
      exact nofun

theorem quoted_ne_ok (hs : s.head? ≠ some '"') (pos : ℕ) (a : List Char) (p : ℕ) (r : List UInt8) :
    quoted uni pos (utf8 s) ≠ .ok a p r := by
  rw [quoted_other hs]
  exact notFound_ne_ok _ _ _ _ _ _

theorem simulates_quoted : Simulates (MatchAt uni opened goal) (quoted uni) (quoted uni)
    fun _ => Match uni false goal := by
  intro pos pos' p s s' a r h hok
  obtain ⟨rfl, rfl, -⟩ | ⟨tok, u, u', rfl, rfl, htok⟩ := h.eq_nil_or
  · exact absurd hok (quoted_ne_ok (by simp) _ _ _ _)
  have hhead : tok.head? = some '"' := by
    by_contra hne
    have hall : (tok ++ u).head? = tok.head? := List.head?_append_of_ne_nil _ htok.left.ne_nil
    rw [← hall] at hne
    exact quoted_ne_ok hne _ _ _ _ hok
  obtain ⟨w, rfl⟩ := exists_cons_of_head? hhead
  have hsame : Match uni false goal u u' := htok.closed (by simp) fun _ => by simp
  rw [List.cons_append, quoted_quote] at hok
  obtain ⟨body, hbody, rfl⟩ | ⟨body, tail, hbody, htail, rfl, rfl⟩ := htok.left.isLiteral
  · rw [List.append_assoc] at hok
    obtain ⟨rfl, hread⟩ := litBody_literal hbody hok
    obtain ⟨p', hok'⟩ := hread (pos' + 1) u'
    refine ⟨p', u, u', rfl, ?_, hsame⟩
    rw [List.cons_append, quoted_quote, List.append_assoc]
    exact hok'
  · rw [List.append_nil] at hok
    exact absurd hok (litBody_openLiteral hbody htail)

theorem simulates_parseString : Simulates (Match uni opened goal) (parseString uni)
    (parseString uni) fun _ => Match uni false goal := by
  rw [parseString_eq]
  exact (simulates_skipWs.mono (fun _ _ h => h) fun _ _ _ h => h.same).bind fun _ =>
    simulates_skipWs.bind fun _ => simulates_quoted.bind fun _ => .pure _ fun _ _ h => h

end Rivr.Core
