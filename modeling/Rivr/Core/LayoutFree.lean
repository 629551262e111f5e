import Rivr.Core.LayoutTokens

/-!
# Layout and meaning

Every parser of `parser.rs` goes through two layouts of the same tokens alike (`Keeps`), but for
the operators without arguments, which want their two parentheses next to each other. So the layouts
of a program that parses are parsed to it exactly when they are tight (`sameProgram_iff_tight`).
-/

open ByteParser Utf8

namespace Rivr.Core

variable {uni : Char → Bool} {α β : Type} {goal : Prop} {opened : Bool}

theorem keeps_pure {a : α} : Keeps uni false goal (pure a) := .pure a fun _ _ h => h

/-! ### Pipe operators -/

theorem keeps_nullaryOp {op : PipeOp} : Keeps uni false goal (nullaryOp uni op) :=
  keeps_emptyParens.bind fun _ => keeps_pure

/-- Arguments between parentheses. -/
theorem keeps_parens {f : Parse α} {g : α → β} (hf : Simulates (Match uni true goal) f f
    fun _ => Match uni false goal) :
    Keeps uni false goal (do expect uni "("; let a ← f; expect uni ")"; return g a) :=
  simulates_open.bind fun _ => hf.bind fun _ => keeps_close.bind fun _ => keeps_pure

theorem keeps_stringOp {op : String → PipeOp} : Keeps uni false goal (stringOp uni op) :=
  keeps_parens simulates_parseString

theorem keeps_positiveOp {what : String} {op : UInt64 → PipeOp} :
    Keeps uni false goal (positiveOp uni what op) :=
  keeps_parens simulates_parsePositiveUint

/-- A key is skipped on both sides or on none; it is no `)`. -/
theorem simulates_skipNamed {key : String} (hkey : IsKeyword uni key) :
    Simulates (Match uni opened goal) (skipNamed uni key) (skipNamed uni key)
      fun _ => Match uni opened goal :=
  (simulates_eat hkey).bind_cond
    ((isSymbol_equals.keeps_eat (by decide)).bind fun _ => .pure _ fun _ _ h => h.of_closed)
    (.pure _ fun _ _ h => MatchAt.same h)

theorem isKeyword_ms : IsKeyword uni "ms" := isKeyword_of_isIdentByte (by decide) (by decide)
theorem isKeyword_windowMs : IsKeyword uni "window_ms" :=
  isKeyword_of_isIdentByte (by decide) (by decide)
theorem isKeyword_duty : IsKeyword uni "duty" := isKeyword_of_isIdentByte (by decide) (by decide)
theorem isKeyword_toaUs : IsKeyword uni "toa_us" :=
  isKeyword_of_isIdentByte (by decide) (by decide)

theorem keeps_pktTypeOp : Keeps uni false goal (pktTypeOp uni) :=
  simulates_open.bind fun _ => simulates_parseUint.bind fun _ =>
    .ite (fun _ => .fail _) fun _ => keeps_close.bind fun _ => keeps_pure

theorem keeps_windowTicksOp : Keeps uni false goal (windowTicksOp uni) := by
  refine simulates_open.bind fun _ => simulates_parsePositiveUint.bind fun _ =>
    (isSymbol_comma.keeps_eat (by decide)).bind_cond ?_ (keeps_close.bind fun _ => keeps_pure)
  refine simulates_parsePositiveUint.bind fun _ => keeps_comma.bind fun _ =>
    simulates_parseString.bind fun name => keeps_close.bind fun _ => ?_
  match windowPolicy name with
  | some policy => exact keeps_pure
  | none => exact .fail _

theorem keeps_budgetOp : Keeps uni false goal (budgetOp uni) :=
  simulates_open.bind fun _ => simulates_parseFloat.bind fun _ => keeps_comma.bind fun _ =>
    simulates_parseUint.bind fun _ => keeps_close.bind fun _ => keeps_pure

theorem keeps_budgetAirtimeOp : Keeps uni false goal (budgetAirtimeOp uni) :=
  simulates_open.bind fun _ => (simulates_skipNamed isKeyword_ms).bind fun _ =>
    simulates_parsePositiveUint.bind fun _ => keeps_comma.bind fun _ =>
      (simulates_skipNamed isKeyword_duty).bind fun _ => simulates_parseFloat.bind fun _ =>
        keeps_close.bind fun _ => keeps_pure

theorem keeps_budgetToaUsOp : Keeps uni false goal (budgetToaUsOp uni) :=
  simulates_open.bind fun _ => (simulates_skipNamed isKeyword_windowMs).bind fun _ =>
    simulates_parsePositiveUint.bind fun _ => keeps_comma.bind fun _ =>
      (simulates_skipNamed isKeyword_duty).bind fun _ => simulates_parseFloat.bind fun _ =>
        keeps_comma.bind fun _ => (simulates_skipNamed isKeyword_toaUs).bind fun _ =>
          simulates_parseUint.bind fun _ => keeps_close.bind fun _ => keeps_pure

theorem keeps_pipeOps : ∀ entry ∈ pipeOps uni, Keeps uni false goal entry.2 := by
  simp only [pipeOps, List.forall_mem_cons]
  exact ⟨keeps_nullaryOp, keeps_nullaryOp, keeps_nullaryOp, keeps_nullaryOp, keeps_nullaryOp,
    keeps_nullaryOp, keeps_nullaryOp, keeps_stringOp, keeps_pktTypeOp, keeps_positiveOp,
    keeps_positiveOp, keeps_positiveOp, keeps_windowTicksOp, keeps_positiveOp, keeps_positiveOp,
    keeps_budgetOp, keeps_budgetAirtimeOp, keeps_budgetToaUsOp, keeps_stringOp, by simp⟩

theorem keeps_parsePipeOp : Keeps uni false goal (parsePipeOp uni) := by
  refine (simulates_skipWs.mono (fun _ _ h => h) fun _ _ _ h => h.same).bind fun _ =>
    keeps_readDottedName.bind fun name => ?_
  match hop : (pipeOps uni).lookup name with
  | some op =>
    obtain ⟨l₁, l₂, hmem, -⟩ := List.lookup_eq_some_iff.mp hop
    exact keeps_pipeOps (name, op) (by rw [hmem]; simp)
  | none => exact .fail _

/-! ### Expressions, sinks and sources -/

theorem keeps_eat {kw : String} (hkw : IsKeyword uni kw) : Keeps uni false goal (eat uni kw) :=
  (simulates_eat hkw).mono (fun _ _ h => h) fun _ _ _ h => h.same

theorem keeps_skipWs : Keeps uni false goal skipWs :=
  simulates_skipWs.mono (fun _ _ h => h) fun _ _ _ h => h.same

theorem isKeyword_merge : IsKeyword uni "merge" :=
  isKeyword_of_isIdentByte (by decide) (by decide)

theorem keeps_parsePrimary : Keeps uni false goal (parsePrimary uni) := by
  refine keeps_skipWs.bind fun _ => (simulates_eat isKeyword_merge).bind_cond ?_ ?_
  · exact simulates_open.bind fun _ => simulates_parseIdent.bind fun _ => keeps_comma.bind fun _ =>
      simulates_parseIdent.bind fun _ => keeps_close.bind fun _ => keeps_pure
  · refine simulates_peek.bind fun _ => .mono ?_ (fun _ _ => MatchAt.same) fun _ _ _ h => h
    exact .ite (fun _ => simulates_parseString.bind fun _ => keeps_pure) fun _ =>
      .ite (fun _ => simulates_parseUint.bind fun _ => keeps_pure) fun _ =>
        simulates_parseIdent.bind fun _ => keeps_pure

theorem keeps_parseExprStep (lhs : Expr) : Keeps uni false goal (parseExprStep uni lhs) :=
  simulates_skipWs.bind fun _ => keeps_skipPipe.bind_cond
    (keeps_parsePipeOp.bind fun _ => keeps_pure) keeps_pure

/-- A loop whose rounds leave two layouts of the same tokens does so itself. -/
theorem keeps_loop {step : β → Parse (β ⊕ α)} (hsafe : ∀ b, SafeParse (step b))
    (hadv : ∀ b, Advances (step b)) (h : ∀ b, Keeps uni false goal (step b)) (b : β) :
    Keeps uni false goal (loop step b) := by
  refine .loop (I := fun _ => Match uni false goal) hsafe hadv (fun b => ?_) b
  refine (h b).mono (fun _ _ h => h) fun next t t' hsame => ?_
  match next with
  | .inl _ => exact hsame
  | .inr _ => exact hsame

theorem keeps_parseExpr : Keeps uni false goal (parseExpr uni) :=
  keeps_parsePrimary.bind fun lhs =>
    keeps_loop safe_parseExprStep advances_parseExprStep keeps_parseExprStep lhs

theorem keeps_sinkArg {sink : String → Sink} : Keeps uni false goal (sinkArg uni sink) :=
  keeps_parens simulates_parseIdent

theorem keeps_parseSink : Keeps uni false goal (parseSink uni) :=
  keeps_skipWs.bind fun _ => keeps_readDottedName.bind fun _ =>
    .ite (fun _ => keeps_sinkArg) fun _ => .ite (fun _ => keeps_sinkArg) fun _ =>
      .ite (fun _ => keeps_sinkArg) fun _ => .ite (fun _ => keeps_sinkArg) fun _ => .fail _

theorem keeps_parseSourceKind : Keeps uni false goal (parseSourceKind uni) := by
  refine simulates_parseIdent.bind fun _ => .ite (fun _ => keeps_pure) fun _ =>
    .ite (fun _ => keeps_pure) fun _ => .ite (fun _ => keeps_pure) fun _ =>
      .ite (fun _ => keeps_pure) fun _ => .ite (fun _ => ?_) fun _ => .fail _
  exact simulates_open.bind fun _ => simulates_parseUint.bind fun _ =>
    .ite (fun _ => .fail _) fun _ => keeps_close.bind fun _ => keeps_pure

/-! ### Statements -/

theorem keeps_parseClock : Keeps uni false goal (parseClock uni) :=
  (isSymbol_at.keeps_eat (by decide)).bind_cond
    (simulates_parseIdent.bind fun _ => keeps_pure) keeps_pure

theorem keeps_parseSourceStmt : Keeps uni false goal (parseSourceStmt uni) :=
  simulates_parseIdent.bind fun _ => keeps_parseClock.bind fun _ => keeps_equals.bind fun _ =>
    keeps_parseSourceKind.bind fun _ => keeps_semicolon.bind fun _ => keeps_pure

theorem keeps_parseLetStmt : Keeps uni false goal (parseLetStmt uni) :=
  simulates_parseIdent.bind fun _ => keeps_equals.bind fun _ => keeps_parseExpr.bind fun _ =>
    keeps_semicolon.bind fun _ => keeps_pure

theorem keeps_parseEmitStep (sinks : List Sink) :
    Keeps uni false goal (parseEmitStep uni sinks) :=
  simulates_skipWs.bind fun _ => keeps_skipBrace.bind_cond keeps_pure
    (keeps_parseSink.bind fun _ => keeps_semicolon.bind fun _ => keeps_pure)

theorem keeps_parseEmitStmt : Keeps uni false goal (parseEmitStmt uni) :=
  (isSymbol_lbrace.keeps_expect (by decide)).bind fun _ =>
    (keeps_loop safe_parseEmitStep advances_parseEmitStep keeps_parseEmitStep []).bind fun _ =>
      keeps_pure

theorem isKeyword_source : IsKeyword uni "source" :=
  isKeyword_of_isIdentByte (by decide) (by decide)
theorem isKeyword_let : IsKeyword uni "let" := isKeyword_of_isIdentByte (by decide) (by decide)
theorem isKeyword_emit : IsKeyword uni "emit" := isKeyword_of_isIdentByte (by decide) (by decide)

theorem keeps_parseStmt : Keeps uni false goal (parseStmt uni) :=
  keeps_skipWs.bind fun _ => (keeps_eat isKeyword_source).bind_cond keeps_parseSourceStmt <|
    (keeps_eat isKeyword_let).bind_cond keeps_parseLetStmt <|
      (keeps_eat isKeyword_emit).bind_cond keeps_parseEmitStmt <|
        .of_ne_ok fun _ _ => failCtx_ne_ok _ _

/-- The rounds of `parse_program` end where the texts do. -/
theorem simulates_parseProgram : Simulates (Match uni false goal) (parseProgram uni)
    (parseProgram uni) fun _ _ _ => goal := by
  have hround : ∀ stmts, Simulates (Match uni false goal) (parseProgramStep uni stmts)
      (parseProgramStep uni stmts) fun next t t' =>
        next.elim (fun _ => Match uni false goal t t') fun _ => goal := fun stmts =>
    simulates_atEnd.bind_cond (.pure _ fun _ _ h => h)
      (keeps_parseStmt.bind fun _ => .pure _ fun _ _ h => h)
  exact (Simulates.loop (I := fun _ => Match uni false goal) safe_parseProgramStep
    advances_parseProgramStep hround []).bind fun _ => .pure _ fun _ _ h => h

/-! ### The law -/

/-- The text is parsed to the program. -/
def Parses (uni : Char → Bool) (src : String) (program : Program) : Prop :=
  ∃ pos rest, parse uni src = .ok program pos rest

/-- The texts are parsed to the same program, or neither of them to any. -/
def SameProgram (uni : Char → Bool) (src src' : String) : Prop :=
  ∀ program, Parses uni src program ↔ Parses uni src' program

variable {toks : List (List Char)} {src src' : String} {program : Program}

/-- A text that parses has the program of the tight layouts of its tokens, and is one of them. -/
theorem Parses.tight (h : Laid uni false toks src.toList) (h' : Laid uni true toks src'.toList)
    (hparses : Parses uni src program) :
    Parses uni src' program ∧ Laid uni true toks src.toList := by
  have hmatch : Match uni false (Laid uni true toks src.toList) src.toList src'.toList :=
    ⟨toks, h, h', .inr id⟩
  obtain ⟨pos, rest, hok⟩ := hparses
  obtain ⟨pos', t, t', -, hok', hlaid⟩ := simulates_parseProgram 0 0 hmatch hok
  exact ⟨⟨pos', utf8 t', hok'⟩, hlaid⟩

theorem Parses.laid (h : Laid uni false toks src.toList) (hparses : Parses uni src program) :
    Laid uni true toks src.toList := by
  obtain ⟨s', h', -⟩ := h.exists_tight
  rw [← String.toList_ofList (l := s')] at h'
  exact (hparses.tight h h').2

/-- A text that parses is a tight layout of some tokens. -/
theorem Parses.exists_laid (hparses : Parses uni src program) :
    ∃ toks, Laid uni true toks src.toList := by
  obtain ⟨toks, h⟩ := Core.exists_laid uni src.toList
  exact ⟨toks, hparses.laid h⟩

/-- **Layout and meaning.** Two layouts of the same tokens mean the same if both are tight or
neither is; and the layouts of a program that parses mean the same as it exactly when they are
tight. -/
theorem sameProgram_iff_tight (h : Laid uni false toks src.toList)
    (h' : Laid uni false toks src'.toList) :
    ((Laid uni true toks src.toList ↔ Laid uni true toks src'.toList) →
      SameProgram uni src src') ∧
    ∀ program, Parses uni src program →
      (SameProgram uni src src' ↔ Laid uni true toks src'.toList) := by
  have hsame : (Laid uni true toks src.toList ↔ Laid uni true toks src'.toList) →
      SameProgram uni src src' := by
    intro htight program
    constructor
    · intro hparses
      exact (hparses.tight h (htight.mp (hparses.laid h))).1
    · intro hparses
      exact (hparses.tight h' (htight.mpr (hparses.laid h'))).1
  refine ⟨hsame, fun program hparses => ⟨fun hmeans => ?_, fun htight => ?_⟩⟩
  · exact ((hmeans program).mp hparses).laid h'
  · exact hsame ⟨fun _ => htight, fun _ => hparses.laid h⟩

/-- The tokens of `let a = b |> map.trim();`. -/
def trimTokens : List (List Char) :=
  [['l', 'e', 't'], ['a'], ['='], ['b'], ['|', '>'], ['m', 'a', 'p', '.', 't', 'r', 'i', 'm'],
    ['('], [')'], [';']]

/-- A layout of them with the given blanks around the pipe and between the parentheses. -/
def trimText (pad gap : List Char) : List Char :=
  "let a=b".toList ++
    (pad ++ ("|>".toList ++ (pad ++ ("map.trim(".toList ++ (gap ++ ");".toList)))))

theorem laid_trimText {tight : Bool} (pad gap : List Char) (hpad : Blanks pad) (hgap : Blanks gap)
    (htight : tight = true → gap = []) : Laid uni tight trimTokens (trimText pad gap) := by
  have hword : ∀ {w u : List Char}, w ≠ [] → (∀ c ∈ w, onChar isDottedByte c = true) →
      (∀ c ∈ u.head?, isNameChar uni c = false) → Lexeme uni w u := fun hne hw hend =>
    .word hne (fun c hc => isNameChar_of_onChar (hw c hc)) hend
  have hsymbol : ∀ {c : Char} {u : List Char}, c ∈ ['=', '(', ')', ';'] → Lexeme uni [c] u := by
    intro c u hc
    simp only [List.mem_cons, List.not_mem_nil, or_false] at hc
    obtain rfl | rfl | rfl | rfl := hc
    all_goals exact .symbol (by decide) rfl (by decide) (by simp) (by simp)
  have hno : ∀ {w : List Char} {q : Prop}, w ≠ ['('] → tight = true → w = ['('] → q :=
    fun hw _ heq => absurd heq hw
  have hpadEnd : ∀ {v : List Char}, ∀ c ∈ (pad ++ '|' :: v).head?, isNameChar uni c = false := by
    intro v c hc
    rw [← Bool.not_eq_true]
    intro hname
    match pad, hpad, hc with
    | [], _, rfl => exact nomatch hname
    | d :: _, hpad, rfl =>
      exact absurd (hpad d List.mem_cons_self) (by simp [isBlank_of_isNameChar hname])
  -- from the end of the statement to its start
  have hclose : Laid uni tight [[')'], [';']] (gap ++ ");".toList) :=
    .cons (.blanks hgap) (hsymbol (by decide)) (hno (by decide))
      (.cons .nil (hsymbol (by decide)) (hno (by decide)) (.done .nil))
  have hargs : Laid uni tight [['('], [')'], [';']] ("(".toList ++ (gap ++ ");".toList)) :=
    .cons .nil (hsymbol (by decide)) (fun h _ _ => by rw [htight h]; rfl) hclose
  have hpipe : Laid uni tight (trimTokens.drop 4)
      (pad ++ ("|>".toList ++ (pad ++ ("map.trim(".toList ++ (gap ++ ");".toList))))) :=
    .cons (.blanks hpad) .pipe (hno (by decide)) (.cons (.blanks hpad)
      (hword (by decide) (by decide) (by rintro c ⟨⟩; rfl)) (hno (by decide)) hargs)
  refine .cons .nil (hword (by decide) (by decide) (by rintro c ⟨⟩; rfl)) (hno (by decide))
    (.cons (l := [' ']) (.blanks (by decide)) (hword (by decide) (by decide) (by rintro c ⟨⟩; rfl))
      (hno (by decide)) (.cons .nil (hsymbol (by decide)) (hno (by decide)) (.cons .nil
        (hword (by decide) (by decide) hpadEnd) (hno (by decide)) hpipe)))

/-- Whether a text parses can be computed. -/
theorem exists_parses_iff : (∃ program, Parses uni src program) ↔
    (match parse uni src with
      | .ok .. => true
      | _ => false) = true := by
  unfold Parses
  match parse uni src with
  | .ok program pos rest => simp
  | .err .. => simp
  | .panic => simp
  | .hang => simp

/-- Blanks around the pipe do not matter. -/
theorem sameProgram_iff_tight_trim :
    SameProgram (fun _ => false) "let a=b|>map.trim();" "let a=b |> map.trim();" ∧
      ∃ program, Parses (fun _ => false) "let a=b |> map.trim();" program := by
  have h : Laid (fun _ => false) true trimTokens "let a=b|>map.trim();".toList :=
    laid_trimText [] [] blanks_nil blanks_nil fun _ => rfl
  have h' : Laid (fun _ => false) true trimTokens "let a=b |> map.trim();".toList :=
    laid_trimText [' '] [] (by decide) blanks_nil fun _ => rfl
  exact ⟨(sameProgram_iff_tight h.loose h'.loose).1 ⟨fun _ => h', fun _ => h⟩,
    exists_parses_iff.mpr (by decide +kernel)⟩

/-- A blank between the parentheses of an operator without arguments does. -/
theorem not_sameProgram : ¬∀ (uni : Char → Bool) (toks : List (List Char)) (src src' : String),
    Laid uni false toks src.toList → Laid uni false toks src'.toList →
      SameProgram uni src src' := by
  intro h
  have hsame : SameProgram (fun _ => false) "let a=b|>map.trim();" "let a=b|>map.trim( );" :=
    h _ trimTokens _ _ (laid_trimText [] [] blanks_nil blanks_nil nofun)
      (laid_trimText [] [' '] blanks_nil (by decide) nofun)
  obtain ⟨program, hparses⟩ : ∃ program, Parses (fun _ => false) "let a=b|>map.trim();" program :=
    exists_parses_iff.mpr (by decide +kernel)
  have hparses' := exists_parses_iff.mp ⟨program, (hsame program).mp hparses⟩
  revert hparses'
  decide +kernel

end Rivr.Core
