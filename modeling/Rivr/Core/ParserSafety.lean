import Rivr.Core.ParserTokens

/-!
# What the parser does on any text

Every parser of `parser.rs` looks no further than the next double quote that it leaves, and comes to
an end (`safe_parseProgram`). Hence the parser returns on exactly the texts that do not go on with a
character outside ASCII where a string literal is still open (`parse_returns_iff`).
-/

open ByteParser Utf8

namespace Rivr.Core

variable {α : Type} {uni : Char → Bool}

/-! ### Pipe operators -/

theorem safe_nullaryOp {op : PipeOp} : SafeParse (nullaryOp uni op) :=
  (safe_expect ⟨by decide, by decide⟩).bind fun _ => .pure _

/-- Arguments between parentheses. -/
theorem safe_parens {β : Type} {f : Parse α} {g : α → β} (hf : SafeParse f) :
    SafeParse (do expect uni "("; let a ← f; expect uni ")"; return g a) :=
  (safe_expect isWord_lparen).bind fun _ => hf.bind fun _ =>
    (safe_expect isWord_rparen).bind fun _ => .pure _

theorem safe_stringOp {op : String → PipeOp} : SafeParse (stringOp uni op) :=
  safe_parens safe_parseString

theorem safe_positiveOp {what : String} {op : UInt64 → PipeOp} :
    SafeParse (positiveOp uni what op) :=
  safe_parens safe_parsePositiveUint

theorem safe_skipNamed {key : String} (hkey : IsWord key) : SafeParse (skipNamed uni key) :=
  (safe_eat hkey).bind fun _ =>
    .ite ((safe_eat isWord_equals).bind fun _ => .pure _) (.pure _)

theorem safe_pktTypeOp : SafeParse (pktTypeOp uni) :=
  (safe_expect isWord_lparen).bind fun _ => safe_parseUint.bind fun _ =>
    .ite (.fail (nomatch ·)) ((safe_expect isWord_rparen).bind fun _ => .pure _)

theorem safe_windowTicksOp : SafeParse (windowTicksOp uni) := by
  refine (safe_expect isWord_lparen).bind fun _ => safe_parsePositiveUint.bind fun _ =>
    (safe_eat isWord_comma).bind fun _ => .ite ?_
      ((safe_expect isWord_rparen).bind fun _ => .pure _)
  refine safe_parsePositiveUint.bind fun _ => (safe_expect isWord_comma).bind fun _ =>
    safe_parseString.bind fun name => (safe_expect isWord_rparen).bind fun _ => ?_
  match windowPolicy name with
  | some policy => exact .pure _
  | none => exact .fail (by nofun)

theorem safe_budgetOp : SafeParse (budgetOp uni) :=
  (safe_expect isWord_lparen).bind fun _ => safe_parseFloat.bind fun _ =>
    (safe_expect isWord_comma).bind fun _ => safe_parseUint.bind fun _ =>
      (safe_expect isWord_rparen).bind fun _ => .pure _

theorem safe_budgetAirtimeOp : SafeParse (budgetAirtimeOp uni) :=
  (safe_expect isWord_lparen).bind fun _ => (safe_skipNamed ⟨by decide, by decide⟩).bind fun _ =>
    safe_parsePositiveUint.bind fun _ => (safe_expect isWord_comma).bind fun _ =>
      (safe_skipNamed ⟨by decide, by decide⟩).bind fun _ => safe_parseFloat.bind fun _ =>
        (safe_expect isWord_rparen).bind fun _ => .pure _

theorem safe_budgetToaUsOp : SafeParse (budgetToaUsOp uni) :=
  (safe_expect isWord_lparen).bind fun _ => (safe_skipNamed ⟨by decide, by decide⟩).bind fun _ =>
    safe_parsePositiveUint.bind fun _ => (safe_expect isWord_comma).bind fun _ =>
      (safe_skipNamed ⟨by decide, by decide⟩).bind fun _ => safe_parseFloat.bind fun _ =>
        (safe_expect isWord_comma).bind fun _ =>
          (safe_skipNamed ⟨by decide, by decide⟩).bind fun _ => safe_parseUint.bind fun _ =>
            (safe_expect isWord_rparen).bind fun _ => .pure _

theorem safe_pipeOps : ∀ entry ∈ pipeOps uni, SafeParse entry.2 := by
  simp only [pipeOps, List.forall_mem_cons]
  exact ⟨safe_nullaryOp, safe_nullaryOp, safe_nullaryOp, safe_nullaryOp, safe_nullaryOp,
    safe_nullaryOp, safe_nullaryOp, safe_stringOp, safe_pktTypeOp, safe_positiveOp,
    safe_positiveOp, safe_positiveOp, safe_windowTicksOp, safe_positiveOp, safe_positiveOp,
    safe_budgetOp, safe_budgetAirtimeOp, safe_budgetToaUsOp, safe_stringOp, by simp⟩

theorem safe_parsePipeOp : SafeParse (parsePipeOp uni) := by
  refine safe_skipWs.bind fun _ => safe_readDottedName.bind fun name => ?_
  match hop : (pipeOps uni).lookup name with
  | some op =>
    obtain ⟨l₁, l₂, hmem, -⟩ := List.lookup_eq_some_iff.mp hop
    exact safe_pipeOps (name, op) (by rw [hmem]; simp)
  | none => exact .fail (by nofun)

/-! ### Expressions, sinks and sources -/

theorem safe_parsePrimary : SafeParse (parsePrimary uni) := by
  refine safe_skipWs.bind fun _ => (safe_eat ⟨by decide, by decide⟩).bind fun _ => .ite ?_ ?_
  · exact (safe_expect isWord_lparen).bind fun _ => safe_parseIdent.bind fun _ =>
      (safe_expect isWord_comma).bind fun _ => safe_parseIdent.bind fun _ =>
        (safe_expect isWord_rparen).bind fun _ => .pure _
  · exact safe_peek.bind fun _ => .ite (safe_parseString.bind fun _ => .pure _)
      (.ite (safe_parseUint.bind fun _ => .pure _) (safe_parseIdent.bind fun _ => .pure _))

theorem isWord_pipe : IsWord "|>" := ⟨by decide, by decide⟩

theorem safe_parseExprStep (lhs : Expr) : SafeParse (parseExprStep uni lhs) :=
  safe_skipWs.bind fun _ => (safe_skipStr isWord_pipe).bind fun _ =>
    .ite (safe_parsePipeOp.bind fun _ => .pure _) (.pure _)

/-- A pipe has its two characters at least. -/
theorem advances_parseExprStep (lhs : Expr) : Advances (parseExprStep uni lhs) := by
  refine Strict.bind_right safe_skipWs.toLocal (fun _ => Safe.toLocal
    ((safe_skipStr isWord_pipe).bind fun _ =>
      .ite (safe_parsePipeOp.bind fun _ => .pure _) (.pure _))) fun _ => ?_
  refine Strict.bind (safe_skipStr isWord_pipe).toLocal (strict_skipStr (by decide))
    (fun _ => Safe.toLocal (.ite (safe_parsePipeOp.bind fun _ => .pure _) (.pure _)))
    fun pipe hpipe => ?_
  rw [if_neg hpipe]
  exact Strict.pure Bool.false_ne_true

theorem safe_parseExpr : SafeParse (parseExpr uni) :=
  safe_parsePrimary.bind fun lhs => .loop safe_parseExprStep advances_parseExprStep lhs

theorem safe_sinkArg {sink : String → Sink} : SafeParse (sinkArg uni sink) :=
  safe_parens safe_parseIdent

theorem safe_parseSink : SafeParse (parseSink uni) :=
  safe_skipWs.bind fun _ => safe_readDottedName.bind fun _ =>
    .ite safe_sinkArg (.ite safe_sinkArg (.ite safe_sinkArg (.ite safe_sinkArg
      (.fail (nomatch ·)))))

theorem safe_parseSourceKind : SafeParse (parseSourceKind uni) := by
  refine safe_parseIdent.bind fun _ => .ite (.pure _) (.ite (.pure _) (.ite (.pure _)
    (.ite (.pure _) (.ite ?_ (.fail (nomatch ·))))))
  exact (safe_expect isWord_lparen).bind fun _ => safe_parseUint.bind fun _ =>
    .ite (.fail (nomatch ·)) ((safe_expect isWord_rparen).bind fun _ => .pure _)

/-! ### Statements -/

theorem safe_parseClock : SafeParse (parseClock uni) :=
  (safe_eat ⟨by decide, by decide⟩).bind fun _ =>
    .ite (safe_parseIdent.bind fun _ => .pure _) (.pure _)

theorem safe_parseSourceStmt : SafeParse (parseSourceStmt uni) :=
  safe_parseIdent.bind fun _ => safe_parseClock.bind fun _ =>
    (safe_expect isWord_equals).bind fun _ => safe_parseSourceKind.bind fun _ =>
      (safe_expect isWord_semicolon).bind fun _ => .pure _

theorem safe_parseLetStmt : SafeParse (parseLetStmt uni) :=
  safe_parseIdent.bind fun _ => (safe_expect isWord_equals).bind fun _ =>
    safe_parseExpr.bind fun _ => (safe_expect isWord_semicolon).bind fun _ => .pure _

theorem isWord_rbrace : IsWord "\x7d" := ⟨by decide, by decide⟩

theorem safe_parseEmitStep (sinks : List Sink) : SafeParse (parseEmitStep uni sinks) :=
  safe_skipWs.bind fun _ => (safe_skipStr isWord_rbrace).bind fun _ =>
    .ite (.pure _) (safe_parseSink.bind fun _ =>
      (safe_expect isWord_semicolon).bind fun _ => .pure _)

/-- A sink has its semicolon at least. -/
theorem advances_parseEmitStep (sinks : List Sink) : Advances (parseEmitStep uni sinks) := by
  have hrest : ∀ sink, SafeParse (expect uni ";" >>= fun _ =>
      pure (Sum.inl (sinks ++ [sink]) : List Sink ⊕ List Sink)) := fun sink =>
    (safe_expect isWord_semicolon).bind fun _ => .pure _
  refine Strict.bind_right safe_skipWs.toLocal (fun _ => Safe.toLocal
    ((safe_skipStr isWord_rbrace).bind fun _ => .ite (.pure _) (safe_parseSink.bind hrest)))
    fun _ => ?_
  refine Strict.bind_right (safe_skipStr isWord_rbrace).toLocal
    (fun _ => Safe.toLocal (.ite (.pure _) (safe_parseSink.bind hrest))) fun _ => ?_
  refine Strict.ite (Strict.pure Bool.false_ne_true) (Strict.bind_right safe_parseSink.toLocal
    (fun sink => (hrest sink).toLocal) fun sink => ?_)
  exact Strict.bind_left (safe_expect isWord_semicolon).toLocal
    (strict_expect isWord_semicolon (by decide)) fun _ => (Safe.pure _).toLocal

theorem safe_parseEmitStmt : SafeParse (parseEmitStmt uni) :=
  (safe_expect ⟨by decide, by decide⟩).bind fun _ =>
    (Safe.loop safe_parseEmitStep advances_parseEmitStep []).bind fun _ => .pure _

theorem isWord_source : IsWord "source" := ⟨by decide, by decide⟩
theorem isWord_let : IsWord "let" := ⟨by decide, by decide⟩
theorem isWord_emit : IsWord "emit" := ⟨by decide, by decide⟩

theorem safe_emitOr : SafeParse (do
    if ← eat uni "emit" then parseEmitStmt uni else failCtx 16 .expectedStmt) :=
  (safe_eat isWord_emit).bind fun _ =>
    .ite safe_parseEmitStmt (safe_failCtx fun _ => (nomatch ·))

theorem safe_letOr : SafeParse (do
    if ← eat uni "let" then parseLetStmt uni
    else if ← eat uni "emit" then parseEmitStmt uni
    else failCtx 16 .expectedStmt) :=
  (safe_eat isWord_let).bind fun _ => .ite safe_parseLetStmt safe_emitOr

theorem safe_parseStmt : SafeParse (parseStmt uni) :=
  safe_skipWs.bind fun _ => (safe_eat isWord_source).bind fun _ =>
    .ite safe_parseSourceStmt safe_letOr

/-- A statement has its keyword at least. -/
theorem strict_parseStmt : Strict (fun _ => True) (parseStmt uni) := by
  refine Strict.bind_right safe_skipWs.toLocal (fun _ => Safe.toLocal
    ((safe_eat isWord_source).bind fun _ => .ite safe_parseSourceStmt safe_letOr)) fun _ => ?_
  refine Strict.bind (safe_eat isWord_source).toLocal (strict_eat isWord_source (by decide))
    (fun _ => Safe.toLocal (.ite safe_parseSourceStmt safe_letOr)) fun b hb => ?_
  rw [if_neg hb]
  refine Strict.bind (safe_eat isWord_let).toLocal (strict_eat isWord_let (by decide))
    (fun _ => Safe.toLocal (.ite safe_parseLetStmt safe_emitOr)) fun b hb => ?_
  rw [if_neg hb]
  refine Strict.bind (safe_eat isWord_emit).toLocal (strict_eat isWord_emit (by decide))
    (fun _ => Safe.toLocal (.ite safe_parseEmitStmt (safe_failCtx fun _ => (nomatch ·))))
    fun b hb => ?_
  rw [if_neg hb]
  exact strict_failCtx

theorem safe_parseProgramStep (stmts : List Stmt) : SafeParse (parseProgramStep uni stmts) :=
  safe_atEnd.bind fun _ => .ite (.pure _) (safe_parseStmt.bind fun _ => .pure _)

theorem advances_parseProgramStep (stmts : List Stmt) :
    Advances (parseProgramStep uni stmts) :=
  Strict.bind_right safe_atEnd.toLocal
    (fun _ => Safe.toLocal (.ite (.pure _) (safe_parseStmt.bind fun _ => .pure _))) fun _ =>
      Strict.ite (Strict.pure Bool.false_ne_true) (Strict.bind_left safe_parseStmt.toLocal
        strict_parseStmt fun _ => (Safe.pure _).toLocal)

theorem safe_parseProgram : SafeParse (parseProgram uni) :=
  (Safe.loop safe_parseProgramStep advances_parseProgramStep []).bind fun _ => .pure _

/-! ### The law -/

/-- The text breaks off inside a string literal: parsed on its own, it ends before the literal
does. -/
def BreaksOffInLiteral (uni : Char → Bool) (text : List Char) : Prop :=
  ∃ pos, parse uni (String.ofList text) = .err pos .unterminatedString

/-- A character outside ASCII stands inside a string literal that the parser comes to. -/
def NonAsciiInLiteral (uni : Char → Bool) (src : String) : Prop :=
  ∃ p c t, src.toList = p ++ c :: t ∧ ¬IsAscii c ∧ BreaksOffInLiteral uni p

theorem parse_ne_hang (src : String) : parse uni src ≠ .hang := safe_parseProgram.halts _ _

theorem parse_eq_panic_iff (src : String) : parse uni src = .panic ↔ NonAsciiInLiteral uni src := by
  constructor
  · intro h
    obtain ⟨p, c, t, pos, hsrc, hc, herr⟩ := safe_parseProgram.panics h
    refine ⟨p, c, t, hsrc, hc, pos, ?_⟩
    rw [parse, String.toList_ofList]
    exact herr
  · rintro ⟨p, c, t, hsrc, hc, pos, herr⟩
    rw [parse, String.toList_ofList] at herr
    rw [parse, hsrc]
    exact (safe_parseProgram.opened herr).2 c t hc

/-- On any text the parser returns a program or an error, or else a character outside ASCII stands
inside a string literal that it comes to. -/
theorem parse_returns_iff (uni : Char → Bool) (src : String) :
    (parse uni src).returns = true ↔ ¬NonAsciiInLiteral uni src := by
  rw [← parse_eq_panic_iff]
  have hhang : parse uni src ≠ .hang := parse_ne_hang src
  cases h : parse uni src with
  | ok => simp [Outcome.returns]
  | err => simp [Outcome.returns]
  | panic => simp [Outcome.returns]
  | hang => exact absurd h hhang

/-- A label with an accent makes the parser panic. -/
theorem not_parse_returns : ¬∀ (uni : Char → Bool) (src : String), (parse uni src).returns = true := by
  intro h
  have := h (fun _ => true) "let x = rf |> tag(\"é\");"
  revert this
  decide +kernel

/-- A text of ASCII characters is parsed or rejected. -/
theorem parse_returns_of_ascii (src : String) (h : ∀ c ∈ src.toList, IsAscii c) :
    (parse uni src).returns = true := by
  rw [parse_returns_iff]
  rintro ⟨p, c, t, hsrc, hc, -⟩
  exact hc (h c (by rw [hsrc]; simp))

end Rivr.Core
