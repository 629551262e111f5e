import Rivr.Core.ParserSafety

/-!
# Parsing an ASCII text

`char::is_alphanumeric` is asked about the character after a keyword only. On an ASCII text it never
comes to the Unicode tables, so what the parser makes of the text does not depend on them
(`parseProgram_ascii`).
-/

open ByteParser Utf8

namespace Rivr.Core

variable {α : Type} {uni uni' : Char → Bool}

/-- The parsers do the same on ASCII texts. -/
abbrev AgreeAscii (f f' : Parse α) : Prop := AgreeOn IsAscii f f'

theorem isWordChar_ascii {c : Char} (hc : IsAscii c) : isWordChar uni c = isWordChar uni' c := by
  simp only [isWordChar, isAlphanumeric, if_pos (show c.toNat < 0x80 from hc)]

theorem goesOn_ascii {w s : List Char} (hw : ∀ c ∈ w, IsAscii c) (hs : ∀ c ∈ s, IsAscii c) :
    goesOn uni w s = goesOn uni' w s := by
  have hlast : w.getLast?.map (isWordChar uni) = w.getLast?.map (isWordChar uni') :=
    Option.map_congr fun c hc => isWordChar_ascii (hw c (List.mem_of_getLast? hc))
  have hhead : IsAscii ((s.drop w.length).headD '\x00') := by
    match hdrop : s.drop w.length with
    | [] => exact (by decide : (0 : ℕ) < 0x80)
    | c :: t => exact hs c (List.mem_of_mem_drop (hdrop ▸ List.mem_cons_self))
  rw [goesOn, goesOn, hlast, isWordChar_ascii hhead]

/-! ### Words and tokens -/

variable {kw : String}

theorem ascii_eatHere (hkw : IsWord kw) : AgreeAscii (eatHere uni kw) (eatHere uni' kw) := by
  intro pos s hs
  rw [reads_eatHere hkw, reads_eatHere hkw, eatScan, eatScan, goesOn_ascii hkw.ascii hs]

theorem ascii_eat (hkw : IsWord kw) : AgreeAscii (eat uni kw) (eat uni' kw) :=
  .andThen safe_skipWs fun _ => ascii_eatHere hkw

theorem ascii_expect (hkw : IsWord kw) : AgreeAscii (expect uni kw) (expect uni' kw) :=
  .bind (safe_eat hkw) (ascii_eat hkw) fun _ => .refl _

theorem ascii_parseString : AgreeAscii (parseString uni) (parseString uni') := by
  rw [parseString_eq, parseString_eq]
  exact .andThen safe_skipWs fun _ => .andThen safe_skipWs fun _ =>
    .bind safe_quoted (.bind (safe_eatHere isWord_quote) (ascii_eatHere isWord_quote)
      fun _ => .refl _) fun _ => .refl _

/-- A closing word, and the result. -/
theorem ascii_close (hkw : IsWord kw) (a : α) :
    AgreeAscii (do expect uni kw; return a) (do expect uni' kw; return a) :=
  .bind (safe_expect hkw) (ascii_expect hkw) fun _ => .refl _

/-- What follows a word that is expected. -/
theorem ascii_after (hkw : IsWord kw) {f f' : Parse α} (hf : AgreeAscii f f') :
    AgreeAscii (do expect uni kw; f) (do expect uni' kw; f') :=
  .bind (safe_expect hkw) (ascii_expect hkw) fun _ => hf

/-! ### Pipe operators -/

theorem ascii_parens {β : Type} {f f' : Parse α} {g : α → β} (hsafe : SafeParse f)
    (hf : AgreeAscii f f') :
    AgreeAscii (do expect uni "("; let a ← f; expect uni ")"; return g a)
      (do expect uni' "("; let a ← f'; expect uni' ")"; return g a) :=
  ascii_after isWord_lparen (.bind hsafe hf fun _ => ascii_close isWord_rparen _)

theorem ascii_nullaryOp {op : PipeOp} : AgreeAscii (nullaryOp uni op) (nullaryOp uni' op) :=
  ascii_close ⟨by decide, by decide⟩ _

theorem ascii_stringOp {op : String → PipeOp} :
    AgreeAscii (stringOp uni op) (stringOp uni' op) :=
  ascii_parens safe_parseString ascii_parseString

theorem ascii_positiveOp {what : String} {op : UInt64 → PipeOp} :
    AgreeAscii (positiveOp uni what op) (positiveOp uni' what op) :=
  ascii_parens safe_parsePositiveUint (.refl _)

theorem ascii_skipNamed {key : String} (hkey : IsWord key) :
    AgreeAscii (skipNamed uni key) (skipNamed uni' key) :=
  .bind (safe_eat hkey) (ascii_eat hkey) fun _ =>
    .ite (.bind (safe_eat isWord_equals) (ascii_eat isWord_equals) fun _ => .refl _) (.refl _)

theorem ascii_pktTypeOp : AgreeAscii (pktTypeOp uni) (pktTypeOp uni') :=
  ascii_after isWord_lparen (.andThen safe_parseUint fun _ =>
    .ite (.refl _) (ascii_close isWord_rparen _))

theorem ascii_windowTicksOp : AgreeAscii (windowTicksOp uni) (windowTicksOp uni') := by
  refine ascii_after isWord_lparen (.andThen safe_parsePositiveUint fun _ =>
    .bind (safe_eat isWord_comma) (ascii_eat isWord_comma) fun _ => .ite ?_
      (ascii_close isWord_rparen _))
  exact .andThen safe_parsePositiveUint fun _ => ascii_after isWord_comma
    (.bind safe_parseString ascii_parseString fun _ => ascii_after isWord_rparen (.refl _))

theorem ascii_budgetOp : AgreeAscii (budgetOp uni) (budgetOp uni') :=
  ascii_after isWord_lparen (.andThen safe_parseFloat fun _ => ascii_after isWord_comma
    (.andThen safe_parseUint fun _ => ascii_close isWord_rparen _))

/-- What follows the name of an argument. -/
theorem ascii_named {key : String} (hkey : IsWord key) {f f' : Parse α} (hf : AgreeAscii f f') :
    AgreeAscii (do skipNamed uni key; f) (do skipNamed uni' key; f') :=
  .bind (safe_skipNamed hkey) (ascii_skipNamed hkey) fun _ => hf

theorem ascii_budgetAirtimeOp : AgreeAscii (budgetAirtimeOp uni) (budgetAirtimeOp uni') :=
  ascii_after isWord_lparen <| ascii_named ⟨by decide, by decide⟩ <|
    .andThen safe_parsePositiveUint fun _ => ascii_after isWord_comma <|
      ascii_named ⟨by decide, by decide⟩ <| .andThen safe_parseFloat fun _ =>
        ascii_close isWord_rparen _

theorem ascii_budgetToaUsOp : AgreeAscii (budgetToaUsOp uni) (budgetToaUsOp uni') :=
  ascii_after isWord_lparen <| ascii_named ⟨by decide, by decide⟩ <|
    .andThen safe_parsePositiveUint fun _ => ascii_after isWord_comma <|
      ascii_named ⟨by decide, by decide⟩ <| .andThen safe_parseFloat fun _ =>
        ascii_after isWord_comma <| ascii_named ⟨by decide, by decide⟩ <|
          .andThen safe_parseUint fun _ => ascii_close isWord_rparen _

/-- The tables of operators have the same names, and operators that agree. -/
theorem ascii_pipeOps : List.Forall₂ (fun entry entry' => entry.1 = entry'.1 ∧
    AgreeAscii entry.2 entry'.2) (pipeOps uni) (pipeOps uni') := by
  simp only [pipeOps, List.forall₂_cons, true_and]
  exact ⟨ascii_nullaryOp, ascii_nullaryOp, ascii_nullaryOp, ascii_nullaryOp, ascii_nullaryOp,
    ascii_nullaryOp, ascii_nullaryOp, ascii_stringOp, ascii_pktTypeOp, ascii_positiveOp,
    ascii_positiveOp, ascii_positiveOp, ascii_windowTicksOp, ascii_positiveOp, ascii_positiveOp,
    ascii_budgetOp, ascii_budgetAirtimeOp, ascii_budgetToaUsOp, ascii_stringOp, .nil⟩

/-- The parser that an operator's name leads to. -/
theorem ascii_lookup {entries entries' : List (String × Parse α)}
    (h : List.Forall₂ (fun entry entry' => entry.1 = entry'.1 ∧ AgreeAscii entry.2 entry'.2)
      entries entries') (name : String) {g : Parse α} :
    AgreeAscii ((entries.lookup name).getD g) ((entries'.lookup name).getD g) := by
  induction h with
  | nil => exact .refl _
  | @cons entry entry' _ _ hentry _ ih =>
    obtain ⟨name₁, op⟩ := entry
    obtain ⟨name₂, op'⟩ := entry'
    obtain ⟨hname, hop⟩ := hentry
    dsimp only at hname hop
    subst hname
    by_cases heq : name == name₁
    · simpa only [List.lookup_cons, heq, Option.getD_some] using hop
    · rw [Bool.not_eq_true] at heq
      simpa only [List.lookup_cons, heq] using ih

theorem ascii_parsePipeOp : AgreeAscii (parsePipeOp uni) (parsePipeOp uni') := by
  refine .andThen safe_skipWs fun _ => .andThen safe_readDottedName fun name => ?_
  have hget := ascii_lookup (@ascii_pipeOps uni uni') name (g := fail (.unknownPipeOp name))
  cases h : (pipeOps uni).lookup name <;> cases h' : (pipeOps uni').lookup name <;>
    simpa only [h, h', Option.getD] using hget

/-! ### Expressions, sinks and sources -/

theorem ascii_parsePrimary : AgreeAscii (parsePrimary uni) (parsePrimary uni') := by
  have hword : IsWord "merge" := ⟨by decide, by decide⟩
  refine .andThen safe_skipWs fun _ => .bind (safe_eat hword) (ascii_eat hword) fun _ => .ite ?_ ?_
  · exact ascii_after isWord_lparen <| .andThen safe_parseIdent fun _ =>
      ascii_after isWord_comma <| .andThen safe_parseIdent fun _ => ascii_close isWord_rparen _
  · exact .andThen safe_peek fun _ =>
      .ite (.bind safe_parseString ascii_parseString fun _ => .refl _) (.refl _)

theorem ascii_parseExprStep (lhs : Expr) :
    AgreeAscii (parseExprStep uni lhs) (parseExprStep uni' lhs) :=
  .andThen safe_skipWs fun _ => .andThen (safe_skipStr isWord_pipe) fun _ =>
    .ite (.bind safe_parsePipeOp ascii_parsePipeOp fun _ => .refl _) (.refl _)

theorem ascii_parseExpr : AgreeAscii (parseExpr uni) (parseExpr uni') :=
  .bind safe_parsePrimary ascii_parsePrimary fun lhs =>
    .loop safe_parseExprStep ascii_parseExprStep lhs

theorem ascii_sinkArg {sink : String → Sink} :
    AgreeAscii (sinkArg uni sink) (sinkArg uni' sink) :=
  ascii_parens safe_parseIdent (.refl _)

theorem ascii_parseSink : AgreeAscii (parseSink uni) (parseSink uni') :=
  .andThen safe_skipWs fun _ => .andThen safe_readDottedName fun _ =>
    .ite ascii_sinkArg (.ite ascii_sinkArg (.ite ascii_sinkArg (.ite ascii_sinkArg (.refl _))))

theorem ascii_parseSourceKind : AgreeAscii (parseSourceKind uni) (parseSourceKind uni') :=
  .andThen safe_parseIdent fun _ => .ite (.refl _) <| .ite (.refl _) <| .ite (.refl _) <|
    .ite (.refl _) <| .ite (ascii_after isWord_lparen <| .andThen safe_parseUint fun _ =>
      .ite (.refl _) (ascii_close isWord_rparen _)) (.refl _)

/-! ### Statements -/

theorem ascii_parseClock : AgreeAscii (parseClock uni) (parseClock uni') :=
  .bind (safe_eat isWord_at) (ascii_eat isWord_at) fun _ => .refl _

theorem ascii_parseSourceStmt : AgreeAscii (parseSourceStmt uni) (parseSourceStmt uni') :=
  .andThen safe_parseIdent fun _ => .bind safe_parseClock ascii_parseClock fun _ =>
    ascii_after isWord_equals <| .bind safe_parseSourceKind ascii_parseSourceKind fun _ =>
      ascii_close isWord_semicolon _

theorem ascii_parseLetStmt : AgreeAscii (parseLetStmt uni) (parseLetStmt uni') :=
  .andThen safe_parseIdent fun _ => ascii_after isWord_equals <|
    .bind safe_parseExpr ascii_parseExpr fun _ => ascii_close isWord_semicolon _

theorem ascii_parseEmitStep (sinks : List Sink) :
    AgreeAscii (parseEmitStep uni sinks) (parseEmitStep uni' sinks) :=
  .andThen safe_skipWs fun _ => .andThen (safe_skipStr isWord_rbrace) fun _ =>
    .ite (.refl _) (.bind safe_parseSink ascii_parseSink fun _ => ascii_close isWord_semicolon _)

theorem ascii_parseEmitStmt : AgreeAscii (parseEmitStmt uni) (parseEmitStmt uni') :=
  ascii_after ⟨by decide, by decide⟩ <|
    .bind (.loop safe_parseEmitStep advances_parseEmitStep [])
      (.loop safe_parseEmitStep ascii_parseEmitStep []) fun _ => .refl _

theorem ascii_parseStmt : AgreeAscii (parseStmt uni) (parseStmt uni') :=
  .andThen safe_skipWs fun _ =>
    .bind (safe_eat isWord_source) (ascii_eat isWord_source) fun _ =>
      .ite ascii_parseSourceStmt <| .bind (safe_eat isWord_let) (ascii_eat isWord_let) fun _ =>
        .ite ascii_parseLetStmt <| .bind (safe_eat isWord_emit) (ascii_eat isWord_emit) fun _ =>
          .ite ascii_parseEmitStmt (.refl _)

theorem ascii_parseProgramStep (stmts : List Stmt) :
    AgreeAscii (parseProgramStep uni stmts) (parseProgramStep uni' stmts) :=
  .andThen safe_atEnd fun _ =>
    .ite (.refl _) (.bind safe_parseStmt ascii_parseStmt fun _ => .refl _)

/-- On an ASCII text the Unicode tables make no difference. -/
theorem parseProgram_ascii {s : List Char} (hs : ∀ c ∈ s, IsAscii c) :
    parseProgram uni 0 (utf8 s) = parseProgram uni' 0 (utf8 s) :=
  AgreeOn.bind (.loop safe_parseProgramStep advances_parseProgramStep [])
    (.loop safe_parseProgramStep ascii_parseProgramStep []) (fun _ => .refl _) 0 s hs

end Rivr.Core
