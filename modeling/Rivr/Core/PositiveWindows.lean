import Rivr.Core.NodeArithmetic
import Rivr.Core.SourceNames

/-!
# The arithmetic of a program

The parser gives no operator an empty window (`parse_positive`), the compiler makes no empty window
of what the parser gives (`compile_positive`), and no operator changes the width of its window
(`EngineReach.map_role`). So nothing is ever divided by zero, and what an operator of a program
computes overflows exactly where one of its sums does (`program_computes_iff`). Numbers are read
exactly or not at all (`parseUint_exact`).
-/

open ByteParser Utf8 Worklist

namespace Rivr.Core

variable {uni : Char → Bool}

/-! ### Parsing -/

/-- The step of a pipeline has no empty window. -/
def PipeOp.Positive (op : PipeOp) : Prop := (compileOp op).2.Positive

/-- The operators of the expression have no empty window. -/
def Expr.Positive : Expr → Prop
  | .pipe lhs op => lhs.Positive ∧ op.Positive
  | .ident _ | .lit _ | .merge _ _ => True

/-- The operators of the statement have no empty window. -/
def Stmt.Positive : Stmt → Prop
  | .letStmt _ expr => expr.Positive
  | .source .. | .emit _ => True

theorem yields_parsePositiveUint (what : String) : Yields (· ≠ 0) (parsePositiveUint what) :=
  .bind_any fun _ => .ite (fun _ => .fail _) fun hne => .pure hne

theorem yields_nullaryOp {op : PipeOp} (hop : op.Positive) :
    Yields PipeOp.Positive (nullaryOp uni op) := .bind_any fun _ => .pure hop

theorem yields_stringOp {op : String → PipeOp} (hop : ∀ label, (op label).Positive) :
    Yields PipeOp.Positive (stringOp uni op) :=
  .bind_any fun _ => .bind_any fun label => .bind_any fun _ => .pure (hop label)

theorem yields_positiveOp {what : String} {op : UInt64 → PipeOp}
    (hop : ∀ n, n ≠ 0 → (op n).Positive) : Yields PipeOp.Positive (positiveOp uni what op) :=
  .bind_any fun _ => .bind (yields_parsePositiveUint what) fun n hn =>
    .bind_any fun _ => .pure (hop n hn)

theorem yields_pktTypeOp : Yields PipeOp.Positive (pktTypeOp uni) :=
  .bind_any fun _ => .bind_any fun _ => .ite (fun _ => .fail _) fun _ =>
    .bind_any fun _ => .pure trivial

theorem yields_windowTicksOp : Yields PipeOp.Positive (windowTicksOp uni) := by
  refine .bind_any fun _ => .bind (yields_parsePositiveUint _) fun n hn => .bind_any fun _ => ?_
  refine .ite (fun _ => ?_) fun _ => .bind_any fun _ => .pure hn
  refine .bind_any fun cap => .bind_any fun _ => .bind_any fun name => .bind_any fun _ => ?_
  match windowPolicy name with
  | some policy => exact .pure hn
  | none => exact .fail _

theorem yields_budgetOp : Yields PipeOp.Positive (budgetOp uni) :=
  .bind_any fun _ => .bind_any fun _ => .bind_any fun _ => .bind_any fun _ =>
    .bind_any fun _ => .pure trivial

theorem yields_budgetAirtimeOp : Yields PipeOp.Positive (budgetAirtimeOp uni) :=
  .bind_any fun _ => .bind_any fun _ => .bind (yields_parsePositiveUint _) fun _ hn =>
    .bind_any fun _ => .bind_any fun _ => .bind_any fun _ => .bind_any fun _ => .pure hn

theorem yields_budgetToaUsOp : Yields PipeOp.Positive (budgetToaUsOp uni) :=
  .bind_any fun _ => .bind_any fun _ => .bind (yields_parsePositiveUint _) fun _ hn =>
    .bind_any fun _ => .bind_any fun _ => .bind_any fun _ => .bind_any fun _ =>
      .bind_any fun _ => .bind_any fun _ => .bind_any fun _ => .pure hn

theorem yields_pipeOps : ∀ entry ∈ pipeOps uni, Yields PipeOp.Positive entry.2 := by
  simp only [pipeOps, List.forall_mem_cons]
  exact ⟨yields_nullaryOp trivial, yields_nullaryOp trivial, yields_nullaryOp trivial,
    yields_nullaryOp trivial, yields_nullaryOp trivial, yields_nullaryOp trivial,
    yields_nullaryOp trivial, yields_stringOp fun _ => trivial, yields_pktTypeOp,
    yields_positiveOp fun _ hn => hn, yields_positiveOp fun _ _ => trivial,
    yields_positiveOp fun _ _ => trivial, yields_windowTicksOp,
    yields_positiveOp fun _ _ => trivial, yields_positiveOp fun _ _ => trivial, yields_budgetOp,
    yields_budgetAirtimeOp, yields_budgetToaUsOp, yields_stringOp fun _ => trivial,
    fun _ hmem => absurd hmem List.not_mem_nil⟩

theorem yields_parsePipeOp : Yields PipeOp.Positive (parsePipeOp uni) := by
  refine .bind_any fun _ => .bind_any fun name => ?_
  match hop : (pipeOps uni).lookup name with
  | some op =>
    obtain ⟨l₁, l₂, hmem, -⟩ := List.lookup_eq_some_iff.mp hop
    exact yields_pipeOps (name, op) (by rw [hmem]; simp)
  | none => exact .fail _

theorem yields_parsePrimary : Yields Expr.Positive (parsePrimary uni) := by
  refine .bind_any fun _ => .bind_any fun _ => .ite (fun _ => ?_) fun _ => .bind_any fun _ => ?_
  · exact .bind_any fun _ => .bind_any fun _ => .bind_any fun _ => .bind_any fun _ =>
      .bind_any fun _ => .pure trivial
  · exact .ite (fun _ => .bind_any fun _ => .pure trivial) fun _ =>
      .ite (fun _ => .bind_any fun _ => .pure trivial) fun _ => .bind_any fun _ => .pure trivial

/-- Each round of the loop adds an operator with no empty window. -/
theorem yields_parseExpr : Yields Expr.Positive (parseExpr uni) := by
  refine .bind yields_parsePrimary fun lhs hlhs => .loop (fun lhs hlhs => ?_) hlhs
  refine .bind_any fun _ => .bind_any fun _ => .ite (fun _ => ?_) fun _ => .pure hlhs
  exact .bind yields_parsePipeOp fun op hop => .pure ⟨hlhs, hop⟩

theorem yields_parseStmt_positive : Yields Stmt.Positive (parseStmt uni) := by
  refine .bind_any fun _ => .bind_any fun _ => .ite (fun _ => ?_) fun _ => .bind_any fun _ => ?_
  · exact .bind_any fun _ => .bind_any fun _ => .bind_any fun _ => .bind_any fun _ =>
      .bind_any fun _ => .pure trivial
  refine .ite (fun _ => ?_) fun _ => .bind_any fun _ => .ite (fun _ => ?_) fun _ => ?_
  · exact .bind_any fun _ => .bind_any fun _ => .bind yields_parseExpr fun expr hexpr =>
      .bind_any fun _ => .pure hexpr
  · exact .bind_any fun _ => .bind_any fun _ => .pure trivial
  · intro pos pos' rest r stmt hok
    rw [failCtx] at hok
    split_ifs at hok

/-- **Parsing.** No operator of a program that was parsed has an empty window. -/
theorem parse_positive {src : String} {program : Program} {pos : ℕ} {rest : List UInt8}
    (h : parse uni src = .ok program pos rest) : ∀ stmt ∈ program.stmts, stmt.Positive := by
  have hyields : Yields (fun program : Program => ∀ stmt ∈ program.stmts, stmt.Positive)
      (parseProgram uni) := by
    refine .bind (Q := fun stmts => ∀ stmt ∈ stmts, Stmt.Positive stmt) ?_ fun stmts hstmts =>
      .pure hstmts
    refine .loop (fun stmts hstmts => .bind_any fun _ => .ite (fun _ => .pure hstmts) fun _ => ?_)
      fun _ hmem => absurd hmem List.not_mem_nil
    refine .bind yields_parseStmt_positive fun stmt hstmt => .pure fun stmt' hmem => ?_
    rcases List.mem_append.mp hmem with hmem | hmem
    · exact hstmts stmt' hmem
    · rwa [List.mem_singleton.mp hmem]
  exact hyields h

/-- The number is what all the digits spell that come after the blanks, and `r` follows them. -/
def NumberRead (pos : ℕ) (rest : List UInt8) (n : UInt64) (r : List UInt8) : Prop :=
  ∃ mid digits, skipWs pos rest = .ok () mid (digits ++ r) ∧ digits ≠ [] ∧
    (∀ b ∈ digits, isAsciiDigit b = true) ∧ (∀ b ∈ r.head?, isAsciiDigit b = false) ∧
    n.toNat = digitsValue digits

/-- **Numbers.** What `parse_uint` returns is the number that the digits spell. -/
theorem parseUint_exact {pos pos' : ℕ} {rest r : List UInt8} {n : UInt64}
    (h : parseUint pos rest = .ok n pos' r) : NumberRead pos rest n r := by
  obtain ⟨_, mid, after, hblanks, hnumber⟩ := bind_eq_ok.mp h
  obtain ⟨_, _, _, ⟨⟩, hnumber⟩ := bind_eq_ok.mp hnumber
  obtain ⟨digits, mid', r', hslice, hnumber⟩ := bind_eq_ok.mp hnumber
  rw [sliceWhile] at hslice
  split_ifs at hslice
  obtain ⟨rfl, -, rfl⟩ := Outcome.ok.inj hslice
  split_ifs at hnumber with hnil hfits
  · cases hnumber
  · obtain ⟨rfl, -, rfl⟩ := Outcome.ok.inj hnumber
    refine ⟨mid, after.takeWhile isAsciiDigit, ?_, ?_, fun b hb => List.mem_takeWhile_imp hb, ?_,
      UInt64.toNat_ofNat_of_lt' hfits⟩
    · rwa [List.takeWhile_append_dropWhile]
    · rwa [List.isEmpty_iff] at hnil
    · intro b hb
      have hnot := List.head?_dropWhile_not isAsciiDigit after
      rw [Option.mem_def.mp hb] at hnot
      exact hnot
  · cases hnumber

/-! ### Compiling -/

/-- All the kinds of the nodes have no empty window. -/
theorem Engine.positive_iff {e : Engine} :
    e.Positive ↔ ∀ kind ∈ e.nodes.map Node.kind, kind.Positive := List.forall_mem_map.symm

variable {c : Compiler}

theorem Compiler.positive_addFed (h : c.engine.Positive) (name : String) (kind : NodeKind)
    (hkind : kind.Positive) (ups : List ℕ) : (c.addFed name kind ups).2.engine.Positive := by
  rw [Engine.positive_iff, c.kinds_addFed, List.forall_mem_append, List.forall_mem_singleton]
  exact ⟨Engine.positive_iff.mp h, hkind⟩

/-- **Expressions.** By induction on the expression, whose pipes add their operators. -/
theorem positive_compileExpr (expr : Expr) (hexpr : expr.Positive) (h : c.engine.Positive) :
    (compileExpr expr c).2.engine.Positive := by
  induction expr generalizing c with
  | ident name =>
    rw [compileExpr]
    split <;> exact h
  | lit l => exact h
  | pipe lhs op ih =>
    have hlhs := ih hexpr.1 h
    rw [compileExpr]
    rcases hcompile : compileExpr lhs c with ⟨_ | upstream, c₁⟩
    · rwa [hcompile] at hlhs
    · rw [hcompile] at hlhs
      exact Compiler.positive_addFed (c := (c₁.fresh _).2) hlhs _ _ hexpr.2 _
  | merge a b =>
    rw [compileExpr]
    split
    · exact h
    split
    · exact h
    · exact Compiler.positive_addFed (c := (c.fresh _).2) h _ .merge trivial _

theorem positive_compileSink (h : c.engine.Positive) (sink : Sink) :
    (compileSink c sink).engine.Positive := by
  rw [compileSink]
  split
  · exact h
  · exact Compiler.positive_addFed h _ (.emit _) trivial _

theorem positive_compileStmt (h : c.engine.Positive) {stmt : Stmt} (hstmt : stmt.Positive) :
    (compileStmt c stmt).engine.Positive := by
  match stmt with
  | .source name clock kind =>
    have hfed := Compiler.positive_addFed h name
      (.source name (sourceClock clock kind).1 (sourceClock clock kind).2) trivial []
    rw [compileStmt]
    split_ifs <;> exact hfed
  | .letStmt name expr =>
    have hexpr := positive_compileExpr expr hstmt h
    rw [compileStmt]
    rcases hcompile : compileExpr expr c with ⟨_ | terminal, c₁⟩
    · rwa [hcompile] at hexpr
    · rw [hcompile, Engine.positive_iff] at hexpr
      rw [Engine.positive_iff]
      change ∀ kind ∈ (c₁.engine.renameNode terminal name).nodes.map Node.kind, kind.Positive
      rwa [Engine.kinds_renameNode]
  | .emit sinks =>
    exact List.foldlRecOn sinks compileSink (motive := fun c => c.engine.Positive) h
      fun _ hc sink _ => positive_compileSink hc sink

/-- **Compiling.** The engine of a program whose operators have no empty window has none either. -/
theorem compile_positive {program : Program} {engine : Engine} {warnings : List CompileError}
    (h : compile program = .ok (engine, warnings))
    (hpos : ∀ stmt ∈ program.stmts, stmt.Positive) : engine.Positive := by
  have hnew : Compiler.new.engine.Positive := fun _ hmem => absurd hmem List.not_mem_nil
  rw [compile_engine h]
  exact List.foldlRecOn program.stmts compileStmt (motive := fun c => c.engine.Positive) hnew
    fun _ hc stmt hstmt => positive_compileStmt hc (hpos stmt hstmt)

/-! ### Running -/

theorem map_role_steps {checks : Bool} {k : ℕ} {e e' : Engine} (h : e.Wf)
    (hsteps : Steps (EngineTurn checks) k e e') :
    e'.nodes.map Node.role = e.nodes.map Node.role := by
  induction hsteps with
  | refl => rfl
  | tail hsteps hlast ih => exact (hlast.map_role (h.steps hsteps).1.scheduler).trans (ih h)

/-- Injections, ticks and runs change no operator. -/
theorem EngineReach.map_role {checks : Bool} {engine e : Engine} (hwf : engine.Wf)
    (h : EngineReach checks engine e) : e.nodes.map Node.role = engine.nodes.map Node.role := by
  induction h with
  | start => rfl
  | @inject e e' name ev h hok ih =>
    rw [Engine.inject] at hok
    rcases hlookup : e.sourceIds.lookup name with _ | id
    · rw [hlookup] at hok
      cases hok
    · rw [hlookup] at hok
      obtain rfl := Except.ok.inj hok
      exact ih
  | @tick e clockId tick h ih =>
    rw [Engine.tickClock]
    split_ifs <;> exact ih
  | @run e e' maxSteps n h hok ih =>
    exact (map_role_steps (h.wf hwf) ((h.wf hwf).run_ok hok).2.1).trans ih
  | logs effectLog traceLog h ih => exact ih

/-- **Programs.** Whatever an operator of a program has come to remember, and whatever the event, it
computes the event exactly if it has headroom; a run from an engine that is reached computes exactly
if every item that it takes finds headroom; and numbers are read exactly. -/
theorem program_computes_iff {src : String} {program : Program} {pos : ℕ} {rest : List UInt8}
    {engine : Engine} {warnings : List CompileError} (hparse : parse uni src = .ok program pos rest)
    (hcompile : compile program = .ok (engine, warnings)) :
    (∀ node ∈ engine.nodes, ∀ kind : NodeKind, kind.operator = node.kind.operator →
      ∀ ev, (Computes (kind.process true ev) ↔ kind.Headroom ev)) ∧
    (∀ e, EngineReach true engine e → ∀ maxSteps, (Computes (e.run true maxSteps) ↔
      ∀ k < maxSteps, ∀ e', Steps (EngineTurn true) k e e' → e'.TurnHeadroom)) ∧
    ∀ (pos pos' : ℕ) (rest r : List UInt8) (n : UInt64),
      parseUint pos rest = .ok n pos' r → NumberRead pos rest n r := by
  obtain ⟨hordered, hfresh⟩ := compile_wf hcompile
  have hwf := Engine.wf_of_ordered hordered hfresh
  have hpos := compile_positive hcompile (parse_positive hparse)
  refine ⟨fun node hnode kind hkind ev => ?_, fun e hreach maxSteps => ?_,
    fun _ _ _ _ _ => parseUint_exact⟩
  · refine NodeKind.computes_iff ?_ ev
    rw [← positive_operator, hkind, positive_operator]
    exact hpos node hnode
  · exact (hreach.wf hwf).run_computes_iff (hpos.of_map_role (hreach.map_role hwf)) maxSteps

/-- A delay of the greatest number of ticks. -/
def longDelay : Program :=
  ⟨[.source "a" none .rf,
    .letStmt "b" (.pipe (.ident "a") (.delayTicks 18446744073709551615)),
    .emit [.usbPrint "b"]]⟩

/-- Its text. -/
def longDelayText : String :=
  "source a = rf; let b = a |> delay.ticks(18446744073709551615); " ++
    "emit \x7b io.usb.print(b); \x7d"

theorem parse_longDelay :
    ∃ pos rest, parse (fun _ => false) longDelayText = .ok longDelay pos rest := by
  have hvalue : (parse (fun _ => false) longDelayText).value? = some longDelay := by decide +kernel
  exact Outcome.value?_eq_some_iff.mp hvalue

/-- The deadline of an event at tick 1 does not fit into 64 bits. -/
theorem not_program_computes : ¬∀ (uni : Char → Bool) (src : String) (program : Program) (pos : ℕ)
    (rest : List UInt8) (engine e : Engine) (warnings : List CompileError) (maxSteps : ℕ),
    parse uni src = .ok program pos rest → compile program = .ok (engine, warnings) →
      EngineReach true engine e → Computes (e.run true maxSteps) := by
  intro h
  obtain ⟨pos, rest, hparse⟩ := parse_longDelay
  obtain ⟨engine, e, hcompile, hinject, hrun⟩ : ∃ engine e, compile longDelay = .ok (engine, []) ∧
      engine.inject "a" (.new ⟨0, 1⟩ (.int 7)) = .ok e ∧
      e.run true 2 = .error .arithmeticOverflow := ⟨_, _, rfl, rfl, rfl⟩
  have hcomputes := h _ _ _ _ _ _ _ _ 2 hparse hcompile (.inject _ _ .start hinject)
  rw [hrun, computes_error_iff] at hcomputes
  exact hcomputes trivial

/-- At tick 0 the deadline fits, at tick 1 it does not. -/
theorem program_computes_iff_longDelay : ∃ engine, compile longDelay = .ok (engine, []) ∧
    Computes (NodeKind.process true (.delayTicks ⟨18446744073709551615, none⟩)
      (.new ⟨0, 0⟩ (.int 7))) ∧
    ¬Computes (NodeKind.process true (.delayTicks ⟨18446744073709551615, none⟩)
      (.new ⟨0, 1⟩ (.int 7))) := by
  obtain ⟨pos, rest, hparse⟩ := parse_longDelay
  obtain ⟨engine, node, hcompile, hnode, hkind⟩ : ∃ (engine : Engine) (node : Node),
      compile longDelay = .ok (engine, []) ∧ engine.nodes[1]? = some node ∧
      node.kind.operator = .delayTicks ⟨18446744073709551615, none⟩ := ⟨_, _, rfl, rfl, rfl⟩
  have hiff := (program_computes_iff hparse hcompile).1 node (List.mem_of_getElem? hnode)
    (.delayTicks ⟨18446744073709551615, none⟩) hkind.symm
  refine ⟨engine, hcompile, (hiff _).mpr ?_, fun hcomputes => ?_⟩
  · decide
  · exact absurd ((hiff _).mp hcomputes) (by decide)

end Rivr.Core
