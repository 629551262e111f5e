import Rivr.Core.CompilerSources
import Rivr.Core.ParserTokens
import Rivr.ForMathlib.ParserYields

/-!
# What a program can call its sources

The name of a source statement that was parsed is an identifier, so it has ASCII letters, digits and
underscores only, and the interval of a timer is not zero (`parse_sourceOk`). Every source node of a
compiled program comes from such a statement, and its name is one that events can be injected under
(`compile_sourceNodes`).
-/

open ByteParser Utf8

namespace Rivr.Core

/-! ### Parsing -/

/-- The names that `parse_ident` gives. -/
def IsIdent (name : String) : Prop :=
  ∃ slice : List UInt8, slice ≠ [] ∧ (∀ b ∈ slice, isIdentByte b = true) ∧ name = asciiString slice

/-- What the parser checks of a `source` statement. -/
def Stmt.SourceOk : Stmt → Prop
  | .source name _ kind => IsIdent name ∧ ∀ ms, kind = .timer ms → ms ≠ 0
  | _ => True

/-- An identifier is spelled in identifier bytes. -/
theorem IsIdent.mem_utf8 {name : String} (h : IsIdent name) :
    ∀ b ∈ utf8 name.toList, isIdentByte b = true := by
  obtain ⟨slice, -, hslice, rfl⟩ := h
  have hascii : ∀ b ∈ slice, b.toNat < 0x80 := fun b hb => isIdentByte_lt b (hslice b hb)
  rw [asciiString, String.toList_ofList, utf8_charOfByte hascii]
  exact hslice

theorem IsIdent.mem_utf8_ne_zero {name : String} (h : IsIdent name) :
    ∀ b ∈ utf8 name.toList, b ≠ 0 := by
  rintro b hb rfl
  exact absurd (h.mem_utf8 0 hb) (by decide)

theorem yields_sliceWhile (P : UInt8 → Bool) :
    Yields (fun slice => ∀ b ∈ slice, P b = true) (sliceWhile P) := by
  intro pos pos' rest r slice hok
  rw [sliceWhile] at hok
  split_ifs at hok
  rw [Outcome.ok.injEq] at hok
  rw [← hok.1]
  exact fun b hb => List.mem_takeWhile_imp hb

theorem yields_parseIdent : Yields IsIdent parseIdent := by
  refine .bind_any fun _ => .bind (yields_sliceWhile isIdentByte) fun slice hslice => ?_
  refine .ite (fun _ => .fail _) fun hne => .pure ⟨slice, ?_, hslice, rfl⟩
  rwa [List.isEmpty_iff] at hne

variable {uni : Char → Bool}

theorem yields_parseSourceKind :
    Yields (fun kind => ∀ ms, kind = .timer ms → ms ≠ 0) (parseSourceKind uni) := by
  refine .bind_any fun name => ?_
  refine .ite (fun _ => .pure nofun) fun _ => ?_
  refine .ite (fun _ => .pure nofun) fun _ => ?_
  refine .ite (fun _ => .pure nofun) fun _ => ?_
  refine .ite (fun _ => .pure nofun) fun _ => ?_
  refine .ite (fun _ => .bind_any fun _ => .bind_any fun intervalMs => ?_) fun _ => .fail _
  refine .ite (fun _ => .fail _) fun hne => .bind_any fun _ => .pure ?_
  rintro ms heq rfl
  exact hne (SourceKind.timer.inj heq)

theorem yields_parseSourceStmt : Yields Stmt.SourceOk (parseSourceStmt uni) := by
  refine .bind yields_parseIdent fun name hname => .bind_any fun clock => .bind_any fun _ => ?_
  exact .bind yields_parseSourceKind fun kind hkind => .bind_any fun _ => .pure ⟨hname, hkind⟩

theorem yields_parseStmt : Yields Stmt.SourceOk (parseStmt uni) := by
  refine .bind_any fun _ => .bind_any fun _ => .ite (fun _ => yields_parseSourceStmt) fun _ => ?_
  refine .bind_any fun _ => .ite (fun _ => ?_) fun _ => ?_
  · exact .bind_any fun _ => .bind_any fun _ => .bind_any fun _ => .bind_any fun _ => .pure trivial
  refine .bind_any fun _ => .ite (fun _ => ?_) fun _ => ?_
  · exact .bind_any fun _ => .bind_any fun _ => .pure trivial
  · intro pos pos' rest r stmt hok
    rw [failCtx] at hok
    split_ifs at hok

/-- **Parsing.** The sources of a program that was parsed have identifiers for names, and its timers
intervals that are not zero. -/
theorem parse_sourceOk {src : String} {program : Program} {pos : ℕ} {rest : List UInt8}
    (h : parse uni src = .ok program pos rest) : ∀ stmt ∈ program.stmts, stmt.SourceOk := by
  have hyields : Yields (fun program : Program => ∀ stmt ∈ program.stmts, stmt.SourceOk)
      (parseProgram uni) := by
    refine .bind (Q := fun stmts => ∀ stmt ∈ stmts, Stmt.SourceOk stmt) ?_ fun stmts hstmts =>
      .pure hstmts
    refine .loop (fun stmts hstmts => .bind_any fun _ => .ite (fun _ => .pure hstmts) fun _ => ?_)
      fun _ hmem => absurd hmem List.not_mem_nil
    refine .bind yields_parseStmt fun stmt hstmt => .pure fun stmt' hmem => ?_
    rcases List.mem_append.mp hmem with hmem | hmem
    · exact hstmts stmt' hmem
    · rwa [List.mem_singleton.mp hmem]
  exact hyields h

/-! ### Compiling -/

/-- The later compiler has no source node that the earlier one has not, and the same source
names. -/
structure Compiler.AddsNoSource (c c' : Compiler) : Prop where
  kinds : ∀ kind ∈ c'.engine.nodes.map Node.kind, kind.isSource = true →
    kind ∈ c.engine.nodes.map Node.kind
  sourceIds : c'.engine.sourceIds = c.engine.sourceIds

theorem Compiler.lowering_addsNoSource : Compiler.Lowering Compiler.AddsNoSource where
  refl _ := ⟨fun _ hmem _ => hmem, rfl⟩
  trans h h' := ⟨fun kind hmem hsource => h.kinds kind (h'.kinds kind hmem hsource) hsource,
    h'.sourceIds.trans h.sourceIds⟩
  diags _ _ := ⟨fun _ hmem _ => hmem, rfl⟩
  fresh _ _ := ⟨fun _ hmem _ => hmem, rfl⟩
  addFed c name kind ups hkind := by
    refine ⟨fun kind' hmem hsource => ?_, (c.grows_addFed name kind ups).sourceIds⟩
    rw [c.kinds_addFed] at hmem
    rcases List.mem_append.mp hmem with hmem | hmem
    · exact hmem
    · rw [List.mem_singleton.mp hmem, hkind] at hsource
      exact absurd hsource Bool.false_ne_true

/-- Every source node comes from one of the statements, and its name is bound. -/
def Compiler.SourcesFrom (c : Compiler) (stmts : List Stmt) : Prop :=
  ∀ (name : String) (clock : UInt8) (intervalMs : Option UInt64),
    NodeKind.source name clock intervalMs ∈ c.engine.nodes.map Node.kind →
      (∃ clk kind, Stmt.source name clk kind ∈ stmts ∧
        sourceClock clk kind = (clock, intervalMs)) ∧
      ∃ id, c.engine.sourceIds.lookup name = some id

variable {c : Compiler} {stmts : List Stmt}

theorem Compiler.SourcesFrom.of_addsNoSource {c' : Compiler} (h : c.SourcesFrom stmts)
    (hadds : c.AddsNoSource c') (stmt : Stmt) : c'.SourcesFrom (stmts ++ [stmt]) := by
  intro name clock intervalMs hmem
  obtain ⟨⟨clk, kind, hstmt, hclock⟩, hbound⟩ :=
    h name clock intervalMs (hadds.kinds _ hmem rfl)
  rw [hadds.sourceIds]
  exact ⟨⟨clk, kind, List.mem_append_left _ hstmt, hclock⟩, hbound⟩

/-- **Statements.** Only a `source` statement adds a source node, and it binds its name. -/
theorem Compiler.SourcesFrom.stmt (h : c.SourcesFrom stmts) (stmt : Stmt) :
    (compileStmt c stmt).SourcesFrom (stmts ++ [stmt]) := by
  match stmt with
  | .source name clk kind =>
    have hbound : ((c.addFed name (.source name (sourceClock clk kind).1
        (sourceClock clk kind).2) []).2.bindSource name (c.addFed name (.source name
          (sourceClock clk kind).1 (sourceClock clk kind).2) []).1).SourcesFrom
            (stmts ++ [.source name clk kind]) := by
      intro name' clock intervalMs hmem
      have hmem : NodeKind.source name' clock intervalMs ∈ (c.addFed name (.source name
          (sourceClock clk kind).1 (sourceClock clk kind).2) []).2.engine.nodes.map
            Node.kind := hmem
      rw [c.kinds_addFed] at hmem
      rcases List.mem_append.mp hmem with hmem | hmem
      · obtain ⟨⟨clk', kind', hstmt, hclock⟩, hid⟩ := h name' clock intervalMs hmem
        exact ⟨⟨clk', kind', List.mem_append_left _ hstmt, hclock⟩,
          exists_lookup_insert (.inr hid) _⟩
      · -- the node that the statement adds
        obtain ⟨rfl, rfl, rfl⟩ := NodeKind.source.inj (List.mem_singleton.mp hmem)
        exact ⟨⟨clk, kind, List.mem_append_right _ (List.mem_singleton_self _), rfl⟩,
          exists_lookup_insert (.inl rfl) _⟩
    rw [compileStmt]
    split_ifs <;> exact hbound
  | .letStmt name expr =>
    have hadds := Compiler.lowering_addsNoSource.expr expr c
    rw [compileStmt]
    rcases hexpr : compileExpr expr c with ⟨_ | terminal, c₁⟩
    · rw [hexpr] at hadds
      exact h.of_addsNoSource hadds _
    · rw [hexpr] at hadds
      have hbind : c.AddsNoSource (c₁.bindStream name terminal) := by
        refine ⟨fun kind hmem => hadds.kinds kind ?_, hadds.sourceIds⟩
        rwa [← c₁.engine.kinds_renameNode terminal name]
      exact h.of_addsNoSource hbind _
  | .emit sinks => exact h.of_addsNoSource (Compiler.lowering_addsNoSource.sinks c sinks) _

theorem Compiler.SourcesFrom.foldl (h : c.SourcesFrom stmts) (rest : List Stmt) :
    (rest.foldl compileStmt c).SourcesFrom (stmts ++ rest) := by
  induction rest generalizing c stmts with
  | nil => rwa [List.append_nil]
  | cons stmt rest ih =>
    have hrest := ih (h.stmt stmt)
    rwa [List.append_assoc] at hrest

/-- **Compiling.** A source node of a compiled program comes from a `source` statement, and events
can be injected under its name. -/
theorem compile_sourceNodes {program : Program} {engine : Engine} {warnings : List CompileError}
    (h : compile program = .ok (engine, warnings)) {node : Node} (hnode : node ∈ engine.nodes)
    {name : String} {clock : UInt8} {intervalMs : Option UInt64}
    (hkind : node.kind = .source name clock intervalMs) :
    (∃ clk kind, Stmt.source name clk kind ∈ program.stmts ∧
      sourceClock clk kind = (clock, intervalMs)) ∧
    ∃ id, engine.sourceIds.lookup name = some id := by
  have hnew : Compiler.new.SourcesFrom [] := fun _ _ _ hmem => absurd hmem List.not_mem_nil
  have hfrom : (program.stmts.foldl compileStmt .new).SourcesFrom program.stmts :=
    hnew.foldl program.stmts
  have hmem : NodeKind.source name clock intervalMs ∈ engine.nodes.map Node.kind :=
    hkind ▸ List.mem_map_of_mem hnode
  rw [compile_engine h] at hmem ⊢
  exact hfrom name clock intervalMs hmem

end Rivr.Core
