import Rivr.Core.CompilerKinds

/-!
# The source names of a program

Lowering expressions and sinks only adds nodes at the end of the node table and leaves the source
names alone (`Compiler.lowering_grows`); only a `source` statement binds a source name, to the node
it has just added. So the source names of a compiled program stand for source nodes
(`compile_sources`).
-/

namespace Rivr.Core

/-- Every source name stands for a source. -/
def Engine.SourcesNamed (e : Engine) : Prop :=
  ∀ entry ∈ e.sourceIds, ∃ kind, (e.nodes.map Node.kind)[entry.2]? = some kind ∧
    kind.isSource = true

/-- The later compiler has more nodes and the same source names. -/
structure Compiler.Grows (c c' : Compiler) : Prop where
  kinds : c.engine.nodes.map Node.kind <+: c'.engine.nodes.map Node.kind
  sourceIds : c'.engine.sourceIds = c.engine.sourceIds

theorem Compiler.Grows.refl (c : Compiler) : c.Grows c := ⟨List.prefix_refl _, rfl⟩

theorem Compiler.Grows.trans {c₁ c₂ c₃ : Compiler} (h : c₁.Grows c₂) (h' : c₂.Grows c₃) :
    c₁.Grows c₃ := ⟨h.kinds.trans h'.kinds, h'.sourceIds.trans h.sourceIds⟩

theorem Compiler.Grows.sourcesNamed {c c' : Compiler} (h : c.Grows c')
    (hc : c.engine.SourcesNamed) : c'.engine.SourcesNamed := by
  intro entry hmem
  rw [h.sourceIds] at hmem
  obtain ⟨kind, hkind, hsource⟩ := hc entry hmem
  obtain ⟨added, hadded⟩ := h.kinds
  have hlt := (List.getElem?_eq_some_iff.mp hkind).1
  exact ⟨kind, by rw [← hadded, List.getElem?_append_left hlt, hkind], hsource⟩

theorem Engine.sourceIds_foldl_connect (ups : List ℕ) (id : ℕ) (e : Engine) :
    (ups.foldl (fun e up => e.connect up id) e).sourceIds = e.sourceIds := by
  induction ups generalizing e with
  | nil => rfl
  | cons up ups ih => exact ih (e.connect up id)

variable (c : Compiler)

theorem Compiler.kinds_addFed (name : String) (kind : NodeKind) (ups : List ℕ) :
    (c.addFed name kind ups).2.engine.nodes.map Node.kind =
      c.engine.nodes.map Node.kind ++ [kind] := by
  simp only [Compiler.addFed, Engine.kinds_foldl_connect, Engine.addNode, List.map_append,
    List.map_singleton, Node.new]

theorem Compiler.grows_addFed (name : String) (kind : NodeKind) (ups : List ℕ) :
    c.Grows (c.addFed name kind ups).2 := by
  refine ⟨?_, Engine.sourceIds_foldl_connect _ _ _⟩
  rw [c.kinds_addFed]
  exact List.prefix_append _ _

/-- A relation between two states of the compiler that diagnostics, fresh names and new nodes that
are no sources keep. -/
structure Compiler.Lowering (R : Compiler → Compiler → Prop) : Prop where
  refl : ∀ c, R c c
  trans : ∀ {c₁ c₂ c₃ : Compiler}, R c₁ c₂ → R c₂ c₃ → R c₁ c₃
  diags : ∀ (c : Compiler) (diags : List CompileError), R c { c with diags := diags }
  fresh : ∀ (c : Compiler) (pre : String), R c (c.fresh pre).2
  addFed : ∀ (c : Compiler) (name : String) (kind : NodeKind) (ups : List ℕ),
    kind.isSource = false → R c (c.addFed name kind ups).2

namespace Compiler.Lowering

variable {R : Compiler → Compiler → Prop}

theorem isSource_compileOp (op : PipeOp) : (compileOp op).2.isSource = false := by
  cases op <;> rfl

/-- **Expressions** keep such a relation; by induction on the expression. -/
theorem expr (h : Lowering R) (expr : Expr) (c : Compiler) : R c (compileExpr expr c).2 := by
  induction expr generalizing c with
  | ident name =>
    rw [compileExpr]
    rcases c.resolve name with _ | id
    · exact h.diags c _
    · exact h.refl c
  | lit l => exact h.diags c _
  | pipe lhs op ih =>
    have hlower := ih c
    rw [compileExpr]
    rcases hlhs : compileExpr lhs c with ⟨_ | upstream, c₁⟩
    · rwa [hlhs] at hlower
    · rw [hlhs] at hlower
      exact h.trans hlower (h.trans (h.fresh c₁ _) (h.addFed _ _ _ _ (isSource_compileOp op)))
  | merge a b =>
    rw [compileExpr]
    rcases c.resolve a with _ | idA
    · exact h.diags c _
    · rcases c.resolve b with _ | idB
      · exact h.diags c _
      · exact h.trans (h.fresh c _) (h.addFed _ _ _ _ rfl)

theorem sink (h : Lowering R) (c : Compiler) (sink : Sink) : R c (compileSink c sink) := by
  rw [compileSink]
  rcases c.resolve sink.target.1 with _ | upstream
  · exact h.diags c _
  · exact h.addFed c _ _ _ rfl

theorem sinks (h : Lowering R) (c : Compiler) (sinks : List Sink) :
    R c (sinks.foldl compileSink c) :=
  List.foldlRecOn sinks compileSink (h.refl c) fun c' hc' next _ => h.trans hc' (h.sink c' next)

end Compiler.Lowering

/-- **Expressions and sinks** only add nodes. -/
theorem Compiler.lowering_grows : Compiler.Lowering Compiler.Grows where
  refl := .refl
  trans := .trans
  diags _ _ := ⟨List.prefix_refl _, rfl⟩
  fresh _ _ := ⟨List.prefix_refl _, rfl⟩
  addFed c name kind ups _ := c.grows_addFed name kind ups

variable {c}

/-- **Statements.** Only a `source` statement binds a source name. -/
theorem compileStmt_sourcesNamed (h : c.engine.SourcesNamed) (stmt : Stmt) :
    (compileStmt c stmt).engine.SourcesNamed := by
  cases stmt with
  | source name clock kind =>
    have hgrown := (c.grows_addFed name (.source name (sourceClock clock kind).1
      (sourceClock clock kind).2) []).sourcesNamed h
    have hbound : ((c.addFed name (.source name (sourceClock clock kind).1
        (sourceClock clock kind).2) []).2.bindSource name (c.addFed name (.source name
          (sourceClock clock kind).1 (sourceClock clock kind).2) []).1).engine.SourcesNamed := by
      intro entry hmem
      rcases List.mem_cons.mp hmem with rfl | hmem
      · -- the node that was added last
        refine ⟨.source name (sourceClock clock kind).1 (sourceClock clock kind).2, ?_, rfl⟩
        refine (congrArg (fun kinds : List NodeKind => kinds[c.engine.nodes.length]?)
          (c.kinds_addFed name _ [])).trans ?_
        simp
      · exact hgrown entry (List.mem_of_mem_filter hmem)
    rw [compileStmt]
    split_ifs <;> exact hbound
  | letStmt name expr =>
    have hgrown := (Compiler.lowering_grows.expr expr c).sourcesNamed h
    rw [compileStmt]
    rcases hexpr : compileExpr expr c with ⟨_ | terminal, c₁⟩
    · rwa [hexpr] at hgrown
    · rw [hexpr] at hgrown
      intro entry hmem
      refine (hgrown entry hmem).imp fun kind hkind => ⟨?_, hkind.2⟩
      refine Eq.trans ?_ hkind.1
      exact congrArg (fun kinds : List NodeKind => kinds[entry.2]?)
        (c₁.engine.kinds_renameNode terminal name)
  | emit sinks => exact (Compiler.lowering_grows.sinks c sinks).sourcesNamed h

/-- The engine of a program that compiles is the one that its statements build. -/
theorem compile_engine {program : Program} {engine : Engine} {warnings : List CompileError}
    (h : compile program = .ok (engine, warnings)) :
    engine = (program.stmts.foldl compileStmt .new).engine := by
  have hcheck : (program.stmts.foldl compileStmt .new).typeCheck.engine =
      (program.stmts.foldl compileStmt .new).engine := by
    simp only [Compiler.typeCheck]
    split_ifs <;> rfl
  simp only [compile] at h
  split_ifs at h
  obtain ⟨rfl, -⟩ : _ = engine ∧ _ = warnings := by simpa using h
  exact hcheck

/-- **Programs.** The source names of a program that compiles stand for sources. -/
theorem compile_sources {program : Program} {engine : Engine} {warnings : List CompileError}
    (h : compile program = .ok (engine, warnings)) : engine.SourcesNamed := by
  have hnew : Compiler.new.engine.SourcesNamed := fun _ hmem => absurd hmem List.not_mem_nil
  have hstmts : (program.stmts.foldl compileStmt .new).engine.SourcesNamed :=
    List.foldlRecOn program.stmts compileStmt (motive := fun c => c.engine.SourcesNamed) hnew
      fun _ hc stmt _ => compileStmt_sourcesNamed hc stmt
  rw [compile_engine h]
  exact hstmts

end Rivr.Core
