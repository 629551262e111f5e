import Rivr.Core.CompilerSources
import Rivr.Core.StampOrder
import Rivr.Core.EventNumbers

/-!
# The table of a compiled graph

A graph as the list of its nodes' kinds and inputs. The compiler only adds rows at its end: each
expression, sink and statement extends the table and the diagnostics it was given
(`Compiler.Extends`), and changes nothing in an engine but its graph and its names.
-/

namespace Rivr.Core

/-- A row of the table: the operator of a node, and the nodes that feed it. -/
abbrev Row := NodeKind × List ℕ

/-- The graph as a table. -/
def tableOf (nodes : List Node) : List Row := nodes.map fun n => (n.kind, n.inputs)

@[simp] theorem length_tableOf (nodes : List Node) : (tableOf nodes).length = nodes.length :=
  List.length_map _

theorem tableOf_getElem? {nodes : List Node} {v : ℕ} {row : Row}
    (h : (tableOf nodes)[v]? = some row) :
    ∃ node, nodes[v]? = some node ∧ node.kind = row.1 ∧ node.inputs = row.2 := by
  rw [tableOf, List.getElem?_map] at h
  obtain ⟨node, hnode, rfl⟩ := Option.map_eq_some_iff.mp h
  exact ⟨node, hnode, rfl, rfl⟩

/-- What the compiler puts into a row: an operator that holds no events yet, no inputs for a source,
and two inputs for a merge only. -/
structure Row.Made (row : Row) : Prop where
  keptBack : row.1.keptBack = []
  unnumbered : row.1.unnumbered = row.1
  source : row.1.isSource = true → row.2 = []
  inner : row.1.isSource = false → row.2 ≠ []
  merge : 2 ≤ row.2.length → row.1 = .merge

/-- An engine without its graph and its names. -/
def Engine.shell (e : Engine) : Engine := { e with nodes := [], sourceIds := [], streamIds := [] }

/-- The later compiler has added rows and diagnostics. -/
structure Compiler.Extends (c c' : Compiler) : Prop where
  rows : ∃ rows, tableOf c'.engine.nodes = tableOf c.engine.nodes ++ rows ∧ ∀ row ∈ rows, row.Made
  diags : c.diags <+: c'.diags
  shell : c'.engine.shell = c.engine.shell

theorem Compiler.Extends.refl (c : Compiler) : c.Extends c :=
  ⟨⟨[], (List.append_nil _).symm, fun _ h => absurd h List.not_mem_nil⟩, List.prefix_refl _, rfl⟩

theorem Compiler.Extends.trans {c₁ c₂ c₃ : Compiler} (h : c₁.Extends c₂) (h' : c₂.Extends c₃) :
    c₁.Extends c₃ := by
  obtain ⟨rows, hrows, hmade⟩ := h.rows
  obtain ⟨rows', hrows', hmade'⟩ := h'.rows
  refine ⟨⟨rows ++ rows', by rw [hrows', hrows, List.append_assoc], fun row hrow => ?_⟩,
    h.diags.trans h'.diags, h'.shell.trans h.shell⟩
  exact (List.mem_append.mp hrow).elim (hmade row) (hmade' row)

theorem Compiler.Extends.table {c c' : Compiler} (h : c.Extends c') :
    tableOf c.engine.nodes <+: tableOf c'.engine.nodes := by
  obtain ⟨rows, hrows, -⟩ := h.rows
  exact ⟨rows, hrows.symm⟩

theorem Compiler.extends_error (c : Compiler) (msg : String) : c.Extends (c.error msg) :=
  ⟨(Extends.refl c).rows, List.prefix_append _ _, rfl⟩

theorem Compiler.extends_warn (c : Compiler) (msg : String) : c.Extends (c.warn msg) :=
  ⟨(Extends.refl c).rows, List.prefix_append _ _, rfl⟩

theorem Compiler.extends_fresh (c : Compiler) (pre : String) : c.Extends (c.fresh pre).2 :=
  ⟨(Extends.refl c).rows, List.prefix_refl _, rfl⟩

/-! ### A new node -/

/-- Connecting a node to the last one adds to the inputs of the last row. -/
theorem tableOf_connectNodes {nodes : List Node} {table : List Row} {kind : NodeKind}
    {ups : List ℕ} (up : ℕ) (h : tableOf nodes = table ++ [(kind, ups)]) :
    tableOf (connectNodes nodes up table.length) = table ++ [(kind, ups ++ [up])] := by
  refine List.ext_getElem? fun i => ?_
  have hi := congrArg (·[i]?) h
  simp only [tableOf, List.getElem?_map] at hi
  simp only [tableOf, connectNodes, List.getElem?_map, List.getElem?_modify]
  cases hnode : nodes[i]? with
  | none =>
    rw [hnode] at hi
    have hlen : table.length + 1 ≤ i := by simpa using hi.symm
    simp only [Option.map_eq_map, Option.map_none]
    exact (List.getElem?_eq_none (by simpa using hlen)).symm
  | some n =>
    rw [hnode, Option.map_some] at hi
    rcases Nat.lt_or_ge i table.length with hlt | hge
    · rw [List.getElem?_append_left hlt] at hi ⊢
      rw [← hi]
      simp only [Option.map_eq_map, Option.map_some, if_neg hlt.ne']
      split_ifs <;> rfl
    · rw [List.getElem?_append_right hge] at hi ⊢
      obtain rfl : i = table.length := by
        by_contra hne
        rw [List.getElem?_eq_none (by simp; omega)] at hi
        cases hi
      rw [Nat.sub_self, List.getElem?_cons_zero] at hi ⊢
      obtain ⟨rfl, rfl⟩ := Prod.mk.inj (Option.some.inj hi)
      simp only [Option.map_eq_map, Option.map_some, ↓reduceIte]
      split_ifs <;> rfl

theorem tableOf_foldl_connect {e : Engine} {table : List Row} {kind : NodeKind} {ins : List ℕ}
    (ups : List ℕ) (h : tableOf e.nodes = table ++ [(kind, ins)]) :
    tableOf (ups.foldl (fun e up => e.connect up table.length) e).nodes =
      table ++ [(kind, ins ++ ups)] := by
  induction ups generalizing e ins with
  | nil => rw [List.append_nil]; exact h
  | cons up ups ih =>
    have hstep : tableOf (e.connect up table.length).nodes = table ++ [(kind, ins ++ [up])] :=
      tableOf_connectNodes up h
    rw [List.foldl_cons, ih hstep, List.append_assoc]
    rfl

theorem Engine.shell_foldl_connect (ups : List ℕ) (id : ℕ) (e : Engine) :
    (ups.foldl (fun e up => e.connect up id) e).shell = e.shell := by
  induction ups generalizing e with
  | nil => rfl
  | cons up ups ih => exact ih (e.connect up id)

/-- **A new node** is a new row. -/
theorem Compiler.tableOf_addFed (c : Compiler) (name : String) (kind : NodeKind) (ups : List ℕ) :
    tableOf (c.addFed name kind ups).2.engine.nodes = tableOf c.engine.nodes ++ [(kind, ups)] := by
  have hadd : tableOf (c.engine.addNode (Node.new c.engine.nodes.length name kind)).2.nodes =
      tableOf c.engine.nodes ++ [(kind, [])] := by
    simp [Engine.addNode, tableOf, Node.new]
  have h := tableOf_foldl_connect ups hadd
  rw [length_tableOf] at h
  exact h

theorem Compiler.extends_addFed (c : Compiler) (name : String) {kind : NodeKind} {ups : List ℕ}
    (h : Row.Made (kind, ups)) : c.Extends (c.addFed name kind ups).2 := by
  refine ⟨⟨[(kind, ups)], c.tableOf_addFed name kind ups, fun row hrow => ?_⟩, List.prefix_refl _,
    Engine.shell_foldl_connect ups _ _⟩
  rw [List.mem_singleton.mp hrow]
  exact h

theorem made_compileOp (op : PipeOp) (up : ℕ) : Row.Made ((compileOp op).2, [up]) := by
  refine ⟨?_, ?_, fun h => ?_, fun _ => List.cons_ne_nil _ _, fun h => absurd h (by simp)⟩
  · cases op <;> rfl
  · cases op <;> rfl
  · rw [Compiler.Lowering.isSource_compileOp] at h
    cases h

theorem made_merge (a b : ℕ) : Row.Made (.merge, [a, b]) :=
  ⟨rfl, rfl, fun h => Bool.noConfusion h, fun _ => List.cons_ne_nil _ _, fun _ => rfl⟩

theorem made_emit (sink : SinkKind) (up : ℕ) : Row.Made (.emit sink, [up]) :=
  ⟨rfl, rfl, fun h => Bool.noConfusion h, fun _ => List.cons_ne_nil _ _,
    fun h => absurd h (by simp)⟩

theorem made_source (name : String) (clock : UInt8) (interval : Option UInt64) :
    Row.Made (.source name clock interval, []) :=
  ⟨rfl, rfl, fun _ => rfl, fun h => Bool.noConfusion h, fun h => absurd h (by simp)⟩

/-! ### Expressions and statements -/

/-- **Expressions** extend the table. -/
theorem compileExpr_extends (expr : Expr) (c : Compiler) :
    c.Extends (compileExpr expr c).2 ∧ (compileExpr expr c).2.bindings = c.bindings := by
  induction expr generalizing c with
  | ident name =>
    rw [compileExpr]
    rcases c.resolve name with _ | id
    · exact ⟨c.extends_error _, rfl⟩
    · exact ⟨.refl c, rfl⟩
  | lit l => exact ⟨c.extends_warn _, rfl⟩
  | pipe lhs op ih =>
    have hlhs := ih c
    rw [compileExpr]
    rcases hexpr : compileExpr lhs c with ⟨_ | upstream, c₁⟩
    · rwa [hexpr] at hlhs
    · rw [hexpr] at hlhs
      have hfed := (c₁.fresh (compileOp op).1).2.extends_addFed (c₁.fresh (compileOp op).1).1
        (made_compileOp op upstream)
      exact ⟨hlhs.1.trans ((c₁.extends_fresh _).trans hfed), hlhs.2⟩
  | merge a b =>
    rw [compileExpr]
    rcases c.resolve a with _ | idA
    · exact ⟨c.extends_error _, rfl⟩
    · rcases c.resolve b with _ | idB
      · exact ⟨c.extends_error _, rfl⟩
      · have hfed := (c.fresh "merge").2.extends_addFed (c.fresh "merge").1 (made_merge idA idB)
        exact ⟨(c.extends_fresh _).trans hfed, rfl⟩

theorem compileSink_extends (sink : Sink) (c : Compiler) :
    c.Extends (compileSink c sink) ∧ (compileSink c sink).bindings = c.bindings := by
  rw [compileSink]
  rcases c.resolve sink.target.1 with _ | upstream
  · exact ⟨c.extends_error _, rfl⟩
  · exact ⟨c.extends_addFed _ (made_emit _ upstream), rfl⟩

theorem tableOf_renameNode (e : Engine) (id : ℕ) (name : String) :
    tableOf (e.renameNode id name).nodes = tableOf e.nodes := by
  refine List.ext_getElem (by simp [Engine.renameNode]) fun i hi hi' => ?_
  simp only [tableOf, Engine.renameNode, List.getElem_map, List.getElem_modify]
  split_ifs <;> rfl

theorem Compiler.extends_bindStream (c : Compiler) (name : String) (id : ℕ) :
    c.Extends (c.bindStream name id) :=
  ⟨⟨[], (tableOf_renameNode _ _ _).trans (List.append_nil _).symm,
    fun _ h => absurd h List.not_mem_nil⟩, List.prefix_refl _, rfl⟩

theorem Compiler.extends_bindSource (c : Compiler) (name : String) (id : ℕ) :
    c.Extends (c.bindSource name id) := ⟨(Extends.refl c).rows, List.prefix_refl _, rfl⟩

/-- **Statements** extend the table. -/
theorem compileStmt_extends (stmt : Stmt) (c : Compiler) : c.Extends (compileStmt c stmt) := by
  cases stmt with
  | source name clock kind =>
    have hfed := c.extends_addFed name (made_source name (sourceClock clock kind).1
      (sourceClock clock kind).2)
    rw [compileStmt]
    split_ifs
    · exact (hfed.trans (Compiler.extends_bindSource _ _ _)).trans (Compiler.extends_warn _ _)
    · exact hfed.trans (Compiler.extends_bindSource _ _ _)
  | letStmt name expr =>
    have hexpr := (compileExpr_extends expr c).1
    rw [compileStmt]
    rcases hcompile : compileExpr expr c with ⟨_ | terminal, c₁⟩
    · rwa [hcompile] at hexpr
    · rw [hcompile] at hexpr
      exact hexpr.trans (c₁.extends_bindStream name terminal)
  | emit sinks =>
    rw [compileStmt]
    exact List.foldlRecOn sinks compileSink (.refl c) fun c' hc' sink _ =>
      hc'.trans (compileSink_extends sink c').1

theorem compileStmts_extends (stmts : List Stmt) (c : Compiler) :
    c.Extends (stmts.foldl compileStmt c) :=
  List.foldlRecOn stmts compileStmt (.refl c) fun c' hc' stmt _ =>
    hc'.trans (compileStmt_extends stmt c')

/-- **Programs.** What the compiler puts into the engine. -/
theorem compile_rows {program : Program} {engine : Engine} {warnings : List CompileError}
    (h : compile program = .ok (engine, warnings)) :
    (∀ row ∈ tableOf engine.nodes, row.Made) ∧ engine.shell = Engine.new.shell := by
  have hextends := compileStmts_extends program.stmts .new
  obtain ⟨rows, hrows, hmade⟩ := hextends.rows
  rw [compile_engine h]
  refine ⟨fun row hrow => hmade row ?_, hextends.shell⟩
  rw [hrows] at hrow
  exact (List.mem_append.mp hrow).resolve_left List.not_mem_nil

/-- A program that compiles has no errors on the way. -/
theorem compile_diags {program : Program} {engine : Engine} {warnings : List CompileError}
    (h : compile program = .ok (engine, warnings)) :
    ∀ d ∈ (program.stmts.foldl compileStmt .new).diags, d.kind ≠ .error := by
  have hcheck : (program.stmts.foldl compileStmt .new).diags <+:
      (program.stmts.foldl compileStmt .new).typeCheck.diags := by
    simp only [Compiler.typeCheck]
    split_ifs
    · exact List.prefix_refl _
    · exact List.prefix_append _ _
    · exact List.prefix_append _ _
    · exact (List.prefix_append _ _).trans (List.prefix_append _ _)
  intro d hd hkind
  simp only [compile] at h
  split_ifs at h with herror
  exact herror (List.any_eq_true.mpr ⟨d, hcheck.subset hd, by simpa using hkind⟩)

end Rivr.Core
