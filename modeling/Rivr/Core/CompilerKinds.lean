import Rivr.Core.Graph
import Rivr.Core.ParserPhrases

/-!
# The node table of a program

What the compiler makes of the statements of a program, read off as the list of the kinds of the
nodes: a source adds a node of its own, a pipeline one node for each operator and a sink one
emitter, in the order of the text, and a program whose streams are all bound compiles
(`Builds.compiles`).
-/

namespace Rivr.Core

/-- The table has nodes of the given kinds, the names are bound, and no diagnostic is an error. -/
structure Compiler.Builds (c : Compiler) (kinds : List NodeKind) (names : List String) : Prop where
  kinds : c.engine.nodes.map Node.kind = kinds
  names : ∀ name ∈ names, ∃ id, c.resolve name = some id
  warnings : ∀ d ∈ c.diags, d.kind = .warning

theorem Compiler.builds_new : Compiler.new.Builds [] [] :=
  ⟨rfl, fun _ h => absurd h List.not_mem_nil, fun _ h => absurd h List.not_mem_nil⟩

variable {c : Compiler} {kinds : List NodeKind} {names : List String}

theorem Compiler.Builds.warn (h : c.Builds kinds names) (msg : String) :
    (c.warn msg).Builds kinds names := by
  refine ⟨h.kinds, h.names, fun d hd => ?_⟩
  rcases List.mem_append.mp hd with hd | hd
  · exact h.warnings d hd
  · rw [List.mem_singleton.mp hd]

theorem Compiler.Builds.freshName (h : c.Builds kinds names) (pre : String) :
    (c.fresh pre).2.Builds kinds names := ⟨h.kinds, h.names, h.warnings⟩

/-- A node keeps its kind when it is connected. -/
theorem connectNodes_kinds (nodes : List Node) (up down : ℕ) :
    (connectNodes nodes up down).map Node.kind = nodes.map Node.kind := by
  refine List.ext_getElem (by rw [List.length_map, List.length_map, connectNodes_length])
    fun i hi hi' => ?_
  simp only [List.getElem_map, connectNodes, List.getElem_modify]
  split_ifs <;> rfl

theorem Engine.kinds_foldl_connect (ups : List ℕ) (id : ℕ) (e : Engine) :
    (ups.foldl (fun e up => e.connect up id) e).nodes.map Node.kind = e.nodes.map Node.kind := by
  induction ups generalizing e with
  | nil => rfl
  | cons up ups ih => exact (ih (e.connect up id)).trans (connectNodes_kinds e.nodes up id)

theorem Compiler.Builds.addFed (h : c.Builds kinds names) (name : String) (kind : NodeKind)
    (ups : List ℕ) : (c.addFed name kind ups).2.Builds (kinds ++ [kind]) names := by
  refine ⟨?_, h.names, h.warnings⟩
  simp only [Compiler.addFed, Engine.kinds_foldl_connect, Engine.addNode, List.map_append,
    List.map_singleton, h.kinds, Node.new]

/-- A new binding hides none. -/
theorem exists_lookup_insert {m : NameMap} {name other : String}
    (h : other = name ∨ ∃ id, m.lookup other = some id) (id : ℕ) :
    ∃ id', (m.insert name id).lookup other = some id' := by
  rw [NameMap.insert, List.lookup_cons]
  by_cases heq : other = name
  · exact ⟨id, by rw [heq, beq_self_eq_true]⟩
  · obtain ⟨id', hid'⟩ := h.resolve_left heq
    refine ⟨id', ?_⟩
    rw [beq_false_of_ne heq]
    induction m with
    | nil => exact hid'
    | cons e m ih =>
      rw [List.lookup_cons] at hid'
      by_cases hkey : other = e.1
      · rw [List.filter_cons_of_pos (by simpa using fun hname => heq (hkey.trans hname)),
          List.lookup_cons, hkey, beq_self_eq_true]
        rwa [hkey, beq_self_eq_true] at hid'
      · rw [beq_false_of_ne hkey] at hid'
        rw [List.filter_cons]
        split_ifs
        · rw [List.lookup_cons, beq_false_of_ne hkey]
          exact ih (Or.inr ⟨id', hid'⟩) hid'
        · exact ih (Or.inr ⟨id', hid'⟩) hid'

/-! ### Statements -/

theorem Compiler.Builds.source (h : c.Builds kinds names) (name : String)
    (clock : Option ClockAnnotation) (kind : SourceKind) :
    (compileStmt c (.source name clock kind)).Builds
      (kinds ++ [.source name (sourceClock clock kind).1 (sourceClock clock kind).2])
      (name :: names) := by
  have hfed := h.addFed name (.source name (sourceClock clock kind).1 (sourceClock clock kind).2) []
  have hbound : ((c.addFed name (.source name (sourceClock clock kind).1
      (sourceClock clock kind).2) []).2.bindSource name (c.addFed name (.source name
        (sourceClock clock kind).1 (sourceClock clock kind).2) []).1).Builds (kinds ++
          [.source name (sourceClock clock kind).1 (sourceClock clock kind).2]) (name :: names) :=
    ⟨hfed.kinds, fun other hother => exists_lookup_insert
      ((List.mem_cons.mp hother).imp_right (hfed.names other)) _, hfed.warnings⟩
  rw [compileStmt]
  split_ifs
  · exact hbound.warn _
  · exact hbound

/-- A pipeline adds a node for each operator. -/
theorem Compiler.Builds.pipes {e : Expr} {c' : Compiler} {terminal : ℕ} (ops : List OpText)
    (hexpr : compileExpr e c = (some terminal, c')) (h : c'.Builds kinds names) :
    ∃ terminal' c'', compileExpr (pipesExpr e ops) c = (some terminal', c'') ∧
      c''.Builds (kinds ++ ops.map fun o => (compileOp o.2).2) names := by
  induction ops generalizing e kinds c' terminal with
  | nil => exact ⟨terminal, c', hexpr, by simpa using h⟩
  | cons o ops ih =>
    have hfed := (h.freshName (compileOp o.2).1).addFed (c'.fresh (compileOp o.2).1).1
      (compileOp o.2).2 [terminal]
    have hpipe : compileExpr (.pipe e o.2) c =
        (some ((c'.fresh (compileOp o.2).1).2.addFed (c'.fresh (compileOp o.2).1).1
          (compileOp o.2).2 [terminal]).1,
        ((c'.fresh (compileOp o.2).1).2.addFed (c'.fresh (compileOp o.2).1).1
          (compileOp o.2).2 [terminal]).2) := by
      rw [compileExpr, hexpr]
    obtain ⟨terminal', c'', hops, hbuilds⟩ := ih hpipe hfed
    refine ⟨terminal', c'', hops, ?_⟩
    rwa [List.append_assoc] at hbuilds

theorem Engine.kinds_renameNode (e : Engine) (id : ℕ) (name : String) :
    (e.renameNode id name).nodes.map Node.kind = e.nodes.map Node.kind := by
  refine List.ext_getElem (by simp [Engine.renameNode]) fun i hi hi' => ?_
  simp only [Engine.renameNode, List.getElem_map, List.getElem_modify]
  split_ifs <;> rfl

theorem Compiler.Builds.letPipes (h : c.Builds kinds names) (name src : String)
    (hsrc : src ∈ names) (ops : List OpText) :
    (compileStmt c (.letStmt name (pipesExpr (.ident src) ops))).Builds
      (kinds ++ ops.map fun o => (compileOp o.2).2) (name :: names) := by
  obtain ⟨id, hid⟩ := h.names src hsrc
  have hident : compileExpr (.ident src) c = (some id, c) := by rw [compileExpr, hid]
  obtain ⟨terminal, c', hexpr, hbuilds⟩ := h.pipes ops hident
  rw [compileStmt, hexpr]
  exact ⟨(Engine.kinds_renameNode _ _ _).trans hbuilds.kinds, fun other hother =>
    exists_lookup_insert ((List.mem_cons.mp hother).imp_right (hbuilds.names other)) _,
    hbuilds.warnings⟩

theorem Compiler.Builds.sink (h : c.Builds kinds names) {sink : Sink}
    (hsink : sink.target.1 ∈ names) :
    (compileSink c sink).Builds (kinds ++ [.emit sink.target.2]) names := by
  obtain ⟨id, hid⟩ := h.names _ hsink
  rw [compileSink, hid]
  exact h.addFed _ _ _

theorem Compiler.Builds.emit (h : c.Builds kinds names) (sinks : List Sink)
    (hsinks : ∀ sink ∈ sinks, sink.target.1 ∈ names) :
    (compileStmt c (.emit sinks)).Builds (kinds ++ sinks.map fun sink => .emit sink.target.2)
      names := by
  rw [compileStmt]
  induction sinks generalizing c kinds with
  | nil => simpa using h
  | cons sink sinks ih =>
    have hrest := ih (h.sink (hsinks sink List.mem_cons_self)) fun s hs =>
      hsinks s (List.mem_cons_of_mem _ hs)
    rwa [List.append_assoc] at hrest

/-! ### Programs -/

theorem Compiler.Builds.typeCheck (h : c.Builds kinds names) : c.typeCheck.Builds kinds names := by
  rw [Compiler.typeCheck]
  split_ifs
  · exact h
  · exact h.warn _
  · exact h.warn _
  · exact (h.warn _).warn _

/-- A program without errors compiles to its nodes. -/
theorem Compiler.Builds.compiles (program : Program)
    (h : (program.stmts.foldl compileStmt .new).Builds kinds names) :
    ∃ engine warnings, compile program = .ok (engine, warnings) ∧
      engine.nodes.map Node.kind = kinds := by
  have hcheck := h.typeCheck
  refine ⟨(program.stmts.foldl compileStmt .new).typeCheck.engine,
    (program.stmts.foldl compileStmt .new).typeCheck.diags, ?_, hcheck.kinds⟩
  have hnone : ¬((program.stmts.foldl compileStmt .new).typeCheck.diags.any fun d =>
      d.kind = .error) = true := by
    rw [List.any_eq_true]
    rintro ⟨d, hd, herror⟩
    rw [hcheck.warnings d hd] at herror
    exact absurd herror (by decide)
  rw [compile, if_neg hnone]

end Rivr.Core
