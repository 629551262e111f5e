import Rivr.Core.Compiler

/-!
# Compiled graphs are ordered

The compiler appends nodes and feeds each from nodes that are there already, so every edge of
a compiled graph goes from a lower to a higher id. `Wired` is the invariant of a node table;
`compile_wf` carries it through the lowering of every expression and statement.
-/

namespace Rivr.Core

/-! ### Wired node tables -/

/-- The invariant of a node table: ids are indices, edges go up and stay inside, and the two
lists that record an edge agree. -/
structure Wired (nodes : List Node) : Prop where
  ids : ∀ (i : ℕ) (n : Node), nodes[i]? = some n → n.id = i
  outputs : ∀ (u : ℕ) (n : Node), nodes[u]? = some n → ∀ v ∈ n.outputs, u < v ∧ v < nodes.length
  inputs : ∀ (v : ℕ) (n : Node), nodes[v]? = some n → ∀ u ∈ n.inputs, u < v
  mirror : ∀ (u v : ℕ) (nu nv : Node), nodes[u]? = some nu → nodes[v]? = some nv →
    nu.outputs.count v = nv.inputs.count u

theorem wired_nil : Wired [] := ⟨by simp, by simp, by simp, by simp⟩

/-- The part of a node that the invariant is about. -/
def Node.wiring (n : Node) : ℕ × List ℕ × List ℕ := (n.id, n.inputs, n.outputs)

private theorem getElem?_of_map_wiring {nodes nodes' : List Node}
    (h : nodes'.map Node.wiring = nodes.map Node.wiring) {i : ℕ} {n' : Node}
    (hn : nodes'[i]? = some n') : ∃ n, nodes[i]? = some n ∧ n.wiring = n'.wiring := by
  have hi : (nodes.map Node.wiring)[i]? = some n'.wiring := by
    rw [← h, List.getElem?_map, hn]
    rfl
  rw [List.getElem?_map] at hi
  obtain ⟨n, hn, hw⟩ := Option.map_eq_some_iff.mp hi
  exact ⟨n, hn, hw⟩

/-- Names and kinds do not matter. -/
theorem Wired.congr {nodes nodes' : List Node} (hw : Wired nodes)
    (h : nodes'.map Node.wiring = nodes.map Node.wiring) : Wired nodes' := by
  have hlen : nodes'.length = nodes.length := by simpa using congrArg List.length h
  have hkeep : ∀ {i : ℕ} {n' : Node}, nodes'[i]? = some n' →
      ∃ n, nodes[i]? = some n ∧ n.id = n'.id ∧ n.inputs = n'.inputs ∧ n.outputs = n'.outputs := by
    intro i n' hn'
    obtain ⟨n, hn, heq⟩ := getElem?_of_map_wiring h hn'
    simp only [Node.wiring, Prod.mk.injEq] at heq
    exact ⟨n, hn, heq⟩
  refine ⟨?_, ?_, ?_, ?_⟩
  · intro i n' hn'
    obtain ⟨n, hn, hid, -, -⟩ := hkeep hn'
    rw [← hid]
    exact hw.ids i n hn
  · intro u n' hn' v hv
    obtain ⟨n, hn, -, -, hout⟩ := hkeep hn'
    rw [← hout] at hv
    rw [hlen]
    exact hw.outputs u n hn v hv
  · intro v n' hn' u hu
    obtain ⟨n, hn, -, hin, -⟩ := hkeep hn'
    rw [← hin] at hu
    exact hw.inputs v n hn u hu
  · intro u v nu' nv' hu hv
    obtain ⟨nu, hnu, -, -, hout⟩ := hkeep hu
    obtain ⟨nv, hnv, -, hin, -⟩ := hkeep hv
    rw [← hout, ← hin]
    exact hw.mirror u v nu nv hnu hnv

private theorem getElem?_append_singleton {nodes : List Node} {new n : Node} {i : ℕ}
    (h : (nodes ++ [new])[i]? = some n) :
    nodes[i]? = some n ∨ (i = nodes.length ∧ n = new) := by
  rcases Nat.lt_trichotomy i nodes.length with hi | rfl | hi
  · rw [List.getElem?_append_left hi] at h
    exact Or.inl h
  · rw [List.getElem?_append_right le_rfl] at h
    exact Or.inr ⟨rfl, by simpa using h.symm⟩
  · rw [List.getElem?_append_right hi.le] at h
    obtain ⟨k, hk⟩ : ∃ k, i - nodes.length = k + 1 := ⟨i - nodes.length - 1, by omega⟩
    rw [hk] at h
    simp at h

/-- A fresh node has no edges. -/
theorem Wired.addNode {nodes : List Node} (hw : Wired nodes) (name : String)
    (kind : NodeKind) :
    Wired (nodes ++ [{ Node.new nodes.length name kind with id := nodes.length }]) := by
  have hlt : ∀ {i : ℕ} {n : Node}, nodes[i]? = some n → i < nodes.length := fun h =>
    (List.getElem?_eq_some_iff.mp h).1
  refine ⟨?_, ?_, ?_, ?_⟩
  · intro i n hn
    rcases getElem?_append_singleton hn with hn | ⟨rfl, rfl⟩
    · exact hw.ids i n hn
    · rfl
  · intro u n hn v hv
    rcases getElem?_append_singleton hn with hn | ⟨rfl, rfl⟩
    · have := hw.outputs u n hn v hv
      rw [List.length_append]
      exact ⟨this.1, Nat.lt_add_right _ this.2⟩
    · simp [Node.new] at hv
  · intro v n hn u hu
    rcases getElem?_append_singleton hn with hn | ⟨rfl, rfl⟩
    · exact hw.inputs v n hn u hu
    · simp [Node.new] at hu
  · intro u v nu nv hu hv
    rcases getElem?_append_singleton hu with hu | ⟨rfl, rfl⟩ <;>
      rcases getElem?_append_singleton hv with hv | ⟨rfl, rfl⟩
    · exact hw.mirror u v nu nv hu hv
    · -- no old node points at the new one
      have hout : nodes.length ∉ nu.outputs := fun hmem =>
        Nat.lt_irrefl _ (hw.outputs u nu hu _ hmem).2
      simpa [Node.new] using List.count_eq_zero.mpr hout
    · have hin : nodes.length ∉ nv.inputs := fun hmem =>
        absurd (hw.inputs v nv hv _ hmem) (Nat.not_lt.mpr (hlt hv).le)
      simpa [Node.new] using (List.count_eq_zero.mpr hin).symm
    · simp [Node.new]

/-- The node table after `Engine::connect`. -/
def connectNodes (nodes : List Node) (up down : ℕ) : List Node :=
  (nodes.modify up fun n => { n with outputs := n.outputs ++ [down] }).modify down
    fun n => { n with inputs := n.inputs ++ [up] }

@[simp]
theorem connectNodes_length (nodes : List Node) (up down : ℕ) :
    (connectNodes nodes up down).length = nodes.length := by simp [connectNodes]

private theorem getElem?_connectNodes {nodes : List Node} {up down i : ℕ} {n' : Node}
    (h : (connectNodes nodes up down)[i]? = some n') :
    ∃ n, nodes[i]? = some n ∧ n'.id = n.id ∧
      n'.outputs = n.outputs ++ (if up = i then [down] else []) ∧
      n'.inputs = n.inputs ++ (if down = i then [up] else []) := by
  simp only [connectNodes, List.getElem?_modify] at h
  cases hn : nodes[i]? with
  | none => simp [hn] at h
  | some n =>
    refine ⟨n, rfl, ?_⟩
    rw [hn] at h
    split_ifs at h ⊢ <;>
      · simp only [Option.map_eq_map, Option.map_some, Option.some.injEq] at h
        subst h
        simp

/-- An edge from a lower to a higher node keeps the invariant. -/
theorem Wired.connect {nodes : List Node} (hw : Wired nodes) {up down : ℕ} (hlt : up < down)
    (hdown : down < nodes.length) : Wired (connectNodes nodes up down) := by
  refine ⟨?_, ?_, ?_, ?_⟩
  · intro i n' hn'
    obtain ⟨n, hn, hid, -, -⟩ := getElem?_connectNodes hn'
    rw [hid]
    exact hw.ids i n hn
  · intro u n' hn' v hv
    obtain ⟨n, hn, -, hout, -⟩ := getElem?_connectNodes hn'
    rw [hout, List.mem_append] at hv
    rw [connectNodes_length]
    rcases hv with hv | hv
    · exact hw.outputs u n hn v hv
    · split_ifs at hv with hu
      · obtain rfl : v = down := by simpa using hv
        exact ⟨hu ▸ hlt, hdown⟩
      · simp at hv
  · intro v n' hn' u hu
    obtain ⟨n, hn, -, -, hin⟩ := getElem?_connectNodes hn'
    rw [hin, List.mem_append] at hu
    rcases hu with hu | hu
    · exact hw.inputs v n hn u hu
    · split_ifs at hu with hv
      · obtain rfl : u = up := by simpa using hu
        exact hv ▸ hlt
      · simp at hu
  · intro u v nu' nv' hu hv
    obtain ⟨nu, hnu, -, hout, -⟩ := getElem?_connectNodes hu
    obtain ⟨nv, hnv, -, -, hin⟩ := getElem?_connectNodes hv
    -- both lists grow by one exactly at the new edge
    have hmirror := hw.mirror u v nu nv hnu hnv
    rw [hout, hin, List.count_append, List.count_append, hmirror]
    congr 1
    split_ifs with h₁ h₂ h₂ <;> simp [h₁, h₂]

/-! ### Engines under construction -/

/-- Every id of a name map is a node of the table. -/
def NameMap.InRange (m : NameMap) (n : ℕ) : Prop := ∀ e ∈ m, e.2 < n

theorem NameMap.InRange.insert {m : NameMap} {n id : ℕ} (h : m.InRange n) (hid : id < n)
    (name : String) : (m.insert name id).InRange n := by
  intro e he
  rcases List.mem_cons.mp he with rfl | he
  · exact hid
  · exact h e (List.mem_of_mem_filter he)

theorem NameMap.InRange.mono {m : NameMap} {n n' : ℕ} (h : m.InRange n) (hle : n ≤ n') :
    m.InRange n' := fun e he => (h e he).trans_le hle

theorem NameMap.InRange.lookup {m : NameMap} {n id : ℕ} (h : m.InRange n) {name : String}
    (hlookup : m.lookup name = some id) : id < n := by
  obtain ⟨l₁, l₂, rfl, -⟩ := List.lookup_eq_some_iff.mp hlookup
  exact h (name, id) (by simp)

/-- The graph of an engine is wired, and its name tables name nodes of it. -/
structure Engine.Ordered (e : Engine) : Prop where
  wired : Wired e.nodes
  sourceIds : e.sourceIds.InRange e.nodes.length
  streamIds : e.streamIds.InRange e.nodes.length

theorem Engine.ordered_new : Engine.new.Ordered :=
  ⟨wired_nil, fun _ h => absurd h List.not_mem_nil, fun _ h => absurd h List.not_mem_nil⟩

/-- An engine is idle, as every engine under construction is. -/
def Engine.Fresh (e : Engine) : Prop := e.scheduler = .new

theorem Engine.Ordered.addNode {e : Engine} (h : e.Ordered) (name : String) (kind : NodeKind) :
    (e.addNode (Node.new e.nodes.length name kind)).2.Ordered := by
  have hlen : e.nodes.length ≤
      (e.addNode (Node.new e.nodes.length name kind)).2.nodes.length := by
    simp [Engine.addNode]
  exact ⟨h.wired.addNode name kind, h.sourceIds.mono hlen, h.streamIds.mono hlen⟩

/-- Feeding a node from lower ones. -/
theorem Engine.Ordered.foldl_connect {ups : List ℕ} {id : ℕ} {e : Engine} (h : e.Ordered)
    (hid : id < e.nodes.length) (hups : ∀ up ∈ ups, up < id) :
    (ups.foldl (fun e up => e.connect up id) e).Ordered ∧
      (ups.foldl (fun e up => e.connect up id) e).nodes.length = e.nodes.length ∧
      (ups.foldl (fun e up => e.connect up id) e).scheduler = e.scheduler := by
  induction ups generalizing e with
  | nil => exact ⟨h, rfl, rfl⟩
  | cons up ups ih =>
    have hlen : (e.connect up id).nodes.length = e.nodes.length := connectNodes_length _ _ _
    have hstep : (e.connect up id).Ordered := by
      refine ⟨h.wired.connect (hups up List.mem_cons_self) hid, ?_, ?_⟩
      · rw [hlen]
        exact h.sourceIds
      · rw [hlen]
        exact h.streamIds
    obtain ⟨h₁, h₂, h₃⟩ := ih hstep (hlen ▸ hid) fun u hu => hups u (List.mem_cons_of_mem _ hu)
    exact ⟨h₁, h₂.trans hlen, h₃⟩

/-! ### The compiler's invariant -/

/-- The invariant of the compiler: an ordered graph, bindings to its nodes, and no work. -/
structure Compiler.Wf (c : Compiler) : Prop where
  ordered : c.engine.Ordered
  bindings : c.bindings.InRange c.engine.nodes.length
  fresh : c.engine.Fresh

theorem Compiler.wf_new : Compiler.new.Wf :=
  ⟨Engine.ordered_new, fun _ h => absurd h List.not_mem_nil, rfl⟩

theorem Compiler.Wf.resolve {c : Compiler} (h : c.Wf) {name : String} {id : ℕ}
    (hid : c.resolve name = some id) : id < c.engine.nodes.length := h.bindings.lookup hid

theorem Compiler.Wf.freshName {c : Compiler} (h : c.Wf) (pre : String) : (c.fresh pre).2.Wf :=
  ⟨h.ordered, h.bindings, h.fresh⟩

theorem Compiler.Wf.error {c : Compiler} (h : c.Wf) (msg : String) : (c.error msg).Wf :=
  ⟨h.ordered, h.bindings, h.fresh⟩

theorem Compiler.Wf.warn {c : Compiler} (h : c.Wf) (msg : String) : (c.warn msg).Wf :=
  ⟨h.ordered, h.bindings, h.fresh⟩

/-- A new node fed by nodes that are there keeps the invariant, and is in range. -/
theorem Compiler.Wf.addFed {c : Compiler} (h : c.Wf) (name : String) (kind : NodeKind)
    {ups : List ℕ} (hups : ∀ up ∈ ups, up < c.engine.nodes.length) :
    (c.addFed name kind ups).2.Wf ∧
      (c.addFed name kind ups).1 < (c.addFed name kind ups).2.engine.nodes.length := by
  have hadd := h.ordered.addNode name kind
  have hlen : (c.engine.addNode (Node.new c.engine.nodes.length name kind)).2.nodes.length =
      c.engine.nodes.length + 1 := by simp [Engine.addNode]
  obtain ⟨hord, hlen', hsched⟩ := hadd.foldl_connect (hlen ▸ Nat.lt_succ_self _) hups
  refine ⟨⟨hord, ?_, ?_⟩, ?_⟩
  · refine h.bindings.mono ?_
    simp only [Compiler.addFed]
    exact (Nat.le_succ _).trans_eq (hlen.symm.trans hlen'.symm)
  · exact hsched.trans h.fresh
  · simp only [Compiler.addFed]
    exact (Nat.lt_succ_self _).trans_eq (hlen.symm.trans hlen'.symm)

/-- **Expressions.** Lowering an expression keeps the invariant, and its terminal node is in
range; by induction on the expression. -/
theorem compileExpr_wf (expr : Expr) {c : Compiler} (h : c.Wf) :
    (compileExpr expr c).2.Wf ∧ ∀ id, (compileExpr expr c).1 = some id →
      id < (compileExpr expr c).2.engine.nodes.length := by
  induction expr generalizing c with
  | ident name =>
    simp only [compileExpr]
    cases hid : c.resolve name with
    | none => exact ⟨h.error _, by simp⟩
    | some id =>
      refine ⟨h, fun id' heq => ?_⟩
      obtain rfl : id = id' := by simpa using heq
      exact h.resolve hid
  | lit l => exact ⟨h.warn _, by simp [compileExpr]⟩
  | pipe lhs op ih =>
    obtain ⟨hwf, hrange⟩ := ih h
    simp only [compileExpr]
    cases hlhs : compileExpr lhs c with
    | mk upstream c₁ =>
      rw [hlhs] at hwf hrange
      cases upstream with
      | none => exact ⟨hwf, by simp⟩
      | some upstream =>
        -- the node of the operator is fed by the node in front of it
        have hup : ∀ up ∈ [upstream], up < c₁.engine.nodes.length := by
          simpa using hrange upstream rfl
        obtain ⟨hwf', hid⟩ := (hwf.freshName (compileOp op).1).addFed
          (c₁.fresh (compileOp op).1).1 (compileOp op).2 hup
        exact ⟨hwf', fun id heq => Option.some.inj heq ▸ hid⟩
  | merge a b =>
    simp only [compileExpr]
    cases ha : c.resolve a with
    | none => exact ⟨h.error _, by simp⟩
    | some idA =>
      cases hb : c.resolve b with
      | none => exact ⟨h.error _, by simp⟩
      | some idB =>
        have hups : ∀ up ∈ [idA, idB], up < c.engine.nodes.length := by
          simpa using ⟨h.resolve ha, h.resolve hb⟩
        obtain ⟨hwf', hid⟩ := (h.freshName "merge").addFed (c.fresh "merge").1 .merge hups
        exact ⟨hwf', fun id heq => Option.some.inj heq ▸ hid⟩

theorem compileSink_wf {c : Compiler} (h : c.Wf) (sink : Sink) : (compileSink c sink).Wf := by
  simp only [compileSink]
  cases hid : c.resolve sink.target.1 with
  | none => exact h.error _
  | some upstream => exact (h.addFed _ _ (by simpa using h.resolve hid)).1

private theorem map_wiring_renameNode (nodes : List Node) (id : ℕ) (name : String) :
    (nodes.modify id fun n => { n with name := name }).map Node.wiring =
      nodes.map Node.wiring := by
  refine List.ext_getElem? fun i => ?_
  rw [List.getElem?_map, List.getElem?_map, List.getElem?_modify]
  cases nodes[i]? with
  | none => rfl
  | some n =>
    simp only [Option.map_eq_map, Option.map_some]
    split_ifs <;> rfl

theorem Compiler.Wf.bindSource {c : Compiler} (h : c.Wf) {id : ℕ}
    (hid : id < c.engine.nodes.length) (name : String) : (c.bindSource name id).Wf :=
  ⟨⟨h.ordered.wired, h.ordered.sourceIds.insert hid name, h.ordered.streamIds.insert hid name⟩,
    h.bindings.insert hid name, h.fresh⟩

theorem Compiler.Wf.bindStream {c : Compiler} (h : c.Wf) {id : ℕ}
    (hid : id < c.engine.nodes.length) (name : String) : (c.bindStream name id).Wf := by
  have hlen : c.engine.nodes.length = (c.engine.renameNode id name).nodes.length := by
    simp [Engine.renameNode]
  refine ⟨⟨h.ordered.wired.congr (map_wiring_renameNode _ _ _), ?_, ?_⟩, ?_, h.fresh⟩
  · exact h.ordered.sourceIds.mono hlen.le
  · exact (h.ordered.streamIds.insert hid name).mono hlen.le
  · exact (h.bindings.insert hid name).mono hlen.le

/-- **Statements.** -/
theorem compileStmt_wf {c : Compiler} (h : c.Wf) (stmt : Stmt) : (compileStmt c stmt).Wf := by
  cases stmt with
  | source name clock kind =>
    obtain ⟨hwf, hid⟩ := h.addFed name
      (.source name (sourceClock clock kind).1 (sourceClock clock kind).2)
      (fun up (hup : up ∈ []) => absurd hup List.not_mem_nil)
    simp only [compileStmt]
    split_ifs
    · exact (hwf.bindSource hid name).warn _
    · exact hwf.bindSource hid name
  | letStmt name expr =>
    obtain ⟨hwf, hrange⟩ := compileExpr_wf expr h
    simp only [compileStmt]
    cases hexpr : compileExpr expr c with
    | mk terminal c₁ =>
      rw [hexpr] at hwf hrange
      cases terminal with
      | none => exact hwf
      | some terminal => exact hwf.bindStream (hrange terminal rfl) name
  | emit sinks =>
    simp only [compileStmt]
    induction sinks generalizing c with
    | nil => exact h
    | cons sink sinks ih => exact ih (compileSink_wf h sink)

/-- **Programs.** The engine of a program that compiles is ordered and has no work. -/
theorem compile_wf {program : Program} {engine : Engine} {warnings : List CompileError}
    (h : compile program = .ok (engine, warnings)) : engine.Ordered ∧ engine.Fresh := by
  have hstmts : ∀ (stmts : List Stmt) (c : Compiler), c.Wf → (stmts.foldl compileStmt c).Wf := by
    intro stmts
    induction stmts with
    | nil => exact fun c hc => hc
    | cons stmt stmts ih => exact fun c hc => ih _ (compileStmt_wf hc stmt)
  have hwf := hstmts program.stmts .new Compiler.wf_new
  have hcheck : (program.stmts.foldl compileStmt .new).typeCheck.Wf := by
    simp only [Compiler.typeCheck]
    split_ifs
    · exact hwf
    · exact hwf.warn _
    · exact hwf.warn _
    · exact (hwf.warn _).warn _
  simp only [compile] at h
  split_ifs at h
  obtain ⟨rfl, -⟩ : _ = engine ∧ _ = warnings := by simpa using h
  exact ⟨hcheck.ordered, hcheck.fresh⟩

end Rivr.Core
