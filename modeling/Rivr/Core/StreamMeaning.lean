import Rivr.Core.StreamOrder

/-!
# What a program means

The meaning of a program on whole streams, by its text alone: a stream is the list of the events it
carries, an operator is the transformation of lists that its state machine computes, a merge carries
some shuffle of its two streams that is in the order of the ticks, and each sink takes its stream.
Only the order of events on different clocks is left open.

A compiled engine that has come to rest has computed such a meaning of its program
(`compile_preserves_meaning`), whatever order it was injected, ticked and run in. Without merges
there is no choice left, and the engine is a function of what was injected at its sources
(`goesOut_of_comesIn`).
-/

namespace Rivr.Core

open ProcessNetwork Worklist

variable {checks : Bool}

/-! ### The meaning of expressions and statements -/

/-- The same events on each clock, in the same order. -/
def SameByClock (s t : List Event) : Prop := ∀ c, onClock c s = onClock c t

/-- The streams that are bound, a new binding in front. -/
abbrev Streams := List (String × List Event)

/-- An expression carries a stream. -/
inductive Expr.Carries (checks : Bool) (ρ : Streams) : Expr → List Event → Prop
  | ident {name : String} {s : List Event} (h : ρ.lookup name = some s) :
      Expr.Carries checks ρ (.ident name) s
  | pipe {lhs : Expr} {op : PipeOp} {s s' out : List Event} {kind : NodeKind}
      (h : lhs.Carries checks ρ s) (harrives : SameByClock s s')
      (hfeed : (compileOp op).2.feed checks s' = .ok (out, kind)) :
      Expr.Carries checks ρ (.pipe lhs op) out
  | merge {a b : String} {s t m r : List Event} (ha : ρ.lookup a = some s)
      (hb : ρ.lookup b = some t) (hm : Shuffles [s, t] m) (hsorted : ClockSorted m)
      (harrives : SameByClock m r) : Expr.Carries checks ρ (.merge a b) r

/-- A sink takes the events of its stream. -/
def Sink.Takes (ρ : Streams) (sink : Sink) (taken : SinkKind × List Event) : Prop :=
  taken.1 = sink.target.2 ∧ ∃ s, ρ.lookup sink.target.1 = some s ∧ SameByClock s taken.2

/-- The expression starts from a literal, and so is no stream. -/
def Expr.isLiteral : Expr → Bool
  | .lit _ => true
  | .pipe lhs _ => lhs.isLiteral
  | _ => false

/-- Statements, over the streams bound so far: `ins` comes in at the `source` statements, in their
order, and `outs` is what the sinks take, in theirs. A `let` of a literal binds nothing. -/
inductive Means (checks : Bool) :
    Streams → List Stmt → List (List Event) → List (SinkKind × List Event) → Prop
  | done {ρ : Streams} : Means checks ρ [] [] []
  | source {ρ : Streams} {name : String} {clock : Option ClockAnnotation} {kind : SourceKind}
      {stmts : List Stmt} {s s' : List Event} {ins : List (List Event)}
      {outs : List (SinkKind × List Event)} (harrives : SameByClock s s')
      (h : Means checks ((name, s') :: ρ) stmts ins outs) :
      Means checks ρ (.source name clock kind :: stmts) (s :: ins) outs
  | letStmt {ρ : Streams} {name : String} {expr : Expr} {stmts : List Stmt} {s : List Event}
      {ins : List (List Event)} {outs : List (SinkKind × List Event)}
      (hexpr : expr.Carries checks ρ s) (h : Means checks ((name, s) :: ρ) stmts ins outs) :
      Means checks ρ (.letStmt name expr :: stmts) ins outs
  | literal {ρ : Streams} {name : String} {expr : Expr} {stmts : List Stmt}
      {ins : List (List Event)} {outs : List (SinkKind × List Event)}
      (hexpr : expr.isLiteral = true) (h : Means checks ρ stmts ins outs) :
      Means checks ρ (.letStmt name expr :: stmts) ins outs
  | emit {ρ : Streams} {sinks : List Sink} {stmts : List Stmt} {ins : List (List Event)}
      {taken outs : List (SinkKind × List Event)}
      (hsinks : List.Forall₂ (Sink.Takes ρ) sinks taken) (h : Means checks ρ stmts ins outs) :
      Means checks ρ (.emit sinks :: stmts) ins (taken ++ outs)

/-! ### Merges that are prompt by the text -/

/-- The operator keeps events back. -/
def PipeOp.delays : PipeOp → Bool
  | .delayTicks _ => true
  | .debounceMs _ => true
  | _ => false

theorem delays_compileOp (op : PipeOp) : (compileOp op).2.delays = op.delays := by
  cases op <;> rfl

/-- Nothing up to the expression keeps events back, when the names are marked for which this is
so. -/
def Expr.prompt (marks : List (String × Bool)) : Expr → Bool
  | .ident name => (marks.lookup name).getD false
  | .lit _ => false
  | .pipe lhs op => lhs.prompt marks && !op.delays
  | .merge a b => (marks.lookup a).getD false && (marks.lookup b).getD false

/-- The merge in the expression, if there is one, is prompt. -/
def Expr.mergePrompt (marks : List (String × Bool)) : Expr → Bool
  | .pipe lhs _ => lhs.mergePrompt marks
  | .merge a b => (marks.lookup a).getD false && (marks.lookup b).getD false
  | _ => true

/-- The merges of the statements are prompt. -/
def mergesPrompt : List (String × Bool) → List Stmt → Bool
  | _, [] => true
  | marks, .source name _ _ :: stmts => mergesPrompt ((name, true) :: marks) stmts
  | marks, .letStmt name expr :: stmts =>
    expr.mergePrompt marks &&
      mergesPrompt (if expr.isLiteral then marks else (name, expr.prompt marks) :: marks) stmts
  | marks, .emit _ :: stmts => mergesPrompt marks stmts

/-- In no program text is there a merge behind a delay or a debounce. -/
def Program.mergesPrompt (program : Program) : Bool := Core.mergesPrompt [] program.stmts

/-! ### Expressions that compile -/

/-- A diagnostic of the compiler is an error. -/
def Compiler.Failed (c : Compiler) : Prop := ∃ d ∈ c.diags, d.kind = .error

theorem Compiler.Extends.failed {c c' : Compiler} (h : c.Extends c') (hc : c.Failed) :
    c'.Failed := by
  obtain ⟨d, hd, hkind⟩ := hc
  exact ⟨d, h.diags.subset hd, hkind⟩

theorem Compiler.failed_error (c : Compiler) (msg : String) : (c.error msg).Failed :=
  ⟨⟨.error, msg⟩, List.mem_append_right _ (List.mem_singleton_self _), rfl⟩

/-- An expression that compiles to no node is over a literal, or an error. -/
theorem compileExpr_eq_none {expr : Expr} {c c' : Compiler} (h : compileExpr expr c = (none, c')) :
    expr.isLiteral = true ∨ c'.Failed := by
  induction expr generalizing c' with
  | ident name =>
    rw [compileExpr] at h
    split at h
    · cases h
    · obtain rfl := (Prod.mk.inj h).2
      exact Or.inr (c.failed_error _)
  | lit l => exact Or.inl rfl
  | pipe lhs op ih =>
    rw [compileExpr] at h
    split at h
    · next c₁ hlhs =>
      obtain rfl := (Prod.mk.inj h).2
      exact ih hlhs
    · cases h
  | merge a b =>
    rw [compileExpr] at h
    split at h
    · obtain rfl := (Prod.mk.inj h).2
      exact Or.inr (c.failed_error _)
    · split at h
      · obtain rfl := (Prod.mk.inj h).2
        exact Or.inr (c.failed_error _)
      · cases h

/-- Nothing over a literal compiles to a node. -/
theorem isLiteral_eq_false {expr : Expr} {c c' : Compiler} {id : ℕ}
    (h : compileExpr expr c = (some id, c')) : expr.isLiteral = false := by
  induction expr generalizing c' id with
  | lit l => cases h
  | pipe lhs op ih =>
    rw [compileExpr] at h
    split at h
    · cases h
    · next upstream c₁ hlhs => exact ih hlhs
  | _ => rfl

/-- An expression over a literal compiles to a warning. -/
theorem compileExpr_literal {expr : Expr} (c : Compiler) (h : expr.isLiteral = true) :
    compileExpr expr c =
      (none, c.warn "standalone literals are not yet supported as stream expressions") := by
  induction expr with
  | lit l => rfl
  | pipe lhs op ih => rw [compileExpr, ih h]
  | _ => cases h

/-- Where a pipeline compiles to. -/
theorem compileExpr_pipe {lhs : Expr} {op : PipeOp} {c c' : Compiler} {id : ℕ}
    (h : compileExpr (.pipe lhs op) c = (some id, c')) :
    ∃ upstream c₁, compileExpr lhs c = (some upstream, c₁) ∧ id = c₁.engine.nodes.length ∧
      tableOf c'.engine.nodes = tableOf c₁.engine.nodes ++ [((compileOp op).2, [upstream])] := by
  rw [compileExpr] at h
  split at h
  · cases h
  · next upstream c₁ hlhs =>
    obtain ⟨hid, rfl⟩ := Prod.mk.inj h
    exact ⟨upstream, c₁, hlhs, (Option.some.inj hid).symm, Compiler.tableOf_addFed _ _ _ _⟩

/-- Where a merge compiles to. -/
theorem compileExpr_merge {a b : String} {c c' : Compiler} {id : ℕ}
    (h : compileExpr (.merge a b) c = (some id, c')) :
    ∃ idA idB, c.resolve a = some idA ∧ c.resolve b = some idB ∧ id = c.engine.nodes.length ∧
      tableOf c'.engine.nodes = tableOf c.engine.nodes ++ [(.merge, [idA, idB])] := by
  rw [compileExpr] at h
  split at h
  · cases h
  · next idA ha =>
    split at h
    · cases h
    · next idB hb =>
      obtain ⟨hid, rfl⟩ := Prod.mk.inj h
      exact ⟨idA, idB, ha, hb, (Option.some.inj hid).symm, Compiler.tableOf_addFed _ _ _ _⟩

theorem compileExpr_ident {name : String} {c c' : Compiler} {id : ℕ}
    (h : compileExpr (.ident name) c = (some id, c')) : c.resolve name = some id ∧ c' = c := by
  rw [compileExpr] at h
  split at h
  · next id' hid =>
    obtain ⟨heq, rfl⟩ := Prod.mk.inj h
    exact ⟨heq ▸ hid, rfl⟩
  · cases h

/-! ### Prompt merges of the compiled graph -/

theorem Prompt.append {table : List Row} {kind : NodeKind} {ups : List ℕ}
    (hdelays : kind.delays = false) (hups : ∀ u ∈ ups, Prompt table u) :
    Prompt (table ++ [(kind, ups)]) table.length := by
  have hrow : (table ++ [(kind, ups)])[table.length]? = some (kind, ups) := by
    rw [List.getElem?_append_right le_rfl, Nat.sub_self]
    rfl
  exact .intro hrow hdelays fun u hu => (hups u hu).mono (List.prefix_append _ _)

theorem MergesPrompt.append {table : List Row} {kind : NodeKind} {ups : List ℕ}
    (h : MergesPrompt table)
    (hnew : ups.length ≤ 1 ∨ Prompt (table ++ [(kind, ups)]) table.length) :
    MergesPrompt (table ++ [(kind, ups)]) := by
  intro v row hrow
  rcases Nat.lt_trichotomy v table.length with hv | rfl | hv
  · rw [List.getElem?_append_left hv] at hrow
    exact (h v row hrow).imp_right fun hp => hp.mono (List.prefix_append _ _)
  · rw [List.getElem?_append_right le_rfl, Nat.sub_self] at hrow
    obtain rfl := Option.some.inj hrow
    exact hnew
  · rw [List.getElem?_eq_none (by simp; omega)] at hrow
    cases hrow

/-- The marked names are bound to prompt nodes. -/
def Compiler.Marked (c : Compiler) (marks : List (String × Bool)) : Prop :=
  ∀ name, marks.lookup name = some true → ∀ id, c.resolve name = some id →
    Prompt (tableOf c.engine.nodes) id

theorem getD_lookup {marks : List (String × Bool)} {name : String} :
    (marks.lookup name).getD false = true ↔ marks.lookup name = some true := by
  cases marks.lookup name <;> simp

theorem Compiler.Marked.mono {c c' : Compiler} {marks : List (String × Bool)} (h : c.Marked marks)
    (hextends : c.Extends c') (hbindings : c'.bindings = c.bindings) : c'.Marked marks := by
  intro name hname id hid
  rw [Compiler.resolve, hbindings] at hid
  exact (h name hname id hid).mono hextends.table

theorem compileExpr_prompt {marks : List (String × Bool)} {expr : Expr} {c c' : Compiler} {id : ℕ}
    (hcompile : compileExpr expr c = (some id, c')) (hmarks : c.Marked marks)
    (h : MergesPrompt (tableOf c.engine.nodes)) (hmerge : expr.mergePrompt marks = true) :
    MergesPrompt (tableOf c'.engine.nodes) ∧
      (expr.prompt marks = true → Prompt (tableOf c'.engine.nodes) id) := by
  induction expr generalizing c' id with
  | ident name =>
    obtain ⟨hid, rfl⟩ := compileExpr_ident hcompile
    exact ⟨h, fun hprompt => hmarks name (getD_lookup.mp hprompt) id hid⟩
  | lit l => cases hcompile
  | pipe lhs op ih =>
    obtain ⟨upstream, c₁, hlhs, rfl, htable⟩ := compileExpr_pipe hcompile
    obtain ⟨hmerges, hup⟩ := ih hlhs hmerge
    rw [htable, ← length_tableOf]
    refine ⟨hmerges.append (Or.inl (by simp)), fun hprompt => ?_⟩
    rw [Expr.prompt, Bool.and_eq_true, Bool.not_eq_true'] at hprompt
    refine Prompt.append (by rw [delays_compileOp]; exact hprompt.2) fun u hu => ?_
    rw [List.mem_singleton.mp hu]
    exact hup hprompt.1
  | merge a b =>
    obtain ⟨idA, idB, ha, hb, rfl, htable⟩ := compileExpr_merge hcompile
    rw [Expr.mergePrompt, Bool.and_eq_true, getD_lookup, getD_lookup] at hmerge
    have hprompt : Prompt (tableOf c.engine.nodes ++ [(.merge, [idA, idB])])
        (tableOf c.engine.nodes).length := by
      refine Prompt.append rfl fun u hu => ?_
      rcases List.mem_cons.mp hu with rfl | hu
      · exact hmarks a hmerge.1 _ ha
      · rw [List.mem_singleton.mp hu]
        exact hmarks b hmerge.2 _ hb
    rw [htable, ← length_tableOf]
    exact ⟨h.append (Or.inr hprompt), fun _ => hprompt⟩

theorem lookup_insert (m : NameMap) (name : String) (id : ℕ) (other : String) :
    (m.insert name id).lookup other = if other = name then some id else m.lookup other := by
  rw [NameMap.insert, List.lookup_cons]
  by_cases hname : other = name
  · rw [hname, beq_self_eq_true, if_pos rfl]
  · rw [beq_false_of_ne hname, if_neg hname]
    dsimp only
    induction m with
    | nil => rfl
    | cons entry m ih =>
      rw [List.filter_cons]
      by_cases hentry : entry.1 = name
      · have hother : (other == entry.1) = false :=
          beq_false_of_ne fun heq => hname (heq.trans hentry)
        rw [if_neg (by simpa using hentry), ih, List.lookup_cons, hother]
      · rw [if_pos (by simpa using hentry), List.lookup_cons, List.lookup_cons, ih]

theorem resolve_bindStream (c : Compiler) (name : String) (id : ℕ) (other : String) :
    (c.bindStream name id).resolve other = if other = name then some id else c.resolve other :=
  lookup_insert _ _ _ _

theorem resolve_bindSource (c : Compiler) (name : String) (id : ℕ) (other : String) :
    (c.bindSource name id).resolve other = if other = name then some id else c.resolve other :=
  lookup_insert _ _ _ _

/-- A new binding, marked if its node is prompt. -/
theorem Compiler.Marked.cons {c c' : Compiler} {marks : List (String × Bool)} (h : c.Marked marks)
    (hextends : c.Extends c') {name : String} {id : ℕ} {mark : Bool}
    (hresolve : ∀ other, c'.resolve other = if other = name then some id else c.resolve other)
    (hmark : mark = true → Prompt (tableOf c'.engine.nodes) id) :
    c'.Marked ((name, mark) :: marks) := by
  intro other hother i hi
  rw [hresolve] at hi
  rw [List.lookup_cons] at hother
  by_cases hname : other = name
  · rw [if_pos hname] at hi
    rw [hname, beq_self_eq_true] at hother
    obtain rfl := Option.some.inj hi
    exact hmark (Option.some.inj hother)
  · rw [if_neg hname] at hi
    rw [beq_false_of_ne hname] at hother
    exact (h other hother i hi).mono hextends.table

/-- What a `source` statement adds. -/
theorem compileStmt_source (c : Compiler) (name : String) (clock : Option ClockAnnotation)
    (kind : SourceKind) :
    tableOf (compileStmt c (.source name clock kind)).engine.nodes = tableOf c.engine.nodes ++
        [(.source name (sourceClock clock kind).1 (sourceClock clock kind).2, [])] ∧
      ∀ other, (compileStmt c (.source name clock kind)).resolve other =
        if other = name then some c.engine.nodes.length else c.resolve other := by
  have htable := c.tableOf_addFed name (.source name (sourceClock clock kind).1
    (sourceClock clock kind).2) []
  rw [compileStmt]
  split_ifs
  · exact ⟨htable, fun other => resolve_bindSource _ _ _ _⟩
  · exact ⟨htable, fun other => resolve_bindSource _ _ _ _⟩

/-- What a `let` statement adds: the nodes of its expression, and its name. -/
theorem compileStmt_let {name : String} {expr : Expr} {c c₁ : Compiler} {terminal : ℕ}
    (h : compileExpr expr c = (some terminal, c₁)) :
    tableOf (compileStmt c (.letStmt name expr)).engine.nodes = tableOf c₁.engine.nodes ∧
      ∀ other, (compileStmt c (.letStmt name expr)).resolve other =
        if other = name then some terminal else c.resolve other := by
  have hstmt : compileStmt c (.letStmt name expr) = c₁.bindStream name terminal := by
    rw [compileStmt, h]
  have hbindings := (compileExpr_extends expr c).2
  rw [h] at hbindings
  refine ⟨?_, fun other => ?_⟩
  · rw [hstmt]
    exact tableOf_renameNode _ _ _
  · rw [hstmt, resolve_bindStream, Compiler.resolve, Compiler.resolve, hbindings]

/-- What a sink that is bound adds. -/
theorem compileSink_of_resolve {c : Compiler} {sink : Sink} {up : ℕ}
    (h : c.resolve sink.target.1 = some up) :
    tableOf (compileSink c sink).engine.nodes =
      tableOf c.engine.nodes ++ [(.emit sink.target.2, [up])] := by
  rw [compileSink, h]
  exact c.tableOf_addFed _ _ _

theorem failed_compileSink {c : Compiler} {sink : Sink} (h : c.resolve sink.target.1 = none) :
    (compileSink c sink).Failed := by
  rw [compileSink, h]
  exact c.failed_error _

theorem MergesPrompt.sinks {sinks : List Sink} {c : Compiler}
    (h : MergesPrompt (tableOf c.engine.nodes)) :
    MergesPrompt (tableOf (sinks.foldl compileSink c).engine.nodes) := by
  refine List.foldlRecOn sinks compileSink
    (motive := fun c => MergesPrompt (tableOf c.engine.nodes)) h fun c' hc' sink _ => ?_
  cases hresolve : c'.resolve sink.target.1 with
  | none =>
    rw [compileSink, hresolve]
    exact hc'
  | some up =>
    rw [compileSink_of_resolve hresolve]
    exact hc'.append (Or.inl (by simp))

theorem extends_sinks (sinks : List Sink) (c : Compiler) :
    c.Extends (sinks.foldl compileSink c) ∧ (sinks.foldl compileSink c).bindings = c.bindings :=
  List.foldlRecOn sinks compileSink
    (motive := fun c' => c.Extends c' ∧ c'.bindings = c.bindings) ⟨.refl c, rfl⟩
    fun c' hc' sink _ => ⟨hc'.1.trans (compileSink_extends sink c').1,
      (compileSink_extends sink c').2.trans hc'.2⟩

theorem compileStmts_mergesPrompt {stmts : List Stmt} {c : Compiler}
    {marks : List (String × Bool)} (hmarks : c.Marked marks)
    (h : MergesPrompt (tableOf c.engine.nodes)) (hprompt : mergesPrompt marks stmts = true)
    (hok : ¬(stmts.foldl compileStmt c).Failed) :
    MergesPrompt (tableOf (stmts.foldl compileStmt c).engine.nodes) := by
  induction stmts generalizing c marks with
  | nil => exact h
  | cons stmt stmts ih =>
    have hextends := compileStmt_extends stmt c
    have hstmt : ¬(compileStmt c stmt).Failed := fun hfailed =>
      hok ((compileStmts_extends stmts _).failed hfailed)
    cases stmt with
    | source name clock kind =>
      obtain ⟨htable, hresolve⟩ := compileStmt_source c name clock kind
      refine ih (hmarks.cons hextends hresolve fun _ => ?_) ?_ hprompt hok
      · rw [htable, ← length_tableOf]
        exact Prompt.append rfl fun u hu => absurd hu List.not_mem_nil
      · rw [htable]
        exact h.append (Or.inl (Nat.zero_le 1))
    | letStmt name expr =>
      rw [mergesPrompt, Bool.and_eq_true] at hprompt
      obtain ⟨hmerge, hrest⟩ := hprompt
      rcases hcompile : compileExpr expr c with ⟨_ | terminal, c₁⟩
      · have hc₁ : compileStmt c (.letStmt name expr) = c₁ := by rw [compileStmt, hcompile]
        rw [List.foldl_cons, hc₁] at hok ⊢
        have hliteral := (compileExpr_eq_none hcompile).resolve_right (by rwa [hc₁] at hstmt)
        rw [if_pos hliteral] at hrest
        obtain rfl := (Prod.mk.inj (hcompile.symm.trans (compileExpr_literal c hliteral))).2
        exact ih (hmarks.mono (c.extends_warn _) rfl) h hrest hok
      · obtain ⟨htable, hresolve⟩ := @compileStmt_let name _ _ _ _ hcompile
        obtain ⟨hmerges, hterminal⟩ := compileExpr_prompt hcompile hmarks h hmerge
        rw [isLiteral_eq_false hcompile] at hrest
        refine ih (hmarks.cons hextends hresolve fun hmark => ?_) ?_ hrest hok
        · rw [htable]
          exact hterminal hmark
        · rw [htable]
          exact hmerges
    | emit sinks =>
      obtain ⟨hsinks, hbindings⟩ := extends_sinks sinks c
      refine ih (hmarks.mono hsinks hbindings) ?_ hprompt hok
      rw [compileStmt]
      exact h.sinks

/-- **The merges of the compiled graph** are prompt when those of the program are. -/
theorem compile_mergesPrompt {program : Program} {engine : Engine} {warnings : List CompileError}
    (h : compile program = .ok (engine, warnings)) (hprompt : program.mergesPrompt = true) :
    MergesPrompt (tableOf engine.nodes) := by
  rw [compile_engine h]
  have hmarks : Compiler.new.Marked [] := fun name hname => by cases hname
  refine compileStmts_mergesPrompt hmarks (fun v row hrow => ?_) hprompt ?_
  · cases hrow
  · rintro ⟨d, hd, hkind⟩
    exact compile_diags h d hd hkind

/-! ### Streams that solve the graph -/

/-- Streams at the nodes that obey every row: what a node takes is, on each clock, what it is given,
a shuffle of what comes in at it and of what its inputs send, and it sends what its operator
answers. -/
structure Solves (checks : Bool) (table : List Row) (comes takes sends : ℕ → List Event) :
    Prop where
  row : ∀ v row, table[v]? = some row → ∃ given kind,
    Shuffles (comes v :: row.2.map sends) given ∧ ClockSorted given ∧
      SameByClock given (takes v) ∧ row.1.feed checks (takes v) = .ok (sends v, kind)
  comes : ∀ v row, table[v]? = some row → row.1.isSource = false → comes v = []

/-- What comes in at the sources among the rows, from the node `k` on. -/
def insFrom (comes : ℕ → List Event) (k : ℕ) (rows : List Row) : List (List Event) :=
  (rows.zipIdx k).filterMap fun r => if r.1.1.isSource then some (comes r.2) else none

/-- What the sinks among the rows take, from the node `k` on. -/
def outsFrom (takes : ℕ → List Event) (k : ℕ) (rows : List Row) : List (SinkKind × List Event) :=
  (rows.zipIdx k).filterMap fun r =>
    match r.1.1 with
    | .emit sink => some (sink, takes r.2)
    | _ => none

/-- The streams that the names are bound to. -/
def Compiler.Binds (c : Compiler) (sends : ℕ → List Event) (ρ : Streams) : Prop :=
  ∀ name id, c.resolve name = some id → ρ.lookup name = some (sends id)

/-- Feeding a node that only passes events on. -/
theorem feed_of_passes {kind kind' : NodeKind} {evs out : List Event}
    (hpass : ∀ ev, kind.process checks ev = .ok ([ev], kind))
    (h : kind.feed checks evs = .ok (out, kind')) : out = evs := by
  induction evs generalizing out with
  | nil =>
    cases h
    rfl
  | cons ev evs ih =>
    obtain ⟨out₁, kind₁, out₂, h₁, h₂, rfl⟩ := NodeKind.feed_cons_eq_ok h
    obtain ⟨rfl, rfl⟩ := Prod.mk.inj (Except.ok.inj (h₁.symm.trans (hpass ev)))
    rw [ih h₂]
    rfl

/-- The row behind a table is where the table ends. -/
theorem getElem?_of_append {rows table : List Row} {row : Row} (h : rows ++ [row] <+: table) :
    table[rows.length]? = some row := by
  obtain ⟨rest, rfl⟩ := h
  rw [List.append_assoc, List.getElem?_append_right le_rfl, Nat.sub_self]
  rfl

section Solves

variable {table : List Row} {comes takes sends : ℕ → List Event}

theorem Solves.carries (h : Solves checks table comes takes sends) {ρ : Streams} {expr : Expr}
    {c c' : Compiler} {id : ℕ} (hcompile : compileExpr expr c = (some id, c'))
    (hρ : c.Binds sends ρ) (htable : tableOf c'.engine.nodes <+: table) :
    expr.Carries checks ρ (sends id) := by
  induction expr generalizing c' id with
  | ident name => exact .ident (hρ name id (compileExpr_ident hcompile).1)
  | lit l => cases hcompile
  | pipe lhs op ih =>
    obtain ⟨upstream, c₁, hlhs, rfl, hrows⟩ := compileExpr_pipe hcompile
    rw [hrows] at htable
    have hrow := getElem?_of_append htable
    rw [length_tableOf] at hrow
    obtain ⟨given, kind, hshuffles, -, harrives, hfeed⟩ := h.row _ _ hrow
    rw [h.comes _ _ hrow (Compiler.Lowering.isSource_compileOp op), shuffles_nil_cons_iff,
      List.map_singleton, shuffles_singleton_iff] at hshuffles
    subst hshuffles
    exact .pipe (ih hlhs ((List.prefix_append _ _).trans htable)) harrives hfeed
  | merge a b =>
    obtain ⟨idA, idB, ha, hb, rfl, hrows⟩ := compileExpr_merge hcompile
    rw [hrows] at htable
    have hrow := getElem?_of_append htable
    rw [length_tableOf] at hrow
    obtain ⟨given, kind, hshuffles, hsorted, harrives, hfeed⟩ := h.row _ _ hrow
    rw [h.comes _ _ hrow rfl, shuffles_nil_cons_iff] at hshuffles
    rw [feed_of_passes (fun ev => rfl) hfeed]
    exact .merge (hρ a idA ha) (hρ b idB hb) hshuffles hsorted harrives

/-- The rows of an expression have no sources and no sinks. -/
theorem compileExpr_rows {expr : Expr} {c c' : Compiler} {id : ℕ}
    (h : compileExpr expr c = (some id, c')) :
    ∃ rows, tableOf c'.engine.nodes = tableOf c.engine.nodes ++ rows ∧
      ∀ row ∈ rows, row.1.isSource = false ∧ row.1.isEmit = false := by
  induction expr generalizing c' id with
  | ident name =>
    obtain ⟨-, rfl⟩ := compileExpr_ident h
    exact ⟨[], (List.append_nil _).symm, fun _ hrow => absurd hrow List.not_mem_nil⟩
  | lit l => cases h
  | pipe lhs op ih =>
    obtain ⟨upstream, c₁, hlhs, -, hrows⟩ := compileExpr_pipe h
    obtain ⟨rows, hrows₁, hinner⟩ := ih hlhs
    refine ⟨rows ++ [((compileOp op).2, [upstream])], by rw [hrows, hrows₁, List.append_assoc],
      fun row hrow => ?_⟩
    rcases List.mem_append.mp hrow with hrow | hrow
    · exact hinner row hrow
    · rw [List.mem_singleton.mp hrow]
      exact ⟨Compiler.Lowering.isSource_compileOp op, by cases op <;> rfl⟩
  | merge a b =>
    obtain ⟨idA, idB, -, -, -, hrows⟩ := compileExpr_merge h
    refine ⟨_, hrows, fun row hrow => ?_⟩
    rw [List.mem_singleton.mp hrow]
    exact ⟨rfl, rfl⟩

theorem insFrom_append (k : ℕ) (rows rows' : List Row) :
    insFrom comes k (rows ++ rows') =
      insFrom comes k rows ++ insFrom comes (k + rows.length) rows' := by
  rw [insFrom, List.zipIdx_append, List.filterMap_append, insFrom, insFrom]

theorem outsFrom_append (k : ℕ) (rows rows' : List Row) :
    outsFrom takes k (rows ++ rows') =
      outsFrom takes k rows ++ outsFrom takes (k + rows.length) rows' := by
  rw [outsFrom, List.zipIdx_append, List.filterMap_append, outsFrom, outsFrom]

theorem insFrom_of_inner (k : ℕ) {rows : List Row} (h : ∀ row ∈ rows, row.1.isSource = false) :
    insFrom comes k rows = [] := by
  refine List.filterMap_eq_nil_iff.mpr fun r hr => ?_
  rw [h r.1 (List.fst_mem_of_mem_zipIdx hr)]
  rfl

theorem outsFrom_of_inner (k : ℕ) {rows : List Row} (h : ∀ row ∈ rows, row.1.isEmit = false) :
    outsFrom takes k rows = [] := by
  refine List.filterMap_eq_nil_iff.mpr fun r hr => ?_
  have hemit := h r.1 (List.fst_mem_of_mem_zipIdx hr)
  cases hkind : r.1.1 with
  | emit sink =>
    rw [hkind] at hemit
    cases hemit
  | _ => rfl

/-- **Sinks** take their streams. -/
theorem Solves.sinks (h : Solves checks table comes takes sends) {ρ : Streams} {sinks : List Sink}
    {c : Compiler} (hρ : c.Binds sends ρ) (hok : ¬(sinks.foldl compileSink c).Failed)
    (htable : tableOf (sinks.foldl compileSink c).engine.nodes <+: table) :
    ∃ rows, tableOf (sinks.foldl compileSink c).engine.nodes = tableOf c.engine.nodes ++ rows ∧
      insFrom comes c.engine.nodes.length rows = [] ∧
      List.Forall₂ (Sink.Takes ρ) sinks (outsFrom takes c.engine.nodes.length rows) := by
  induction sinks generalizing c with
  | nil => exact ⟨[], (List.append_nil _).symm, rfl, List.Forall₂.nil⟩
  | cons sink sinks ih =>
    have hbindings := (compileSink_extends sink c).2
    have hrest := (extends_sinks sinks (compileSink c sink)).1
    cases hresolve : c.resolve sink.target.1 with
    | none => exact absurd (hrest.failed (failed_compileSink hresolve)) hok
    | some up =>
      have hrows := compileSink_of_resolve hresolve
      have hbinds : (compileSink c sink).Binds sends ρ := fun name id hid =>
        hρ name id (by rwa [Compiler.resolve, hbindings] at hid)
      obtain ⟨rows, hrows', hins, houts⟩ := ih hbinds hok htable
      have hlen : (compileSink c sink).engine.nodes.length = c.engine.nodes.length + 1 := by
        rw [← length_tableOf, hrows, List.length_append, length_tableOf, List.length_singleton]
      rw [hlen] at hins houts
      refine ⟨(.emit sink.target.2, [up]) :: rows, ?_, ?_, ?_⟩
      · rw [List.foldl_cons, hrows', hrows, List.append_assoc]
        rfl
      · exact hins
      · -- the row of this sink
        have hpre := hrest.table.trans htable
        rw [hrows] at hpre
        have hrow := getElem?_of_append hpre
        rw [length_tableOf] at hrow
        obtain ⟨given, kind, hshuffles, -, harrives, -⟩ := h.row _ _ hrow
        rw [h.comes _ _ hrow rfl, shuffles_nil_cons_iff, List.map_singleton,
          shuffles_singleton_iff] at hshuffles
        subst hshuffles
        exact List.Forall₂.cons ⟨rfl, _, hρ _ _ hresolve, harrives⟩ houts

theorem Compiler.Binds.cons {c c' : Compiler} {ρ : Streams} {name : String} {id : ℕ}
    (h : c.Binds sends ρ)
    (hresolve : ∀ other, c'.resolve other = if other = name then some id else c.resolve other) :
    c'.Binds sends ((name, sends id) :: ρ) := by
  intro other i hi
  rw [hresolve] at hi
  rw [List.lookup_cons]
  by_cases hname : other = name
  · rw [if_pos hname] at hi
    obtain rfl := Option.some.inj hi
    rw [hname, beq_self_eq_true]
  · rw [if_neg hname] at hi
    rw [beq_false_of_ne hname]
    exact h other i hi

/-- **Statements** mean what the streams at their nodes are; by induction on the statements, for the
rows they add. -/
theorem Solves.means (h : Solves checks table comes takes sends) {ρ : Streams} {stmts : List Stmt}
    {c : Compiler} (hρ : c.Binds sends ρ) (hok : ¬(stmts.foldl compileStmt c).Failed)
    (htable : tableOf (stmts.foldl compileStmt c).engine.nodes <+: table) :
    ∃ rows, tableOf (stmts.foldl compileStmt c).engine.nodes = tableOf c.engine.nodes ++ rows ∧
      Means checks ρ stmts (insFrom comes c.engine.nodes.length rows)
        (outsFrom takes c.engine.nodes.length rows) := by
  induction stmts generalizing c ρ with
  | nil => exact ⟨[], (List.append_nil _).symm, .done⟩
  | cons stmt stmts ih =>
    have hrest := compileStmts_extends stmts (compileStmt c stmt)
    cases stmt with
    | source name clock kind =>
      obtain ⟨htable', hresolve⟩ := compileStmt_source c name clock kind
      obtain ⟨rows, hrows, hmeans⟩ := ih (hρ.cons hresolve) hok htable
      have hlen : (compileStmt c (.source name clock kind)).engine.nodes.length =
          c.engine.nodes.length + 1 := by
        rw [← length_tableOf, htable', List.length_append, length_tableOf, List.length_singleton]
      rw [hlen] at hmeans
      refine ⟨_ :: rows, by rw [List.foldl_cons, hrows, htable', List.append_assoc]; rfl, ?_⟩
      have hpre := hrest.table.trans htable
      rw [htable'] at hpre
      have hrow := getElem?_of_append hpre
      rw [length_tableOf] at hrow
      obtain ⟨given, kind', hshuffles, -, harrives, hfeed⟩ := h.row _ _ hrow
      rw [List.map_nil, shuffles_singleton_iff] at hshuffles
      subst hshuffles
      have hsends := feed_of_passes (fun ev => rfl) hfeed
      rw [← hsends] at harrives
      exact .source harrives hmeans
    | letStmt name expr =>
      rcases hcompile : compileExpr expr c with ⟨_ | terminal, c₁⟩
      · have hc₁ : compileStmt c (.letStmt name expr) = c₁ := by rw [compileStmt, hcompile]
        have hliteral := (compileExpr_eq_none hcompile).resolve_right fun hfailed =>
          hok ((compileStmts_extends stmts _).failed (by rwa [hc₁]))
        obtain rfl := (Prod.mk.inj (hcompile.symm.trans (compileExpr_literal c hliteral))).2
        rw [List.foldl_cons, hc₁] at hok htable ⊢
        have hwarn : ∀ msg, (c.warn msg).Binds sends ρ := fun _ => hρ
        obtain ⟨rows, hrows, hmeans⟩ := ih (hwarn _) hok htable
        exact ⟨rows, hrows, .literal hliteral hmeans⟩
      · obtain ⟨htable', hresolve⟩ := @compileStmt_let name _ _ _ _ hcompile
        obtain ⟨rows₁, hrows₁, hinner⟩ := compileExpr_rows hcompile
        obtain ⟨rows, hrows, hmeans⟩ := ih (hρ.cons hresolve) hok htable
        have hlen : (compileStmt c (.letStmt name expr)).engine.nodes.length =
            c.engine.nodes.length + rows₁.length := by
          rw [← length_tableOf, htable', hrows₁, List.length_append, length_tableOf]
        have hcarries := h.carries hcompile hρ (htable' ▸ hrest.table.trans htable)
        rw [hlen] at hmeans
        refine ⟨rows₁ ++ rows, ?_, ?_⟩
        · rw [List.foldl_cons, hrows, htable', hrows₁, List.append_assoc]
        · rw [insFrom_append, outsFrom_append,
            insFrom_of_inner _ fun row hrow => (hinner row hrow).1,
            outsFrom_of_inner _ fun row hrow => (hinner row hrow).2]
          exact .letStmt hcarries hmeans
    | emit sinks =>
      have hok₁ : ¬(sinks.foldl compileSink c).Failed := fun hfailed => hok (hrest.failed hfailed)
      obtain ⟨rows₁, hrows₁, hins, houts⟩ := h.sinks hρ hok₁ (hrest.table.trans htable)
      have hbinds : (sinks.foldl compileSink c).Binds sends ρ := fun name id hid =>
        hρ name id (by rwa [Compiler.resolve, (extends_sinks sinks c).2] at hid)
      obtain ⟨rows, hrows, hmeans⟩ := ih hbinds hok htable
      have hlen : (sinks.foldl compileSink c).engine.nodes.length =
          c.engine.nodes.length + rows₁.length := by
        rw [← length_tableOf, hrows₁, List.length_append, length_tableOf]
      rw [hlen] at hmeans
      refine ⟨rows₁ ++ rows, ?_, ?_⟩
      · rw [hrows₁, List.append_assoc] at hrows
        exact hrows
      · rw [insFrom_append, outsFrom_append, hins, List.nil_append]
        exact .emit houts hmeans

end Solves

/-! ### An engine at rest -/

@[simp]
theorem onClock_map_unnumbered (c : UInt8) (evs : List Event) :
    onClock c (evs.map Event.unnumbered) = (onClock c evs).map Event.unnumbered := by
  rw [onClock, List.filter_map]
  rfl

theorem mem_pendingOf_of_mem_queueOf {c : UInt8} {queues : Queues} {w : WorkItem}
    (h : w ∈ queueOf c queues) : w ∈ pendingOf queues := by
  induction queues with
  | nil => exact absurd h List.not_mem_nil
  | cons entry queues ih =>
    rw [queueOf] at h
    rw [pendingOf_cons, Multiset.mem_add]
    split_ifs at h
    · exact Or.inl (Multiset.mem_coe.mpr h)
    · exact Or.inr (ih h)

theorem itemsAt_of_isIdle {s : Scheduler} (h : s.Wf) (hidle : s.isIdle = true) (v : ℕ) (c : UInt8) :
    s.itemsAt v c = [] := by
  refine List.eq_nil_iff_forall_not_mem.mpr fun w hw => ?_
  have hmem : w ∈ s.pending := mem_pendingOf_of_mem_queueOf (List.mem_filter.mp hw).1
  rw [h.isIdle_iff.mp hidle] at hmem
  exact absurd hmem (Multiset.notMem_zero w)

/-- **At rest**, what the nodes took and sent solves the graph. -/
theorem EngineTrace.solves {e₀ e : Engine} {tr : List (Act Event)}
    (h : EngineTrace checks e₀ e tr) (h₀ : e₀.Initial)
    (hmerges : MergesPrompt (tableOf e₀.nodes)) (hinjected : ClockSorted (injected tr))
    (hwrap : (issued tr).length ≤ 2 ^ 32) (hidle : e.scheduler.isIdle = true) :
    Solves checks (tableOf e₀.nodes) (fun v => (inputs v tr).map Event.unnumbered)
      (fun v => (fired v tr).map Event.unnumbered)
      (fun v => (sent v tr).map Event.unnumbered) := by
  have hacc := h.accounts h₀
  have horder := h.inOrder h₀ hmerges hinjected hwrap
  refine ⟨fun v row hrow => ?_, fun v row hrow hinner => ?_⟩
  · obtain ⟨node, hnode, hkind, hups⟩ := tableOf_getElem? hrow
    obtain ⟨out, kind, -, hfeed, hsent⟩ := hacc.nodes v node hnode
    have hgiven := (h₀.shuffles tr v).map Event.unnumbered
    rw [upsOf, hnode, List.map_cons, List.map_map] at hgiven
    refine ⟨(received (succOf e₀.nodes) v tr).map Event.unnumbered, kind.unnumbered, ?_,
      List.pairwise_map.mpr (horder.sorted v), fun c => ?_, ?_⟩
    · rw [← hups]
      exact hgiven
    · rw [onClock_map_unnumbered, onClock_map_unnumbered, horder.queue,
        itemsAt_of_isIdle hacc.scheduler.toWf hidle, List.map_nil, List.append_nil]
    · have hfeed' := @NodeKind.feed_unnumbered checks node.kind (fired v tr)
      have hmade := (h₀.made row (List.mem_of_getElem? hrow)).unnumbered
      rw [hkind, hmade, ← hkind, hfeed] at hfeed'
      rw [← hkind, hfeed', ← hsent]
      rfl
  · have hsource : ¬e₀.IsSource v := by
      rintro ⟨node, hnode, hkind⟩
      obtain ⟨node', hnode', hkind', -⟩ := tableOf_getElem? hrow
      obtain rfl := Option.some.inj (hnode.symm.trans hnode')
      rw [← hkind', hkind] at hinner
      cases hinner
    rw [hacc.inputs v hsource]
    rfl

/-- The effects of the events that a sink takes. -/
def recordsOf (taken : SinkKind × List Event) : List EffectRecord :=
  taken.2.map fun ev => ⟨ev.stamp, taken.1, ev.v.display⟩

/-- The sinks among the rows, with their nodes. -/
def sinksFrom (k : ℕ) (rows : List Row) : List (ℕ × SinkKind) :=
  (rows.zipIdx k).filterMap fun r =>
    match r.1.1 with
    | .emit sink => some (r.2, sink)
    | _ => none

theorem outsFrom_eq (takes : ℕ → List Event) (k : ℕ) (rows : List Row) :
    outsFrom takes k rows = (sinksFrom k rows).map fun s => (s.2, takes s.1) := by
  rw [outsFrom, sinksFrom, List.map_filterMap]
  refine List.filterMap_congr fun r _ => ?_
  cases r.1.1 <;> rfl

theorem mem_sinksFrom {nodes : List Node} {v : ℕ} {sink : SinkKind} :
    (v, sink) ∈ sinksFrom 0 (tableOf nodes) ↔
      ∃ node, nodes[v]? = some node ∧ node.kind = .emit sink := by
  rw [sinksFrom, List.mem_filterMap]
  constructor
  · rintro ⟨⟨row, i⟩, hr, heq⟩
    have hrow := List.mem_zipIdx_iff_getElem?.mp hr
    obtain ⟨node, hnode, hkind, -⟩ := tableOf_getElem? hrow
    cases hkindRow : row.1 with
    | emit sink' =>
      rw [hkindRow] at heq
      obtain ⟨rfl, rfl⟩ := Prod.mk.inj (Option.some.inj heq)
      exact ⟨node, hnode, hkind.trans hkindRow⟩
    | _ =>
      rw [hkindRow] at heq
      cases heq
  · rintro ⟨node, hnode, hkind⟩
    refine ⟨((node.kind, node.inputs), v), List.mem_zipIdx_iff_getElem?.mpr ?_, by rw [hkind]⟩
    rw [tableOf, List.getElem?_map, hnode]
    rfl

theorem nodup_sinksFrom (k : ℕ) (rows : List Row) : ((sinksFrom k rows).map Prod.fst).Nodup := by
  have hsub : ((sinksFrom k rows).map Prod.fst).Sublist ((rows.zipIdx k).map Prod.snd) := by
    rw [sinksFrom]
    induction rows.zipIdx k with
    | nil => exact List.Sublist.refl _
    | cons r rs ih =>
      rw [List.filterMap_cons, List.map_cons]
      cases r.1.1 with
      | emit sink => exact ih.cons_cons _
      | _ => exact ih.cons _
  refine hsub.nodup ?_
  rw [List.zipIdx_map_snd]
  exact List.nodup_range'

/-- The effects of a trace are those of what its sinks took. -/
theorem shuffles_effectsOf (e₀ : Engine) (tr : List (Act Event)) :
    Shuffles ((outsFrom (fun v => (fired v tr).map Event.unnumbered) 0 (tableOf e₀.nodes)).map
      recordsOf) (effectsOf e₀ tr) := by
  have hids := nodup_sinksFrom 0 (tableOf e₀.nodes)
  have hnone : ∀ v x, v ∉ (sinksFrom 0 (tableOf e₀.nodes)).map Prod.fst → e₀.effectAt v x = [] := by
    intro v x hv
    rw [Engine.effectAt]
    cases hnode : e₀.nodes[v]? with
    | none => rfl
    | some node =>
      cases hkind : node.kind with
      | emit sink =>
        exact absurd (List.mem_map_of_mem (mem_sinksFrom.mpr ⟨node, hnode, hkind⟩)) hv
      | _ => simp [effectOf, hkind]
  have hshuffles := shuffles_answer hids hnone tr
  rw [outsFrom_eq, List.map_map]
  rw [List.map_map] at hshuffles
  have hrecords : ∀ s ∈ sinksFrom 0 (tableOf e₀.nodes),
      (fired s.1 tr).flatMap (e₀.effectAt s.1) =
        recordsOf (s.2, (fired s.1 tr).map Event.unnumbered) := by
    rintro ⟨v, sink⟩ hs
    obtain ⟨node, hnode, hkind⟩ := mem_sinksFrom.mp hs
    rw [recordsOf, List.map_map, List.map_eq_flatMap]
    refine List.flatMap_congr fun ev _ => ?_
    rw [Engine.effectAt, hnode, Option.map_some, Option.getD_some, hkind]
    rfl
  have hlists := List.map_congr_left hrecords
  rw [Function.comp_def] at hshuffles
  rw [hlists] at hshuffles
  exact hshuffles

/-- What was injected, at each `source` statement of the program. -/
def Engine.comesIn (e₀ : Engine) (tr : List (Act Event)) : List (List Event) :=
  insFrom (fun v => (inputs v tr).map Event.unnumbered) 0 (tableOf e₀.nodes)

/-- What was taken, by each sink of the program. -/
def Engine.goesOut (e₀ : Engine) (tr : List (Act Event)) : List (SinkKind × List Event) :=
  outsFrom (fun v => (fired v tr).map Event.unnumbered) 0 (tableOf e₀.nodes)

/-- **The compiler preserves the meaning of programs.** An engine that has come to rest, after
whatever injections, clock ticks and turns, has computed a meaning of its program: what the sinks
took is what they take when the injected events come in at the `source` statements, and the effects
are a shuffle of theirs. The injected events of each clock come in the order of their ticks, the
numbers do not wrap, and no merge is behind a delay or a debounce. -/
theorem compile_preserves_meaning {program : Program} {engine : Engine}
    {warnings : List CompileError} (h : compile program = .ok (engine, warnings))
    (hmerges : program.mergesPrompt = true) (effectLog : Option (List EffectRecord))
    (traceLog : Option (List TraceRecord)) {e : Engine} {tr : List (Act Event)}
    (htr : EngineTrace checks { engine with effectLog := effectLog, traceLog := traceLog } e tr)
    (hinjected : ClockSorted (injected tr)) (hwrap : (issued tr).length ≤ 2 ^ 32)
    (hidle : e.scheduler.isIdle = true) :
    Means checks [] program.stmts (engine.comesIn tr) (engine.goesOut tr) ∧
      ∃ effects, Shuffles ((engine.goesOut tr).map recordsOf) effects ∧
        e.effectLog = effectLog.map (· ++ effects) := by
  have h₀ := compile_initial h effectLog traceLog
  have hgraph : MergesPrompt (tableOf engine.nodes) := compile_mergesPrompt h hmerges
  have hsolves := htr.solves h₀ hgraph hinjected hwrap hidle
  have hok : ¬(program.stmts.foldl compileStmt .new).Failed := fun ⟨d, hd, hkind⟩ =>
    compile_diags h d hd hkind
  have hunbound : Compiler.new.Binds (fun v => (sent v tr).map Event.unnumbered) [] :=
    fun name id hid => by cases hid
  have hengine := compile_engine h
  have hpre : tableOf (program.stmts.foldl compileStmt .new).engine.nodes <+:
      tableOf engine.nodes := hengine ▸ List.prefix_refl _
  obtain ⟨rows, hrows, hmeans⟩ := hsolves.means hunbound hok hpre
  have htable : tableOf engine.nodes = rows := by
    rw [hengine]
    exact hrows
  have heffects :=
    shuffles_effectsOf { engine with effectLog := effectLog, traceLog := traceLog } tr
  refine ⟨?_, _, heffects, (htr.accounts h₀).effects⟩
  rw [Engine.comesIn, Engine.goesOut, htable]
  exact hmeans

/-- A meaning of the program with the merge. -/
theorem compile_preserves_meaning_countBoth : ∃ engine e tr, compile countBoth = .ok (engine, []) ∧
    EngineTrace true engine e tr ∧ e.scheduler.isIdle = true ∧
    Means true [] countBoth.stmts (engine.comesIn tr) (engine.goesOut tr) := by
  obtain ⟨engine, e, tr, hcompile, htr, hidle, hinjected, hissued⟩ := countBoth_trace
  have hsorted : ClockSorted (injected tr) := by
    rw [hinjected]
    simp [ClockSorted, Event.new]
  obtain ⟨hmeans, -⟩ := compile_preserves_meaning hcompile (by decide) engine.effectLog
    engine.traceLog htr hsorted (by omega) hidle
  exact ⟨engine, e, tr, hcompile, htr, hidle, hmeans⟩

/-! ### Programs without merges -/

/-- There is no merge in the expression. -/
def Expr.mergeFree : Expr → Bool
  | .pipe lhs _ => lhs.mergeFree
  | .merge _ _ => false
  | _ => true

/-- There is no merge in the statement. -/
def Stmt.mergeFree : Stmt → Bool
  | .letStmt _ expr => expr.mergeFree
  | _ => true

/-- The events of the stream are on one clock. -/
def OneClock (s : List Event) : Prop := ∃ c, ∀ ev ∈ s, ev.stamp.clock = c

/-- A stream on one clock arrives as it was sent. -/
theorem SameByClock.eq {s t : List Event} (h : SameByClock s t) (hs : OneClock s) : t = s := by
  obtain ⟨c, hc⟩ := hs
  have hall : onClock c s = s := List.filter_eq_self.mpr fun ev hev => by simpa using hc ev hev
  have ht : ∀ ev ∈ t, ev.stamp.clock = c := by
    intro ev hev
    have hmem : ev ∈ onClock ev.stamp.clock s := by
      rw [h]
      exact List.mem_filter.mpr ⟨hev, by simp⟩
    exact hc ev (List.mem_filter.mp hmem).1
  have hall' : onClock c t = t := List.filter_eq_self.mpr fun ev hev => by simpa using ht ev hev
  rw [← hall', ← h c, hall]

theorem OneClock.feed {kind kind' : NodeKind} {s out : List Event} (hs : OneClock s)
    (hback : kind.keptBack = []) (h : kind.feed checks s = .ok (out, kind')) : OneClock out := by
  obtain ⟨c, hc⟩ := hs
  refine ⟨c, fun o ho => ?_⟩
  obtain ⟨ev, hev, hstamp⟩ := exists_stamp_of_feed hback h ho
  rw [← hstamp, hc ev hev]

/-- The streams that are bound are on one clock each. -/
def Streams.OneClock (ρ : Streams) : Prop := ∀ name s, ρ.lookup name = some s → Core.OneClock s

theorem Streams.OneClock.cons {ρ : Streams} (h : ρ.OneClock) {name : String} {s : List Event}
    (hs : Core.OneClock s) : Streams.OneClock ((name, s) :: ρ) := by
  intro other t ht
  rw [List.lookup_cons] at ht
  cases hname : other == name with
  | true =>
    rw [hname] at ht
    exact Option.some.inj ht ▸ hs
  | false =>
    rw [hname] at ht
    exact h other t ht

/-- Without merges an expression over streams on one clock carries one stream, on one clock. -/
theorem Expr.Carries.unique {ρ : Streams} (hρ : ρ.OneClock) {expr : Expr}
    (hfree : expr.mergeFree = true) {s t : List Event} (hs : expr.Carries checks ρ s)
    (ht : expr.Carries checks ρ t) : t = s ∧ OneClock s := by
  induction hs generalizing t with
  | ident h =>
    cases ht with
    | ident h' => exact ⟨Option.some.inj (h'.symm.trans h), hρ _ _ h⟩
  | @pipe lhs op s₁ s' out kind hlhs harrives hfeed ih =>
    cases ht with
    | @pipe _ _ t₁ t' _ kind' hlhs' harrives' hfeed' =>
      obtain ⟨rfl, hone⟩ := ih hfree hlhs'
      rw [harrives.eq hone] at hfeed
      rw [harrives'.eq hone, hfeed] at hfeed'
      obtain ⟨rfl, rfl⟩ := Prod.mk.inj (Except.ok.inj hfeed')
      exact ⟨rfl, hone.feed (made_compileOp op 0).keptBack hfeed⟩
  | merge => cases hfree

theorem not_carries_of_isLiteral {ρ : Streams} {expr : Expr} (h : expr.isLiteral = true)
    {s : List Event} : ¬expr.Carries checks ρ s := by
  intro hs
  induction hs with
  | ident => cases h
  | pipe _ _ _ ih => exact ih h
  | merge => cases h

theorem takes_unique {ρ : Streams} (hρ : ρ.OneClock) {sinks : List Sink}
    {taken taken' : List (SinkKind × List Event)} (h : List.Forall₂ (Sink.Takes ρ) sinks taken)
    (h' : List.Forall₂ (Sink.Takes ρ) sinks taken') : taken' = taken := by
  induction h generalizing taken' with
  | nil =>
    cases h'
    rfl
  | @cons sink first sinks rest hfirst _ ih =>
    cases h' with
    | @cons _ first' _ rest' hfirst' hrest' =>
      obtain ⟨hkind, s, hs, harrives⟩ := hfirst
      obtain ⟨hkind', s', hs', harrives'⟩ := hfirst'
      obtain rfl := Option.some.inj (hs.symm.trans hs')
      have hone := hρ _ _ hs
      have heq : first' = first := Prod.ext (hkind'.trans hkind.symm)
        ((harrives'.eq hone).trans (harrives.eq hone).symm)
      rw [heq, ih hrest']

/-- **One meaning.** Without merges, and with one clock at each source, what comes in determines
what the sinks take. -/
theorem Means.unique {ρ : Streams} {stmts : List Stmt} {ins : List (List Event)}
    {outs outs' : List (SinkKind × List Event)} (h : Means checks ρ stmts ins outs)
    (h' : Means checks ρ stmts ins outs') (hρ : ρ.OneClock)
    (hfree : ∀ stmt ∈ stmts, stmt.mergeFree = true) (hins : ∀ s ∈ ins, OneClock s) :
    outs' = outs := by
  induction h generalizing outs' with
  | done =>
    cases h'
    rfl
  | source harrives h ih =>
    cases h' with
    | source harrives' h'' =>
      have hs := hins _ List.mem_cons_self
      rw [harrives.eq hs] at ih
      rw [harrives'.eq hs] at h''
      exact ih h'' (hρ.cons hs) (fun stmt hstmt => hfree stmt (List.mem_cons_of_mem _ hstmt))
        fun s hmem => hins s (List.mem_cons_of_mem _ hmem)
  | letStmt hexpr h ih =>
    have hfree' := fun stmt hstmt => hfree stmt (List.mem_cons_of_mem _ hstmt)
    cases h' with
    | letStmt hexpr' h'' =>
      obtain ⟨rfl, hone⟩ := hexpr.unique hρ (hfree _ List.mem_cons_self) hexpr'
      exact ih h'' (hρ.cons hone) hfree' hins
    | literal hliteral h'' => exact absurd hexpr (not_carries_of_isLiteral hliteral)
  | literal hliteral h ih =>
    have hfree' := fun stmt hstmt => hfree stmt (List.mem_cons_of_mem _ hstmt)
    cases h' with
    | letStmt hexpr' h'' => exact absurd hexpr' (not_carries_of_isLiteral hliteral)
    | literal _ h'' => exact ih h'' hρ hfree' hins
  | emit hsinks h ih =>
    have hfree' := fun stmt hstmt => hfree stmt (List.mem_cons_of_mem _ hstmt)
    cases h' with
    | @emit _ _ _ taken' _ outs' hsinks' h'' =>
      rw [ih h'' hρ hfree' hins, takes_unique hρ hsinks hsinks']

theorem mergePrompt_of_mergeFree {expr : Expr} (h : expr.mergeFree = true)
    (marks : List (String × Bool)) : expr.mergePrompt marks = true := by
  induction expr with
  | pipe lhs op ih => exact ih h
  | merge a b => cases h
  | _ => rfl

theorem mergesPrompt_of_mergeFree {stmts : List Stmt} (h : ∀ stmt ∈ stmts, stmt.mergeFree = true)
    (marks : List (String × Bool)) : mergesPrompt marks stmts = true := by
  induction stmts generalizing marks with
  | nil => rfl
  | cons stmt stmts ih =>
    have hrest := ih fun s hs => h s (List.mem_cons_of_mem _ hs)
    cases stmt with
    | source name clock kind => exact hrest _
    | letStmt name expr =>
      rw [mergesPrompt, hrest, Bool.and_true]
      exact mergePrompt_of_mergeFree (h _ List.mem_cons_self) marks
    | emit sinks => exact hrest _

/-- **The schedule does not matter.** Without merges, when the same events came into the sources of
two engines of one program, each source on one clock, and both are at rest, their sinks took the
same events in the same order. How the injections, clock ticks and turns were interleaved leaves no
trace. -/
theorem goesOut_of_comesIn {program : Program} {engine : Engine} {warnings : List CompileError}
    (h : compile program = .ok (engine, warnings))
    (hfree : ∀ stmt ∈ program.stmts, stmt.mergeFree = true) {e e' : Engine}
    {tr tr' : List (Act Event)} (htr : EngineTrace checks engine e tr)
    (htr' : EngineTrace checks engine e' tr') (hinjected : ClockSorted (injected tr))
    (hinjected' : ClockSorted (injected tr')) (hwrap : (issued tr).length ≤ 2 ^ 32)
    (hwrap' : (issued tr').length ≤ 2 ^ 32) (hidle : e.scheduler.isIdle = true)
    (hidle' : e'.scheduler.isIdle = true) (hsame : engine.comesIn tr' = engine.comesIn tr)
    (hone : ∀ s ∈ engine.comesIn tr, OneClock s) : engine.goesOut tr' = engine.goesOut tr := by
  have hprompt : program.mergesPrompt = true := mergesPrompt_of_mergeFree hfree []
  obtain ⟨hmeans, -⟩ := compile_preserves_meaning h hprompt engine.effectLog engine.traceLog htr
    hinjected hwrap hidle
  obtain ⟨hmeans', -⟩ := compile_preserves_meaning h hprompt engine.effectLog engine.traceLog htr'
    hinjected' hwrap' hidle'
  rw [hsame] at hmeans'
  exact hmeans.unique hmeans' (fun name s hs => by cases hs) hfree hone

/-- A source into a counter. -/
def countOne : Program :=
  ⟨[.source "rf" none .rf, .letStmt "n" (.pipe (.ident "rf") .foldCount), .emit [.usbPrint "n"]]⟩

/-- Two events that wait for each other, or come one after the other. -/
theorem goesOut_of_comesIn_countOne : ∃ engine e e' tr tr', compile countOne = .ok (engine, []) ∧
    EngineTrace true engine e tr ∧ EngineTrace true engine e' tr' ∧
    (fired 0 (tr.take 2)).length = 0 ∧ (fired 0 (tr'.take 2)).length = 1 ∧ engine.goesOut tr' = engine.goesOut tr := by
  have h₀ := @EngineTrace.start true (countOne.stmts.foldl compileStmt .new).typeCheck.engine
  have h₁ := @EngineTrace.inject _ _ _ _ _ "rf" (.new ⟨0, 5⟩ .unit) _ h₀ rfl rfl
  have h₂ := @EngineTrace.inject _ _ _ _ _ "rf" (.new ⟨0, 7⟩ .unit) _ h₁ rfl rfl
  have h₃ := ((h₂.turn rfl rfl rfl rfl).turn rfl rfl rfl rfl).turn rfl rfl rfl rfl
  have h₄ := ((h₃.turn rfl rfl rfl rfl).turn rfl rfl rfl rfl).turn rfl rfl rfl rfl
  have h₁' := ((h₁.turn rfl rfl rfl rfl).turn rfl rfl rfl rfl).turn rfl rfl rfl rfl
  have h₂' := @EngineTrace.inject _ _ _ _ _ "rf" (.new ⟨0, 7⟩ .unit) _ h₁' rfl rfl
  have h₃' := ((h₂'.turn rfl rfl rfl rfl).turn rfl rfl rfl rfl).turn rfl rfl rfl rfl
  have hcompile : compile countOne =
      .ok ((countOne.stmts.foldl compileStmt .new).typeCheck.engine, []) := rfl
  refine ⟨_, _, _, _, _, hcompile, h₄, h₃', rfl, rfl, goesOut_of_comesIn hcompile ?_ h₄ h₃' ?_ ?_
    ?_ ?_ rfl rfl rfl ?_⟩
  · simp [countOne, Stmt.mergeFree, Expr.mergeFree]
  · change ClockSorted [.new ⟨0, 5⟩ .unit, { Event.new ⟨0, 7⟩ .unit with seq := 1 }]
    simp [ClockSorted, Event.new]
  · change ClockSorted [.new ⟨0, 5⟩ .unit, { Event.new ⟨0, 7⟩ .unit with seq := 4 }]
    simp [ClockSorted, Event.new]
  · decide
  · decide
  · intro s hs
    obtain rfl := List.mem_singleton.mp hs
    exact ⟨0, by decide⟩

end Rivr.Core
