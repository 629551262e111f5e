import Rivr.Core.Ast
import Rivr.Core.Engine

/-!
# The compiler

`rivr_core/src/compiler.rs`: statements are lowered in order, each expression bottom up; a
node is connected only from nodes that are there already. Diagnostics are collected on the
way, and the engine is returned when none of them is an error.
-/

namespace Rivr.Core

/-! ### Diagnostics -/

/-- `ErrorKind`. -/
inductive ErrorKind where
  | error | warning
  deriving DecidableEq, Repr

/-- `CompileError`. -/
structure CompileError where
  kind : ErrorKind
  message : String
  deriving DecidableEq, Repr

/-- `Compiler`. -/
structure Compiler where
  engine : Engine
  bindings : NameMap
  diags : List CompileError
  nextAnon : ℕ
  deriving DecidableEq

/-- `Compiler::new`. -/
def Compiler.new : Compiler := ⟨.new, [], [], 0⟩

/-- `Compiler::fresh`. -/
def Compiler.fresh (c : Compiler) (pre : String) : String × Compiler :=
  (pre ++ "#" ++ toString c.nextAnon, { c with nextAnon := c.nextAnon + 1 })

/-- `Compiler::error`. -/
def Compiler.error (c : Compiler) (msg : String) : Compiler :=
  { c with diags := c.diags ++ [⟨.error, msg⟩] }

/-- `Compiler::warn`. -/
def Compiler.warn (c : Compiler) (msg : String) : Compiler :=
  { c with diags := c.diags ++ [⟨.warning, msg⟩] }

/-- `Compiler::resolve`. -/
def Compiler.resolve (c : Compiler) (name : String) : Option ℕ := c.bindings.lookup name

/-! ### Operators -/

/-- `format!("{x:.prec$}")` on `f64`: the exact value rounded half to even. -/
def fmtF64 (prec : ℕ) (x : Float) : String :=
  let bits := x.toBits.toNat
  let sign := if bits / 2 ^ 63 = 1 then "-" else ""
  let e := bits / 2 ^ 52 % 2 ^ 11
  let frac := bits % 2 ^ 52
  if e = 2 ^ 11 - 1 then if frac = 0 then sign ++ "inf" else "NaN"
  else
    -- the value is `m * 2 ^ (max e 1) / 2 ^ 1075`
    let m := if e = 0 then frac else frac + 2 ^ 52
    let num := m * 10 ^ prec * 2 ^ max e 1
    let q := num / 2 ^ 1075
    let r := num % 2 ^ 1075
    let q := if 2 ^ 1075 < 2 * r ∨ (2 ^ 1075 = 2 * r ∧ q % 2 = 1) then q + 1 else q
    let digits := toString (q % 10 ^ prec)
    let pad := String.ofList (List.replicate (prec - digits.length) '0')
    sign ++ toString (q / 10 ^ prec) ++ "." ++ pad ++ digits

/-- The policy's debug text. -/
def WindowPolicy.debug : WindowPolicy → String
  | .dropOldest => "DropOldest"
  | .dropNewest => "DropNewest"
  | .flushEarly => "FlushEarly"

/-- The runtime policy a window policy compiles to. -/
def WindowPolicy.toDropPolicy : WindowPolicy → DropPolicy
  | .dropOldest => .dropOldest
  | .dropNewest => .dropNewest
  | .flushEarly => .flushEarly

/-- `Compiler::compile_op`: the node's name and kind. -/
def compileOp : PipeOp → String × NodeKind
  | .mapUpper => ("map.upper", .mapUpper)
  | .mapLower => ("map.lower", .mapLower)
  | .mapTrim => ("map.trim", .mapTrim)
  | .filterNonempty => ("filter.nonempty", .filterNonempty)
  | .foldCount => ("fold.count", .foldCount 0)
  | .foldSum => ("fold.sum", .foldSum 0)
  | .foldLast => ("fold.last", .foldLast none)
  | .filterKind k => ("filter.kind(" ++ k ++ ")", .filterKind k)
  | .filterPktType t => ("filter.pkt_type(" ++ toString t ++ ")", .filterPktType t)
  | .windowMs ms => ("window.ms(" ++ toString ms ++ ")",
      .windowMs (.windowTicks ⟨ms, windowCap, .new, 0, .dropOldest⟩))
  | .throttleMs ms => ("throttle.ms(" ++ toString ms ++ ")",
      .throttleMs (.throttleTicks ⟨ms, UInt64.ofNat (2 ^ 64 - 1)⟩))
  | .debounceMs ms => ("debounce.ms(" ++ toString ms ++ ")",
      .debounceMs (.delayTicks ⟨ms, none⟩))
  | .windowTicks n => ("window.ticks(" ++ toString n ++ ")",
      .windowTicks ⟨n, windowCap, .new, 0, .dropOldest⟩)
  | .windowTicksCapped ticks cap policy =>
      ("window.ticks(" ++ toString ticks ++ "," ++ toString cap ++ "," ++ policy.debug ++ ")",
        .windowTicks ⟨ticks, min cap windowCap, .new, 0, policy.toDropPolicy⟩)
  | .throttleTicks n => ("throttle.ticks(" ++ toString n ++ ")",
      .throttleTicks ⟨n, UInt64.ofNat (2 ^ 64 - 1)⟩)
  | .delayTicks n => ("delay.ticks(" ++ toString n ++ ")", .delayTicks ⟨n, none⟩)
  | .budget rate burst => ("budget(" ++ fmtF64 2 rate ++ ")",
      .budget ⟨rate / 1000.0, burst, burst.toFloat, 0⟩)
  | .budgetAirtime windowTicks duty =>
      ("budget.airtime(" ++ toString windowTicks ++ "," ++ fmtF64 3 duty ++ ")",
        .airtimeBudget ⟨windowTicks,
          if duty ≤ 0.0 then 0 else (windowTicks.toFloat * duty).toUInt64, 0, 0, 0⟩)
  | .budgetToaUs windowMs duty toaUs =>
      ("budget.toa_us(" ++ toString windowMs ++ "," ++ fmtF64 3 duty ++ "," ++ toString toaUs ++
        "us)",
        .toaBudget ⟨windowMs,
          if duty ≤ 0.0 then 0 else (windowMs.toFloat * duty * 1000.0).toUInt64, 0, 0, toaUs, 0⟩)
  | .tag label => ("tag(" ++ label ++ ")", .tag label)

/-! ### Expressions and statements -/

/-- Appending a node of the given name and kind that is fed by the nodes `ups`. -/
def Compiler.addFed (c : Compiler) (name : String) (kind : NodeKind) (ups : List ℕ) :
    ℕ × Compiler :=
  let (id, engine) := c.engine.addNode (Node.new c.engine.nodes.length name kind)
  (id, { c with engine := ups.foldl (fun e up => e.connect up id) engine })

/-- `Compiler::compile_expr`: the terminal node, or `none` after a diagnostic. -/
def compileExpr : Expr → Compiler → Option ℕ × Compiler
  | .ident name, c =>
    match c.resolve name with
    | some id => (some id, c)
    | none => (none, c.error ("undefined stream `" ++ name ++ "`"))
  | .lit _, c =>
    (none, c.warn "standalone literals are not yet supported as stream expressions")
  | .pipe lhs op, c =>
    match compileExpr lhs c with
    | (none, c) => (none, c)
    | (some upstream, c) =>
      let (name, c) := c.fresh (compileOp op).1
      let (id, c) := c.addFed name (compileOp op).2 [upstream]
      (some id, c)
  | .merge a b, c =>
    match c.resolve a with
    | none => (none, c.error ("undefined stream `" ++ a ++ "` in merge"))
    | some idA =>
      match c.resolve b with
      | none => (none, c.error ("undefined stream `" ++ b ++ "` in merge"))
      | some idB =>
        let (name, c) := c.fresh "merge"
        let (id, c) := c.addFed name .merge [idA, idB]
        (some id, c)

/-- `clock_id`. -/
def clockId (name : String) : UInt8 :=
  if name = "mono" ∨ name = "ms" then 0
  else if name = "lmp" then 1
  else if name = "gps" then 2
  else 0

/-- The clock and the interval of a source: timers run on clock 0 whatever the annotation. -/
def sourceClock (clock : Option ClockAnnotation) : SourceKind → UInt8 × Option UInt64
  | .timer intervalMs => (0, some intervalMs)
  | _ => ((clock.map fun a => clockId a.name).getD 0, none)

/-- The stream a sink takes, and its runtime kind. -/
def Sink.target : Sink → String × SinkKind
  | .usbPrint n => (n, .usbPrint)
  | .loraTx n => (n, .loraTx)
  | .loraBeacon n => (n, .loraBeacon)
  | .debugDump n => (n, .debugDump)

/-- One sink of an `emit` block. -/
def compileSink (c : Compiler) (sink : Sink) : Compiler :=
  match c.resolve sink.target.1 with
  | none => c.error ("emit references undefined stream `" ++ sink.target.1 ++ "`")
  | some upstream =>
    (c.addFed ("emit(" ++ sink.target.1 ++ ")") (.emit sink.target.2) [upstream]).2

/-- `self.engine.nodes[id].name = name`. -/
def Engine.renameNode (e : Engine) (id : ℕ) (name : String) : Engine :=
  { e with nodes := e.nodes.modify id fun n => { n with name := name } }

/-- Registering the node of a `source` statement under its name. -/
def Compiler.bindSource (c : Compiler) (name : String) (id : ℕ) : Compiler :=
  { c with
    engine := c.engine.registerSource name id
    bindings := c.bindings.insert name id }

/-- Naming the terminal node of a `let` statement. -/
def Compiler.bindStream (c : Compiler) (name : String) (id : ℕ) : Compiler :=
  { c with
    engine := (c.engine.renameNode id name).registerStream name id
    bindings := c.bindings.insert name id }

/-- `Compiler::compile_stmt`. -/
def compileStmt (c : Compiler) : Stmt → Compiler
  | .source name clock kind =>
    let (effectiveClock, intervalMs) := sourceClock clock kind
    let (id, c) := c.addFed name (.source name effectiveClock intervalMs) []
    let c := c.bindSource name id
    if kind = .programmatic then
      c.warn ("source `" ++ name ++ "` is programmatic – events must be injected by the host")
    else c
  | .letStmt name expr =>
    match compileExpr expr c with
    | (none, c) => c
    | (some terminal, c) => c.bindStream name terminal
  | .emit sinks => sinks.foldl compileSink c

/-- `matches!(kind, NodeKind::Source { .. })`. -/
def NodeKind.isSource : NodeKind → Bool
  | .source .. => true
  | _ => false

/-- `matches!(kind, NodeKind::Emit { .. })`. -/
def NodeKind.isEmit : NodeKind → Bool
  | .emit _ => true
  | _ => false

/-- `Compiler::type_check`. -/
def Compiler.typeCheck (c : Compiler) : Compiler :=
  let c := if c.engine.nodes.any fun n => n.kind.isSource then c
    else c.warn "program declares no `source` – no events will flow"
  if c.engine.nodes.any fun n => n.kind.isEmit then c
  else c.warn "program has no `emit` block – events are silently discarded"

/-- `compile`. -/
def compile (program : Program) : Except (List CompileError) (Engine × List CompileError) :=
  let c := (program.stmts.foldl compileStmt .new).typeCheck
  if c.diags.any fun d => d.kind = .error then .error c.diags else .ok (c.engine, c.diags)

end Rivr.Core
