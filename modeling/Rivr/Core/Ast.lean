/-!
# The RIVR syntax tree

`rivr_core/src/ast.rs`: a program is a list of `source`, `let` and `emit` statements over
pipeline expressions.
-/

namespace Rivr.Core

/-- `Literal`. -/
inductive Literal where
  | int (n : Int64)
  | float (x : Float)
  | str (s : String)
  deriving DecidableEq

/-- `WindowPolicy`: what a capped window does with an event that does not fit. -/
inductive WindowPolicy where
  | dropOldest | dropNewest | flushEarly
  deriving DecidableEq, Repr

/-- `PipeOp`: one step of a pipeline. -/
inductive PipeOp where
  | mapUpper
  | mapLower
  | mapTrim
  | filterNonempty
  | filterKind (kind : String)
  | foldCount
  | foldSum
  | foldLast
  | windowMs (ms : UInt64)
  | throttleMs (ms : UInt64)
  | debounceMs (ms : UInt64)
  | windowTicks (n : UInt64)
  | windowTicksCapped (ticks : UInt64) (cap : Nat) (policy : WindowPolicy)
  | filterPktType (pktType : UInt8)
  | throttleTicks (n : UInt64)
  | delayTicks (n : UInt64)
  | budget (rate : Float) (burst : UInt64)
  | budgetAirtime (windowTicks : UInt64) (duty : Float)
  | budgetToaUs (windowMs : UInt64) (duty : Float) (toaUs : UInt64)
  | tag (label : String)
  deriving DecidableEq

/-- `Expr`: every expression denotes a stream. -/
inductive Expr where
  | ident (name : String)
  | lit (l : Literal)
  | pipe (lhs : Expr) (op : PipeOp)
  | merge (a b : String)
  deriving DecidableEq

/-- `Sink`: the sinks an `emit` block can name, each with the stream it takes. -/
inductive Sink where
  | usbPrint (stream : String)
  | loraTx (stream : String)
  | loraBeacon (stream : String)
  | debugDump (stream : String)
  deriving DecidableEq, Repr

/-- `SourceKind`. -/
inductive SourceKind where
  | usb | lora | rf | programmatic
  | timer (intervalMs : UInt64)
  deriving DecidableEq, Repr

/-- `ClockAnnotation`. -/
structure ClockAnnotation where
  name : String
  deriving DecidableEq, Repr

/-- `Stmt`. -/
inductive Stmt where
  | source (name : String) (clock : Option ClockAnnotation) (kind : SourceKind)
  | letStmt (name : String) (expr : Expr)
  | emit (sinks : List Sink)
  deriving DecidableEq

/-- `Program`. -/
structure Program where
  stmts : List Stmt
  deriving DecidableEq

end Rivr.Core
