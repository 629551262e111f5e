import Mathlib.Algebra.Ring.Nat
import Rivr.Core.Ast
import Rivr.ForMathlib.ByteParser

/-!
# The parser

`rivr_core/src/parser.rs`. The cursor is the position `pos` and the bytes `rest` of the source from
there on, so `self.src[self.pos..]` is `rest` and panics when `rest` starts inside a character. The
parameter `uni` is the standard library's table of alphanumeric characters outside ASCII.
-/

open ByteParser Utf8

namespace Rivr.Core

/-! ### Errors -/

/-- What a `ParseError` says. -/
inductive ParseMsg where
  | expected (kw ctx : String)
  | expectedIdentifier
  | expectedInteger
  | expectedNumber
  | numberTooLarge
  | invalidFloat
  | mustBePositive (what : String)
  | unterminatedString
  | unknownEscape (c : Char)
  | pktTypeRange
  | unknownWindowPolicy (name : String)
  | unknownPipeOp (name : String)
  | unknownSink (name : String)
  | timerInterval
  | unknownSourceKind (name : String)
  | expectedStmt (ctx : String)
  deriving DecidableEq, Repr

/-- The text of the message. -/
def ParseMsg.text : ParseMsg → String
  | .expected kw ctx => "expected `" ++ kw ++ "`, found `" ++ ctx ++ "…`"
  | .expectedIdentifier => "expected identifier"
  | .expectedInteger => "expected integer"
  | .expectedNumber => "expected number"
  | .numberTooLarge => "number too large to fit in target type"
  | .invalidFloat => "invalid float literal"
  | .mustBePositive what => what ++ " must be > 0"
  | .unterminatedString => "unterminated string literal"
  | .unknownEscape c => "unknown escape \\" ++ c.toString
  | .pktTypeRange => "filter.pkt_type argument must be 0–255"
  | .unknownWindowPolicy name => "unknown window policy `" ++ name ++ "`"
  | .unknownPipeOp name => "unknown pipe operator `" ++ name ++ "`"
  | .unknownSink name => "unknown sink `" ++ name ++ "`"
  | .timerInterval => "timer interval must be > 0"
  | .unknownSourceKind name => "unknown source kind `" ++ name ++ "`"
  | .expectedStmt ctx => "expected `source`, `let`, or `emit`; found `" ++ ctx ++ "…`"

/-- `Parser`, with its `Result`. -/
abbrev Parse (α : Type) : Type := Parser ParseMsg α

/-! ### Classes of characters -/

/-- `u8::is_ascii_whitespace`. -/
def isAsciiWhitespace (b : UInt8) : Bool := b == 32 || b == 9 || b == 10 || b == 12 || b == 13

/-- `u8::is_ascii_digit`. -/
def isAsciiDigit (b : UInt8) : Bool := 48 ≤ b && b ≤ 57

/-- `b.is_ascii_alphanumeric() || b == b'_'`. -/
def isIdentByte (b : UInt8) : Bool :=
  isAsciiDigit b || (65 ≤ b && b ≤ 90) || (97 ≤ b && b ≤ 122) || b == 95

/-- A byte of a dotted name. -/
def isDottedByte (b : UInt8) : Bool := isIdentByte b || b == 46

/-- A byte of a float. -/
def isFloatByte (b : UInt8) : Bool := isAsciiDigit b || b == 46

/-- The string of a slice of ASCII bytes. -/
def asciiString (bytes : List UInt8) : String :=
  String.ofList (bytes.map fun b => Char.ofNat b.toNat)

/-! ### Cursor helpers -/

/-- `self.src[self.pos..].starts_with(w)`. -/
def startsWith (w : String) : Parse Bool := fun pos rest =>
  if isCharBoundary rest then .ok ((utf8 w.toList).isPrefixOf rest) pos rest else .panic

/-- `peek`. -/
def peek : Parse Char := fun pos rest =>
  if isCharBoundary rest then .ok (nextChar rest) pos rest else .panic

/-- `while` the byte at the position meets the predicate, `self.pos += 1`. -/
def skipWhile (P : UInt8 → Bool) : Parse Unit := fun pos rest =>
  .ok () (pos + (rest.takeWhile P).length) (rest.dropWhile P)

/-- The same, and the slice from where it started. -/
def sliceWhile (P : UInt8 → Bool) : Parse (List UInt8) := fun pos rest =>
  if isCharBoundary rest && isCharBoundary (rest.dropWhile P) then
    .ok (rest.takeWhile P) (pos + (rest.takeWhile P).length) (rest.dropWhile P)
  else .panic

/-- One round of `skip_ws`: whitespace, and a comment up to the end of its line. -/
def skipWsStep (_ : Unit) : Parse (Unit ⊕ Unit) := do
  skipWhile isAsciiWhitespace
  if ← startsWith "//" then
    skipWhile fun b => b != 10
    return .inl ()
  else return .inr ()

/-- `skip_ws`. -/
def skipWs : Parse Unit := loop skipWsStep ()

/-- The first `n` characters of the source from here. -/
def charsTake : ℕ → List UInt8 → List Char
  | 0, _ => []
  | _ + 1, [] => []
  | n + 1, b :: rest =>
    nextChar (b :: rest) :: charsTake n ((b :: rest).drop (nextChar (b :: rest)).utf8Size)

/-- An error that quotes the first `n` characters of what is left. -/
def failCtx {α : Type} (n : ℕ) (msg : String → ParseMsg) : Parse α := fun pos rest =>
  if isCharBoundary rest then .err pos (msg (String.ofList (charsTake n rest))) else .panic

/-- `self.pos >= self.src.len()`. -/
def isEnd : Parse Bool := fun pos rest => .ok rest.isEmpty pos rest

/-- `at_end`. -/
def atEnd : Parse Bool := do
  skipWs
  isEnd

section

variable (uni : Char → Bool)

/-- `char::is_alphanumeric`. -/
def isAlphanumeric (c : Char) : Bool := if c.toNat < 0x80 then c.isAlphanum else uni c

/-- The character goes on with an identifier. -/
def isWordChar (c : Char) : Bool := isAlphanumeric uni c || c == '_'

/-- `eat` once whitespace is skipped: a word is not eaten as the start of a longer identifier. -/
def eatHere (kw : String) : Parse Bool := fun pos rest =>
  let bytes := utf8 kw.toList
  let after := rest.drop bytes.length
  let lastAlnum := (kw.toList.getLast?.map (isWordChar uni)).getD false
  if !isCharBoundary rest then .panic
  else if !bytes.isPrefixOf rest then .ok false pos rest
  else if lastAlnum && !isCharBoundary after then .panic
  else if lastAlnum && isWordChar uni (nextChar after) then .ok false pos rest
  else .ok true (pos + bytes.length) after

/-- `eat`. -/
def eat (kw : String) : Parse Bool := do
  skipWs
  eatHere uni kw

/-- `expect`. -/
def expect (kw : String) : Parse Unit := do
  if ← eat uni kw then return ()
  else
    skipWs
    failCtx 12 (.expected kw)

/-! ### Token parsers -/

/-- `parse_ident`. -/
def parseIdent : Parse String := do
  skipWs
  let slice ← sliceWhile isIdentByte
  if slice.isEmpty then fail .expectedIdentifier
  else return asciiString slice

/-- The number that decimal digits spell. -/
def digitsValue (digits : List UInt8) : ℕ := digits.foldl (fun n b => 10 * n + (b.toNat - 48)) 0

/-- `parse_uint`, with `str::parse::<u64>` of a slice of digits. -/
def parseUint : Parse UInt64 := do
  skipWs
  let start ← getPos
  let slice ← sliceWhile isAsciiDigit
  if slice.isEmpty then fail .expectedInteger
  else if digitsValue slice < 2 ^ 64 then return UInt64.ofNat (digitsValue slice)
  else failAt start .numberTooLarge

/-- `parse_positive_uint`. -/
def parsePositiveUint (what : String) : Parse UInt64 := do
  let value ← parseUint
  if value = 0 then fail (.mustBePositive what)
  else return value

/-- `str::parse::<f64>` of a slice of digits and points: it wants a digit, and one point at most. -/
def parseF64 (slice : List UInt8) : Option Float :=
  let digits := slice.filter isAsciiDigit
  if digits.isEmpty || 1 < slice.count 46 then none
  else
    let decimals := ((slice.dropWhile fun b => b != 46).drop 1).length
    some (Float.ofScientific (digitsValue digits) true decimals)

/-- `parse_float`. -/
def parseFloat : Parse Float := do
  skipWs
  let start ← getPos
  let slice ← sliceWhile isFloatByte
  if slice.isEmpty then fail .expectedNumber
  else
    match parseF64 slice with
    | some value => return value
    | none => failAt start .invalidFloat

/-- The character an escape stands for. -/
def escaped (b : UInt8) : Option Char :=
  if b = 110 then some '\n'
  else if b = 116 then some '\t'
  else if b = 92 then some '\\'
  else if b = 34 then some '"'
  else none

/-- One round of the loop of `parse_string`. A character that is not escaped is pushed whole, and
the position moves on by one byte. -/
def parseStringStep (result : List Char) : Parse (List Char ⊕ List Char) := fun pos rest =>
  match rest with
  | [] => .err pos .unterminatedString
  | b :: tail =>
    if b = 34 then .ok (.inr result) (pos + 1) tail
    else if b = 92 then
      match tail with
      | [] => .err (pos + 1) (.unknownEscape '\x00')
      | c :: tail =>
        match escaped c with
        | some ch => .ok (.inl (result ++ [ch])) (pos + 2) tail
        | none => .err (pos + 1) (.unknownEscape (Char.ofNat c.toNat))
    else if isCharBoundary rest then
      .ok (.inl (result ++ [nextChar rest])) (pos + 1) tail
    else .panic

/-- `parse_string`. -/
def parseString : Parse String := do
  skipWs
  expect uni "\""
  let result ← loop parseStringStep []
  return String.ofList result

/-- `read_dotted_name`. -/
def readDottedName : Parse String := do
  skipWs
  let slice ← sliceWhile isDottedByte
  return asciiString slice

/-! ### Pipe operators -/

/-- An operator without arguments. -/
def nullaryOp (op : PipeOp) : Parse PipeOp := do
  expect uni "()"
  return op

/-- An operator with one string. -/
def stringOp (op : String → PipeOp) : Parse PipeOp := do
  expect uni "("
  let label ← parseString uni
  expect uni ")"
  return op label

/-- An operator with one positive integer. -/
def positiveOp (what : String) (op : UInt64 → PipeOp) : Parse PipeOp := do
  expect uni "("
  let n ← parsePositiveUint what
  expect uni ")"
  return op n

/-- `skip_named!`. -/
def skipNamed (key : String) : Parse Unit := do
  if ← eat uni key then
    let _ ← eat uni "="
    return ()
  else return ()

/-- `filter.pkt_type(T)`. -/
def pktTypeOp : Parse PipeOp := do
  expect uni "("
  let t ← parseUint
  if t > 255 then fail .pktTypeRange
  else
    expect uni ")"
    return .filterPktType t.toUInt8

/-- The policy of a capped window. -/
def windowPolicy (name : String) : Option WindowPolicy :=
  if name = "drop_oldest" ∨ name = "DropOldest" then some .dropOldest
  else if name = "drop_newest" ∨ name = "DropNewest" then some .dropNewest
  else if name = "flush_early" ∨ name = "FlushEarly" then some .flushEarly
  else none

/-- `window.ticks(N)` or `window.ticks(N, CAP, "policy")`; `usize` has 32 bits on the target. -/
def windowTicksOp : Parse PipeOp := do
  expect uni "("
  let n ← parsePositiveUint "window.ticks duration"
  if ← eat uni "," then
    let cap ← parsePositiveUint "window.ticks capacity"
    expect uni ","
    let name ← parseString uni
    expect uni ")"
    match windowPolicy name with
    | some policy => return .windowTicksCapped n cap.toUInt32.toNat policy
    | none => fail (.unknownWindowPolicy name)
  else
    expect uni ")"
    return .windowTicks n

/-- `budget(RATE, BURST)`. -/
def budgetOp : Parse PipeOp := do
  expect uni "("
  let rate ← parseFloat
  expect uni ","
  let burst ← parseUint
  expect uni ")"
  return .budget rate burst

/-- `budget.airtime(WINDOW_TICKS, DUTY)`. -/
def budgetAirtimeOp : Parse PipeOp := do
  expect uni "("
  skipNamed uni "ms"
  let windowTicks ← parsePositiveUint "budget.airtime window"
  expect uni ","
  skipNamed uni "duty"
  let duty ← parseFloat
  expect uni ")"
  return .budgetAirtime windowTicks duty

/-- `budget.toa_us(WINDOW_MS, DUTY, TOA_US)`. -/
def budgetToaUsOp : Parse PipeOp := do
  expect uni "("
  skipNamed uni "window_ms"
  let windowMs ← parsePositiveUint "budget.toa_us window"
  expect uni ","
  skipNamed uni "duty"
  let duty ← parseFloat
  expect uni ","
  skipNamed uni "toa_us"
  let toaUs ← parseUint
  expect uni ")"
  return .budgetToaUs windowMs duty toaUs

/-- The operators by name. -/
def pipeOps : List (String × Parse PipeOp) :=
  [("map.upper", nullaryOp uni .mapUpper),
   ("map.lower", nullaryOp uni .mapLower),
   ("map.trim", nullaryOp uni .mapTrim),
   ("filter.nonempty", nullaryOp uni .filterNonempty),
   ("fold.count", nullaryOp uni .foldCount),
   ("fold.sum", nullaryOp uni .foldSum),
   ("fold.last", nullaryOp uni .foldLast),
   ("filter.kind", stringOp uni .filterKind),
   ("filter.pkt_type", pktTypeOp uni),
   ("window.ms", positiveOp uni "window.ms duration" .windowMs),
   ("throttle.ms", positiveOp uni "throttle.ms interval" .throttleMs),
   ("debounce.ms", positiveOp uni "debounce.ms delay" .debounceMs),
   ("window.ticks", windowTicksOp uni),
   ("throttle.ticks", positiveOp uni "throttle.ticks interval" .throttleTicks),
   ("delay.ticks", positiveOp uni "delay.ticks delay" .delayTicks),
   ("budget", budgetOp uni),
   ("budget.airtime", budgetAirtimeOp uni),
   ("budget.toa_us", budgetToaUsOp uni),
   ("tag", stringOp uni .tag)]

/-- `parse_pipe_op`. -/
def parsePipeOp : Parse PipeOp := do
  skipWs
  let name ← readDottedName
  match (pipeOps uni).lookup name with
  | some op => op
  | none => fail (.unknownPipeOp name)

/-! ### Expressions, sinks and sources -/

/-- `starts_with` and the step over the word. -/
def skipStr (w : String) : Parse Bool := fun pos rest =>
  if !isCharBoundary rest then .panic
  else if (utf8 w.toList).isPrefixOf rest then
    .ok true (pos + (utf8 w.toList).length) (rest.drop (utf8 w.toList).length)
  else .ok false pos rest

/-- `parse_primary`. -/
def parsePrimary : Parse Expr := do
  skipWs
  if ← eat uni "merge" then
    expect uni "("
    let a ← parseIdent
    expect uni ","
    let b ← parseIdent
    expect uni ")"
    return .merge a b
  else
    let c ← peek
    if c = '"' then
      let s ← parseString uni
      return .lit (.str s)
    else if c.isDigit then
      let n ← parseUint
      return .lit (.int n.toInt64)
    else
      let name ← parseIdent
      return .ident name

/-- One round of the loop of `parse_expr`. -/
def parseExprStep (lhs : Expr) : Parse (Expr ⊕ Expr) := do
  skipWs
  if ← skipStr "|>" then
    let op ← parsePipeOp uni
    return .inl (.pipe lhs op)
  else return .inr lhs

/-- `parse_expr`. -/
def parseExpr : Parse Expr := do
  let lhs ← parsePrimary uni
  loop (parseExprStep uni) lhs

/-- A sink and its stream. -/
def sinkArg (sink : String → Sink) : Parse Sink := do
  expect uni "("
  let a ← parseIdent
  expect uni ")"
  return sink a

/-- `parse_sink`. -/
def parseSink : Parse Sink := do
  skipWs
  let name ← readDottedName
  if name = "io.usb.print" then sinkArg uni .usbPrint
  else if name = "io.lora.tx" then sinkArg uni .loraTx
  else if name = "io.lora.beacon" then sinkArg uni .loraBeacon
  else if name = "io.debug.dump" then sinkArg uni .debugDump
  else fail (.unknownSink name)

/-- `parse_source_kind`. -/
def parseSourceKind : Parse SourceKind := do
  let name ← parseIdent
  if name = "usb" then return .usb
  else if name = "lora" then return .lora
  else if name = "rf" then return .rf
  else if name = "programmatic" then return .programmatic
  else if name = "timer" then
    expect uni "("
    let intervalMs ← parseUint
    if intervalMs = 0 then fail .timerInterval
    else
      expect uni ")"
      return .timer intervalMs
  else fail (.unknownSourceKind name)

/-! ### Statements -/

/-- The clock annotation of a source. -/
def parseClock : Parse (Option ClockAnnotation) := do
  if ← eat uni "@" then
    let name ← parseIdent
    return some ⟨name⟩
  else return none

/-- What follows `source`. -/
def parseSourceStmt : Parse Stmt := do
  let name ← parseIdent
  let clock ← parseClock uni
  expect uni "="
  let kind ← parseSourceKind uni
  expect uni ";"
  return .source name clock kind

/-- What follows `let`. -/
def parseLetStmt : Parse Stmt := do
  let name ← parseIdent
  expect uni "="
  let expr ← parseExpr uni
  expect uni ";"
  return .letStmt name expr

/-- One round of the loop over the sinks of an `emit` block. -/
def parseEmitStep (sinks : List Sink) : Parse (List Sink ⊕ List Sink) := do
  skipWs
  if ← skipStr "\x7d" then return .inr sinks
  else
    let sink ← parseSink uni
    expect uni ";"
    return .inl (sinks ++ [sink])

/-- What follows `emit`. -/
def parseEmitStmt : Parse Stmt := do
  expect uni "\x7b"
  let sinks ← loop (parseEmitStep uni) []
  return .emit sinks

/-- `parse_stmt`. -/
def parseStmt : Parse Stmt := do
  skipWs
  if ← eat uni "source" then parseSourceStmt uni
  else if ← eat uni "let" then parseLetStmt uni
  else if ← eat uni "emit" then parseEmitStmt uni
  else failCtx 16 .expectedStmt

/-- One round of the loop of `parse_program`. -/
def parseProgramStep (stmts : List Stmt) : Parse (List Stmt ⊕ List Stmt) := do
  if ← atEnd then return .inr stmts
  else
    let stmt ← parseStmt uni
    return .inl (stmts ++ [stmt])

/-- `parse_program`. -/
def parseProgram : Parse Program := do
  let stmts ← loop (parseProgramStep uni) []
  return ⟨stmts⟩

/-- `parse`. -/
def parse (src : String) : Outcome ParseMsg Program := parseProgram uni 0 (utf8 src.toList)

end

end Rivr.Core
