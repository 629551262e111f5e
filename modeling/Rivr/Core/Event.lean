import Mathlib.Algebra.Ring.Int.Defs
import Mathlib.Algebra.Ring.Nat
import Mathlib.Data.List.Basic

/-!
# Events and values

`rivr_core/src/runtime/{event,value,bounded}.rs`, in the build with a heap: payload values,
stamps of a clock domain and a tick, and the bounded buffer of the window nodes.

Rust arithmetic on fixed-width integers wraps or stops the program, by the build's overflow
checks; `checks` stands for that build flag, and a stop is a `Panic`.
-/

namespace Rivr.Core

/-! ### Panics and checked arithmetic -/

/-- The panics a run can end in. -/
inductive Panic where
  | indexOutOfBounds | divisionByZero | arithmeticOverflow | removeFromEmpty
  deriving DecidableEq, Repr

/-- `a + b` on `u64`. -/
def addU64 (checks : Bool) (a b : UInt64) : Except Panic UInt64 :=
  if checks && decide (2 ^ 64 ≤ a.toNat + b.toNat) then .error .arithmeticOverflow
  else .ok (a + b)

/-- `a - b` on `u64`. -/
def subU64 (checks : Bool) (a b : UInt64) : Except Panic UInt64 :=
  if checks && decide (a < b) then .error .arithmeticOverflow else .ok (a - b)

/-- `a * b` on `u64`. -/
def mulU64 (checks : Bool) (a b : UInt64) : Except Panic UInt64 :=
  if checks && decide (2 ^ 64 ≤ a.toNat * b.toNat) then .error .arithmeticOverflow
  else .ok (a * b)

/-- `a / b` on `u64`. -/
def divU64 (a b : UInt64) : Except Panic UInt64 :=
  if b = 0 then .error .divisionByZero else .ok (a / b)

/-- `a + b` on `i64`. -/
def addI64 (checks : Bool) (a b : Int64) : Except Panic Int64 :=
  if checks && decide (a.toInt + b.toInt < -2 ^ 63 ∨ 2 ^ 63 ≤ a.toInt + b.toInt) then
    .error .arithmeticOverflow
  else .ok (a + b)

/-- `a.saturating_add(b)` on `u64`. -/
def satAddU64 (a b : UInt64) : UInt64 :=
  if 2 ^ 64 ≤ a.toNat + b.toNat then UInt64.ofNat (2 ^ 64 - 1) else a + b

/-- `a.saturating_sub(b)` on `u64`. -/
def satSubU64 (a b : UInt64) : UInt64 := if a < b then 0 else a - b

/-- `f64::min`: the other argument when one is NaN. -/
def minF64 (a b : Float) : Float :=
  if a.isNaN then b else if b.isNaN then a else if a ≤ b then a else b

/-! ### Values -/

/-- `Value`. -/
inductive Value where
  | int (n : Int64)
  | bool (b : Bool)
  | str (s : String)
  | bytes (b : List UInt8)
  | unit
  | window (w : List String)
  deriving DecidableEq, Repr

/-- `Value::kind_tag`: the text before the first colon of a string, else the variant's name. -/
def Value.kindTag : Value → String
  | .str s => String.ofList (s.toList.takeWhile (· ≠ ':'))
  | .int _ => "Int"
  | .bool _ => "Bool"
  | .bytes _ => "Bytes"
  | .unit => "Unit"
  | .window _ => "Window"

/-- `Value::display`. -/
def Value.display : Value → String
  | .int n => toString n
  | .bool b => toString b
  | .str s => s
  | .bytes b => "<bytes len=" ++ toString b.length ++ ">"
  | .unit => "()"
  | .window w => "[window " ++ toString w.length ++ " events]"

/-- `char::is_whitespace`: the Unicode property White_Space. -/
def isWhitespace (c : Char) : Bool :=
  let n := c.toNat
  (0x09 ≤ n && n ≤ 0x0D) || n == 0x20 || n == 0x85 || n == 0xA0 || n == 0x1680 ||
    (0x2000 ≤ n && n ≤ 0x200A) || n == 0x2028 || n == 0x2029 || n == 0x202F || n == 0x205F ||
    n == 0x3000

/-- `str::trim`. -/
def trim (s : String) : String :=
  String.ofList ((s.toList.dropWhile isWhitespace).reverse.dropWhile isWhitespace).reverse

/-! ### Events -/

/-- `Stamp`. -/
structure Stamp where
  clock : UInt8
  tick : UInt64
  deriving DecidableEq, Repr

/-- `Event`. -/
structure Event where
  stamp : Stamp
  v : Value
  tag : Option String
  seq : UInt32
  deriving DecidableEq, Repr

/-- `Event::new`. -/
def Event.new (stamp : Stamp) (v : Value) : Event := ⟨stamp, v, none, 0⟩

/-- `Event::with_tag`. -/
def Event.withTag (ev : Event) (tag : String) : Event := { ev with tag := some tag }

/-! ### The bounded buffer -/

/-- `DropPolicy`. -/
inductive DropPolicy where
  | dropOldest | dropNewest | flushEarly
  deriving DecidableEq, Repr

/-- `WINDOW_CAP`. -/
def windowCap : ℕ := 64

/-- `BoundedVec<Event, WINDOW_CAP>`. -/
structure BoundedVec where
  inner : List Event
  drops : UInt64
  deriving DecidableEq, Repr

/-- `BoundedVec::new`. -/
def BoundedVec.new : BoundedVec := ⟨[], 0⟩

/-- `BoundedVec::is_full_capped`. -/
def BoundedVec.isFullCapped (b : BoundedVec) (cap : ℕ) : Bool :=
  decide (min cap windowCap ≤ b.inner.length)

/-- `BoundedVec::push_capped`. Removing the first of no items panics. -/
def BoundedVec.pushCapped (checks : Bool) (b : BoundedVec) (item : Event) (policy : DropPolicy)
    (cap : ℕ) : Except Panic BoundedVec :=
  if min cap windowCap ≤ b.inner.length then do
    let drops ← addU64 checks b.drops 1
    match policy, b.inner with
    | .dropNewest, inner => .ok ⟨inner, drops⟩
    | _, [] => .error .removeFromEmpty
    | _, _ :: rest => .ok ⟨rest ++ [item], drops⟩
  else .ok ⟨b.inner ++ [item], b.drops⟩

/-- `BoundedVec::drain_all`: the drained items, and the buffer left behind. -/
def BoundedVec.drainAll (b : BoundedVec) : List Event × BoundedVec := (b.inner, { b with inner := [] })

end Rivr.Core
