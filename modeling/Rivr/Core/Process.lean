import Mathlib.Order.Nat
import Rivr.Core.Node
import Rivr.ForMathlib.ExceptInversion

/-!
# What processing one event can do

Whatever the node and its state, one event gives at most two events (a window can flush at its
boundary and again when it is full), the node keeps its id and its edges, and the only panics
are those of arithmetic and of the bounded buffer.
-/

namespace Rivr.Core

variable {checks : Bool}

/-! ### The number of events -/

theorem flushed_length_le (stamp : Stamp) (items : List Event) :
    (flushed stamp items).length ≤ 1 := by
  simp only [flushed]
  split_ifs <;> simp

theorem WindowTicks.boundary_length_le {w w' : WindowTicks} {ev : Event} {out : List Event}
    (h : w.boundary checks ev = .ok (out, w')) : out.length ≤ 1 := by
  obtain ⟨deadline, -, h⟩ := Except.of_bind_eq_ok h
  split_ifs at h
  · obtain ⟨q, -, h⟩ := Except.of_bind_eq_ok h
    obtain ⟨start, -, h⟩ := Except.of_bind_eq_ok h
    cases h
    exact flushed_length_le _ _
  · cases h
    simp

theorem WindowTicks.store_length_le {w w' : WindowTicks} {ev : Event} {out : List Event}
    (h : w.store checks ev = .ok (out, w')) : out.length ≤ 1 := by
  simp only [WindowTicks.store] at h
  split_ifs at h
  · obtain ⟨buffer, -, h⟩ := Except.of_bind_eq_ok h
    cases h
    exact flushed_length_le _ _
  · obtain ⟨buffer, -, h⟩ := Except.of_bind_eq_ok h
    cases h
    simp

/-- A window can flush at its boundary and again when it is full. -/
theorem WindowTicks.process_length_le {w w' : WindowTicks} {ev : Event} {out : List Event}
    (h : w.process checks ev = .ok (out, w')) : out.length ≤ 2 := by
  obtain ⟨⟨out₁, w₁⟩, h₁, h⟩ := Except.of_bind_eq_ok h
  obtain ⟨⟨out₂, w₂⟩, h₂, h⟩ := Except.of_bind_eq_ok h
  cases h
  have hb := boundary_length_le h₁
  have hs := store_length_le h₂
  rw [List.length_append]
  omega

theorem ThrottleTicks.process_length_le (t : ThrottleTicks) (ev : Event) :
    (t.process ev).1.length ≤ 1 := by
  simp only [ThrottleTicks.process]
  split_ifs <;> simp

theorem DelayTicks.process_length_le {d d' : DelayTicks} {ev : Event} {out : List Event}
    (h : d.process checks ev = .ok (out, d')) : out.length ≤ 1 := by
  obtain ⟨deadline, -, h⟩ := Except.of_bind_eq_ok h
  cases h
  cases d.pending with
  | none => simp
  | some p =>
    dsimp only
    split_ifs <;> simp

theorem Budget.process_length_le (b : Budget) (ev : Event) : (b.process ev).1.length ≤ 1 := by
  simp only [Budget.process]
  split_ifs <;> simp

theorem AirtimeBudget.process_length_le {b b' : AirtimeBudget} {ev : Event} {out : List Event}
    (h : b.process checks ev = .ok (out, b')) : out.length ≤ 1 := by
  obtain ⟨rolled, -, h⟩ := Except.of_bind_eq_ok h
  dsimp only at h
  split_ifs at h
  · obtain ⟨used, -, h⟩ := Except.of_bind_eq_ok h
    cases h
    simp
  · obtain ⟨dropped, -, h⟩ := Except.of_bind_eq_ok h
    cases h
    simp

theorem ToaBudget.process_length_le {b b' : ToaBudget} {ev : Event} {out : List Event}
    (h : b.process checks ev = .ok (out, b')) : out.length ≤ 1 := by
  obtain ⟨rolled, -, h⟩ := Except.of_bind_eq_ok h
  obtain ⟨sum, -, h⟩ := Except.of_bind_eq_ok h
  split_ifs at h
  · cases h
    simp
  · obtain ⟨dropped, -, h⟩ := Except.of_bind_eq_ok h
    cases h
    simp

theorem NodeKind.processInner_length_le {kind kind' : NodeKind} {ev : Event} {out : List Event}
    (h : kind.processInner checks ev = .ok (out, kind')) : out.length ≤ 2 := by
  simp only [NodeKind.processInner] at h
  split at h
  · obtain ⟨⟨out₁, w⟩, hw, heq⟩ := Except.of_map_eq_ok h
    cases heq
    exact WindowTicks.process_length_le hw
  · rename_i t
    cases h
    exact (t.process_length_le ev).trans (by decide)
  · obtain ⟨⟨out₁, d⟩, hd, heq⟩ := Except.of_map_eq_ok h
    cases heq
    exact (DelayTicks.process_length_le hd).trans (by decide)
  · cases h
    simp

private theorem passIf_length_le (keep : Bool) (ev : Event) : (passIf keep ev).length ≤ 1 := by
  cases keep <;> simp [passIf]

private theorem mapStr_length_le (f : String → String) (ev : Event) :
    (mapStr f ev).length ≤ 1 := by
  simp only [mapStr]
  split <;> simp

/-- **At most two.** Whatever the node, one event gives at most two. -/
theorem NodeKind.process_length_le {kind kind' : NodeKind} {ev : Event} {out : List Event}
    (h : kind.process checks ev = .ok (out, kind')) : out.length ≤ 2 := by
  cases kind with
  | windowTicks w =>
    -- the tick operators are the ones inside the millisecond operators
    exact processInner_length_le (show (windowTicks w).processInner checks ev = _ from h)
  | throttleTicks t =>
    exact processInner_length_le (show (throttleTicks t).processInner checks ev = _ from h)
  | delayTicks d =>
    exact processInner_length_le (show (delayTicks d).processInner checks ev = _ from h)
  | windowMs inner | throttleMs inner | debounceMs inner =>
    obtain ⟨⟨out₁, k⟩, hk, heq⟩ := Except.of_map_eq_ok h
    cases heq
    exact processInner_length_le hk
  | airtimeBudget b =>
    obtain ⟨⟨out₁, b₁⟩, hb, heq⟩ := Except.of_map_eq_ok h
    cases heq
    exact (AirtimeBudget.process_length_le hb).trans (by decide)
  | toaBudget b =>
    obtain ⟨⟨out₁, b₁⟩, hb, heq⟩ := Except.of_map_eq_ok h
    cases heq
    exact (ToaBudget.process_length_le hb).trans (by decide)
  | foldCount count =>
    obtain ⟨n, -, heq⟩ := Except.of_map_eq_ok h
    cases heq
    simp
  | foldSum sum =>
    obtain ⟨n, -, heq⟩ := Except.of_map_eq_ok h
    cases heq
    simp
  | budget b =>
    cases h
    exact (b.process_length_le ev).trans (by decide)
  | mapUpper | mapLower | mapTrim =>
    cases h
    exact (mapStr_length_le _ _).trans (by decide)
  | filterNonempty | filterKind k | filterPktType t =>
    cases h
    exact (passIf_length_le _ _).trans (by decide)
  | source name clock intervalMs =>
    cases h
    simp
  | foldLast last =>
    cases h
    simp
  | merge =>
    cases h
    simp
  | tag label =>
    cases h
    simp
  | emit sink =>
    cases h
    simp

/-! ### Panics -/

/-- A computation that never runs into an index outside a table. -/
def NoIndexPanic {α : Type} (x : Except Panic α) : Prop := x ≠ .error .indexOutOfBounds

theorem NoIndexPanic.ok {α : Type} (a : α) : NoIndexPanic (.ok a) := nofun

theorem NoIndexPanic.bind {α β : Type} {x : Except Panic α} {f : α → Except Panic β}
    (hx : NoIndexPanic x) (hf : ∀ a, NoIndexPanic (f a)) : NoIndexPanic (x >>= f) := by
  intro h
  rcases Except.of_bind_eq_error h with h | ⟨a, -, h⟩
  · exact hx h
  · exact hf a h

theorem NoIndexPanic.map {α β : Type} {x : Except Panic α} (hx : NoIndexPanic x) (f : α → β) :
    NoIndexPanic (x.map f) := fun h => hx (Except.of_map_eq_error h)

private theorem noIndexPanic_ite {α : Type} {c : Prop} [Decidable c] {x y : Except Panic α}
    (hx : NoIndexPanic x) (hy : NoIndexPanic y) : NoIndexPanic (if c then x else y) := by
  split_ifs
  · exact hx
  · exact hy

theorem noIndexPanic_addU64 (a b : UInt64) : NoIndexPanic (addU64 checks a b) :=
  noIndexPanic_ite nofun nofun

theorem noIndexPanic_subU64 (a b : UInt64) : NoIndexPanic (subU64 checks a b) :=
  noIndexPanic_ite nofun nofun

theorem noIndexPanic_mulU64 (a b : UInt64) : NoIndexPanic (mulU64 checks a b) :=
  noIndexPanic_ite nofun nofun

theorem noIndexPanic_divU64 (a b : UInt64) : NoIndexPanic (divU64 a b) :=
  noIndexPanic_ite nofun nofun

theorem noIndexPanic_addValue (sum : Int64) (v : Value) :
    NoIndexPanic (addValue checks sum v) := by
  cases v with
  | int n => exact noIndexPanic_ite nofun nofun
  | _ => exact NoIndexPanic.ok _

theorem noIndexPanic_pushCapped (b : BoundedVec) (item : Event) (policy : DropPolicy)
    (cap : ℕ) : NoIndexPanic (b.pushCapped checks item policy cap) := by
  refine noIndexPanic_ite ((noIndexPanic_addU64 _ _).bind fun drops => ?_) nofun
  cases policy <;> cases b.inner <;> nofun

theorem noIndexPanic_rollWindow (tick windowStart width : UInt64) :
    NoIndexPanic (rollWindow checks tick windowStart width) := by
  refine (noIndexPanic_addU64 _ _).bind fun deadline => noIndexPanic_ite ?_ nofun
  refine (noIndexPanic_subU64 _ _).bind fun elapsed => ?_
  refine (noIndexPanic_divU64 _ _).bind fun advance => ?_
  exact (noIndexPanic_mulU64 _ _).bind fun jump => (noIndexPanic_addU64 _ _).bind fun _ => nofun

theorem WindowTicks.noIndexPanic (w : WindowTicks) (ev : Event) :
    NoIndexPanic (w.process checks ev) := by
  have hboundary : NoIndexPanic (w.boundary checks ev) := by
    refine (noIndexPanic_addU64 _ _).bind fun deadline => noIndexPanic_ite ?_ nofun
    exact (noIndexPanic_divU64 _ _).bind fun q => (noIndexPanic_mulU64 _ _).bind fun _ => nofun
  have hstore : ∀ w' : WindowTicks, NoIndexPanic (w'.store checks ev) := fun w' =>
    noIndexPanic_ite ((noIndexPanic_pushCapped _ _ _ _).bind fun _ => nofun)
      ((noIndexPanic_pushCapped _ _ _ _).bind fun _ => nofun)
  exact hboundary.bind fun r => (hstore r.2).bind fun _ => nofun

theorem DelayTicks.noIndexPanic (d : DelayTicks) (ev : Event) :
    NoIndexPanic (d.process checks ev) :=
  (noIndexPanic_addU64 _ _).bind fun _ => nofun

theorem AirtimeBudget.noIndexPanic (b : AirtimeBudget) (ev : Event) :
    NoIndexPanic (b.process checks ev) :=
  (noIndexPanic_rollWindow _ _ _).bind fun _ =>
    noIndexPanic_ite ((noIndexPanic_addU64 _ _).bind fun _ => nofun)
      ((noIndexPanic_addU64 _ _).bind fun _ => nofun)

theorem ToaBudget.noIndexPanic (b : ToaBudget) (ev : Event) :
    NoIndexPanic (b.process checks ev) :=
  (noIndexPanic_rollWindow _ _ _).bind fun _ => (noIndexPanic_addU64 _ _).bind fun _ =>
    noIndexPanic_ite nofun ((noIndexPanic_addU64 _ _).bind fun _ => nofun)

theorem NodeKind.processInner_noIndexPanic (kind : NodeKind) (ev : Event) :
    NoIndexPanic (kind.processInner checks ev) := by
  cases kind with
  | windowTicks w => exact (w.noIndexPanic ev).map _
  | delayTicks d => exact (d.noIndexPanic ev).map _
  | _ => exact NoIndexPanic.ok _

theorem NodeKind.process_noIndexPanic (kind : NodeKind) (ev : Event) :
    NoIndexPanic (kind.process checks ev) := by
  cases kind with
  | foldCount count => exact (noIndexPanic_addU64 _ _).map _
  | foldSum sum => exact (noIndexPanic_addValue _ _).map _
  | windowTicks w => exact (w.noIndexPanic ev).map _
  | delayTicks d => exact (d.noIndexPanic ev).map _
  | windowMs inner | throttleMs inner | debounceMs inner =>
    exact (inner.processInner_noIndexPanic ev).map _
  | airtimeBudget b => exact (b.noIndexPanic ev).map _
  | toaBudget b => exact (b.noIndexPanic ev).map _
  | _ => exact NoIndexPanic.ok _

end Rivr.Core
