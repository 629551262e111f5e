import Mathlib.Data.List.Basic

/-!
# Byte stuffing

Framing of packets by a mark that ends them. Inside a packet the mark is written as two symbols, an
escape and a second symbol, and so is the escape itself; so the mark does not occur in a stuffed
packet (`Stuffing.stop_notMem_stuff`), and a run of symbols is stuffed in at most one way
(`Stuffing.unstuff_eq_some_iff`).
-/

/-- The marks of a stuffing, which are different symbols. -/
structure Stuffing (α : Type*) where
  stop : α
  esc : α
  escStop : α
  escEsc : α
  nodup : [stop, esc, escStop, escEsc].Nodup

namespace Stuffing

variable {α : Type*} {m : Stuffing α}

/-! ### The marks -/

theorem esc_ne_stop : m.esc ≠ m.stop := by
  have h := m.nodup
  simp only [List.nodup_cons, List.mem_cons, not_or] at h
  exact Ne.symm h.1.1

theorem escStop_ne_stop : m.escStop ≠ m.stop := by
  have h := m.nodup
  simp only [List.nodup_cons, List.mem_cons, not_or] at h
  exact Ne.symm h.1.2.1

theorem escEsc_ne_stop : m.escEsc ≠ m.stop := by
  have h := m.nodup
  simp only [List.nodup_cons, List.mem_cons, not_or] at h
  exact Ne.symm h.1.2.2.1

theorem escEsc_ne_escStop : m.escEsc ≠ m.escStop := by
  have h := m.nodup
  simp only [List.nodup_cons, List.mem_cons, not_or] at h
  exact Ne.symm h.2.2.1.1

/-! ### Runs and packets -/

variable [DecidableEq α] (m)

/-- The stuffing of one symbol. -/
def stuffOne (a : α) : List α :=
  if a = m.stop then [m.esc, m.escStop] else if a = m.esc then [m.esc, m.escEsc] else [a]

/-- The stuffing of a packet. -/
def stuff (packet : List α) : List α := packet.flatMap m.stuffOne

/-- What a run stands for, where `escaped` says that an escape stands in front of it. A mark, a
wrong escape and an escape at the end make it ill-formed. -/
def unstuffFrom : Bool → List α → Option (List α)
  | false, [] => some []
  | true, [] => none
  | true, a :: run =>
    if a = m.escStop then (unstuffFrom false run).map (m.stop :: ·)
    else if a = m.escEsc then (unstuffFrom false run).map (m.esc :: ·)
    else none
  | false, a :: run =>
    if a = m.stop then none
    else if a = m.esc then unstuffFrom true run
    else (unstuffFrom false run).map (a :: ·)

/-- What a run stands for, if it is well escaped. -/
def unstuff (run : List α) : Option (List α) := m.unstuffFrom false run

variable {m} {escaped : Bool} {run packet : List α}

/-! ### Stuffing -/

@[simp] theorem stuff_nil : m.stuff [] = [] := rfl

theorem stuff_cons (a : α) (packet : List α) : m.stuff (a :: packet) = m.stuffOne a ++ m.stuff packet :=
  List.flatMap_cons

theorem stuff_append (packet packet' : List α) :
    m.stuff (packet ++ packet') = m.stuff packet ++ m.stuff packet' := List.flatMap_append

theorem stuff_singleton (a : α) : m.stuff [a] = m.stuffOne a := List.flatMap_singleton ..

theorem stuffOne_stop : m.stuffOne m.stop = [m.esc, m.escStop] := if_pos rfl

theorem stuffOne_esc : m.stuffOne m.esc = [m.esc, m.escEsc] := by
  rw [stuffOne, if_neg esc_ne_stop, if_pos rfl]

theorem stuffOne_of_ne {a : α} (hstop : a ≠ m.stop) (hesc : a ≠ m.esc) : m.stuffOne a = [a] := by
  rw [stuffOne, if_neg hstop, if_neg hesc]

/-- Every symbol is written as itself or as an escape and a second symbol. -/
theorem stuffOne_cases (a : α) : (a = m.stop ∧ m.stuffOne a = [m.esc, m.escStop]) ∨
    (a = m.esc ∧ m.stuffOne a = [m.esc, m.escEsc]) ∨
      (a ≠ m.stop ∧ a ≠ m.esc ∧ m.stuffOne a = [a]) := by
  by_cases hstop : a = m.stop
  · exact .inl ⟨hstop, hstop ▸ stuffOne_stop⟩
  by_cases hesc : a = m.esc
  · refine .inr (.inl ⟨hesc, ?_⟩)
    rw [hesc, stuffOne_esc]
  · exact .inr (.inr ⟨hstop, hesc, stuffOne_of_ne hstop hesc⟩)

theorem stop_notMem_stuff (packet : List α) : m.stop ∉ m.stuff packet := by
  rw [stuff, List.mem_flatMap]
  rintro ⟨a, -, ha⟩
  rcases m.stuffOne_cases a with ⟨-, heq⟩ | ⟨-, heq⟩ | ⟨hne, -, heq⟩
  · rw [heq, List.mem_pair] at ha
    exact ha.elim esc_ne_stop.symm escStop_ne_stop.symm
  · rw [heq, List.mem_pair] at ha
    exact ha.elim esc_ne_stop.symm escEsc_ne_stop.symm
  · rw [heq, List.mem_singleton] at ha
    exact hne ha.symm

theorem length_stuffOne_le (a : α) : (m.stuffOne a).length ≤ 2 := by
  rcases m.stuffOne_cases a with ⟨-, heq⟩ | ⟨-, heq⟩ | ⟨-, -, heq⟩ <;> simp [heq]

/-- Stuffing makes a packet at most twice as long. -/
theorem length_stuff_le (packet : List α) : (m.stuff packet).length ≤ 2 * packet.length := by
  induction packet with
  | nil => exact Nat.le_refl _
  | cons a packet ih =>
    have hone := m.length_stuffOne_le a
    rw [stuff_cons, List.length_append, List.length_cons]
    omega

/-! ### Unstuffing -/

theorem unstuff_stuffOne_append (a : α) (run : List α) :
    m.unstuff (m.stuffOne a ++ run) = (m.unstuff run).map (a :: ·) := by
  rcases m.stuffOne_cases a with ⟨rfl, heq⟩ | ⟨rfl, heq⟩ | ⟨hstop, hesc, heq⟩
  · simp [heq, unstuff, unstuffFrom, esc_ne_stop]
  · simp [heq, unstuff, unstuffFrom, esc_ne_stop, escEsc_ne_escStop]
  · simp [heq, unstuff, unstuffFrom, hstop, hesc]

theorem unstuff_stuff (packet : List α) : m.unstuff (m.stuff packet) = some packet := by
  induction packet with
  | nil => rfl
  | cons a packet ih => rw [stuff_cons, unstuff_stuffOne_append, ih, Option.map_some]

/-- What a run stands for is what it is the stuffing of. -/
theorem stuff_of_unstuffFrom (h : m.unstuffFrom escaped run = some packet) :
    (if escaped then [m.esc] else []) ++ run = m.stuff packet := by
  induction run generalizing escaped packet with
  | nil =>
    cases escaped with
    | false => exact Option.some.inj h ▸ rfl
    | true => exact absurd h (by simp [unstuffFrom])
  | cons a run ih =>
    cases escaped with
    | true =>
      rw [unstuffFrom] at h
      split_ifs at h with hstop hesc
      · obtain ⟨rest, hrest, rfl⟩ := Option.map_eq_some_iff.mp h
        rw [hstop, stuff_cons, stuffOne_stop, ← ih hrest]
        rfl
      · obtain ⟨rest, hrest, rfl⟩ := Option.map_eq_some_iff.mp h
        rw [hesc, stuff_cons, stuffOne_esc, ← ih hrest]
        rfl
    | false =>
      rw [unstuffFrom] at h
      split_ifs at h with hstop hesc
      · rw [hesc, ← ih h]
        rfl
      · obtain ⟨rest, hrest, rfl⟩ := Option.map_eq_some_iff.mp h
        rw [stuff_cons, stuffOne_of_ne hstop hesc, ← ih hrest]
        rfl

theorem unstuff_eq_some_iff :
    m.unstuff run = some packet ↔ run = m.stuff packet := by
  constructor
  · exact stuff_of_unstuffFrom
  · rintro rfl
    exact unstuff_stuff packet

end Stuffing
