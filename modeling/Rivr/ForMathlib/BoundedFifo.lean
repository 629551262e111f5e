import Mathlib.Data.List.Basic
import Mathlib.Data.List.Rotate

/-!
# Bounded queues

The queue of at most `n` items as a specification: what it answers to pushes and pops (`step`), and
what follows from the answers alone (`accepted_eq`: what was taken came out again in order, or is
still held). A program that answers every request as the queue does, under a relation between its
states and those of the queue, answers all of them so (`tryRun_eq`).

A queue that lies in a circle of slots (`Circle`) is what such a relation says about a ring buffer.
-/

namespace BoundedFifo

variable {α σ : Type*}

/-- What a queue is asked. -/
inductive Op (α : Type*)
  | push (item : α)
  | pop
  deriving DecidableEq, Repr

/-- What it answers. -/
inductive Answer (α : Type*)
  | pushed (taken : Bool)
  | popped (item : Option α)
  deriving DecidableEq, Repr

/-- A queue, oldest item first, with the numbers of the pushes it took and refused. -/
structure State (α : Type*) where
  items : List α
  taken : ℕ
  refused : ℕ
  deriving DecidableEq, Repr

/-- The queue before any request. -/
def State.empty : State α := ⟨[], 0, 0⟩

/-- One request to a queue of at most `n` items. -/
def step (n : ℕ) (q : State α) : Op α → Answer α × State α
  | .push item =>
    if q.items.length < n then
      (.pushed true, { q with items := q.items ++ [item], taken := q.taken + 1 })
    else (.pushed false, { q with refused := q.refused + 1 })
  | .pop => (.popped q.items.head?, { q with items := q.items.tail })

/-- All the answers, and the queue after them. -/
def run (n : ℕ) : State α → List (Op α) → List (Answer α) × State α
  | q, [] => ([], q)
  | q, op :: ops =>
    ((step n q op).1 :: (run n (step n q op).2 ops).1, (run n (step n q op).2 ops).2)

/-- The items that the queue took. -/
def accepted : List (Op α) → List (Answer α) → List α
  | .push item :: ops, .pushed true :: answers => item :: accepted ops answers
  | _ :: ops, _ :: answers => accepted ops answers
  | _, _ => []

/-- The items that came out of it. -/
def returned : List (Answer α) → List α
  | .popped (some item) :: answers => item :: returned answers
  | _ :: answers => returned answers
  | [] => []

/-- The number of the pushes that it refused. -/
def refusals : List (Answer α) → ℕ
  | .pushed false :: answers => refusals answers + 1
  | _ :: answers => refusals answers
  | [] => 0

variable {n : ℕ} {q : State α}

theorem step_push_of_lt (hroom : q.items.length < n) (item : α) :
    step n q (.push item) =
      (.pushed true, { q with items := q.items ++ [item], taken := q.taken + 1 }) :=
  if_pos hroom

theorem step_push_of_not_lt (hfull : ¬q.items.length < n) (item : α) :
    step n q (.push item) = (.pushed false, { q with refused := q.refused + 1 }) :=
  if_neg hfull

/-- **Nothing is lost, doubled or reordered**: what was held and taken is what came out and what is
held at the end. -/
theorem accepted_eq (n : ℕ) (q : State α) (ops : List (Op α)) :
    q.items ++ accepted ops (run n q ops).1 =
      returned (run n q ops).1 ++ (run n q ops).2.items := by
  induction ops generalizing q with
  | nil => simp [run, accepted, returned]
  | cons op ops ih =>
    rw [run]
    have hrest := ih (step n q op).2
    cases op with
    | push item =>
      rw [step] at hrest ⊢
      split_ifs at hrest ⊢
      · simpa [accepted, returned] using hrest
      · simpa [accepted, returned] using hrest
    | pop =>
      rw [step] at hrest ⊢
      cases hitems : q.items with
      | nil => simpa [accepted, returned, hitems] using hrest
      | cons item items => simpa [accepted, returned, hitems] using hrest

theorem length_step_le (h : q.items.length ≤ n) (op : Op α) :
    (step n q op).2.items.length ≤ n := by
  cases op with
  | push item =>
    rw [step]
    split_ifs with hroom
    · rw [List.length_append]
      exact hroom
    · exact h
  | pop =>
    rw [step, List.length_tail]
    exact Nat.le_trans (Nat.sub_le _ _) h

/-- The queue never holds more than its bound. -/
theorem length_run_le (h : q.items.length ≤ n) (ops : List (Op α)) :
    (run n q ops).2.items.length ≤ n := by
  induction ops generalizing q with
  | nil => exact h
  | cons op ops ih => exact ih (length_step_le h op)

/-- The refusals are counted. -/
theorem refused_run (n : ℕ) (q : State α) (ops : List (Op α)) :
    (run n q ops).2.refused = q.refused + refusals (run n q ops).1 := by
  induction ops generalizing q with
  | nil => rfl
  | cons op ops ih =>
    rw [run, ih]
    cases op with
    | push item =>
      rw [step]
      split_ifs
      · rfl
      · dsimp only
        rw [refusals]
        omega
    | pop => rfl

/-- What was taken is counted. -/
theorem taken_run (n : ℕ) (q : State α) (ops : List (Op α)) :
    (run n q ops).2.taken = q.taken + (accepted ops (run n q ops).1).length := by
  induction ops generalizing q with
  | nil => rfl
  | cons op ops ih =>
    rw [run, ih]
    cases op with
    | push item =>
      rw [step]
      split_ifs
      · dsimp only
        rw [accepted, List.length_cons]
        omega
      · rfl
    | pop => rfl

theorem taken_le_run (n : ℕ) (q : State α) (ops : List (Op α)) :
    q.taken ≤ (run n q ops).2.taken := by
  rw [taken_run]
  exact Nat.le_add_right _ _

theorem run_append (n : ℕ) (q : State α) (ops ops' : List (Op α)) :
    run n q (ops ++ ops') =
      ((run n q ops).1 ++ (run n (run n q ops).2 ops').1, (run n (run n q ops).2 ops').2) := by
  induction ops generalizing q with
  | nil => rfl
  | cons op ops ih => rw [List.cons_append, run, ih, run, List.cons_append]

/-! ### Programs that answer as the queue does -/

/-- The answers of a program that may fail, and its state after them. -/
def tryRun (f : σ → Op α → Option (Answer α × σ)) :
    σ → List (Op α) → Option (List (Answer α) × σ)
  | s, [] => some ([], s)
  | s, op :: ops =>
    (f s op).bind fun next =>
      (tryRun f next.2 ops).map fun rest => (next.1 :: rest.1, rest.2)

variable {f : σ → Op α → Option (Answer α × σ)}

theorem tryRun_append (f : σ → Op α → Option (Answer α × σ)) (s : σ) (ops ops' : List (Op α)) :
    tryRun f s (ops ++ ops') =
      (tryRun f s ops).bind fun first =>
        (tryRun f first.2 ops').map fun rest => (first.1 ++ rest.1, rest.2) := by
  induction ops generalizing s with
  | nil => simp [tryRun]
  | cons op ops ih =>
    rw [List.cons_append, tryRun, tryRun]
    cases f s op with
    | none => rfl
    | some next =>
      rw [Option.bind_some, Option.bind_some, ih]
      cases tryRun f next.2 ops with
      | none => rfl
      | some first =>
        rw [Option.bind_some, Option.map_some, Option.bind_some, Option.map_map]
        rfl

/-- **A program that answers one request as the queue does** answers all of them so. It may need
more than the relation, as long as only few items were ever taken. -/
theorem tryRun_eq (R : σ → State α → Prop) (Few : ℕ → Prop)
    (hfew : ∀ k k', k ≤ k' → Few k' → Few k)
    (hstep : ∀ s q op, R s q → Few (step n q op).2.taken →
      ∃ s', f s op = some ((step n q op).1, s') ∧ R s' (step n q op).2)
    {s : σ} (h : R s q) (ops : List (Op α)) (hrun : Few (run n q ops).2.taken) :
    ∃ s', tryRun f s ops = some ((run n q ops).1, s') ∧ R s' (run n q ops).2 := by
  induction ops generalizing s q with
  | nil => exact ⟨s, rfl, h⟩
  | cons op ops ih =>
    have hnext := hfew _ _ (taken_le_run n (step n q op).2 ops) hrun
    obtain ⟨s', hanswer, h'⟩ := hstep s q op h hnext
    obtain ⟨s'', hanswers, h''⟩ := ih h' hrun
    refine ⟨s'', ?_, h''⟩
    rw [tryRun, hanswer, Option.bind_some, hanswers, Option.map_some, run]

/-! ### Queues in a circle of slots -/

/-- The items lie one after the other in the circle, from the position on. -/
structure Circle (slots : List α) (pos : ℕ) (items : List α) : Prop where
  pos_lt : pos < slots.length
  slot : ∀ i < items.length, slots[(pos + i) % slots.length]? = items[i]?

variable {slots items : List α} {pos : ℕ} {item : α}

theorem circle_nil (h : pos < slots.length) : Circle slots pos [] where
  pos_lt := h
  slot i hi := absurd hi (Nat.not_lt_zero i)

/-- Places of the circle that are less than a turn apart are different. -/
theorem mod_ne_mod {a b n : ℕ} (hlt : a < b) (hturn : b < a + n) : a % n ≠ b % n := by
  intro heq
  have hdiff : (b - a) % n = 0 := Nat.sub_mod_eq_zero_of_mod_eq heq.symm
  rw [Nat.mod_eq_of_lt (by omega)] at hdiff
  omega

/-- The place behind the last item is free for a new one. -/
theorem Circle.push (h : Circle slots pos items) (hroom : items.length < slots.length) (item : α) :
    Circle (slots.set ((pos + items.length) % slots.length) item) pos (items ++ [item]) where
  pos_lt := by rw [List.length_set]; exact h.pos_lt
  slot i hi := by
    rw [List.length_set]
    rw [List.length_append, List.length_singleton] at hi
    by_cases hlast : i = items.length
    · subst hlast
      rw [List.getElem?_set_self (Nat.mod_lt _ (Nat.zero_lt_of_lt h.pos_lt)),
        List.getElem?_append_right (Nat.le_refl _), Nat.sub_self]
      rfl
    · have hlt : i < items.length := by omega
      rw [List.getElem?_set_ne (mod_ne_mod (by omega) (by omega)).symm,
        List.getElem?_append_left hlt]
      exact h.slot i hlt

/-- The first item lies at the position. -/
theorem Circle.head (h : Circle slots pos (item :: items)) : slots[pos]? = some item := by
  have hslot := h.slot 0 (Nat.zero_lt_succ _)
  rwa [Nat.add_zero, Nat.mod_eq_of_lt h.pos_lt] at hslot

/-- Behind it lies the rest. -/
theorem Circle.tail (h : Circle slots pos (item :: items)) :
    Circle slots ((pos + 1) % slots.length) items where
  pos_lt := Nat.mod_lt _ (Nat.zero_lt_of_lt h.pos_lt)
  slot i hi := by
    have hslot := h.slot (i + 1) (Nat.succ_lt_succ hi)
    rw [Nat.mod_add_mod, Nat.add_right_comm]
    exact hslot

/-- Whatever is written where an item was taken. -/
theorem Circle.clear (h : Circle slots pos (item :: items)) (hlen : items.length < slots.length)
    (blank : α) : Circle (slots.set pos blank) ((pos + 1) % slots.length) items where
  pos_lt := by rw [List.length_set]; exact h.tail.pos_lt
  slot i hi := by
    have hne : pos % slots.length ≠ (pos + 1 + i) % slots.length :=
      mod_ne_mod (by omega) (by omega)
    rw [Nat.mod_eq_of_lt h.pos_lt] at hne
    rw [List.length_set, Nat.mod_add_mod, List.getElem?_set_ne hne, ← Nat.mod_add_mod]
    exact h.tail.slot i hi

/-- A circle in which all slots but those of the items are blank. -/
structure CleanCircle (blank : α) (slots : List α) (pos : ℕ) (items : List α) : Prop extends
    Circle slots pos items where
  rest : ∀ i, items.length ≤ i → i < slots.length → slots[(pos + i) % slots.length]? = some blank

variable {blank : α}

theorem cleanCircle_replicate {n : ℕ} (hn : 0 < n) :
    CleanCircle blank (List.replicate n blank) 0 [] where
  toCircle := circle_nil (by rw [List.length_replicate]; exact hn)
  rest i _ _ := by
    rw [List.length_replicate, List.getElem?_replicate_of_lt (Nat.mod_lt _ hn)]

theorem CleanCircle.push (h : CleanCircle blank slots pos items)
    (hroom : items.length < slots.length) (item : α) :
    CleanCircle blank (slots.set ((pos + items.length) % slots.length) item) pos
      (items ++ [item]) where
  toCircle := h.toCircle.push hroom item
  rest i hle hlt := by
    rw [List.length_append, List.length_singleton] at hle
    rw [List.length_set] at hlt ⊢
    rw [List.getElem?_set_ne (mod_ne_mod (by omega) (by omega))]
    exact h.rest i (by omega) hlt

/-- The slot of an item that was taken is blank again. -/
theorem CleanCircle.clear (h : CleanCircle blank slots pos (item :: items))
    (hlen : items.length < slots.length) :
    CleanCircle blank (slots.set pos blank) ((pos + 1) % slots.length) items where
  toCircle := h.toCircle.clear hlen blank
  rest i hle hlt := by
    rw [List.length_set] at hlt ⊢
    rw [Nat.mod_add_mod]
    by_cases hlast : i + 1 = slots.length
    · -- one turn on, the slot that was just cleared
      have hturn : pos + 1 + i = pos + slots.length := by omega
      rw [hturn, Nat.add_mod_right, Nat.mod_eq_of_lt h.pos_lt, List.getElem?_set_self h.pos_lt]
    · have hne : pos % slots.length ≠ (pos + 1 + i) % slots.length :=
        mod_ne_mod (by omega) (by omega)
      rw [Nat.mod_eq_of_lt h.pos_lt] at hne
      rw [List.getElem?_set_ne hne, Nat.add_assoc, Nat.add_comm 1]
      exact h.rest (i + 1) (Nat.succ_le_succ hle) (by omega)

/-- Turned to the position, the circle shows the items and then blanks. -/
theorem CleanCircle.rotate_eq (h : CleanCircle blank slots pos items)
    (hlen : items.length ≤ slots.length) :
    slots.rotate pos = items ++ List.replicate (slots.length - items.length) blank := by
  refine List.ext_getElem? fun i => ?_
  by_cases hi : i < slots.length
  · rw [List.getElem?_rotate hi, Nat.add_comm i]
    by_cases hitem : i < items.length
    · rw [List.getElem?_append_left hitem, h.slot i hitem]
    · rw [List.getElem?_append_right (by omega), List.getElem?_replicate_of_lt (by omega),
        h.rest i (by omega) hi]
  · rw [List.getElem?_eq_none (by rw [List.length_rotate]; omega),
      List.getElem?_eq_none (by rw [List.length_append, List.length_replicate]; omega)]

/-- What is in the slots is what is in the queue. -/
theorem CleanCircle.countP_eq (h : CleanCircle blank slots pos items)
    (hlen : items.length ≤ slots.length) {p : α → Bool} (hblank : p blank = false) :
    slots.countP p = items.countP p := by
  have hperm := (List.rotate_perm slots pos).countP_eq p
  rw [← hperm, h.rotate_eq hlen, List.countP_append, List.countP_replicate, hblank]
  simp

end BoundedFifo
