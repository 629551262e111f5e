import Rivr.ForMathlib.BoundedFifo
import Mathlib.Algebra.Ring.Nat
import Mathlib.Logic.Nontrivial.Defs

/-!
# The ring buffer of the engine

`rivr_core/src/adapt/ringbuf.rs`: the indices are machine words that count up freely and are reduced
by the capacity at each access. When a word wraps, the slot of the next index follows that of the
last one only if the capacity divides the number of words: the buffer is a queue on all runs exactly
for the capacities that are powers of two, and for the others until an index has wrapped
(`ringBuf_fifo_iff`).
-/

open BoundedFifo

namespace Rivr

/-- `RingBuf<T, CAP>` on a machine with words of `w` bits; `none` is a slot that was never
written. -/
structure RingBuf (α : Type*) (w : ℕ) (cap : BitVec w) where
  buf : List (Option α)
  head : BitVec w
  tail : BitVec w
  drops : UInt64
  pushed : UInt64
  length_buf : buf.length = cap.toNat

namespace RingBuf

variable {α : Type*} {w : ℕ} {cap : BitVec w}

/-- `RingBuf::new`. -/
def new : RingBuf α w cap where
  buf := List.replicate cap.toNat none
  head := 0
  tail := 0
  drops := 0
  pushed := 0
  length_buf := List.length_replicate

/-- `len`; `none` where `CAP + 1` overflows, which panics as an addition or as a divisor. -/
def len (rb : RingBuf α w cap) : Option (BitVec w) :=
  if cap + 1 = 0 then none else some ((rb.head - rb.tail) % (cap + 1))

/-- `is_empty`. -/
def isEmpty (rb : RingBuf α w cap) : Option Bool := rb.len.map fun len => len = 0

/-- `is_full`. -/
def isFull (rb : RingBuf α w cap) : Option Bool := rb.len.map fun len => cap ≤ len

/-- `try_push`; `none` where it panics. -/
def tryPush (rb : RingBuf α w cap) (item : α) : Option (Bool × RingBuf α w cap) :=
  rb.isFull.bind fun full =>
    if full then some (false, { rb with drops := rb.drops + 1 })
    else if (rb.head % cap).toNat < rb.buf.length then
      some (true, { rb with
        buf := rb.buf.set (rb.head % cap).toNat (some item)
        head := rb.head + 1
        pushed := rb.pushed + 1
        length_buf := by rw [List.length_set, rb.length_buf] })
    else none

/-- `pop`; `none` where it panics or reads a slot that was never written. -/
def pop (rb : RingBuf α w cap) : Option (Option α × RingBuf α w cap) :=
  rb.isEmpty.bind fun empty =>
    if empty then some (none, rb)
    else
      rb.buf[(rb.tail % cap).toNat]?.join.map fun item =>
        (some item, { rb with tail := rb.tail + 1 })

/-- One call. -/
def call (rb : RingBuf α w cap) : Op α → Option (Answer α × RingBuf α w cap)
  | .push item => (rb.tryPush item).map fun (ok, rb) => (.pushed ok, rb)
  | .pop => rb.pop.map fun (item, rb) => (.popped item, rb)

/-- The buffer answers the calls as the queue of its capacity, and holds as many items. -/
def Fifo (cap : BitVec w) (ops : List (Op α)) : Prop :=
  ∃ rb : RingBuf α w cap,
    tryRun RingBuf.call .new ops = some ((run cap.toNat .empty ops).1, rb) ∧
      rb.len = some (BitVec.ofNat w (run cap.toNat .empty ops).2.items.length)

/-! ### Before an index wraps, and after -/

/-- The buffer holds the queue; its indices count the items that were taken and returned. -/
structure Holds (rb : RingBuf α w cap) (q : State α) : Prop where
  length_le : q.items.length ≤ cap.toNat
  length_le_taken : q.items.length ≤ q.taken
  head_eq : rb.head.toNat = q.taken % 2 ^ w
  tail_eq : rb.tail.toNat = (q.taken - q.items.length) % 2 ^ w
  circle : Circle rb.buf ((q.taken - q.items.length) % cap.toNat) (q.items.map some)

/-- An index that wraps goes on in the next slot, or does not wrap. -/
def Wraps (cap : BitVec w) (k : ℕ) : Prop := cap.toNat ∣ 2 ^ w ∨ k ≤ 2 ^ w

variable {rb : RingBuf α w cap} {q : State α}

/-- The slot of an index. -/
theorem mod_cap_eq {i k : ℕ} (h : Wraps cap k) (hi : i < k) {x : BitVec w}
    (hx : x.toNat = i % 2 ^ w) : (x % cap).toNat = i % cap.toNat := by
  rw [BitVec.toNat_umod, hx]
  rcases h with hdvd | hle
  · exact Nat.mod_mod_of_dvd i hdvd
  · rw [Nat.mod_eq_of_lt (Nat.lt_of_lt_of_le hi hle)]

theorem toNat_one_of_pos {x : BitVec w} (hx : 0 < x.toNat) : (1 : BitVec w).toNat = 1 := by
  have hlt := x.isLt
  have hone : 1 < 2 ^ w := by omega
  exact Nat.mod_eq_of_lt hone

theorem toNat_cap_add_one (hpos : 0 < cap.toNat) (h : cap + 1 ≠ 0) :
    (cap + 1).toNat = cap.toNat + 1 := by
  have hlt := cap.isLt
  have hsum : (cap + 1).toNat = (cap.toNat + 1) % 2 ^ w := by
    rw [BitVec.toNat_add, toNat_one_of_pos hpos]
  by_cases htop : cap.toNat + 1 = 2 ^ w
  · rw [htop, Nat.mod_self] at hsum
    exact absurd (BitVec.eq_of_toNat_eq hsum) h
  · rw [hsum, Nat.mod_eq_of_lt (by omega)]

/-- Indices that count up freely are as far apart as the counts. -/
theorem sub_mod_eq {t k W : ℕ} (hk : k < W) :
    (W - t % W + (t + k) % W) % W = k := by
  have ht : t % W < W := Nat.mod_lt t (Nat.zero_lt_of_lt hk)
  rw [← Nat.mod_add_mod t W k]
  by_cases hwrap : t % W + k < W
  · have hsum : W - t % W + (t % W + k) = W + k := by omega
    rw [Nat.mod_eq_of_lt hwrap, hsum, Nat.add_mod_left, Nat.mod_eq_of_lt hk]
  · have hsum : W - t % W + (t % W + k - W) = k := by omega
    have hmod : (t % W + k) % W = t % W + k - W := by
      rw [Nat.mod_eq_sub_mod (by omega), Nat.mod_eq_of_lt (by omega)]
    rw [hmod, hsum, Nat.mod_eq_of_lt hk]

/-- The length, as long as it is the distance of the indices. -/
theorem len_eq {k t : ℕ} (hpos : 0 < cap.toNat) (hcap : cap + 1 ≠ 0) (hk : k ≤ cap.toNat)
    (hhead : rb.head.toNat = (t + k) % 2 ^ w) (htail : rb.tail.toNat = t % 2 ^ w) :
    rb.len = some (BitVec.ofNat w k) := by
  have hlt : k < 2 ^ w := Nat.lt_of_le_of_lt hk cap.isLt
  rw [len, if_neg hcap]
  refine congrArg some (BitVec.eq_of_toNat_eq ?_)
  rw [BitVec.toNat_umod, BitVec.toNat_sub, hhead, htail, sub_mod_eq hlt,
    toNat_cap_add_one hpos hcap, BitVec.toNat_ofNat, Nat.mod_eq_of_lt hlt,
    Nat.mod_eq_of_lt (Nat.lt_succ_of_le hk)]

theorem isFull_eq {k : ℕ} (hk : k ≤ cap.toNat) (hlen : rb.len = some (BitVec.ofNat w k)) :
    rb.isFull = some (decide (¬k < cap.toNat)) := by
  have hlt : k < 2 ^ w := Nat.lt_of_le_of_lt hk cap.isLt
  rw [isFull, hlen, Option.map_some]
  refine congrArg some (decide_eq_decide.mpr ?_)
  rw [BitVec.le_def, BitVec.toNat_ofNat, Nat.mod_eq_of_lt hlt, Nat.not_lt]

theorem isEmpty_eq {k : ℕ} (hk : k ≤ cap.toNat) (hlen : rb.len = some (BitVec.ofNat w k)) :
    rb.isEmpty = some (decide (k = 0)) := by
  have hlt : k < 2 ^ w := Nat.lt_of_le_of_lt hk cap.isLt
  rw [isEmpty, hlen, Option.map_some]
  refine congrArg some (decide_eq_decide.mpr ?_)
  rw [← BitVec.toNat_inj, BitVec.toNat_ofNat, Nat.mod_eq_of_lt hlt]
  rfl

theorem Holds.len_eq (h : rb.Holds q) (hpos : 0 < cap.toNat) (hcap : cap + 1 ≠ 0) :
    rb.len = some (BitVec.ofNat w q.items.length) := by
  refine RingBuf.len_eq hpos hcap h.length_le ?_ h.tail_eq
  rw [h.head_eq, Nat.sub_add_cancel h.length_le_taken]

/-- A push with room left. -/
theorem call_push {k : ℕ} (hpos : 0 < cap.toNat) (hk : k < cap.toNat)
    (hlen : rb.len = some (BitVec.ofNat w k)) (item : α) :
    ∃ rb', rb.call (.push item) = some (.pushed true, rb') ∧
      rb'.buf = rb.buf.set (rb.head % cap).toNat (some item) ∧
      rb'.head = rb.head + 1 ∧ rb'.tail = rb.tail := by
  have hin : (rb.head % cap).toNat < rb.buf.length := by
    rw [BitVec.toNat_umod, rb.length_buf]
    exact Nat.mod_lt _ hpos
  rw [call, RingBuf.tryPush, isFull_eq (Nat.le_of_lt hk) hlen, Option.bind_some,
    if_neg (by simpa using hk), if_pos hin]
  exact ⟨_, rfl, rfl, rfl, rfl⟩

/-- **Pushing** is pushing to the queue, unless an index wraps. -/
theorem Holds.tryPush (h : rb.Holds q) (hpos : 0 < cap.toNat) (hcap : cap + 1 ≠ 0) (item : α)
    (hwraps : Wraps cap (step cap.toNat q (.push item)).2.taken) :
    ∃ rb', rb.call (.push item) = some ((step cap.toNat q (.push item)).1, rb') ∧
      rb'.Holds (step cap.toNat q (.push item)).2 := by
  have hlen := h.length_le_taken
  by_cases hroom : q.items.length < cap.toNat
  · rw [step_push_of_lt hroom] at hwraps ⊢
    obtain ⟨rb', hcall, hbuf, hhead, htail⟩ := call_push hpos hroom (h.len_eq hpos hcap) item
    -- as long as no index wraps, slot `k` modulo the capacity belongs to item `k`
    have hslot := mod_cap_eq hwraps (Nat.lt_succ_self q.taken) h.head_eq
    have hplace : q.taken % cap.toNat = ((q.taken - q.items.length) % cap.toNat +
        (q.items.map some).length) % rb.buf.length := by
      rw [rb.length_buf, Nat.mod_add_mod, List.length_map, Nat.sub_add_cancel hlen]
    have hlen' : (q.items ++ [item]).length = q.items.length + 1 := List.length_append
    refine ⟨rb', hcall, ⟨?_, ?_, ?_, ?_, ?_⟩⟩
    · rw [hlen']
      exact hroom
    · rw [hlen']
      exact Nat.succ_le_succ hlen
    · rw [hhead, BitVec.toNat_add, toNat_one_of_pos hpos, h.head_eq, Nat.mod_add_mod]
    · rw [htail, h.tail_eq, hlen', Nat.add_sub_add_right]
    · rw [hbuf, hlen', Nat.add_sub_add_right, List.map_append, hslot, hplace]
      refine h.circle.push ?_ (some item)
      rw [List.length_map, rb.length_buf]
      exact hroom
  · rw [step_push_of_not_lt hroom] at hwraps ⊢
    rw [call, RingBuf.tryPush, isFull_eq h.length_le (h.len_eq hpos hcap), Option.bind_some,
      if_pos (by simpa using hroom)]
    exact ⟨_, rfl, h.length_le, h.length_le_taken, h.head_eq, h.tail_eq, h.circle⟩

/-- **Popping** is popping from the queue, unless an index has wrapped. -/
theorem Holds.pop (h : rb.Holds q) (hpos : 0 < cap.toNat) (hcap : cap + 1 ≠ 0)
    (hwraps : Wraps cap q.taken) :
    ∃ rb', rb.call .pop = some ((step cap.toNat q .pop).1, rb') ∧
      rb'.Holds (step cap.toNat q .pop).2 := by
  obtain ⟨items, taken, refused⟩ := q
  rw [call, RingBuf.pop, isEmpty_eq h.length_le (h.len_eq hpos hcap), step]
  cases items with
  | nil =>
    rw [Option.bind_some, if_pos (by simp)]
    exact ⟨rb, rfl, h⟩
  | cons item items =>
    have hlen : items.length + 1 ≤ taken := h.length_le_taken
    have hslot := mod_cap_eq hwraps (show taken - (items.length + 1) < taken by omega) h.tail_eq
    have hhead : rb.buf[(rb.tail % cap).toNat]? = some (some item) := by
      rw [hslot]
      exact h.circle.head
    have hnext : taken - items.length = taken - (items.length + 1) + 1 := by omega
    rw [Option.bind_some, if_neg (by simp), hhead]
    refine ⟨_, rfl, ⟨?_, ?_, h.head_eq, ?_, ?_⟩⟩
    · exact Nat.le_trans (Nat.le_succ _) h.length_le
    · exact Nat.le_trans (Nat.le_succ _) h.length_le_taken
    · dsimp only
      rw [BitVec.toNat_add, toNat_one_of_pos hpos, h.tail_eq, Nat.mod_add_mod]
      exact congrArg (· % 2 ^ w) hnext.symm
    · have htail := h.circle.tail
      rw [rb.length_buf, Nat.mod_add_mod] at htail
      dsimp only
      rw [List.tail_cons, hnext]
      exact htail

theorem holds_new (hpos : 0 < cap.toNat) : (new : RingBuf α w cap).Holds .empty where
  length_le := Nat.zero_le _
  length_le_taken := Nat.zero_le _
  head_eq := (Nat.zero_mod _).symm
  tail_eq := (Nat.zero_mod _).symm
  circle := circle_nil (by
    rw [new.length_buf]
    exact Nat.mod_lt _ hpos)

/-- **Until an index wraps**, and afterwards for the capacities that divide the number of words, the
buffer is the queue. -/
theorem holds_run (hpos : 0 < cap.toNat) (hcap : cap + 1 ≠ 0) (ops : List (Op α))
    (hwraps : Wraps cap (run cap.toNat .empty ops).2.taken) :
    ∃ rb : RingBuf α w cap,
      tryRun RingBuf.call .new ops = some ((run cap.toNat .empty ops).1, rb) ∧
        rb.Holds (run cap.toNat .empty ops).2 := by
  refine tryRun_eq (fun (rb : RingBuf α w cap) q => rb.Holds q) (Wraps cap)
    (fun k k' hle => Or.imp_right (Nat.le_trans hle)) (fun rb q op h hnext => ?_)
    (holds_new hpos) ops hwraps
  cases op with
  | push item => exact h.tryPush hpos hcap item hnext
  | pop => exact h.pop hpos hcap hnext

theorem fifo_of_wraps (hpos : 0 < cap.toNat) (hcap : cap + 1 ≠ 0) (ops : List (Op α))
    (hwraps : Wraps cap (run cap.toNat .empty ops).2.taken) : Fifo cap ops := by
  obtain ⟨rb, hrun, hholds⟩ := holds_run hpos hcap ops hwraps
  exact ⟨rb, hrun, hholds.len_eq hpos hcap⟩

/-! ### A run that wraps -/

/-- All words but the last go by, and an item takes the last one. -/
def upToWrap (w : ℕ) (first later : α) : List (Op α) :=
  (List.replicate (2 ^ w - 1) [.push later, .pop]).flatten ++ [.push first]

/-- After that as many items are pushed as reach its slot again. -/
def overrun (w : ℕ) (cap : BitVec w) (first later : α) : List (Op α) :=
  upToWrap w first later ++ (List.replicate (2 ^ w % cap.toNat) (.push later) ++ [.pop])

/-- A queue that is filled and emptied. -/
theorem run_pairs {n : ℕ} (hn : 0 < n) (item : α) (taken refused N : ℕ) :
    (run n ⟨[], taken, refused⟩ (List.replicate N [.push item, .pop]).flatten).2 =
      ⟨[], taken + N, refused⟩ := by
  induction N generalizing taken with
  | zero => rfl
  | succ N ih =>
    have hpair : run n ⟨[], taken, refused⟩ [.push item, .pop] =
        ([.pushed true, .popped (some item)], ⟨[], taken + 1, refused⟩) := by
      rw [run, step_push_of_lt (q := ⟨[], taken, refused⟩) hn]
      rfl
    rw [List.replicate_succ, List.flatten_cons, run_append, hpair, ih, Nat.add_right_comm,
      Nat.add_assoc]

/-- A queue that is filled further. -/
theorem run_pushes {n : ℕ} (item : α) (items : List α) (taken refused m : ℕ)
    (hm : items.length + m ≤ n) :
    run n ⟨items, taken, refused⟩ (List.replicate m (.push item)) =
      (List.replicate m (.pushed true),
        ⟨items ++ List.replicate m item, taken + m, refused⟩) := by
  induction m generalizing items taken with
  | zero => simp [run]
  | succ m ih =>
    have hroom : items.length < n := by omega
    rw [List.replicate_succ, run, step_push_of_lt (q := ⟨items, taken, refused⟩) hroom]
    dsimp only
    rw [ih (items ++ [item]) (taken + 1) (by rw [List.length_append, List.length_singleton]; omega),
      List.append_assoc, List.singleton_append, ← List.replicate_succ, Nat.add_right_comm,
      Nat.add_assoc, ← List.replicate_succ]

/-- After the wrap the items go to the first slots. -/
theorem tryRun_pushes (hpos : 0 < cap.toNat) (hcap : cap + 1 ≠ 0) (item : α) (i m : ℕ)
    (hm : i + m < cap.toNat) (rb : RingBuf α w cap) (hhead : rb.head.toNat = i)
    (htail : rb.tail.toNat = 2 ^ w - 1) :
    ∃ rb', tryRun RingBuf.call rb (List.replicate m (.push item)) =
        some (List.replicate m (.pushed true), rb') ∧
      rb'.head.toNat = i + m ∧ rb'.tail.toNat = 2 ^ w - 1 ∧
      (∀ j < i, rb'.buf[j]? = rb.buf[j]?) ∧
      ∀ j, i ≤ j → j < i + m → rb'.buf[j]? = some (some item) := by
  have hword := cap.isLt
  induction m generalizing i rb with
  | zero => exact ⟨rb, rfl, hhead, htail, fun _ _ => rfl, fun j hle hlt => absurd hlt (by omega)⟩
  | succ m ih =>
    have hlen : rb.len = some (BitVec.ofNat w (i + 1)) := by
      refine RingBuf.len_eq (t := 2 ^ w - 1) hpos hcap (by omega) ?_ ?_
      · have hsum : 2 ^ w - 1 + (i + 1) = 2 ^ w + i := by omega
        rw [hhead, hsum, Nat.add_mod_left, Nat.mod_eq_of_lt (by omega)]
      · rw [htail, Nat.mod_eq_of_lt (by omega)]
    have hslot : (rb.head % cap).toNat = i := by
      rw [BitVec.toNat_umod, hhead, Nat.mod_eq_of_lt (by omega)]
    obtain ⟨rb₁, hcall, hbuf, hhead₁, htail₁⟩ := call_push hpos (by omega) hlen item
    have hnext : rb₁.head.toNat = i + 1 := by
      rw [hhead₁, BitVec.toNat_add, toNat_one_of_pos hpos, hhead, Nat.mod_eq_of_lt (by omega)]
    obtain ⟨rb', hrun, hhead', htail', hbefore, hafter⟩ :=
      ih (i + 1) (by omega) rb₁ hnext (htail₁ ▸ htail)
    refine ⟨rb', ?_, by omega, htail', fun j hj => ?_, fun j hle hlt => ?_⟩
    · rw [List.replicate_succ, tryRun, hcall, Option.bind_some, hrun, Option.map_some,
        List.replicate_succ]
    · rw [hbefore j (by omega), hbuf, hslot, List.getElem?_set_ne (by omega)]
    · by_cases hfirst : j = i
      · subst hfirst
        have hin : j < rb.buf.length := by
          rw [rb.length_buf]
          omega
        rw [hbefore j (by omega), hbuf, hslot, List.getElem?_set_self hin]
      · exact hafter j (by omega) (by omega)

/-- The slot of the last index, when the capacity does not divide the number of words. -/
theorem pred_mod_add_one {c W : ℕ} (hndvd : ¬c ∣ W) : (W - 1) % c + 1 = W % c := by
  have hrem : W % c ≠ 0 := fun h => hndvd (Nat.dvd_of_mod_eq_zero h)
  rcases Nat.eq_zero_or_pos c with rfl | hpos
  · rw [Nat.mod_zero] at hrem ⊢
    rw [Nat.mod_zero]
    omega
  have hlt := Nat.mod_lt W hpos
  have hsplit := Nat.div_add_mod W c
  generalize W / c = d, W % c = r at *
  have hlast : W - 1 = (r - 1) + c * d := by omega
  rw [hlast, Nat.add_mul_mod_self_left, Nat.mod_eq_of_lt (by omega)]
  omega

/-- **A wrapped index loses an item** whose slot it reaches too early: the run does not come out in
order. -/
theorem not_fifo_overrun (hpos : 0 < cap.toNat) (hcap : cap + 1 ≠ 0) (hndvd : ¬cap.toNat ∣ 2 ^ w)
    {first later : α} (hne : later ≠ first) : ¬Fifo cap (overrun w cap first later) := by
  rintro ⟨rbEnd, hrun, -⟩
  have hword := cap.isLt
  have hrem := Nat.mod_lt (2 ^ w) hpos
  have hlast := pred_mod_add_one hndvd
  -- until the last word the buffer is the queue
  have hspec : (run cap.toNat .empty (upToWrap w first later)).2 = ⟨[first], 2 ^ w, 0⟩ := by
    have hempty : (State.empty : State α) = ⟨[], 0, 0⟩ := rfl
    rw [upToWrap, run_append, hempty, run_pairs hpos, run, step_push_of_lt (q := ⟨[], _, 0⟩) hpos,
      run]
    refine congrArg (State.mk [first] · 0) ?_
    dsimp only
    omega
  obtain ⟨rb, hfirst, hholds⟩ :=
    holds_run hpos hcap (upToWrap w first later) (.inr (by rw [hspec]))
  rw [hspec] at hholds
  have hhead : rb.head.toNat = 0 := hholds.head_eq.trans (Nat.mod_self _)
  have htail : rb.tail.toNat = 2 ^ w - 1 := by
    refine hholds.tail_eq.trans (Nat.mod_eq_of_lt ?_)
    dsimp only [List.length_singleton]
    omega
  -- then the later items go to the first slots
  obtain ⟨rb', hpushes, hhead', htail', -, hslots⟩ := tryRun_pushes hpos hcap later 0
    (2 ^ w % cap.toNat) (by omega) rb hhead htail
  have hlen : rb'.len = some (BitVec.ofNat w (2 ^ w % cap.toNat + 1)) := by
    refine RingBuf.len_eq (t := 2 ^ w - 1) hpos hcap hrem ?_ ?_
    · have hsum : 2 ^ w - 1 + (2 ^ w % cap.toNat + 1) = 2 ^ w + 2 ^ w % cap.toNat := by omega
      have hlt : 2 ^ w % cap.toNat < 2 ^ w := Nat.lt_trans hrem hword
      rw [hhead', hsum, Nat.add_mod_left, Nat.zero_add, Nat.mod_eq_of_lt hlt]
    · rw [htail', Nat.mod_eq_of_lt (by omega)]
  have hslot : rb'.buf[(rb'.tail % cap).toNat]? = some (some later) := by
    rw [BitVec.toNat_umod, htail']
    exact hslots _ (Nat.zero_le _) (by omega)
  have hpop : rb'.call .pop = some (.popped (some later), { rb' with tail := rb'.tail + 1 }) := by
    rw [call, RingBuf.pop, isEmpty_eq hrem hlen, Option.bind_some, if_neg (by simp), hslot]
    rfl
  rw [overrun, tryRun_append, hfirst, Option.bind_some, tryRun_append, hpushes, Option.bind_some,
    tryRun, hpop, Option.bind_some, tryRun, Option.map_some, Option.map_some, Option.map_some,
    run_append, hspec, run_append, run_pushes _ _ _ _ _ (by
      rw [List.length_singleton]
      omega)] at hrun
  have hanswers := congrArg Prod.fst (Option.some.inj hrun)
  have hpopped := List.append_cancel_left (List.append_cancel_left hanswers)
  exact hne (Option.some.inj (Answer.popped.inj (List.cons.inj hpopped).1))

/-- **The buffer is a bounded queue** as long as no index wraps, and on all runs exactly for the
capacities that divide the number of words (where `CAP + 1` overflows, `len` panics). -/
theorem ringBuf_fifo_iff [Nontrivial α] (hpos : 0 < cap.toNat) :
    (∀ ops : List (Op α), cap + 1 ≠ 0 →
        cap.toNat ∣ 2 ^ w ∨ (run cap.toNat .empty ops).2.taken ≤ 2 ^ w → Fifo cap ops) ∧
      ((∀ ops : List (Op α), Fifo cap ops) ↔ cap + 1 ≠ 0 ∧ cap.toNat ∣ 2 ^ w) := by
  refine ⟨fun ops hcap hwraps => fifo_of_wraps hpos hcap ops hwraps, fun h => ?_,
    fun ⟨hcap, hdvd⟩ ops => fifo_of_wraps hpos hcap ops (.inl hdvd)⟩
  have hcap : cap + 1 ≠ 0 := by
    intro hzero
    obtain ⟨rb, -, hlen⟩ := h []
    rw [len, if_pos hzero] at hlen
    exact absurd hlen (by simp)
  refine ⟨hcap, ?_⟩
  by_contra hndvd
  obtain ⟨first, later, hne⟩ := exists_pair_ne α
  exact not_fifo_overrun hpos hcap hndvd hne.symm (h _)

/-- Three slots, before an index has wrapped. -/
theorem ringBuf_fifo_three : Fifo (3 : BitVec 32) [.push true, .push false, .pop] :=
  (ringBuf_fifo_iff (by decide)).1 _ (by decide) (.inr (by decide))

/-- Three slots on a machine of 32 bits, past the wrap. -/
theorem not_ringBuf_fifo : ¬Fifo (3 : BitVec 32) (overrun 32 3 false true) :=
  not_fifo_overrun (by decide) (by decide) (by decide) (by decide)

end RingBuf

end Rivr
