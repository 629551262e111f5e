import Rivr.Firmware.TxQueue
import Rivr.ForMathlib.BoundedFifo
import Mathlib.Algebra.Ring.Nat
import Mathlib.Data.Nat.ModEq

/-!
# The ring buffer

`firmware_core/ringbuf.h`: one slot stays unused so that a full buffer differs from an empty one,
and indices are masked with the capacity less one. For every capacity that `rb_init` accepts, the
buffer is the queue of one item less (`ring_fifo`), without ever leaving its storage. The transmit
queue is the case of four slots (`rbTryPush_eq_step`, `rbPop_eq_step`).
-/

open BoundedFifo

namespace Rivr

variable {α : Type*}

/-- `rb_t`, its storage in items of `item_size` bytes. -/
structure RingBuffer (α : Type*) where
  buf : List α
  cap : UInt32
  head : UInt32
  tail : UInt32
  drops : UInt32
  deriving DecidableEq, Repr

/-- `rb_init`; `none` where its assertion fails. -/
def rbInit (storage : List α) (cap : UInt32) : Option (RingBuffer α) :=
  if cap > 0 ∧ cap &&& (cap - 1) = 0 then some ⟨storage, cap, 0, 0, 0⟩ else none

namespace RingBuffer

/-- `rb_try_push`; `none` where it would write outside the storage. -/
def tryPush (rb : RingBuffer α) (item : α) : Option (Bool × RingBuffer α) :=
  let next := (rb.head + 1) &&& (rb.cap - 1)
  if next = rb.tail then some (false, { rb with drops := rb.drops + 1 })
  else if rb.head.toNat < rb.buf.length then
    some (true, { rb with buf := rb.buf.set rb.head.toNat item, head := next })
  else none

/-- `rb_pop`; `none` where it would read outside the storage. -/
def pop (rb : RingBuffer α) : Option (Option α × RingBuffer α) :=
  if rb.tail = rb.head then some (none, rb)
  else
    rb.buf[rb.tail.toNat]?.map fun item =>
      (some item, { rb with tail := (rb.tail + 1) &&& (rb.cap - 1) })

/-- `rb_available`. -/
def available (rb : RingBuffer α) : UInt32 :=
  (rb.head - rb.tail) &&& (rb.cap - 1)

/-- One call. -/
def call (rb : RingBuffer α) : Op α → Option (Answer α × RingBuffer α)
  | .push item => (rb.tryPush item).map fun (ok, rb) => (.pushed ok, rb)
  | .pop => rb.pop.map fun (item, rb) => (.popped item, rb)

/-- The buffer holds the queue. -/
structure Holds (rb : RingBuffer α) (q : State α) : Prop where
  cap_eq : ∃ k, rb.cap.toNat = 2 ^ k
  length_buf : rb.buf.length = rb.cap.toNat
  circle : Circle rb.buf rb.tail.toNat q.items
  items_lt : q.items.length < rb.cap.toNat
  head_eq : rb.head.toNat = (rb.tail.toNat + q.items.length) % rb.cap.toNat
  drops_eq : rb.drops.toNat = q.refused % 2 ^ 32

variable {rb : RingBuffer α} {q : State α}

/-- The mask is the remainder, for a power of two. -/
theorem toNat_and_cap {cap : UInt32} (hcap : ∃ k, cap.toNat = 2 ^ k) (x : UInt32) :
    (x &&& (cap - 1)).toNat = x.toNat % cap.toNat := by
  obtain ⟨k, hk⟩ := hcap
  have hone : (1 : UInt32) ≤ cap := by
    rw [UInt32.le_iff_toNat_le, UInt32.toNat_one, hk]
    exact Nat.two_pow_pos k
  rw [UInt32.toNat_and, UInt32.toNat_sub_of_le _ _ hone, UInt32.toNat_one, hk,
    Nat.and_two_pow_sub_one_eq_mod]

/-- The machine word is a multiple of the capacity. -/
theorem cap_dvd {cap : UInt32} (hcap : ∃ k, cap.toNat = 2 ^ k) : cap.toNat ∣ 2 ^ 32 := by
  obtain ⟨k, hk⟩ := hcap
  have hlt := cap.toNat_lt
  rw [hk] at hlt ⊢
  have hle : k < 32 := (Nat.pow_lt_pow_iff_right (by decide : 1 < 2)).mp hlt
  exact Nat.pow_dvd_pow 2 (Nat.le_of_lt hle)

/-- The next index. -/
theorem toNat_next {cap : UInt32} (hcap : ∃ k, cap.toNat = 2 ^ k) (x : UInt32) :
    ((x + 1) &&& (cap - 1)).toNat = (x.toNat + 1) % cap.toNat := by
  rw [toNat_and_cap hcap, UInt32.toNat_add, UInt32.toNat_one, Nat.mod_mod_of_dvd _ (cap_dvd hcap)]

theorem Holds.tail_lt (h : rb.Holds q) : rb.tail.toNat < rb.cap.toNat := by
  rw [← h.length_buf]
  exact h.circle.pos_lt

/-- `rb_available` is the length of the queue. -/
theorem Holds.toNat_available (h : rb.Holds q) : rb.available.toNat = q.items.length := by
  have htail := rb.tail.toNat_lt
  -- up to the tail on both sides, both are the head
  have hmod : (2 ^ 32 - rb.tail.toNat + rb.head.toNat) + rb.tail.toNat ≡
      q.items.length + rb.tail.toNat [MOD rb.cap.toNat] := by
    have hsum : (2 ^ 32 - rb.tail.toNat + rb.head.toNat) + rb.tail.toNat =
        rb.head.toNat + 2 ^ 32 := by omega
    have hword : 2 ^ 32 ≡ 0 [MOD rb.cap.toNat] := Nat.modEq_zero_iff_dvd.mpr (cap_dvd h.cap_eq)
    have hhead : rb.head.toNat ≡ rb.tail.toNat + q.items.length [MOD rb.cap.toNat] := by
      rw [h.head_eq]
      exact Nat.mod_modEq _ _
    rw [hsum, Nat.add_comm q.items.length]
    exact (hhead.add hword).trans (Nat.ModEq.refl _)
  have hlen := Nat.ModEq.add_right_cancel' _ hmod
  rw [available, toNat_and_cap h.cap_eq, UInt32.toNat_sub, Nat.mod_mod_of_dvd _ (cap_dvd h.cap_eq)]
  rw [Nat.ModEq, Nat.mod_eq_of_lt h.items_lt] at hlen
  exact hlen

/-- The buffer is full when the next index is the tail. -/
theorem Holds.full_iff (h : rb.Holds q) :
    (rb.head + 1) &&& (rb.cap - 1) = rb.tail ↔ ¬q.items.length < rb.cap.toNat - 1 := by
  have htail := h.tail_lt
  have hlt := h.items_lt
  have hnext : ((rb.head + 1) &&& (rb.cap - 1)).toNat =
      (rb.tail.toNat + (q.items.length + 1)) % rb.cap.toNat := by
    rw [toNat_next h.cap_eq, h.head_eq, Nat.mod_add_mod, Nat.add_assoc]
  rw [← UInt32.toNat_inj, hnext]
  constructor
  · intro heq hroom
    have hne : rb.tail.toNat % rb.cap.toNat ≠
        (rb.tail.toNat + (q.items.length + 1)) % rb.cap.toNat :=
      mod_ne_mod (by omega) (by omega)
    exact hne ((Nat.mod_eq_of_lt htail).trans heq.symm)
  · intro hfull
    have hlen : q.items.length + 1 = rb.cap.toNat := by omega
    rw [hlen, Nat.add_mod_right, Nat.mod_eq_of_lt htail]

/-- **Pushing** is pushing to the queue. -/
theorem Holds.tryPush (h : rb.Holds q) (item : α) :
    ∃ rb', rb.call (.push item) = some ((step (rb.cap.toNat - 1) q (.push item)).1, rb') ∧
      rb'.Holds (step (rb.cap.toNat - 1) q (.push item)).2 ∧ rb'.cap = rb.cap := by
  have hhead : rb.head.toNat < rb.buf.length := by
    rw [h.head_eq, h.length_buf]
    exact Nat.mod_lt _ (Nat.zero_lt_of_lt h.items_lt)
  rw [call, RingBuffer.tryPush, step]
  dsimp only
  by_cases hroom : q.items.length < rb.cap.toNat - 1
  · rw [if_neg (fun heq => h.full_iff.mp heq hroom), if_pos hhead, if_pos hroom]
    refine ⟨_, rfl, ⟨h.cap_eq, ?_, ?_, ?_, ?_, h.drops_eq⟩, rfl⟩
    · rw [List.length_set, h.length_buf]
    · dsimp only
      have hlen : q.items.length < rb.buf.length := by
        rw [h.length_buf]
        exact h.items_lt
      rw [h.head_eq, ← h.length_buf]
      exact h.circle.push hlen item
    · rw [List.length_append, List.length_singleton]
      dsimp only
      omega
    · dsimp only
      rw [toNat_next h.cap_eq, h.head_eq, Nat.mod_add_mod, List.length_append,
        List.length_singleton, Nat.add_assoc]
  · rw [if_pos (h.full_iff.mpr hroom), if_neg hroom]
    refine ⟨_, rfl, ⟨h.cap_eq, h.length_buf, h.circle, h.items_lt, h.head_eq, ?_⟩, rfl⟩
    dsimp only
    rw [UInt32.toNat_add, UInt32.toNat_one, h.drops_eq, Nat.mod_add_mod]

/-- **Popping** is popping from the queue. -/
theorem Holds.pop (h : rb.Holds q) :
    ∃ rb', rb.call .pop = some ((step (rb.cap.toNat - 1) q .pop).1, rb') ∧
      rb'.Holds (step (rb.cap.toNat - 1) q .pop).2 ∧ rb'.cap = rb.cap := by
  obtain ⟨items, taken, refused⟩ := q
  have htail := h.tail_lt
  rw [call, RingBuffer.pop, step]
  cases items with
  | nil =>
    have hempty : rb.tail = rb.head := by
      rw [← UInt32.toNat_inj, h.head_eq]
      exact (Nat.mod_eq_of_lt htail).symm
    rw [if_pos hempty]
    exact ⟨rb, rfl, h, rfl⟩
  | cons item items =>
    have hlt : items.length + 1 < rb.cap.toNat := h.items_lt
    have hheld : rb.tail ≠ rb.head := by
      intro heq
      rw [← UInt32.toNat_inj, h.head_eq] at heq
      -- head and tail differ, since fewer items than the capacity lie between them
      have hne : rb.tail.toNat % rb.cap.toNat ≠
          (rb.tail.toNat + (items.length + 1)) % rb.cap.toNat :=
        mod_ne_mod (by omega) (by omega)
      exact hne ((Nat.mod_eq_of_lt htail).trans heq)
    rw [if_neg hheld, h.circle.head]
    refine ⟨_, rfl, ⟨h.cap_eq, h.length_buf, ?_, ?_, ?_, h.drops_eq⟩, rfl⟩
    · dsimp only
      rw [toNat_next h.cap_eq, ← h.length_buf]
      exact h.circle.tail
    · exact Nat.lt_of_succ_lt hlt
    · dsimp only
      rw [toNat_next h.cap_eq, h.head_eq, Nat.mod_add_mod]
      exact congrArg (· % rb.cap.toNat) (by rw [List.tail_cons, List.length_cons]; omega)

/-- **A call** is a request to the queue. -/
theorem Holds.call (h : rb.Holds q) (op : Op α) :
    ∃ rb', rb.call op = some ((step (rb.cap.toNat - 1) q op).1, rb') ∧
      rb'.Holds (step (rb.cap.toNat - 1) q op).2 ∧ rb'.cap = rb.cap := by
  cases op with
  | push item => exact h.tryPush item
  | pop => exact h.pop

/-- A push that fails changes the drop counter only. -/
theorem Holds.tryPush_eq_iff (h : rb.Holds q) (item : α) :
    rb.tryPush item = some (false, { rb with drops := rb.drops + 1 }) ↔
      q.items.length = rb.cap.toNat - 1 := by
  have hlt := h.items_lt
  rw [RingBuffer.tryPush]
  constructor
  · intro hfail
    split_ifs at hfail with hfull hroom
    · have := h.full_iff.mp hfull
      omega
    · exact absurd (congrArg Prod.fst (Option.some.inj hfail)) (by simp)
  · intro hfull
    rw [if_pos (h.full_iff.mpr (by omega))]

end RingBuffer

/-- The assertion of `rb_init` is that the capacity is a power of two. -/
theorem isSome_rbInit_iff (storage : List α) (cap : UInt32) :
    (rbInit storage cap).isSome ↔ ∃ k, cap.toNat = 2 ^ k := by
  have hpow : (cap > 0 ∧ cap &&& (cap - 1) = 0) ↔ ∃ k, cap.toNat = 2 ^ k := by
    rw [gt_iff_lt, UInt32.lt_iff_toNat_lt, UInt32.toNat_zero, ← UInt32.toNat_inj,
      UInt32.toNat_zero, UInt32.toNat_and]
    have hand : 0 < cap.toNat → (cap - 1).toNat = cap.toNat - 1 := fun hpos =>
      UInt32.toNat_sub_of_le _ _ (by rw [UInt32.le_iff_toNat_le]; exact hpos)
    rw [and_congr_right fun hpos => by rw [hand hpos], Nat.pos_iff_ne_zero]
    exact Nat.ne_zero_and_sub_one_eq_zero_iff_isPowerOfTwo
  rw [rbInit, ← hpow]
  split_ifs with h
  · exact iff_of_true rfl h
  · exact iff_of_false (by simp) h

/-- After `rb_init` the buffer holds the empty queue. -/
theorem holds_rbInit {storage : List α} {cap : UInt32} (hstorage : storage.length = cap.toNat)
    {rb : RingBuffer α} (hinit : rbInit storage cap = some rb) :
    rb.Holds .empty ∧ rb.cap = cap := by
  have hcap := (isSome_rbInit_iff storage cap).mp (by rw [hinit]; rfl)
  have hpos : 0 < cap.toNat := by
    obtain ⟨k, hk⟩ := hcap
    rw [hk]
    exact Nat.two_pow_pos k
  rw [rbInit] at hinit
  split_ifs at hinit
  obtain rfl := Option.some.inj hinit
  refine ⟨⟨hcap, hstorage, circle_nil ?_, hpos, ?_, rfl⟩, rfl⟩
  · dsimp only
    rw [hstorage]
    exact hpos
  · exact (Nat.zero_mod _).symm

/-- **The ring buffer is a bounded queue.** For every capacity that `rb_init` accepts and all calls,
it answers as the queue of one item less than the capacity: what was taken comes out in order or is
still there, `rb_available` is the length, the drop counter counts the refused pushes, and a push
is refused, with nothing else changed, when the queue is full. -/
theorem ring_fifo (storage : List α) (cap : UInt32) (hstorage : storage.length = cap.toNat)
    (rb : RingBuffer α) (hinit : rbInit storage cap = some rb) (ops : List (Op α)) :
    ∃ rb' answers q, run (cap.toNat - 1) .empty ops = (answers, q) ∧
      tryRun RingBuffer.call rb ops = some (answers, rb') ∧
      accepted ops answers = returned answers ++ q.items ∧
      rb'.available.toNat = q.items.length ∧
      rb'.drops.toNat = refusals answers % 2 ^ 32 ∧
      ∀ item, rb'.tryPush item = some (false, { rb' with drops := rb'.drops + 1 }) ↔
        q.items.length = cap.toNat - 1 := by
  obtain ⟨rb', hrun, hholds, hcap⟩ :=
    tryRun_eq (fun (rb : RingBuffer α) q => rb.Holds q ∧ rb.cap = cap) (fun _ => True)
      (fun _ _ _ _ => trivial)
      (fun rb q op h _ => by
        obtain ⟨rb', hcall, hholds, hcap⟩ := h.1.call op
        rw [h.2] at hcall hholds hcap
        exact ⟨rb', hcall, hholds, hcap⟩)
      (holds_rbInit hstorage hinit) ops trivial
  refine ⟨rb', _, _, rfl, hrun, ?_, hholds.toNat_available, ?_, fun item => ?_⟩
  · exact accepted_eq (cap.toNat - 1) .empty ops
  · rw [hholds.drops_eq, refused_run]
    exact congrArg (· % 2 ^ 32) (Nat.zero_add _)
  · rw [hholds.tryPush_eq_iff item, hcap]

/-- Two slots hold one item. -/
theorem ring_fifo_two : ∃ rb' : RingBuffer ℕ,
    tryRun RingBuffer.call ⟨[0, 0], 2, 0, 0, 0⟩ [.push 5, .push 6, .pop, .pop] =
      some ([.pushed true, .pushed false, .popped (some 5), .popped none], rb') := by
  obtain ⟨rb', answers, q, hspec, hrun, -⟩ := ring_fifo [0, 0] 2 rfl ⟨[0, 0], 2, 0, 0, 0⟩ rfl
    [.push 5, .push 6, .pop, .pop]
  obtain rfl := congrArg Prod.fst hspec
  exact ⟨rb', hrun⟩

/-! ### The transmit queue -/

/-- The queue that stands for `rf_tx_queue`. -/
def TxQueue.state (q : TxQueue) (taken refused : ℕ) : State RfTxRequest :=
  ⟨q.items, taken, refused⟩

/-- Pushing to the transmit queue is pushing to the ring buffer of its capacity. -/
theorem rbTryPush_eq_step (q : TxQueue) (req : RfTxRequest) (taken refused : ℕ) :
    (step (rfTxQueueCap - 1) (q.state taken refused) (.push req)).1 =
        .pushed (rbTryPush q req).1 ∧
      (step (rfTxQueueCap - 1) (q.state taken refused) (.push req)).2.items =
        (rbTryPush q req).2.items := by
  rw [step, rbTryPush, TxQueue.state]
  dsimp only
  by_cases hroom : q.items.length + 1 < rfTxQueueCap
  · rw [if_pos (Nat.lt_sub_of_add_lt hroom), dif_pos hroom]
    exact ⟨rfl, rfl⟩
  · rw [if_neg (fun h => hroom (Nat.add_lt_of_lt_sub h)), dif_neg hroom]
    exact ⟨rfl, rfl⟩

/-- Popping likewise. -/
theorem rbPop_eq_step (q : TxQueue) (taken refused : ℕ) :
    (step (rfTxQueueCap - 1) (q.state taken refused) .pop).1 = .popped (rbPop q).1 ∧
      (step (rfTxQueueCap - 1) (q.state taken refused) .pop).2.items = (rbPop q).2.items := by
  obtain ⟨items, hlt⟩ := q
  cases items with
  | nil => exact ⟨rfl, rfl⟩
  | cons req items => exact ⟨rfl, rfl⟩

end Rivr
