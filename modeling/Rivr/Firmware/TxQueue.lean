import Mathlib.Data.List.Basic

/-!
# The transmit queue

`rf_tx_queue`, the ring buffer of `firmware_core/ringbuf.h` through which every frame reaches
the radio: a queue that is full with one slot still unused, so that it holds three requests in
the four slots it has.
-/

namespace Rivr

def rfTxQueueCap : ℕ := 4

/-- `rf_tx_request_t`; the frame is the list of its `len` bytes. -/
structure RfTxRequest where
  data : List UInt8
  toaUs : UInt32
  dueMs : UInt32
  deriving DecidableEq, Repr

/-- `rf_tx_queue`, oldest request first. -/
structure TxQueue where
  items : List RfTxRequest
  length_lt : items.length < rfTxQueueCap

/-- The queue after `rb_init`. -/
def TxQueue.empty : TxQueue := ⟨[], by decide⟩

/-- `rb_try_push`: whether the request was taken, and the queue it leaves. -/
def rbTryPush (q : TxQueue) (req : RfTxRequest) : Bool × TxQueue :=
  if h : q.items.length + 1 < rfTxQueueCap then
    (true, ⟨q.items ++ [req], by simpa using h⟩)
  else (false, q)

/-- `rb_pop`. -/
def rbPop (q : TxQueue) : Option RfTxRequest × TxQueue :=
  match q with
  | ⟨[], _⟩ => (none, q)
  | ⟨req :: rest, h⟩ => (some req, ⟨rest, Nat.lt_of_succ_lt h⟩)

/-- A pop takes the oldest request, if there is one. -/
theorem rbPop_cases (q : TxQueue) :
    rbPop q = (none, q) ∨ ∃ req rest, rbPop q = (some req, rest) ∧ q.items = req :: rest.items := by
  obtain ⟨items, hlt⟩ := q
  cases items with
  | nil => exact Or.inl rfl
  | cons req rest => exact Or.inr ⟨req, ⟨rest, Nat.lt_of_succ_lt hlt⟩, rfl, rfl⟩

/-- A push takes the request, or leaves the queue as it was. -/
theorem rbTryPush_cases (q : TxQueue) (req : RfTxRequest) :
    ((rbTryPush q req).1 = true ∧ (rbTryPush q req).2.items = q.items ++ [req]) ∨
      ((rbTryPush q req).1 = false ∧ (rbTryPush q req).2 = q) := by
  rw [rbTryPush]
  split
  · exact Or.inl ⟨rfl, rfl⟩
  · exact Or.inr ⟨rfl, rfl⟩

/-- A queue that refused a request refuses the next one too. -/
theorem rbTryPush_of_refused {q : TxQueue} {req : RfTxRequest} (h : (rbTryPush q req).1 = false)
    (req' : RfTxRequest) : rbTryPush q req' = (false, q) := by
  rw [rbTryPush] at h ⊢
  split at h
  · exact nomatch h
  · rename_i hfull
    exact dif_neg hfull

/-- If a push lengthened the queue, then by its request. -/
theorem eq_of_rbTryPush {q : TxQueue} {req r : RfTxRequest}
    (h : (rbTryPush q req).2.items = q.items ++ [r]) : r = req := by
  rcases rbTryPush_cases q req with ⟨-, hitems⟩ | ⟨-, hsame⟩
  · rw [hitems] at h
    exact (List.singleton_inj.mp (List.append_cancel_left h)).symm
  · rw [hsame] at h
    simp at h

/-- What is in the queue after a push was there before, or was pushed. -/
theorem mem_rbTryPush {q : TxQueue} {req r : RfTxRequest} (h : r ∈ (rbTryPush q req).2.items) :
    r ∈ q.items ∨ r = req := by
  rcases rbTryPush_cases q req with ⟨-, hitems⟩ | ⟨-, hsame⟩
  · rw [hitems] at h
    exact (List.mem_append.mp h).imp_right List.mem_singleton.mp
  · exact Or.inl (hsame ▸ h)

end Rivr
