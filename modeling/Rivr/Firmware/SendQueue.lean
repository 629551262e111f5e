import Rivr.Firmware.TxQueue
import Rivr.ForMathlib.BoundedFifo

/-!
# The send queue

`firmware_core/send_queue.c`: frames of this node wait in a circle of sixteen slots until the
transmit queue has room. Every frame that was accepted leaves in order, sent or expired
(`send_queue_expiring_fifo`).
-/

open BoundedFifo

namespace Rivr

def sendQueueSize : ℕ := 16
def sendQueueExpiryMs : UInt32 := 120000

/-- `send_entry_t`; the frame is the list of its `len` bytes. -/
structure SendEntry where
  data : List UInt8
  toaUs : UInt32
  enqueuedMs : UInt32
  valid : Bool
  deriving DecidableEq, Repr

/-- A zeroed slot. -/
def SendEntry.empty : SendEntry := ⟨[], 0, 0, false⟩

/-- The frame has waited too long. -/
def SendEntry.Expired (e : SendEntry) (nowMs : UInt32) : Prop :=
  nowMs - e.enqueuedMs > sendQueueExpiryMs

instance SendEntry.decidableExpired (e : SendEntry) (nowMs : UInt32) :
    Decidable (e.Expired nowMs) := inferInstanceAs (Decidable (_ > _))

/-- `send_queue_t`. -/
structure SendQueue where
  entries : List SendEntry
  head : UInt8
  tail : UInt8
  count : UInt8
  deriving DecidableEq, Repr

/-- `send_queue_init`. -/
def sendQueueInit : SendQueue := ⟨List.replicate sendQueueSize .empty, 0, 0, 0⟩

/-- The next index around the slots. -/
def sendNext (i : UInt8) : UInt8 := ((i.toUInt32 + 1) % 16).toUInt8

namespace SendQueue

/-- The slot at the head. -/
def front (sq : SendQueue) : SendEntry := sq.entries.getD sq.head.toNat .empty

/-- The head goes past a slot. -/
def skip (sq : SendQueue) : SendQueue :=
  { sq with head := sendNext sq.head, count := sq.count - 1 }

/-- The slot at the head is cleared. -/
def clearFront (sq : SendQueue) : SendQueue :=
  { sq with
    entries := sq.entries.set sq.head.toNat .empty
    head := sendNext sq.head
    count := sq.count - 1 }

end SendQueue

/-- The loop of `send_queue_expire`, which lowers the count at each turn. -/
def sendExpireLoop (nowMs : UInt32) : ℕ → SendQueue → ℕ × SendQueue
  | 0, sq => (0, sq)
  | n + 1, sq =>
    -- a cleared entry at the front is stepped over
    if ¬sq.front.valid then sendExpireLoop nowMs n sq.skip
    -- the scan stops at the first entry that has not expired
    else if ¬sq.front.Expired nowMs then (0, sq)
    else
      ((sendExpireLoop nowMs n sq.clearFront).1 + 1, (sendExpireLoop nowMs n sq.clearFront).2)

/-- `send_queue_expire`: the number of evicted entries, which `sq_expired` counts, and the queue it
leaves. -/
def sendQueueExpire (sq : SendQueue) (nowMs : UInt32) : ℕ × SendQueue :=
  sendExpireLoop nowMs sq.count.toNat sq

/-- `send_queue_enqueue`: whether the frame was accepted, the number of evicted entries, and the
queue it leaves. -/
def sendQueueEnqueue (sq : SendQueue) (data : List UInt8) (toaUs nowMs : UInt32) :
    Bool × ℕ × SendQueue :=
  if data.isEmpty then (false, 0, sq)
  else
    let (evicted, sq) := sendQueueExpire sq nowMs
    if sq.count.toNat ≥ sendQueueSize then (false, evicted, sq)
    else
      (true, evicted, { sq with
        entries := sq.entries.set sq.tail.toNat ⟨data, toaUs, nowMs, true⟩
        tail := sendNext sq.tail
        count := sq.count + 1 })

/-- `send_queue_tick`: the number of frames pushed, the number of evicted entries, and the two
queues it leaves. -/
def sendQueueTick (sq : SendQueue) (txQueue : TxQueue) (nowMs : UInt32) :
    UInt8 × ℕ × SendQueue × TxQueue :=
  let (evicted, sq) := sendQueueExpire sq nowMs
  if sq.count = 0 then (0, evicted, sq, txQueue)
  else if ¬sq.front.valid then (0, evicted, sq.clearFront, txQueue)
  else
    let (ok, txQueue) := rbTryPush txQueue ⟨sq.front.data, sq.front.toaUs, 0⟩
    -- an entry the transmit queue has no room for stays at the front
    if ok then (1, evicted, sq.clearFront, txQueue) else (0, evicted, sq, txQueue)

/-! ### The frames in the queue -/

/-- A frame that was accepted, with the time. -/
structure SendFrame where
  data : List UInt8
  toaUs : UInt32
  atMs : ℕ
  deriving DecidableEq, Repr

/-- Its slot. -/
def SendFrame.entry (f : SendFrame) : SendEntry := ⟨f.data, f.toaUs, UInt32.ofNat f.atMs, true⟩

/-- What is handed to the transmit queue. -/
def SendFrame.request (f : SendFrame) : RfTxRequest := ⟨f.data, f.toaUs, 0⟩

namespace SendQueue

/-- The queue holds the frames, in order, and its indices and count say so. -/
structure Holds (sq : SendQueue) (held : List SendFrame) : Prop where
  length_entries : sq.entries.length = sendQueueSize
  circle : CleanCircle .empty sq.entries sq.head.toNat (held.map SendFrame.entry)
  length_le : held.length ≤ sendQueueSize
  count_eq : sq.count.toNat = held.length
  tail_eq : sq.tail.toNat = (sq.head.toNat + held.length) % sendQueueSize

variable {sq : SendQueue} {held : List SendFrame} {f : SendFrame} {nowMs : UInt32}

theorem toNat_sendNext (i : UInt8) : (sendNext i).toNat = (i.toNat + 1) % sendQueueSize := by
  have hword : i.toNat < 256 := i.toNat_lt
  rw [sendNext, UInt32.toNat_toUInt8, UInt32.toNat_mod, UInt32.toNat_add, UInt8.toNat_toUInt32,
    UInt32.toNat_one]
  simp only [UInt32.reduceToNat, sendQueueSize]
  omega

theorem holds_init : sendQueueInit.Holds [] where
  length_entries := List.length_replicate
  circle := cleanCircle_replicate (by decide)
  length_le := Nat.zero_le _
  count_eq := rfl
  tail_eq := rfl

/-- The number of valid slots is the count. -/
theorem Holds.countP_valid (h : sq.Holds held) :
    sq.entries.countP SendEntry.valid = sq.count.toNat := by
  have hlen : (held.map SendFrame.entry).length ≤ sq.entries.length := by
    rw [List.length_map, h.length_entries]
    exact h.length_le
  rw [h.circle.countP_eq hlen rfl, h.count_eq, List.countP_map]
  exact List.countP_eq_length.mpr fun f _ => rfl

theorem Holds.front_eq (h : sq.Holds (f :: held)) : sq.front = f.entry := by
  rw [front, List.getD_eq_getElem?_getD, h.circle.head]
  rfl

/-- The oldest frame leaves. -/
theorem Holds.clearFront (h : sq.Holds (f :: held)) : sq.clearFront.Holds held := by
  have hlen : held.length + 1 ≤ sendQueueSize := h.length_le
  have hcount : sq.count.toNat = held.length + 1 := h.count_eq
  have hnext : sq.clearFront.head.toNat = (sq.head.toNat + 1) % sendQueueSize :=
    toNat_sendNext sq.head
  refine ⟨?_, ?_, Nat.le_of_succ_le hlen, ?_, ?_⟩
  · exact List.length_set.trans h.length_entries
  · rw [hnext, ← h.length_entries]
    refine h.circle.clear ?_
    rw [List.length_map, h.length_entries]
    exact hlen
  · have hone : (1 : UInt8) ≤ sq.count := by
      rw [UInt8.le_iff_toNat_le, UInt8.toNat_one]
      omega
    change (sq.count - 1).toNat = held.length
    rw [UInt8.toNat_sub_of_le _ _ hone, UInt8.toNat_one]
    omega
  · rw [hnext, Nat.mod_add_mod]
    change sq.tail.toNat = _
    rw [h.tail_eq, List.length_cons, Nat.add_right_comm, Nat.add_assoc]

/-- The frames at the front that are expired. -/
def stale (held : List SendFrame) (nowMs : UInt32) : List SendFrame :=
  held.takeWhile fun f => f.entry.Expired nowMs

/-- The frames from the first one on that is not expired. -/
def fresh (held : List SendFrame) (nowMs : UInt32) : List SendFrame :=
  held.dropWhile fun f => f.entry.Expired nowMs

theorem stale_append_fresh (held : List SendFrame) (nowMs : UInt32) :
    stale held nowMs ++ fresh held nowMs = held :=
  List.takeWhile_append_dropWhile

theorem expired_of_mem_stale (h : f ∈ stale held nowMs) : f.entry.Expired nowMs := by
  have hall := List.all_eq_true.mp List.all_takeWhile f h
  exact of_decide_eq_true hall

/-- **Expiry** evicts from the front, as long as the frames there are expired. -/
theorem Holds.expire (h : sq.Holds held) (nowMs : UInt32) :
    (sendQueueExpire sq nowMs).1 = (stale held nowMs).length ∧
      (sendQueueExpire sq nowMs).2.Holds (fresh held nowMs) := by
  rw [sendQueueExpire, h.count_eq, stale, fresh]
  induction held generalizing sq with
  | nil => exact ⟨rfl, h⟩
  | cons f held ih =>
    have hfront := h.front_eq
    have hvalid : sq.front.valid = true := by rw [hfront]; rfl
    rw [List.length_cons, sendExpireLoop, if_neg (by simp [hvalid]), hfront]
    by_cases hexpired : f.entry.Expired nowMs
    · rw [if_neg (not_not_intro hexpired), List.takeWhile_cons_of_pos (by simpa using hexpired),
        List.dropWhile_cons_of_pos (by simpa using hexpired)]
      obtain ⟨hcount, hholds⟩ := ih h.clearFront
      exact ⟨congrArg (· + 1) hcount, hholds⟩
    · rw [if_pos hexpired, List.takeWhile_cons_of_neg (by simpa using hexpired),
        List.dropWhile_cons_of_neg (by simpa using hexpired)]
      exact ⟨rfl, h⟩

/-- **Enqueuing** refuses the empty frame, and any frame when sixteen are left after the expiry. -/
theorem Holds.enqueue (h : sq.Holds held) (f : SendFrame) (hnow : UInt32.ofNat f.atMs = nowMs) :
    (f.data = [] ∧ sendQueueEnqueue sq f.data f.toaUs nowMs = (false, 0, sq)) ∨
      (f.data ≠ [] ∧ (fresh held nowMs).length = sendQueueSize ∧
        ∃ sq', sendQueueEnqueue sq f.data f.toaUs nowMs =
            (false, (stale held nowMs).length, sq') ∧ sq'.Holds (fresh held nowMs)) ∨
      (f.data ≠ [] ∧ (fresh held nowMs).length < sendQueueSize ∧
        ∃ sq', sendQueueEnqueue sq f.data f.toaUs nowMs =
            (true, (stale held nowMs).length, sq') ∧ sq'.Holds (fresh held nowMs ++ [f])) := by
  obtain ⟨hevicted, hfresh⟩ := h.expire nowMs
  rw [sendQueueEnqueue]
  by_cases hdata : f.data = []
  · rw [if_pos (List.isEmpty_iff.mpr hdata)]
    exact .inl ⟨hdata, rfl⟩
  · rw [if_neg fun hempty => hdata (List.isEmpty_iff.mp hempty)]
    dsimp only
    rw [hfresh.count_eq, hevicted]
    by_cases hfull : (fresh held nowMs).length ≥ sendQueueSize
    · rw [if_pos hfull]
      exact .inr (.inl ⟨hdata, Nat.le_antisymm hfresh.length_le hfull, _, rfl, hfresh⟩)
    · rw [if_neg hfull]
      have hroom : (fresh held nowMs).length < sendQueueSize := Nat.lt_of_not_le hfull
      refine .inr (.inr ⟨hdata, hroom, _, rfl, ?_, ?_, ?_, ?_, ?_⟩)
      · exact List.length_set.trans hfresh.length_entries
      · have hpush := hfresh.circle.push (by
          rw [List.length_map, hfresh.length_entries]
          exact hroom) f.entry
        rw [List.length_map, hfresh.length_entries, ← hfresh.tail_eq] at hpush
        rw [List.map_append]
        exact hnow ▸ hpush
      · rw [List.length_append]
        exact hroom
      · have hcount := hfresh.count_eq
        rw [sendQueueSize] at hroom
        rw [List.length_append, List.length_singleton]
        change ((sendQueueExpire sq nowMs).2.count + 1).toNat = _
        rw [UInt8.toNat_add, UInt8.toNat_one, hcount, Nat.mod_eq_of_lt (by omega)]
      · change (sendNext (sendQueueExpire sq nowMs).2.tail).toNat = _
        rw [toNat_sendNext, hfresh.tail_eq, Nat.mod_add_mod, List.length_append]
        rfl

/-- **A tick** sends the first frame that is not expired, unless the transmit queue refuses it. -/
theorem Holds.tick (h : sq.Holds held) (txQueue : TxQueue) (nowMs : UInt32) :
    (∃ sq', sendQueueTick sq txQueue nowMs = (0, (stale held nowMs).length, sq', txQueue) ∧
        sq'.Holds (fresh held nowMs) ∧
        ∀ f rest, fresh held nowMs = f :: rest → (rbTryPush txQueue f.request).1 = false) ∨
      ∃ f rest sq' txQueue', fresh held nowMs = f :: rest ∧
        (rbTryPush txQueue f.request).1 = true ∧
        sendQueueTick sq txQueue nowMs = (1, (stale held nowMs).length, sq', txQueue') ∧
          txQueue'.items = txQueue.items ++ [f.request] ∧ sq'.Holds rest := by
  obtain ⟨hevicted, hfresh⟩ := h.expire nowMs
  have hcount := hfresh.count_eq
  rw [sendQueueTick]
  dsimp only
  rw [hevicted]
  cases hrest : fresh held nowMs with
  | nil =>
    rw [hrest] at hfresh hcount
    have hzero : (sendQueueExpire sq nowMs).2.count = 0 := UInt8.toNat_inj.mp hcount
    rw [if_pos hzero]
    exact .inl ⟨_, rfl, hfresh, fun f rest hcons => absurd hcons (by simp)⟩
  | cons f rest =>
    rw [hrest] at hfresh hcount
    have hheld : ¬(sendQueueExpire sq nowMs).2.count = 0 := by
      intro hzero
      rw [hzero] at hcount
      exact absurd hcount (by simp)
    have hfront := hfresh.front_eq
    have hvalid : (sendQueueExpire sq nowMs).2.front.valid = true := by rw [hfront]; rfl
    rw [if_neg hheld, if_neg (by simp [hvalid]), hfront]
    -- what the full transmit queue refuses stays at the front
    rcases rbTryPush_cases txQueue f.request with ⟨htaken, hitems⟩ | ⟨hrefused, hsame⟩
    · rw [SendFrame.request] at htaken hitems
      rw [SendFrame.entry]
      dsimp only
      rw [if_pos htaken]
      exact .inr ⟨f, rest, _, _, rfl, htaken, rfl, hitems, hfresh.clearFront⟩
    · rw [SendFrame.request] at hrefused hsame
      rw [SendFrame.entry]
      dsimp only
      rw [if_neg (by simp [hrefused]), hsame]
      refine .inl ⟨_, rfl, hfresh, fun f' rest' hcons => ?_⟩
      obtain ⟨rfl, rfl⟩ := List.cons.inj hcons
      exact hrefused

end SendQueue

/-! ### Runs -/

/-- What became of a frame. -/
inductive SendFate
  | sent
  | expired (atMs : ℕ)
  deriving DecidableEq, Repr

/-- What is asked of the queue; at a tick the transmit queue is in any state. -/
inductive SendEvent
  | enqueue (data : List UInt8) (toaUs : UInt32)
  | tick (txQueue : TxQueue)

/-- A call at a time of the clock, of which the queue sees the last 32 bits. -/
structure SendCall where
  atMs : ℕ
  event : SendEvent

/-- A send queue with its history: the frames it accepted, the fates of the first ones of them, and
what the transmit queue took. -/
structure SendLog where
  sq : SendQueue
  accepted : List SendFrame
  fates : List SendFate
  handed : List RfTxRequest

/-- Before any call. -/
def SendLog.init : SendLog := ⟨sendQueueInit, [], [], []⟩

/-- One call. -/
def SendLog.call (l : SendLog) (c : SendCall) : SendLog :=
  match c.event with
  | .enqueue data toaUs =>
    let (ok, evicted, sq) := sendQueueEnqueue l.sq data toaUs (UInt32.ofNat c.atMs)
    { l with
      sq := sq
      accepted := if ok then l.accepted ++ [⟨data, toaUs, c.atMs⟩] else l.accepted
      fates := l.fates ++ List.replicate evicted (.expired c.atMs) }
  | .tick txQueue =>
    let (pushed, evicted, sq, txQueue') := sendQueueTick l.sq txQueue (UInt32.ofNat c.atMs)
    { l with
      sq := sq
      fates := l.fates ++ List.replicate evicted (.expired c.atMs) ++
        List.replicate pushed.toNat .sent
      handed := l.handed ++ txQueue'.items.drop txQueue.items.length }

/-- All calls. -/
def sendLog (calls : List SendCall) : SendLog := calls.foldl SendLog.call .init

variable {l l' : SendLog} {c : SendCall}

/-- A frame whose fate is known, and its fate. -/
def SendLog.settled (l : SendLog) : List (SendFrame × SendFate) := l.accepted.zip l.fates

/-- The frames leave in order, and each for a reason. -/
structure SendLog.Good (l : SendLog) : Prop where
  /-- The frames without a fate are those in the queue. -/
  holds : l.sq.Holds (l.accepted.drop l.fates.length)
  fates_le : l.fates.length ≤ l.accepted.length
  /-- The transmit queue took the sent ones, in order. -/
  handed_eq : l.handed =
    (l.settled.filter fun p => p.2 = .sent).map fun p => p.1.request
  expired : ∀ p ∈ l.settled, ∀ atMs, p.2 = .expired atMs →
    p.1.entry.Expired (UInt32.ofNat atMs)

theorem zip_append_right {α β : Type*} (xs : List α) (ys zs : List β) :
    xs.zip (ys ++ zs) = xs.zip ys ++ (xs.drop ys.length).zip zs := by
  induction ys generalizing xs with
  | nil => simp
  | cons y ys ih =>
    cases xs with
    | nil => simp
    | cons x xs => simp [ih]

theorem zip_append_left {α β : Type*} {xs ys : List α} {zs : List β} (h : zs.length ≤ xs.length) :
    (xs ++ ys).zip zs = xs.zip zs := by
  induction zs generalizing xs with
  | nil => simp
  | cons z zs ih =>
    cases xs with
    | nil => exact absurd h (by simp)
    | cons x xs => simpa using ih (by simpa using h)

theorem map_fst_zip_sublist {α β : Type*} (xs : List α) (ys : List β) :
    ((xs.zip ys).map Prod.fst).Sublist xs := by
  induction xs generalizing ys with
  | nil => exact List.Sublist.refl _
  | cons x xs ih =>
    cases ys with
    | nil => exact List.nil_sublist _
    | cons y ys => exact (ih ys).cons_cons x

theorem zip_replicate_append {α β : Type*} (xs ys : List α) (b : β) (zs : List β) :
    (xs ++ ys).zip (List.replicate xs.length b ++ zs) = xs.map (·, b) ++ ys.zip zs := by
  induction xs with
  | nil => rfl
  | cons x xs ih => simpa [List.replicate_succ] using ih

/-- What one call does: the frames at the front get a fate, those that expired and then those that
were sent, and new ones come to the end. -/
structure SendLog.Extends (l l' : SendLog) (atMs : ℕ) (added gone sent rest : List SendFrame) :
    Prop where
  held_eq : l.accepted.drop l.fates.length = gone ++ (sent ++ rest)
  accepted_eq : l'.accepted = l.accepted ++ added
  fates_eq : l'.fates = l.fates ++ (List.replicate gone.length (.expired atMs) ++
    List.replicate sent.length .sent)
  handed_eq : l'.handed = l.handed ++ sent.map (·.request)
  expired : ∀ f ∈ gone, f.entry.Expired (UInt32.ofNat atMs)
  atMs_eq : ∀ f ∈ added, f.atMs = atMs
  holds : l'.sq.Holds (rest ++ added)

variable {atMs : ℕ} {added gone sent rest : List SendFrame}

theorem SendLog.Extends.settled_eq (h : l.Extends l' atMs added gone sent rest)
    (hle : l.fates.length ≤ l.accepted.length) :
    l'.settled = l.settled ++ (gone.map (·, .expired atMs) ++ sent.map (·, .sent)) := by
  have hsent : sent.zip (List.replicate sent.length SendFate.sent) = sent.map (·, .sent) := by
    simpa using zip_replicate_append sent [] SendFate.sent []
  rw [settled, h.accepted_eq, h.fates_eq, zip_append_right,
    List.drop_append_of_le_length hle, zip_append_left hle, h.held_eq, List.append_assoc,
    zip_replicate_append, List.append_assoc, zip_append_left (by simp), hsent, settled]

theorem SendLog.Good.extend (h : l.Good) (hext : l.Extends l' atMs added gone sent rest) :
    l'.Good := by
  have hlen := congrArg List.length hext.held_eq
  rw [List.length_drop, List.length_append, List.length_append] at hlen
  have hle := h.fates_le
  have hsettled := hext.settled_eq hle
  have hnew : l'.fates.length = l.fates.length + (gone.length + sent.length) := by
    rw [hext.fates_eq, List.length_append, List.length_append, List.length_replicate,
      List.length_replicate]
  refine ⟨?_, ?_, ?_, ?_⟩
  · have hdrop : l'.accepted.drop l'.fates.length = rest ++ added := by
      rw [hext.accepted_eq, hnew, List.drop_append_of_le_length (by omega), ← List.drop_drop,
        hext.held_eq, ← List.append_assoc, List.drop_left' (by rw [List.length_append])]
    rw [hdrop]
    exact hext.holds
  · rw [hnew, hext.accepted_eq, List.length_append]
    omega
  · rw [hext.handed_eq, h.handed_eq, hsettled, List.filter_append, List.map_append,
      List.filter_append, List.filter_map, List.filter_map]
    simp [Function.comp_def]
  · intro p hp t ht
    rw [hsettled, List.mem_append, List.mem_append, List.mem_map, List.mem_map] at hp
    rcases hp with hp | ⟨f, hf, rfl⟩ | ⟨f, hf, rfl⟩
    · exact h.expired p hp t ht
    · obtain rfl := SendFate.expired.inj ht
      exact hext.expired f hf
    · exact absurd ht SendFate.noConfusion

/-- **Every call** is of this kind. -/
theorem SendLog.Good.exists_extends (h : l.Good) (c : SendCall) :
    ∃ added gone sent rest, l.Extends (l.call c) c.atMs added gone sent rest := by
  obtain ⟨atMs, event⟩ := c
  have hsplit := (SendQueue.stale_append_fresh (l.accepted.drop l.fates.length)
    (UInt32.ofNat atMs)).symm
  have hstale : ∀ f ∈ SendQueue.stale (l.accepted.drop l.fates.length) (UInt32.ofNat atMs),
      f.entry.Expired (UInt32.ofNat atMs) := fun f => SendQueue.expired_of_mem_stale
  cases event with
  | enqueue data toaUs =>
    rcases h.holds.enqueue ⟨data, toaUs, atMs⟩ rfl with ⟨-, hcall⟩ | ⟨-, -, sq, hcall, hholds⟩ |
      ⟨-, -, sq, hcall, hholds⟩ <;>
    dsimp only at hcall
    · -- the empty frame, nothing happens
      refine ⟨[], [], [], _, rfl, ?_, ?_, ?_, by simp, by simp, ?_⟩ <;>
      simp only [SendLog.call, hcall]
      · simp
      · simp
      · simp
      · rw [List.append_nil]
        exact h.holds
    · -- no room after the expiry
      refine ⟨[], _, [], _, hsplit, ?_, ?_, ?_, hstale, by simp, ?_⟩ <;>
      simp only [SendLog.call, hcall]
      · simp
      · simp
      · simp
      · rw [List.append_nil]
        exact hholds
    · -- accepted
      refine ⟨[⟨data, toaUs, atMs⟩], _, [], _, hsplit, ?_, ?_, ?_, hstale, by simp, ?_⟩ <;>
      simp only [SendLog.call, hcall]
      · simp
      · simp
      · simp
      · exact hholds
  | tick txQueue =>
    rcases h.holds.tick txQueue (UInt32.ofNat atMs) with ⟨sq, hcall, hholds, -⟩ |
      ⟨f, rest, sq, txQueue', hfresh, -, hcall, hitems, hholds⟩
    · -- nothing to send, or the transmit queue is full
      refine ⟨[], _, [], _, hsplit, ?_, ?_, ?_, hstale, by simp, ?_⟩ <;>
      simp only [SendLog.call, hcall]
      · simp
      · simp
      · simp
      · rw [List.append_nil]
        exact hholds
    · -- one frame is sent
      rw [hfresh] at hsplit
      refine ⟨[], _, [f], rest, hsplit, ?_, ?_, ?_, hstale, by simp, ?_⟩ <;>
      simp only [SendLog.call, hcall]
      · simp
      · simp
      · rw [hitems, List.drop_left]
        rfl
      · rw [List.append_nil]
        exact hholds

theorem good_sendLog (calls : List SendCall) : (sendLog calls).Good := by
  induction calls using List.reverseRecOn with
  | nil => exact ⟨SendQueue.holds_init, le_rfl, rfl, fun p hp => absurd hp List.not_mem_nil⟩
  | append_singleton calls c ih =>
    rw [sendLog, List.foldl_append]
    obtain ⟨added, gone, sent, rest, hext⟩ := ih.exists_extends c
    exact ih.extend hext

/-- What was accepted was accepted at the time of a call. -/
theorem exists_call_of_mem_accepted (calls : List SendCall) :
    ∀ f ∈ (sendLog calls).accepted, ∃ c ∈ calls, c.atMs = f.atMs := by
  induction calls using List.reverseRecOn with
  | nil => exact fun f hf => absurd hf List.not_mem_nil
  | append_singleton calls c ih =>
    rw [sendLog, List.foldl_append]
    obtain ⟨added, gone, sent, rest, hext⟩ := (good_sendLog calls).exists_extends c
    intro f hf
    have hf' : f ∈ (sendLog calls).accepted ++ added := hext.accepted_eq ▸ hf
    rcases List.mem_append.mp hf' with hold | hadded
    · obtain ⟨c', hc', hatMs⟩ := ih f hold
      exact ⟨c', List.mem_append_left _ hc', hatMs⟩
    · exact ⟨c, List.mem_append_right _ List.mem_cons_self, (hext.atMs_eq f hadded).symm⟩

/-- A clock that does not run backwards evicts no frame before its time. -/
theorem atMs_le_of_expired {calls : List SendCall}
    (hsorted : calls.Pairwise fun c c' => c.atMs ≤ c'.atMs) :
    ∀ p ∈ (sendLog calls).settled, ∀ atMs, p.2 = .expired atMs → p.1.atMs ≤ atMs := by
  induction calls using List.reverseRecOn with
  | nil => exact fun p hp => absurd hp List.not_mem_nil
  | append_singleton calls c ih =>
    obtain ⟨hcalls, -, hlast⟩ := List.pairwise_append.mp hsorted
    obtain ⟨added, gone, sent, rest, hext⟩ := (good_sendLog calls).exists_extends c
    have hsettled := hext.settled_eq (good_sendLog calls).fates_le
    rw [sendLog, List.foldl_append]
    intro p hp atMs hatMs
    have hp' : p ∈ (sendLog calls).settled ++
        (gone.map (·, .expired c.atMs) ++ sent.map (·, .sent)) := hsettled ▸ hp
    rw [List.mem_append, List.mem_append, List.mem_map, List.mem_map] at hp'
    rcases hp' with hold | ⟨f, hf, rfl⟩ | ⟨f, hf, rfl⟩
    · exact ih hcalls p hold atMs hatMs
    · obtain rfl := SendFate.expired.inj hatMs
      have hmem : f ∈ (sendLog calls).accepted := by
        refine List.mem_of_mem_drop (i := (sendLog calls).fates.length) ?_
        rw [hext.held_eq]
        exact List.mem_append_left _ hf
      obtain ⟨c', hc', hatMs'⟩ := exists_call_of_mem_accepted calls f hmem
      exact hatMs' ▸ hlast c' hc' c List.mem_cons_self
    · exact absurd hatMs SendFate.noConfusion

/-- The age that the queue computes is at most the age. -/
theorem SendFrame.age_of_expired {f : SendFrame} (hle : f.atMs ≤ atMs)
    (h : f.entry.Expired (UInt32.ofNat atMs)) : f.atMs + sendQueueExpiryMs.toNat < atMs := by
  rw [SendEntry.Expired, gt_iff_lt, UInt32.lt_iff_toNat_lt, entry, UInt32.toNat_sub,
    UInt32.toNat_ofNat', UInt32.toNat_ofNat'] at h
  omega

/-- An expiring queue: in order, each frame at most once, and none lost without a reason. -/
structure SendLog.ExpiringFifo (l : SendLog) : Prop extends l.Good where
  sublist : l.handed.Sublist (l.accepted.map (·.request))
  countP_valid : l.sq.entries.countP SendEntry.valid = l.sq.count.toNat
  /-- Only the empty frame is refused, or any when all slots are taken after the expiry. -/
  refused_iff : ∀ data toaUs nowMs, (sendQueueEnqueue l.sq data toaUs nowMs).1 = false ↔
    data = [] ∨
      (SendQueue.fresh (l.accepted.drop l.fates.length) nowMs).length = sendQueueSize
  /-- A full transmit queue loses nothing. -/
  kept : ∀ txQueue nowMs, (∀ req, (rbTryPush txQueue req).1 = false) →
    (sendQueueTick l.sq txQueue nowMs).1 = 0 ∧
      (sendQueueTick l.sq txQueue nowMs).2.2.1.Holds
        (SendQueue.fresh (l.accepted.drop l.fates.length) nowMs)

/-- **The send queue is an expiring queue**, after any calls and with the transmit queue in any
state at each of them; on a clock that does not run backwards a frame expires only at its age. -/
theorem send_queue_expiring_fifo (calls : List SendCall) :
    (sendLog calls).ExpiringFifo ∧
      (calls.Pairwise (fun c c' => c.atMs ≤ c'.atMs) →
        ∀ p ∈ (sendLog calls).settled, ∀ atMs, p.2 = .expired atMs →
          p.1.atMs + sendQueueExpiryMs.toNat < atMs) := by
  have hgood := good_sendLog calls
  refine ⟨⟨hgood, ?_, hgood.holds.countP_valid, fun data toaUs nowMs => ?_,
    fun txQueue nowMs hfull => ?_⟩, fun hsorted p hp atMs hatMs => ?_⟩
  · rw [hgood.handed_eq]
    have hfilter := (List.filter_sublist (l := (sendLog calls).settled)
      (p := fun p => p.2 = .sent)).map fun p => p.1.request
    have hfst := (map_fst_zip_sublist (sendLog calls).accepted (sendLog calls).fates).map
      SendFrame.request
    rw [List.map_map] at hfst
    exact hfilter.trans hfst
  · rcases hgood.holds.enqueue ⟨data, toaUs, nowMs.toNat⟩ UInt32.ofNat_toNat with
      ⟨hdata, hcall⟩ | ⟨hdata, hlen, sq, hcall, -⟩ | ⟨hdata, hlen, sq, hcall, -⟩ <;>
    rw [hcall]
    · exact iff_of_true rfl (.inl hdata)
    · exact iff_of_true rfl (.inr hlen)
    · refine iff_of_false (by simp) ?_
      rintro (hempty | hfull)
      · exact hdata hempty
      · exact absurd hfull hlen.ne
  · rcases hgood.holds.tick txQueue nowMs with ⟨sq, hcall, hholds, -⟩ |
      ⟨f, rest, sq, txQueue', -, htaken, -⟩
    · rw [hcall]
      exact ⟨rfl, hholds⟩
    · exact absurd htaken (by rw [hfull]; simp)
  · exact SendFrame.age_of_expired (atMs_le_of_expired hsorted p hp atMs hatMs)
      (hgood.expired p hp atMs hatMs)

end Rivr
