import Rivr.Firmware.RetryTable

/-!
# The life of a retry entry

Runs of `retry_table_enqueue`, `retry_table_ack` and `retry_table_tick`, with any transmit queue at
each tick. An observer keeps for every slot what was offered to the transmit queue for its entry,
and for every entry that left the table why it left.

In every run the count is the number of valid slots; an entry is sent again at most three times,
each time after twice the wait before; and it leaves the table when it is acknowledged, or after
three attempts with exactly one fallback flood offered (`retry_lifecycle`). Whether the queue took
the flood makes no difference to the entry (`not_retry_lifecycle`).
-/

namespace Rivr

variable {retryTableSize : ℕ}

/-! ### One slot in a tick -/

/-- The outcomes of the loop body of `retry_table_tick`. -/
inductive TickOutcome (e : RetryEntry) (t : RetryTick) (nowMs : UInt32) :
    RetryEntry × RetryTick → Prop
  /-- The slot is empty, or its time has not come. -/
  | waits : TickOutcome e t nowMs (e, t)
  /-- The frame is sent again. -/
  | resent (hvalid : e.valid = true) (hdue : e.Due nowMs) (hleft : 0 < e.retriesLeft) :
    TickOutcome e t nowMs (e.resend t.freshPktId nowMs,
      { t with pktIdCounter := t.pktIdCounter + 1 }.push (e.resend t.freshPktId nowMs).data e.toaUs)
  /-- The message is flooded, and the slot emptied. -/
  | flooded (hvalid : e.valid = true) (hdue : e.Due nowMs) (hleft : e.retriesLeft = 0) :
    TickOutcome e t nowMs (.empty,
      { t with pktIdCounter := t.pktIdCounter + 1, count := lessOne t.count }.push
        (buildFallbackFlood e.data t.freshPktId) e.toaUs)

theorem tickOutcome (e : RetryEntry) (t : RetryTick) (nowMs : UInt32) :
    TickOutcome e t nowMs (tickEntry e t nowMs) := by
  by_cases hidle : ¬e.valid = true ∨ ¬e.Due nowMs
  · rw [tickEntry, if_pos hidle]
    exact .waits
  rw [tickEntry, if_neg hidle]
  rw [not_or, not_not, not_not] at hidle
  split_ifs with hleft
  · exact .resent hidle.1 hidle.2 hleft
  · have hzero : e.retriesLeft = 0 := by
      rw [gt_iff_lt, UInt8.lt_iff_toNat_lt] at hleft
      exact UInt8.toNat.inj (Nat.le_zero.mp (Nat.not_lt.mp hleft))
    exact .flooded hidle.1 hidle.2 hzero

/-- What a push does to the queue and the counters. -/
@[simp]
theorem RetryTick.push_pktIdCounter (t : RetryTick) (data : List UInt8) (toaUs : UInt32) :
    (t.push data toaUs).pktIdCounter = t.pktIdCounter := rfl

@[simp]
theorem RetryTick.push_count (t : RetryTick) (data : List UInt8) (toaUs : UInt32) :
    (t.push data toaUs).count = t.count := rfl

/-- What a push adds to the queue is its request. -/
theorem eq_of_head_push {t : RetryTick} {data : List UInt8} {toaUs : UInt32} {req : RfTxRequest}
    (h : ((t.push data toaUs).txQueue.items.drop t.txQueue.items.length).head? = some req) :
    req = ⟨data, toaUs, 0⟩ := by
  have hqueue : (t.push data toaUs).txQueue = (rbTryPush t.txQueue ⟨data, toaUs, 0⟩).2 := rfl
  rw [hqueue] at h
  rcases rbTryPush_cases t.txQueue ⟨data, toaUs, 0⟩ with ⟨-, hitems⟩ | ⟨-, hsame⟩
  · rw [hitems, List.drop_left] at h
    exact (Option.some.inj h).symm
  · rw [hsame, List.drop_length] at h
    cases h

/-- An entry that is due was last sent long enough ago, in true time. -/
theorem RetryEntry.Due.le {e : RetryEntry} {since wait now : ℕ} (h : e.Due (UInt32.ofNat now))
    (hnext : e.nextRetryMs = UInt32.ofNat (since + wait)) (hsince : since ≤ now)
    (hwait : wait < 2 ^ 31) : since + wait ≤ now := by
  by_contra hlt
  -- the signed difference of the two times is negative
  have hdiff : (UInt32.ofNat now - UInt32.ofNat (since + wait)).toNat =
      2 ^ 32 - (since + wait - now) := by
    rw [UInt32.toNat_sub, UInt32.toNat_ofNat', UInt32.toNat_ofNat']
    omega
  refine h ?_
  rw [hnext, Int32.lt_iff_toInt_lt]
  change BitVec.toInt (UInt32.ofNat now - UInt32.ofNat (since + wait)).toBitVec < 0
  rw [BitVec.toInt_eq_toNat_cond]
  change (if 2 * (UInt32.ofNat now - UInt32.ofNat (since + wait)).toNat < 2 ^ 32 then _
    else ((UInt32.ofNat now - UInt32.ofNat (since + wait)).toNat : ℤ) - _) < 0
  rw [hdiff]
  split_ifs <;> omega

/-! ### The observer -/

/-- A frame that was offered to the transmit queue, and that it may have taken. -/
structure Offer where
  atMs : ℕ
  taken : Option (List UInt8)
  deriving DecidableEq, Repr

/-- What was offered for an entry since it was registered, newest first. -/
structure EntryHistory where
  enqueuedMs : ℕ
  attempts : List Offer
  floods : List Offer
  deriving DecidableEq, Repr

/-- An entry that has just been registered. -/
def EntryHistory.start (nowMs : ℕ) : EntryHistory := ⟨nowMs, [], []⟩

/-- Why an entry left the table. -/
inductive Departure
  | overwritten | acked (ackSrcId : UInt32) (ackPktId : UInt16) | expired
  deriving DecidableEq, Repr

/-- An entry that left the table, as it was when it left. -/
structure Departed where
  entry : RetryEntry
  history : EntryHistory
  reason : Departure
  deriving DecidableEq, Repr

/-- The history of a slot after its turn in a tick. A frame was offered if a fresh packet id was
taken; it was sent again if the slot is still valid. -/
def EntryHistory.tick (h : EntryHistory) (e : RetryEntry) (t : RetryTick) (nowMs : ℕ) :
    EntryHistory :=
  let after := tickEntry e t (UInt32.ofNat nowMs)
  if after.2.pktIdCounter = t.pktIdCounter then h
  else
    let offer : Offer :=
      ⟨nowMs, (after.2.txQueue.items.drop t.txQueue.items.length).head?.map RfTxRequest.data⟩
    if after.1.valid then { h with attempts := offer :: h.attempts }
    else { h with floods := offer :: h.floods }

/-- What `retry_table_tick` carries to each slot. -/
def tickCarried (nowMs : UInt32) : List RetryEntry → RetryTick → List RetryTick
  | [], _ => []
  | e :: es, t => t :: tickCarried nowMs es (tickEntry e t nowMs).2

/-- The table, the time, the history of the entry in each slot, and the entries that have left. -/
structure RetryLog (retryTableSize : ℕ) where
  rt : RetryTable retryTableSize
  nowMs : ℕ
  history : ℕ → EntryHistory
  departed : List Departed

def RetryLog.init (retryTableSize : ℕ) : RetryLog retryTableSize :=
  ⟨retryTableInit retryTableSize, 0, fun _ => .start 0, []⟩

/-- A call of one of the three operations. A tick finds the transmit queue and the packet id counter
as they are then. -/
inductive RetryAction
  | enqueue (ackSrcId : UInt32) (curPktId : UInt16) (dstId nextHop : UInt32) (data : List UInt8)
      (toaUs : UInt32)
  | ack (ackSrcId : UInt32) (ackPktId : UInt16)
  | tick (txQueue : TxQueue) (pktIdCounter : UInt32)

/-- A call, some time after the one before. -/
structure RetryCall where
  action : RetryAction
  afterMs : ℕ

/-- The table after the call. -/
def RetryTable.after (rt : RetryTable retryTableSize) (action : RetryAction) (nowMs : UInt32) :
    RetryTable retryTableSize :=
  match action with
  | .enqueue ackSrcId curPktId dstId nextHop data toaUs =>
    (retryTableEnqueue rt ackSrcId curPktId dstId nextHop data toaUs nowMs).2
  | .ack ackSrcId ackPktId => (retryTableAck rt ackSrcId ackPktId).2
  | .tick txQueue pktIdCounter => (retryTableTick rt txQueue pktIdCounter nowMs).rt

/-- The history of a slot after the call, which found it as `e` and left it as `e'`. -/
def EntryHistory.after (h : EntryHistory) (rt : RetryTable retryTableSize) (action : RetryAction)
    (nowMs i : ℕ) (e e' : RetryEntry) : EntryHistory :=
  match action with
  | .enqueue .. => if e' = e then h else .start nowMs
  | .ack .. => h
  | .tick txQueue pktIdCounter =>
    match (tickCarried (UInt32.ofNat nowMs) rt.entries ⟨txQueue, pktIdCounter, rt.count, 0⟩)[i]? with
    | some t => h.tick e t nowMs
    | none => h

/-- Why the entry of a slot leaves in a call that found the slot as `e` and left it as `e'`. -/
def RetryAction.departure (action : RetryAction) (e e' : RetryEntry) : Option Departure :=
  match action with
  | .enqueue .. => if e.valid ∧ e' ≠ e then some .overwritten else none
  | .ack ackSrcId ackPktId => if e.valid ∧ e' ≠ e then some (.acked ackSrcId ackPktId) else none
  | .tick .. => if e.valid ∧ ¬e'.valid then some .expired else none

/-- When the call is made. -/
def RetryLog.timeOf (l : RetryLog retryTableSize) (c : RetryCall) : ℕ := l.nowMs + c.afterMs

/-- The history of slot `i` after the call. -/
def RetryLog.historyAfter (l : RetryLog retryTableSize) (c : RetryCall) (i : ℕ) : EntryHistory :=
  (l.history i).after l.rt c.action (l.timeOf c) i (l.rt.entries.getD i .empty)
    ((l.rt.after c.action (UInt32.ofNat (l.timeOf c))).entries.getD i .empty)

/-- What leaves slot `i` in the call. -/
def RetryLog.leaves (l : RetryLog retryTableSize) (c : RetryCall) (i : ℕ) : Option Departed :=
  (c.action.departure (l.rt.entries.getD i .empty)
    ((l.rt.after c.action (UInt32.ofNat (l.timeOf c))).entries.getD i .empty)).map
      fun reason => ⟨l.rt.entries.getD i .empty, l.historyAfter c i, reason⟩

/-- One call. -/
def RetryLog.call (l : RetryLog retryTableSize) (c : RetryCall) : RetryLog retryTableSize where
  rt := l.rt.after c.action (UInt32.ofNat (l.timeOf c))
  nowMs := l.timeOf c
  history := l.historyAfter c
  departed := (List.range retryTableSize).filterMap (l.leaves c) ++ l.departed

/-- After the calls. -/
def RetryLog.after (retryTableSize : ℕ) (calls : List RetryCall) : RetryLog retryTableSize :=
  calls.foldl RetryLog.call (.init retryTableSize)

/-! ### The law -/

/-- The time of the last attempt, or of the registration. -/
def EntryHistory.lastMs (h : EntryHistory) : ℕ :=
  (h.attempts.map Offer.atMs).headD h.enqueuedMs

/-- The `k`-th of the times, newest first, comes at least `RETRY_TIMEOUT_MS * 2 ^ (k - 1)` after the
one before, or after the registration. -/
def Spaced (enqueuedMs : ℕ) : List ℕ → Prop
  | [] => True
  | t :: ts => ts.headD enqueuedMs + retryTimeoutMs.toNat * 2 ^ ts.length ≤ t ∧ Spaced enqueuedMs ts

/-- An entry is sent again at most three times, each time after twice the wait before. -/
structure EntryHistory.BacksOff (h : EntryHistory) : Prop where
  few : h.attempts.length ≤ retryMax.toNat
  spaced : Spaced h.enqueuedMs (h.attempts.map Offer.atMs)

/-- One fallback flood was offered, of the entry's frame, a whole wait after the last of three
attempts. -/
def EntryHistory.Flooded (h : EntryHistory) (e : RetryEntry) : Prop :=
  h.attempts.length = retryMax.toNat ∧
    ∃ flood, h.floods = [flood] ∧
      h.lastMs + retryTimeoutMs.toNat * 2 ^ retryMax.toNat ≤ flood.atMs ∧
      ∀ data, flood.taken = some data → ∃ pktId, data = buildFallbackFlood e.data pktId

/-- The entry left for a good reason. -/
def Departed.Legit (d : Departed) : Prop :=
  match d.reason with
  | .overwritten => False
  | .acked ackSrcId ackPktId => d.entry.Awaits ackSrcId ackPktId ∧ d.history.floods = []
  | .expired => d.history.Flooded d.entry

/-- The law of the retry table. -/
structure RetryLog.Lifecycle (l : RetryLog retryTableSize) : Prop where
  count : l.rt.count.toNat = l.rt.entries.countP (·.valid)
  waiting : ∀ i e, l.rt.entries[i]? = some e → e.valid = true →
    (l.history i).BacksOff ∧ (l.history i).floods = []
  departed : ∀ d ∈ l.departed, d.history.BacksOff ∧ d.Legit

/-! ### The fields of an entry and its history -/

/-- The fields of a valid entry say what its history is. -/
structure Tracks (e : RetryEntry) (h : EntryHistory) (nowMs : ℕ) : Prop where
  left : h.attempts.length + e.retriesLeft.toNat = retryMax.toNat
  interval : e.timeoutIntervalMs.toNat = retryTimeoutMs.toNat * 2 ^ h.attempts.length
  next : e.nextRetryMs = UInt32.ofNat (h.lastMs + retryTimeoutMs.toNat * 2 ^ h.attempts.length)
  past : h.lastMs ≤ nowMs
  spaced : Spaced h.enqueuedMs (h.attempts.map Offer.atMs)
  quiet : h.floods = []

variable {e : RetryEntry} {h : EntryHistory} {nowMs nowMs' : ℕ}

theorem Tracks.later (ht : Tracks e h nowMs) (hnow : nowMs ≤ nowMs') : Tracks e h nowMs' :=
  { ht with past := ht.past.trans hnow }

theorem Tracks.backsOff (ht : Tracks e h nowMs) : h.BacksOff :=
  ⟨(Nat.le_add_right _ _).trans ht.left.le, ht.spaced⟩

theorem wait_lt {k : ℕ} (hk : k ≤ retryMax.toNat) : retryTimeoutMs.toNat * 2 ^ k < 2 ^ 31 := by
  have hpow : 2 ^ k ≤ 2 ^ 3 := Nat.pow_le_pow_right (by decide) hk
  have hmul : retryTimeoutMs.toNat * 2 ^ k ≤ retryTimeoutMs.toNat * 2 ^ 3 :=
    Nat.mul_le_mul le_rfl hpow
  exact hmul.trans_lt (by decide)

/-- A due entry has waited its whole interval. -/
theorem Tracks.waited (ht : Tracks e h nowMs) (hdue : e.Due (UInt32.ofNat nowMs)) :
    h.lastMs + retryTimeoutMs.toNat * 2 ^ h.attempts.length ≤ nowMs :=
  hdue.le ht.next ht.past (wait_lt ht.backsOff.few)

/-- The wait is doubled. -/
theorem toNat_doubled {x : UInt32} (hx : x.toNat < 2 ^ 31) : (x <<< 1).toNat = x.toNat * 2 := by
  rw [UInt32.toNat_shiftLeft]
  change x.toNat <<< 1 % 2 ^ 32 = _
  rw [Nat.shiftLeft_eq, Nat.pow_one, Nat.mod_eq_of_lt (by omega)]

/-- The turn of a valid slot in a tick. -/
theorem Tracks.tick (ht : Tracks e h nowMs) (hvalid : e.valid = true) (t : RetryTick) :
    (tickEntry e t (UInt32.ofNat nowMs)).1.valid = true ∧
        Tracks (tickEntry e t (UInt32.ofNat nowMs)).1 (h.tick e t nowMs) nowMs ∨
      (tickEntry e t (UInt32.ofNat nowMs)).1.valid = false ∧
        (h.tick e t nowMs).BacksOff ∧ (h.tick e t nowMs).Flooded e := by
  have hout := tickOutcome e t (UInt32.ofNat nowMs)
  have hfresh : t.pktIdCounter + 1 ≠ t.pktIdCounter := by
    rw [Ne, UInt32.add_eq_left]
    decide
  rw [EntryHistory.tick]
  generalize tickEntry e t (UInt32.ofNat nowMs) = r at hout
  rcases hout with _ | ⟨-, hdue, hleft⟩ | ⟨-, hdue, hleft⟩
  · left
    rw [if_pos rfl]
    exact ⟨hvalid, ht⟩
  · left
    simp only [RetryTick.push_pktIdCounter, if_neg hfresh]
    -- a resend: the interval doubles, and one retry is spent
    have hwaited := ht.waited hdue
    have hlt := wait_lt ht.backsOff.few
    have hint : (e.timeoutIntervalMs <<< 1).toNat =
        retryTimeoutMs.toNat * 2 ^ (h.attempts.length + 1) := by
      rw [toNat_doubled (ht.interval ▸ hlt), ht.interval, Nat.pow_succ, Nat.mul_assoc]
    have hvalid' : (e.resend t.freshPktId (UInt32.ofNat nowMs)).valid = true := hvalid
    rw [if_pos hvalid']
    have hspaced : Spaced h.enqueuedMs (nowMs :: h.attempts.map Offer.atMs) := by
      refine ⟨?_, ht.spaced⟩
      rw [List.length_map]
      exact hwaited
    refine ⟨hvalid', ?_, hint, ?_, le_rfl, hspaced, ht.quiet⟩
    · have hone : (1 : UInt8) ≤ e.retriesLeft := by
        rw [UInt8.le_iff_toNat_le]
        exact UInt8.lt_iff_toNat_lt.mp hleft
      have hsub : (e.retriesLeft - 1).toNat = e.retriesLeft.toNat - 1 :=
        UInt8.toNat_sub_of_le _ _ hone
      have hpos : 0 < e.retriesLeft.toNat := UInt8.lt_iff_toNat_lt.mp hleft
      have hthree := ht.left
      change h.attempts.length + 1 + (e.retriesLeft - 1).toNat = _
      omega
    · change UInt32.ofNat nowMs + e.timeoutIntervalMs <<< 1 =
        UInt32.ofNat (nowMs + retryTimeoutMs.toNat * 2 ^ (h.attempts.length + 1))
      rw [← hint, UInt32.ofNat_add, UInt32.ofNat_toNat]
  · right
    -- no retry is left: the flood takes the place of the entry
    have hempty : ¬RetryEntry.empty.valid = true := by decide
    simp only [RetryTick.push_pktIdCounter, if_neg hfresh, if_neg hempty]
    have hthree : h.attempts.length = retryMax.toNat := by
      have hsum := ht.left
      rw [hleft] at hsum
      exact hsum
    refine ⟨rfl, ⟨ht.backsOff.few, ht.spaced⟩, hthree, _, List.cons_eq_cons.mpr ⟨rfl, ht.quiet⟩, ?_, ?_⟩
    · rw [← hthree]
      exact ht.waited hdue
    · rintro data hdata
      obtain ⟨req, hreq, rfl⟩ := Option.map_eq_some_iff.mp hdata
      rw [eq_of_head_push hreq]
      exact ⟨_, rfl⟩

/-! ### The three operations, slot by slot -/

/-- `retry_table_enqueue` writes one empty slot, or nothing. -/
theorem retryTableEnqueue_cases (rt : RetryTable retryTableSize) (ackSrcId : UInt32)
    (curPktId : UInt16) (dstId nextHop : UInt32) (data : List UInt8) (toaUs nowMs : UInt32) :
    (retryTableEnqueue rt ackSrcId curPktId dstId nextHop data toaUs nowMs).2 = rt ∨
      ∃ i e, rt.entries[i]? = some e ∧ e.valid = false ∧
        (retryTableEnqueue rt ackSrcId curPktId dstId nextHop data toaUs nowMs).2.entries =
          rt.entries.set i ⟨ackSrcId, curPktId, dstId, nextHop, data, toaUs, nowMs + retryTimeoutMs,
            retryTimeoutMs, retryMax, true⟩ ∧
        (retryTableEnqueue rt ackSrcId curPktId dstId nextHop data toaUs nowMs).2.count =
          if rt.count.toNat < retryTableSize then rt.count + 1 else rt.count := by
  by_cases hempty : data.isEmpty = true
  · rw [retryTableEnqueue, if_pos hempty]
    exact Or.inl rfl
  · rw [retryTableEnqueue, if_neg hempty]
    split
    · exact Or.inl rfl
    · next i hi =>
      obtain ⟨hlt, hfree, -⟩ := List.findIdx?_eq_some_iff_getElem.mp hi
      refine Or.inr ⟨i, _, List.getElem?_eq_getElem hlt, ?_, rfl, rfl⟩
      simpa using hfree

/-- `retry_table_ack` clears one entry that waits for it, or nothing. -/
theorem retryTableAck_cases (rt : RetryTable retryTableSize) (ackSrcId : UInt32)
    (ackPktId : UInt16) :
    (retryTableAck rt ackSrcId ackPktId).2 = rt ∨
      ∃ i e, rt.entries[i]? = some e ∧ e.Awaits ackSrcId ackPktId ∧
        (retryTableAck rt ackSrcId ackPktId).2.entries = rt.entries.set i .empty ∧
        (retryTableAck rt ackSrcId ackPktId).2.count = lessOne rt.count := by
  rw [retryTableAck]
  split
  · exact Or.inl rfl
  · next i hi =>
    obtain ⟨hlt, hawaits, -⟩ := List.findIdx?_eq_some_iff_getElem.mp hi
    exact Or.inr ⟨i, _, List.getElem?_eq_getElem hlt, of_decide_eq_true hawaits, rfl, rfl⟩

/-- A tick gives each slot its turn. -/
theorem tickScan_getElem? (nowMs : UInt32) {es : List RetryEntry} {i : ℕ} {e : RetryEntry}
    (he : es[i]? = some e) (t : RetryTick) :
    ∃ t', (tickCarried nowMs es t)[i]? = some t' ∧
      (tickScan nowMs es t).1[i]? = some (tickEntry e t' nowMs).1 := by
  induction es generalizing i t with
  | nil => simp at he
  | cons x es ih =>
    cases i with
    | zero =>
      obtain rfl : x = e := by simpa using he
      exact ⟨t, rfl, rfl⟩
    | succ i => exact ih (by simpa using he) _

/-! ### The count -/

/-- How many slots are valid. -/
def validCount (es : List RetryEntry) : ℕ := es.countP (·.valid)

theorem lessOne_toNat {count : UInt8} (h : 0 < count.toNat) :
    (lessOne count).toNat = count.toNat - 1 := by
  have hpos : count > 0 := UInt8.lt_iff_toNat_lt.mpr h
  rw [lessOne, if_pos hpos]
  exact UInt8.toNat_sub_of_le _ _ (UInt8.le_iff_toNat_le.mpr h)

theorem validCount_set {es : List RetryEntry} {i : ℕ} {e : RetryEntry} (he : es[i]? = some e)
    (e' : RetryEntry) :
    validCount (es.set i e') + (if e.valid then 1 else 0) =
      validCount es + if e'.valid then 1 else 0 := by
  induction es generalizing i with
  | nil => simp at he
  | cons x es ih =>
    cases i with
    | zero =>
      obtain rfl : x = e := by simpa using he
      simp only [List.set_cons_zero, validCount, List.countP_cons]
      omega
    | succ i =>
      have hrest := ih (i := i) (by simpa using he)
      simp only [List.set_cons_succ, validCount, List.countP_cons] at hrest ⊢
      omega

/-- The turn of a slot changes the count as it changes the slot. -/
theorem tickEntry_count (e : RetryEntry) (t : RetryTick) (nowMs : UInt32)
    (hcount : e.valid = true → 0 < t.count.toNat) :
    (tickEntry e t nowMs).2.count.toNat + (if e.valid then 1 else 0) =
      t.count.toNat + if (tickEntry e t nowMs).1.valid then 1 else 0 := by
  have hout := tickOutcome e t nowMs
  generalize tickEntry e t nowMs = r at hout
  rcases hout with _ | ⟨hvalid, -, -⟩ | ⟨hvalid, -, -⟩
  · rfl
  · have hvalid' : (e.resend t.freshPktId nowMs).valid = true := hvalid
    simp [hvalid, hvalid']
  · have hpos := hcount hvalid
    simp only [RetryTick.push_count, lessOne_toNat hpos, hvalid, if_true, RetryEntry.empty,
      Bool.false_eq_true, if_false]
    omega

theorem tickScan_count (nowMs : UInt32) (es : List RetryEntry) (t : RetryTick)
    (hcount : validCount es ≤ t.count.toNat) :
    (tickScan nowMs es t).2.count.toNat + validCount es =
      t.count.toNat + validCount (tickScan nowMs es t).1 := by
  induction es generalizing t with
  | nil => rfl
  | cons e es ih =>
    have hsum : validCount (e :: es) = validCount es + if e.valid then 1 else 0 :=
      List.countP_cons
    rw [hsum] at hcount
    have hone := tickEntry_count e t nowMs fun hvalid => by
      rw [hvalid, if_pos rfl] at hcount
      omega
    have hrest := ih (tickEntry e t nowMs).2 (by split_ifs at hone hcount <;> omega)
    have hsum' : validCount (tickScan nowMs (e :: es) t).1 =
        validCount (tickScan nowMs es (tickEntry e t nowMs).2).1 +
          if (tickEntry e t nowMs).1.valid then 1 else 0 := List.countP_cons
    have hlast : (tickScan nowMs (e :: es) t).2 = (tickScan nowMs es (tickEntry e t nowMs).2).2 := rfl
    rw [hsum, hsum', hlast]
    omega

/-- The count follows the valid slots through every call. -/
theorem RetryTable.count_after {rt : RetryTable retryTableSize} (hsize : retryTableSize < 256)
    (hcount : rt.count.toNat = validCount rt.entries) (action : RetryAction) (nowMs : UInt32) :
    (rt.after action nowMs).count.toNat = validCount (rt.after action nowMs).entries := by
  cases action with
  | enqueue ackSrcId curPktId dstId nextHop data toaUs =>
    rw [RetryTable.after]
    rcases retryTableEnqueue_cases rt ackSrcId curPktId dstId nextHop data toaUs nowMs with
      hsame | ⟨i, e, he, hfree, hentries, hcount'⟩
    · simp only [hsame, hcount]
    · have hset := validCount_set he ⟨ackSrcId, curPktId, dstId, nextHop, data, toaUs,
        nowMs + retryTimeoutMs, retryTimeoutMs, retryMax, true⟩
      simp only [hfree, Bool.false_eq_true, if_false, if_true, Nat.add_zero] at hset
      -- a slot is free, so the count is below the size
      have hle : validCount (rt.entries.set i ⟨ackSrcId, curPktId, dstId, nextHop, data, toaUs,
          nowMs + retryTimeoutMs, retryTimeoutMs, retryMax, true⟩) ≤ retryTableSize := by
        refine List.countP_le_length.trans ?_
        rw [List.length_set, rt.length_entries]
      have hlt : rt.count.toNat < retryTableSize := by omega
      simp only [hentries, hcount', if_pos hlt]
      rw [UInt8.toNat_add, hset]
      change (rt.count.toNat + 1) % 256 = _
      rw [Nat.mod_eq_of_lt (by omega), hcount]
  | ack ackSrcId ackPktId =>
    rw [RetryTable.after]
    rcases retryTableAck_cases rt ackSrcId ackPktId with hsame | ⟨i, e, he, hawaits, hentries, hcount'⟩
    · simp only [hsame, hcount]
    · have hset := validCount_set he .empty
      simp only [hawaits.1, if_true, RetryEntry.empty, Bool.false_eq_true, if_false,
        Nat.add_zero] at hset
      simp only [hentries, hcount']
      rw [lessOne_toNat (by omega), hcount]
      exact (Nat.eq_sub_of_add_eq hset).symm
  | tick txQueue pktIdCounter =>
    have hscan := tickScan_count nowMs rt.entries ⟨txQueue, pktIdCounter, rt.count, 0⟩ hcount.ge
    have hentries : (rt.after (.tick txQueue pktIdCounter) nowMs).entries =
        (tickScan nowMs rt.entries ⟨txQueue, pktIdCounter, rt.count, 0⟩).1 := rfl
    have hcount' : (rt.after (.tick txQueue pktIdCounter) nowMs).count =
        (tickScan nowMs rt.entries ⟨txQueue, pktIdCounter, rt.count, 0⟩).2.count := rfl
    rw [hentries, hcount']
    simp only at hscan
    omega

/-! ### One call -/

/-- The count, the history of every valid slot, and the entries that have left. -/
structure RetryLog.Inv (l : RetryLog retryTableSize) : Prop where
  count : l.rt.count.toNat = validCount l.rt.entries
  tracks : ∀ i e, l.rt.entries[i]? = some e → e.valid = true → Tracks e (l.history i) l.nowMs
  departed : ∀ d ∈ l.departed, d.history.BacksOff ∧ d.Legit

theorem inv_init (retryTableSize : ℕ) : (RetryLog.init retryTableSize).Inv where
  count := by
    change 0 = validCount (List.replicate retryTableSize .empty)
    rw [validCount, List.countP_replicate]
    rfl
  tracks i e he hvalid := by
    have hmem : e ∈ List.replicate retryTableSize RetryEntry.empty := List.mem_of_getElem? he
    rw [List.eq_of_mem_replicate hmem] at hvalid
    cases hvalid
  departed := by
    intro d hd
    cases hd

/-- What a call does to a slot with the entry `e`, tracked by `h`. -/
structure SlotKept (action : RetryAction) (e e' : RetryEntry) (h' : EntryHistory) (nowMs : ℕ) :
    Prop where
  tracks : e'.valid = true → Tracks e' h' nowMs
  departure : ∀ reason, action.departure e e' = some reason →
    h'.BacksOff ∧ (Departed.mk e h' reason).Legit

theorem tracks_start (ackSrcId : UInt32) (curPktId : UInt16) (dstId nextHop : UInt32)
    (data : List UInt8) (toaUs : UInt32) (nowMs : ℕ) :
    Tracks ⟨ackSrcId, curPktId, dstId, nextHop, data, toaUs,
      UInt32.ofNat nowMs + retryTimeoutMs, retryTimeoutMs, retryMax, true⟩ (.start nowMs) nowMs where
  left := rfl
  interval := rfl
  next := by
    change UInt32.ofNat nowMs + retryTimeoutMs = UInt32.ofNat (nowMs + 4000)
    rw [UInt32.ofNat_add]
    rfl
  past := le_rfl
  spaced := trivial
  quiet := rfl

section Slot

variable {rt : RetryTable retryTableSize} {i : ℕ}

/-- A slot that an enqueue or an acknowledgement leaves as it was. -/
theorem slotKept_of_same (ht : e.valid = true → Tracks e h nowMs) {action : RetryAction}
    (hsame : action.departure e e = none) : SlotKept action e e h nowMs where
  tracks := ht
  departure reason hreason := by
    rw [hsame] at hreason
    cases hreason

theorem slotKept_enqueue (he : rt.entries[i]? = some e) (ht : e.valid = true → Tracks e h nowMs)
    (ackSrcId : UInt32) (curPktId : UInt16) (dstId nextHop : UInt32) (data : List UInt8)
    (toaUs : UInt32) :
    ∃ e', (rt.after (.enqueue ackSrcId curPktId dstId nextHop data toaUs)
        (UInt32.ofNat nowMs)).entries[i]? = some e' ∧
      SlotKept (.enqueue ackSrcId curPktId dstId nextHop data toaUs) e e'
        (if e' = e then h else .start nowMs) nowMs := by
  have hlt : i < rt.entries.length := (List.getElem?_eq_some_iff.mp he).1
  have hsame : SlotKept (.enqueue ackSrcId curPktId dstId nextHop data toaUs) e e
      (if e = e then h else .start nowMs) nowMs := by
    rw [if_pos rfl]
    exact slotKept_of_same ht (if_neg fun hleaves => hleaves.2 rfl)
  rw [RetryTable.after]
  rcases retryTableEnqueue_cases rt ackSrcId curPktId dstId nextHop data toaUs
    (UInt32.ofNat nowMs) with heq | ⟨j, x, hx, hfree, hentries, -⟩
  · exact ⟨e, by rw [heq, he], hsame⟩
  · rw [hentries]
    by_cases hij : i = j
    · -- the slot that was free
      subst hij
      obtain rfl : e = x := Option.some.inj (he.symm.trans hx)
      refine ⟨_, List.getElem?_set_self hlt, ?_⟩
      rw [if_neg]
      · refine ⟨fun _ => tracks_start .., fun reason hreason => ?_⟩
        rw [RetryAction.departure, if_neg (by simp [hfree])] at hreason
        cases hreason
      · intro hnew
        rw [← hnew] at hfree
        cases hfree
    · exact ⟨e, by rw [List.getElem?_set_ne (Ne.symm hij), he], hsame⟩

theorem slotKept_ack (he : rt.entries[i]? = some e) (ht : e.valid = true → Tracks e h nowMs)
    (ackSrcId : UInt32) (ackPktId : UInt16) (now : UInt32) :
    ∃ e', (rt.after (.ack ackSrcId ackPktId) now).entries[i]? = some e' ∧
      SlotKept (.ack ackSrcId ackPktId) e e' h nowMs := by
  have hlt : i < rt.entries.length := (List.getElem?_eq_some_iff.mp he).1
  have hsame : SlotKept (.ack ackSrcId ackPktId) e e h nowMs :=
    slotKept_of_same ht (if_neg fun hleaves => hleaves.2 rfl)
  rw [RetryTable.after]
  rcases retryTableAck_cases rt ackSrcId ackPktId with heq | ⟨j, x, hx, hawaits, hentries, -⟩
  · exact ⟨e, by rw [heq, he], hsame⟩
  · rw [hentries]
    by_cases hij : i = j
    · -- the entry that is acknowledged
      subst hij
      obtain rfl : e = x := Option.some.inj (he.symm.trans hx)
      refine ⟨.empty, List.getElem?_set_self hlt, fun hvalid => absurd hvalid (by decide), ?_⟩
      intro reason hreason
      rw [RetryAction.departure] at hreason
      split_ifs at hreason
      obtain rfl := Option.some.inj hreason
      exact ⟨(ht hawaits.1).backsOff, hawaits, (ht hawaits.1).quiet⟩
    · exact ⟨e, by rw [List.getElem?_set_ne (Ne.symm hij), he], hsame⟩

theorem slotKept_tick (ht : e.valid = true → Tracks e h nowMs) (txQueue : TxQueue)
    (pktIdCounter : UInt32) (t : RetryTick) :
    SlotKept (.tick txQueue pktIdCounter) e (tickEntry e t (UInt32.ofNat nowMs)).1
      (h.tick e t nowMs) nowMs := by
  by_cases hvalid : e.valid = true
  · rcases (ht hvalid).tick hvalid t with ⟨hvalid', htracks⟩ | ⟨hgone, hbacks, hflooded⟩
    · refine ⟨fun _ => htracks, fun reason hreason => ?_⟩
      rw [RetryAction.departure, if_neg (by simp [hvalid'])] at hreason
      cases hreason
    · refine ⟨fun hvalid' => ?_, fun reason hreason => ?_⟩
      · rw [hgone] at hvalid'
        cases hvalid'
      · rw [RetryAction.departure, if_pos (by simp [hvalid, hgone])] at hreason
        obtain rfl := Option.some.inj hreason
        exact ⟨hbacks, hflooded⟩
  · have hidle : tickEntry e t (UInt32.ofNat nowMs) = (e, t) := if_pos (Or.inl hvalid)
    rw [hidle]
    refine ⟨fun hvalid' => absurd hvalid' hvalid, fun reason hreason => ?_⟩
    rw [RetryAction.departure, if_neg (by simp [hvalid])] at hreason
    cases hreason

theorem slotKept_after (he : rt.entries[i]? = some e) (ht : e.valid = true → Tracks e h nowMs)
    (action : RetryAction) :
    ∃ e', (rt.after action (UInt32.ofNat nowMs)).entries[i]? = some e' ∧
      SlotKept action e e' (h.after rt action nowMs i e e') nowMs := by
  cases action with
  | enqueue ackSrcId curPktId dstId nextHop data toaUs =>
    exact slotKept_enqueue he ht ackSrcId curPktId dstId nextHop data toaUs
  | ack ackSrcId ackPktId => exact slotKept_ack he ht ackSrcId ackPktId _
  | tick txQueue pktIdCounter =>
    obtain ⟨t, hcarried, hget⟩ := tickScan_getElem? (UInt32.ofNat nowMs) he
      ⟨txQueue, pktIdCounter, rt.count, 0⟩
    refine ⟨_, hget, ?_⟩
    simp only [EntryHistory.after, hcarried]
    exact slotKept_tick ht txQueue pktIdCounter t

end Slot

theorem RetryLog.Inv.call {l : RetryLog retryTableSize} (hi : l.Inv)
    (hsize : retryTableSize < 256) (c : RetryCall) : (l.call c).Inv := by
  have hnow : l.nowMs ≤ l.timeOf c := Nat.le_add_right _ _
  -- each slot of the table, before and after
  have hslot : ∀ i < retryTableSize,
      (l.call c).rt.entries[i]? = some ((l.call c).rt.entries.getD i .empty) ∧
      SlotKept c.action (l.rt.entries.getD i .empty) ((l.call c).rt.entries.getD i .empty)
        ((l.call c).history i) (l.timeOf c) := by
    intro i hlt
    have he : l.rt.entries[i]? = some (l.rt.entries.getD i .empty) := by
      rw [List.getD_eq_getElem?_getD, List.getElem?_eq_getElem (l.rt.length_entries.symm ▸ hlt)]
      rfl
    obtain ⟨e', he', hkept⟩ := slotKept_after he
      (fun hvalid => (hi.tracks i _ he hvalid).later hnow) c.action
    have hget : (l.call c).rt.entries.getD i .empty = e' := by
      rw [List.getD_eq_getElem?_getD]
      change ((l.rt.after c.action (UInt32.ofNat (l.timeOf c))).entries[i]?).getD .empty = e'
      rw [he']
      rfl
    have hhist : (l.call c).history i = (l.history i).after l.rt c.action (l.timeOf c) i
        (l.rt.entries.getD i .empty) ((l.call c).rt.entries.getD i .empty) := rfl
    rw [hhist, hget]
    exact ⟨he', hkept⟩
  refine ⟨RetryTable.count_after hsize hi.count c.action _, ?_, ?_⟩
  · intro i e he hvalid
    have hlt : i < retryTableSize :=
      (l.call c).rt.length_entries ▸ (List.getElem?_eq_some_iff.mp he).1
    obtain ⟨hget, hkept⟩ := hslot i hlt
    obtain rfl := Option.some.inj (he.symm.trans hget)
    exact hkept.tracks hvalid
  · intro d hd
    rcases List.mem_append.mp hd with hnew | hold
    · obtain ⟨i, hi', hleaves⟩ := List.mem_filterMap.mp hnew
      obtain ⟨reason, hreason, rfl⟩ := Option.map_eq_some_iff.mp hleaves
      exact (hslot i (List.mem_range.mp hi')).2.departure reason hreason
    · exact hi.departed d hold

theorem inv_after (hsize : retryTableSize < 256) (calls : List RetryCall) :
    (RetryLog.after retryTableSize calls).Inv := by
  induction calls using List.reverseRecOn with
  | nil => exact inv_init retryTableSize
  | append_singleton calls c ih =>
    rw [RetryLog.after, List.foldl_append]
    exact ih.call hsize c

/-- **The life of a retry entry.** In every run of registrations, acknowledgements and ticks, with
whatever transmit queue a tick finds. -/
theorem retry_lifecycle (hsize : retryTableSize < 256) (calls : List RetryCall) :
    (RetryLog.after retryTableSize calls).Lifecycle := by
  have hinv := inv_after hsize calls
  refine ⟨hinv.count, ?_, hinv.departed⟩
  intro i e he hvalid
  exact ⟨(hinv.tracks i e he hvalid).backsOff, (hinv.tracks i e he hvalid).quiet⟩

/-- A transmit queue without a free slot. -/
def fullTxQueue : TxQueue := ⟨List.replicate 3 ⟨[], 0, 0⟩, by decide⟩

/-- A chat frame that is never acknowledged, while the transmit queue is full. -/
def blockedRetries : List RetryCall :=
  [⟨.enqueue 0xA1 0x0405 0xB2 0xB2 (packHeader sampleChatHdr 0) 200000, 0⟩,
    ⟨.tick fullTxQueue 0x0405, 4000⟩, ⟨.tick fullTxQueue 0x0406, 8000⟩,
    ⟨.tick fullTxQueue 0x0407, 16000⟩, ⟨.tick fullTxQueue 0x0408, 32000⟩]

/-- The law for them, in a table of 8 slots. -/
theorem retry_lifecycle_client : (RetryLog.after 8 blockedRetries).Lifecycle :=
  retry_lifecycle (by decide) blockedRetries

/-- **A flood that is lost.** An entry whose fallback flood finds the transmit queue full leaves the
table like any other. -/
theorem not_retry_lifecycle :
    ¬∀ calls : List RetryCall, ∀ d ∈ (RetryLog.after 8 calls).departed,
      (∃ ackSrcId ackPktId, d.reason = .acked ackSrcId ackPktId) ∨
        ∃ flood ∈ d.history.floods, flood.taken.isSome = true := by
  intro hall
  have hgone : ∃ d ∈ (RetryLog.after 8 blockedRetries).departed,
      d.reason = .expired ∧ ∀ flood ∈ d.history.floods, flood.taken.isSome = false := by
    decide +kernel
  obtain ⟨d, hd, hreason, hlost⟩ := hgone
  rcases hall blockedRetries d hd with ⟨s, p, hacked⟩ | ⟨flood, hflood, htaken⟩
  · rw [hreason] at hacked
    cases hacked
  · rw [hlost flood hflood] at htaken
    cases htaken

end Rivr
