import Rivr.Firmware.FrameRewrite
import Rivr.Firmware.TxQueue
import Rivr.ForMathlib.SlotTable

/-!
# The retry table

`firmware_core/retry_table.c`: the unicast frames that wait for an acknowledgement, each with
the key it will be acknowledged under. `retryTableTick` sends the frames whose time has come
again, under a fresh packet id, and after the last attempt floods the message instead. The
number of slots, `RETRY_TABLE_SIZE`, is a parameter.
-/

namespace Rivr

open LittleEndian

def retryMax : UInt8 := 3
def retryTimeoutMs : UInt32 := 4000

/-- `retry_entry_t`. -/
structure RetryEntry where
  ackSrcId : UInt32
  curPktId : UInt16
  dstId : UInt32
  nextHop : UInt32
  data : List UInt8
  toaUs : UInt32
  nextRetryMs : UInt32
  timeoutIntervalMs : UInt32
  retriesLeft : UInt8
  valid : Bool
  deriving DecidableEq, Repr

/-- A zeroed slot. -/
def RetryEntry.empty : RetryEntry := ⟨0, 0, 0, 0, [], 0, 0, 0, 0, false⟩

/-- `retry_table_t`. -/
structure RetryTable (retryTableSize : ℕ) where
  entries : List RetryEntry
  count : UInt8
  length_entries : entries.length = retryTableSize

/-- `retry_table_init`. -/
def retryTableInit (retryTableSize : ℕ) : RetryTable retryTableSize where
  entries := List.replicate retryTableSize .empty
  count := 0
  length_entries := List.length_replicate

variable {retryTableSize : ℕ}

/-! ### Registering and acknowledging -/

/-- `retry_table_enqueue`: whether the frame was registered, and the table it leaves. -/
def retryTableEnqueue (rt : RetryTable retryTableSize) (ackSrcId : UInt32) (curPktId : UInt16)
    (dstId nextHop : UInt32) (data : List UInt8) (toaUs nowMs : UInt32) :
    Bool × RetryTable retryTableSize :=
  if data.isEmpty then (false, rt)
  else
    match rt.entries.findIdx? fun e => !e.valid with
    | none => (false, rt)
    | some i =>
      (true, {
        entries := rt.entries.set i
          ⟨ackSrcId, curPktId, dstId, nextHop, data, toaUs, nowMs + retryTimeoutMs,
            retryTimeoutMs, retryMax, true⟩
        count := if rt.count.toNat < retryTableSize then rt.count + 1 else rt.count
        length_entries := by simp [rt.length_entries] })

/-- The entry waits for the acknowledgement with the given key. -/
def RetryEntry.Awaits (e : RetryEntry) (ackSrcId : UInt32) (ackPktId : UInt16) : Prop :=
  e.valid = true ∧ e.ackSrcId = ackSrcId ∧ e.curPktId = ackPktId

instance RetryEntry.decidableAwaits (e : RetryEntry) (ackSrcId : UInt32) (ackPktId : UInt16) :
    Decidable (e.Awaits ackSrcId ackPktId) := inferInstanceAs (Decidable (_ ∧ _))

/-- The count after one slot was cleared. -/
def lessOne (count : UInt8) : UInt8 := if count > 0 then count - 1 else count

/-- `retry_table_ack`: whether an entry was cleared, and the table it leaves. -/
def retryTableAck (rt : RetryTable retryTableSize) (ackSrcId : UInt32) (ackPktId : UInt16) :
    Bool × RetryTable retryTableSize :=
  match rt.entries.findIdx? fun e => decide (e.Awaits ackSrcId ackPktId) with
  | none => (false, rt)
  | some i =>
    (true, {
      entries := rt.entries.set i .empty
      count := lessOne rt.count
      length_entries := by simp [rt.length_entries] })

/-! ### The tick -/

/-- `build_fallback_flood`: the frame. -/
def buildFallbackFlood (data : List UInt8) (fbPktId : UInt16) : List UInt8 :=
  let data := data.set 4 ((data.getD 4 0 &&& ~~~pktFlagAckReq) ||| pktFlagFallback)
  let data := (data.set 5 rivrFallbackTtl).set 6 0
  let data := (((data.set 13 0).set 14 0).set 15 0).set 16 0
  patchPktIdAndCrc (data.set 22 0) fbPktId

/-- What `retry_table_tick` carries from slot to slot. -/
structure RetryTick where
  txQueue : TxQueue
  pktIdCounter : UInt32
  count : UInt8
  pushed : UInt8

/-- A push to the transmit queue, counted. -/
def RetryTick.push (t : RetryTick) (data : List UInt8) (toaUs : UInt32) : RetryTick :=
  let (ok, txQueue) := rbTryPush t.txQueue ⟨data, toaUs, 0⟩
  { t with txQueue := txQueue, pushed := if ok then t.pushed + 1 else t.pushed }

/-- The slot's time has come; the comparison is one of signed 32-bit differences. -/
def RetryEntry.Due (e : RetryEntry) (nowMs : UInt32) : Prop :=
  ¬(nowMs - e.nextRetryMs).toInt32 < 0

instance RetryEntry.decidableDue (e : RetryEntry) (nowMs : UInt32) : Decidable (e.Due nowMs) :=
  inferInstanceAs (Decidable (¬_))

/-- The fresh packet id a tick takes for the next frame. -/
def RetryTick.freshPktId (t : RetryTick) : UInt16 := (t.pktIdCounter + 1).toUInt16

/-- A slot that is sent again. -/
def RetryEntry.resend (e : RetryEntry) (newPktId : UInt16) (nowMs : UInt32) : RetryEntry :=
  { e with
    curPktId := newPktId
    data := patchPktIdAndCrc e.data newPktId
    retriesLeft := e.retriesLeft - 1
    timeoutIntervalMs := e.timeoutIntervalMs <<< 1
    nextRetryMs := nowMs + e.timeoutIntervalMs <<< 1 }

/-- The body of the loop of `retry_table_tick`. -/
def tickEntry (e : RetryEntry) (t : RetryTick) (nowMs : UInt32) : RetryEntry × RetryTick :=
  if ¬e.valid ∨ ¬e.Due nowMs then (e, t)
  else if e.retriesLeft > 0 then
    let e' := e.resend t.freshPktId nowMs
    -- the counter moves on and the retry is spent even when the queue is full
    (e', { t with pktIdCounter := t.pktIdCounter + 1 }.push e'.data e.toaUs)
  else
    -- out of retries: the slot is given up, and one flood replaces the frame
    (.empty, { t with
      pktIdCounter := t.pktIdCounter + 1
      count := lessOne t.count }.push (buildFallbackFlood e.data t.freshPktId) e.toaUs)

/-- The loop of `retry_table_tick`. -/
def tickScan (nowMs : UInt32) : List RetryEntry → RetryTick → List RetryEntry × RetryTick
  | [], t => ([], t)
  | e :: es, t =>
    let (e', t') := tickEntry e t nowMs
    let (es', t'') := tickScan nowMs es t'
    (e' :: es', t'')

@[simp]
theorem tickScan_length (nowMs : UInt32) (es : List RetryEntry) (t : RetryTick) :
    (tickScan nowMs es t).1.length = es.length := by
  induction es generalizing t with
  | nil => rfl
  | cons e es ih => simp [tickScan, ih]

/-- What `retry_table_tick` returns and leaves: the number of frames pushed, the table, the
transmit queue and the packet id counter. -/
structure RetryTickOutcome (retryTableSize : ℕ) where
  pushed : UInt8
  rt : RetryTable retryTableSize
  txQueue : TxQueue
  pktIdCounter : UInt32

/-- `retry_table_tick`. -/
def retryTableTick (rt : RetryTable retryTableSize) (txQueue : TxQueue) (pktIdCounter : UInt32)
    (nowMs : UInt32) : RetryTickOutcome retryTableSize :=
  let scan := tickScan nowMs rt.entries ⟨txQueue, pktIdCounter, rt.count, 0⟩
  { pushed := scan.2.pushed
    rt := {
      entries := scan.1
      count := scan.2.count
      length_entries := (tickScan_length ..).trans rt.length_entries }
    txQueue := scan.2.txQueue
    pktIdCounter := scan.2.pktIdCounter }

end Rivr
