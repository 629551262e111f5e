import Rivr.Firmware.ProtocolRoundTrip
import Rivr.Firmware.TxQueue

/-!
# The pending queue

`firmware_core/pending_queue.c`: frames that wait for a route to their destination. When one is
found they are sent to its next hop, in slot order.
-/

namespace Rivr

def pendingQueueSize : ℕ := 16
def pendingExpiryMs : UInt32 := 30000

/-- `pending_entry_t`. -/
structure PendingEntry where
  dstId : UInt32
  data : List UInt8
  toaUs : UInt32
  enqueuedMs : UInt32
  valid : Bool
  deriving DecidableEq, Repr

/-- A zeroed slot. -/
def PendingEntry.empty : PendingEntry := ⟨0, [], 0, 0, false⟩

/-- `pending_queue_t`. -/
structure PendingQueue where
  entries : List PendingEntry
  count : UInt8
  length_entries : entries.length = pendingQueueSize

/-- `pending_queue_init`. -/
def pendingQueueInit : PendingQueue where
  entries := List.replicate pendingQueueSize .empty
  count := 0
  length_entries := List.length_replicate

/-- The frame has waited too long. -/
def PendingEntry.Expired (e : PendingEntry) (nowMs : UInt32) : Prop :=
  nowMs - e.enqueuedMs > pendingExpiryMs

instance PendingEntry.decidableExpired (e : PendingEntry) (nowMs : UInt32) :
    Decidable (e.Expired nowMs) := inferInstanceAs (Decidable (_ > _))

/-- The loop of `pending_queue_expire`: the number of cleared slots, and the slots it leaves. -/
def pendingExpireScan (nowMs : UInt32) : List PendingEntry → ℕ × List PendingEntry
  | [] => (0, [])
  | e :: es =>
    if e.valid ∧ e.Expired nowMs then
      ((pendingExpireScan nowMs es).1 + 1, .empty :: (pendingExpireScan nowMs es).2)
    else ((pendingExpireScan nowMs es).1, e :: (pendingExpireScan nowMs es).2)

@[simp]
theorem pendingExpireScan_length (nowMs : UInt32) (es : List PendingEntry) :
    (pendingExpireScan nowMs es).2.length = es.length := by
  induction es with
  | nil => rfl
  | cons e es ih =>
    simp only [pendingExpireScan]
    split_ifs <;> simp [ih]

/-- `pending_queue_expire`: the number of cleared slots, and the queue it leaves. -/
def pendingQueueExpire (pq : PendingQueue) (nowMs : UInt32) : UInt8 × PendingQueue :=
  let evicted := (pendingExpireScan nowMs pq.entries).1
  (UInt8.ofNat evicted, {
    entries := (pendingExpireScan nowMs pq.entries).2
    count := UInt8.ofNat (pq.count.toNat - evicted)
    length_entries := by simp [pq.length_entries] })

/-- `pending_queue_enqueue`: whether the frame was saved, and the queue it leaves. -/
def pendingQueueEnqueue (pq : PendingQueue) (dstId : UInt32) (data : List UInt8)
    (toaUs nowMs : UInt32) : Bool × PendingQueue :=
  if data.isEmpty ∨ dstId = 0 then (false, pq)
  else
    let pq := (pendingQueueExpire pq nowMs).2
    match pq.entries.findIdx? fun e => !e.valid with
    | none => (false, pq)
    | some i =>
      (true, {
        entries := pq.entries.set i ⟨dstId, data.take rfMaxPayloadLen.toNat, toaUs, nowMs, true⟩
        count := if pq.count.toNat < pendingQueueSize then pq.count + 1 else pq.count
        length_entries := by simp [pq.length_entries] })

/-- `reencode_as_unicast_hop`: the request, or `none` if the frame cannot be decoded or encoded
again. The output buffer is zeroed before it is written. -/
def reencodeAsUnicastHop (data : List UInt8) (nextHop toaUs : UInt32) : Option RfTxRequest := do
  let (hdr, pl) ← protocolDecode data (UInt8.ofNat data.length)
  let frame ← protocolEncode { hdr with dstId := nextHop, ttl := 1 } pl hdr.payloadLen
    (List.replicate rfMaxPayloadLen.toNat 0) rfMaxPayloadLen
  return ⟨frame, toaUs, 0⟩

/-- What `pending_queue_drain_for_dst` carries from slot to slot. -/
structure PendingDrain where
  txQueue : TxQueue
  count : UInt8
  sent : UInt8

/-- The attempt to send one frame that is not expired. -/
def PendingDrain.send (d : PendingDrain) (e : PendingEntry) (nextHop : UInt32) : PendingDrain :=
  match reencodeAsUnicastHop e.data nextHop e.toaUs with
  | none => d
  | some req =>
    let (ok, txQueue) := rbTryPush d.txQueue req
    { d with txQueue := txQueue, sent := if ok then d.sent + 1 else d.sent }

/-- The count after the slot was cleared. -/
def PendingDrain.clear (d : PendingDrain) : PendingDrain :=
  { d with count := if d.count > 0 then d.count - 1 else d.count }

/-- The loop of `pending_queue_drain_for_dst`. -/
def drainScan (dstId nextHop nowMs : UInt32) :
    List PendingEntry → PendingDrain → List PendingEntry × PendingDrain
  | [], d => ([], d)
  | e :: es, d =>
    if ¬e.valid ∨ e.dstId ≠ dstId then
      let (es', d') := drainScan dstId nextHop nowMs es d
      (e :: es', d')
    else
      let d := if e.Expired nowMs then d else d.send e nextHop
      let (es', d') := drainScan dstId nextHop nowMs es d.clear
      (.empty :: es', d')

@[simp]
theorem drainScan_length (dstId nextHop nowMs : UInt32) (es : List PendingEntry)
    (d : PendingDrain) : (drainScan dstId nextHop nowMs es d).1.length = es.length := by
  induction es generalizing d with
  | nil => rfl
  | cons e es ih =>
    rw [drainScan]
    split_ifs <;> simp [ih]

/-- `pending_queue_drain_for_dst`: the number of frames sent, and the two queues it leaves. -/
def pendingQueueDrainForDst (pq : PendingQueue) (dstId nextHop : UInt32) (txQueue : TxQueue)
    (nowMs : UInt32) : UInt8 × PendingQueue × TxQueue :=
  if dstId = 0 ∨ nextHop = 0 then (0, pq, txQueue)
  else
    let scan := drainScan dstId nextHop nowMs pq.entries ⟨txQueue, pq.count, 0⟩
    (scan.2.sent, {
      entries := scan.1
      count := scan.2.count
      length_entries := (drainScan_length ..).trans pq.length_entries }, scan.2.txQueue)

end Rivr
