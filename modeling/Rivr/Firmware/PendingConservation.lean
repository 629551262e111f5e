import Rivr.Firmware.HopAgreement
import Rivr.Firmware.RewrittenFrames
import Rivr.ForMathlib.SlotContents

/-!
# What becomes of a pending frame

The frames that were saved are, up to order, those that have left the pending queue and those that
it holds. A frame leaves when it expires, or in a drain for its destination; what the drains push
are requests of frames that leave in them, each at most once (`pending_queue_conservation`). A drain
without a next hop does nothing (`not_pending_queue_conservation`).
-/

open SlotTable

namespace Rivr

/-- The slot is taken. -/
abbrev PendingEntry.Valid (e : PendingEntry) : Prop := e.valid = true

theorem PendingEntry.free_iff (e : PendingEntry) : (!e.valid) = true ↔ ¬e.Valid := by
  rw [Bool.not_eq_true', Bool.not_eq_true]

theorem PendingEntry.not_valid_empty : ¬PendingEntry.empty.Valid := by decide

/-- The frames in the queue. -/
def PendingQueue.held (pq : PendingQueue) : List PendingEntry :=
  SlotTable.held PendingEntry.Valid pq.entries

/-! ### The operations on the contents -/

theorem pendingExpireScan_eq (nowMs : UInt32) (es : List PendingEntry) :
    pendingExpireScan nowMs es =
      (((SlotTable.held PendingEntry.Valid es).filter (·.Expired nowMs)).length,
        clear PendingEntry.Valid .empty (·.Expired nowMs) es) := by
  induction es with
  | nil => rfl
  | cons e es ih =>
    rw [pendingExpireScan, ih]
    by_cases hcleared : e.Valid ∧ e.Expired nowMs
    · have hclear : clear PendingEntry.Valid .empty (·.Expired nowMs) (e :: es) = _ :=
        clear_cons_of_pos hcleared.1 hcleared.2 es
      rw [if_pos hcleared, hclear]
      simp [SlotTable.held, hcleared.1, hcleared.2]
    · have hclear : clear PendingEntry.Valid .empty (·.Expired nowMs) (e :: es) = _ :=
        clear_cons_of_neg hcleared es
      rw [if_neg hcleared, hclear]
      by_cases hv : e.Valid
      · have hexp : ¬e.Expired nowMs := fun h => hcleared ⟨hv, h⟩
        simp [SlotTable.held, hv, hexp]
      · simp [SlotTable.held, hv]

/-- The attempt to send leaves the count. -/
theorem count_send (d : PendingDrain) (e : PendingEntry) (nextHop : UInt32) :
    (d.send e nextHop).count = d.count := by
  rw [PendingDrain.send]
  split <;> rfl

theorem toNat_count_clear (d : PendingDrain) : d.clear.count.toNat = d.count.toNat - 1 := by
  rw [PendingDrain.clear]
  dsimp only
  split_ifs with hpos
  · rw [UInt8.toNat_sub_of_le _ _ (by
      rw [UInt8.le_iff_toNat_le]
      exact UInt8.lt_iff_toNat_lt.mp hpos), UInt8.toNat_one]
  · rw [gt_iff_lt, UInt8.lt_iff_toNat_lt, UInt8.toNat_zero] at hpos
    omega

/-- The drain clears the slots of its destination, and takes them from the count. -/
theorem drainScan_eq (dstId nextHop nowMs : UInt32) (es : List PendingEntry) (d : PendingDrain) :
    (drainScan dstId nextHop nowMs es d).1 = clear PendingEntry.Valid .empty (·.dstId = dstId) es ∧
      (drainScan dstId nextHop nowMs es d).2.count.toNat = d.count.toNat -
        ((SlotTable.held PendingEntry.Valid es).filter (·.dstId = dstId)).length := by
  induction es generalizing d with
  | nil => exact ⟨rfl, rfl⟩
  | cons e es ih =>
    rw [drainScan]
    by_cases hcleared : e.Valid ∧ e.dstId = dstId
    · have hclear : clear PendingEntry.Valid .empty (·.dstId = dstId) (e :: es) = _ :=
        clear_cons_of_pos hcleared.1 hcleared.2 es
      have hheld : ((SlotTable.held PendingEntry.Valid (e :: es)).filter (·.dstId = dstId)).length =
          ((SlotTable.held PendingEntry.Valid es).filter (·.dstId = dstId)).length + 1 := by
        simp [SlotTable.held, hcleared.1, hcleared.2]
      rw [if_neg (by simp [hcleared.1, hcleared.2]), hclear, hheld]
      obtain ⟨hentries, hcount⟩ := ih (if e.Expired nowMs then d else d.send e nextHop).clear
      refine ⟨congrArg (PendingEntry.empty :: ·) hentries, hcount.trans ?_⟩
      -- an expired slot is cleared without being sent
      have hsame : (if e.Expired nowMs then d else d.send e nextHop).count = d.count := by
        split_ifs
        · rfl
        · exact count_send d e nextHop
      rw [toNat_count_clear, hsame]
      omega
    · have hclear : clear PendingEntry.Valid .empty (·.dstId = dstId) (e :: es) = _ :=
        clear_cons_of_neg hcleared es
      have hheld : (SlotTable.held PendingEntry.Valid (e :: es)).filter (·.dstId = dstId) =
          (SlotTable.held PendingEntry.Valid es).filter (·.dstId = dstId) := by
        by_cases hv : e.Valid
        · have hdst : e.dstId ≠ dstId := fun h => hcleared ⟨hv, h⟩
          simp [SlotTable.held, hv, hdst]
        · simp [SlotTable.held, hv]
      rw [if_pos (not_and_or.mp hcleared), hclear, hheld]
      obtain ⟨hentries, hcount⟩ := ih d
      exact ⟨congrArg (e :: ·) hentries, hcount⟩

/-- The count is the number of valid slots. -/
def PendingQueue.Counts (pq : PendingQueue) : Prop := pq.count.toNat = pq.held.length

variable {pq : PendingQueue} {nowMs : UInt32}

/-- **Expiry** takes the expired frames. -/
theorem held_pendingQueueExpire (pq : PendingQueue) (nowMs : UInt32) :
    pq.held.Perm (pq.held.filter (·.Expired nowMs) ++ (pendingQueueExpire pq nowMs).2.held) := by
  have hentries : (pendingQueueExpire pq nowMs).2.entries =
      clear PendingEntry.Valid .empty (·.Expired nowMs) pq.entries :=
    congrArg Prod.snd (pendingExpireScan_eq nowMs pq.entries)
  rw [PendingQueue.held, PendingQueue.held, hentries]
  exact held_perm_clear PendingEntry.not_valid_empty (·.Expired nowMs) pq.entries

theorem PendingQueue.Counts.expire (h : pq.Counts) (nowMs : UInt32) :
    (pendingQueueExpire pq nowMs).2.Counts := by
  have hlen := (held_pendingQueueExpire pq nowMs).length_eq
  have hword := pq.count.toNat_lt
  rw [Counts] at h ⊢
  rw [List.length_append] at hlen
  have hcount : (pendingQueueExpire pq nowMs).2.count = UInt8.ofNat (pq.count.toNat -
      (pq.held.filter (·.Expired nowMs)).length) :=
    congrArg (fun scan : ℕ × List PendingEntry => UInt8.ofNat (pq.count.toNat - scan.1))
      (pendingExpireScan_eq nowMs pq.entries)
  rw [hcount, UInt8.toNat_ofNat', Nat.mod_eq_of_lt (by omega)]
  omega

/-- **A drain** takes the frames for its destination. -/
theorem pendingQueueDrainForDst_eq {dstId nextHop : UInt32} (hdst : dstId ≠ 0)
    (hhop : nextHop ≠ 0) (pq : PendingQueue) (txQueue : TxQueue) (nowMs : UInt32) :
    (pendingQueueDrainForDst pq dstId nextHop txQueue nowMs).2.1.entries =
        clear PendingEntry.Valid .empty (·.dstId = dstId) pq.entries ∧
      (pendingQueueDrainForDst pq dstId nextHop txQueue nowMs).2.1.count.toNat =
        pq.count.toNat - (pq.held.filter (·.dstId = dstId)).length ∧
      (pendingQueueDrainForDst pq dstId nextHop txQueue nowMs).2.2.items = txQueue.items ++
        (drainRequests dstId nextHop nowMs pq.entries).take txQueue.room := by
  obtain ⟨hentries, hcount⟩ := drainScan_eq dstId nextHop nowMs pq.entries ⟨txQueue, pq.count, 0⟩
  rw [pendingQueueDrainForDst, if_neg (by simp [hdst, hhop])]
  exact ⟨hentries, hcount, drainScan_txQueue ..⟩

theorem held_pendingQueueDrainForDst {dstId nextHop : UInt32} (hdst : dstId ≠ 0)
    (hhop : nextHop ≠ 0) (pq : PendingQueue) (txQueue : TxQueue) (nowMs : UInt32) :
    pq.held.Perm (pq.held.filter (·.dstId = dstId) ++
      (pendingQueueDrainForDst pq dstId nextHop txQueue nowMs).2.1.held) := by
  rw [PendingQueue.held, PendingQueue.held,
    (pendingQueueDrainForDst_eq hdst hhop pq txQueue nowMs).1]
  exact held_perm_clear PendingEntry.not_valid_empty (·.dstId = dstId) pq.entries

theorem PendingQueue.Counts.drain (h : pq.Counts) {dstId nextHop : UInt32} (hdst : dstId ≠ 0)
    (hhop : nextHop ≠ 0) (txQueue : TxQueue) (nowMs : UInt32) :
    (pendingQueueDrainForDst pq dstId nextHop txQueue nowMs).2.1.Counts := by
  have hlen := (held_pendingQueueDrainForDst hdst hhop pq txQueue nowMs).length_eq
  rw [List.length_append] at hlen
  rw [Counts] at h ⊢
  rw [(pendingQueueDrainForDst_eq hdst hhop pq txQueue nowMs).2.1, h]
  omega

/-- **Saving** takes a free slot after the expiry, or finds none. -/
theorem pendingQueueEnqueue_cases (pq : PendingQueue) (dstId : UInt32) (data : List UInt8)
    (toaUs nowMs : UInt32) :
    ((data = [] ∨ dstId = 0) ∧ pendingQueueEnqueue pq dstId data toaUs nowMs = (false, pq)) ∨
      (¬(data = [] ∨ dstId = 0) ∧ (pendingQueueExpire pq nowMs).2.held.length = pendingQueueSize ∧
        pendingQueueEnqueue pq dstId data toaUs nowMs =
          (false, (pendingQueueExpire pq nowMs).2)) ∨
      (¬(data = [] ∨ dstId = 0) ∧
        (pendingQueueExpire pq nowMs).2.held.length < pendingQueueSize ∧
        (pendingQueueEnqueue pq dstId data toaUs nowMs).1 = true ∧
        (pendingQueueEnqueue pq dstId data toaUs nowMs).2.held.Perm
          (⟨dstId, data.take rfMaxPayloadLen.toNat, toaUs, nowMs, true⟩ ::
            (pendingQueueExpire pq nowMs).2.held) ∧
        ((pendingQueueExpire pq nowMs).2.Counts →
          (pendingQueueEnqueue pq dstId data toaUs nowMs).2.Counts)) := by
  rw [pendingQueueEnqueue]
  by_cases hrefused : data = [] ∨ dstId = 0
  · rw [if_pos (by rwa [List.isEmpty_iff])]
    exact .inl ⟨hrefused, rfl⟩
  rw [if_neg (by rwa [List.isEmpty_iff])]
  have hlen := (pendingQueueExpire pq nowMs).2.length_entries
  dsimp only
  split
  · rename_i hnone
    refine .inr (.inl ⟨hrefused, ?_, rfl⟩)
    exact (length_held_of_forall (forall_valid_of_findIdx?_free PendingEntry.free_iff hnone)).trans hlen
  · rename_i i hsome
    obtain ⟨x, hslot, hfree, hroom⟩ := exists_of_findIdx?_free PendingEntry.free_iff hsome
    rw [hlen] at hroom
    have hperm := held_set hslot hfree (y := ⟨dstId, data.take rfMaxPayloadLen.toNat, toaUs,
      nowMs, true⟩) rfl
    refine .inr (.inr ⟨hrefused, hroom, rfl, hperm, fun h => ?_⟩)
    rw [PendingQueue.Counts] at h ⊢
    -- the count is below its cap, so it goes up by one
    have hroom' : (pendingQueueExpire pq nowMs).2.count.toNat < pendingQueueSize := h ▸ hroom
    refine Eq.trans ?_ (hperm.length_eq.trans List.length_cons).symm
    dsimp only
    rw [if_pos hroom', UInt8.toNat_add, UInt8.toNat_one]
    rw [pendingQueueSize] at hroom'
    change _ = (pendingQueueExpire pq nowMs).2.held.length + 1
    omega

/-! ### Histories -/

/-- How a frame left the queue. -/
inductive PendingExit
  | expired (nowMs : UInt32)
  | drained (dstId nextHop nowMs : UInt32)
  deriving DecidableEq, Repr

/-- What the transmit queue is offered when a frame leaves. -/
def PendingExit.request (e : PendingEntry) : PendingExit → Option RfTxRequest
  | .expired _ => none
  | .drained _ nextHop nowMs =>
    if e.Expired nowMs then none else reencodeAsUnicastHop e.data nextHop e.toaUs

/-- A pending queue with its history: the frames it saved, those that left and how, and what its
drains pushed. -/
structure PendingLog where
  pq : PendingQueue
  saved : List PendingEntry
  gone : List (PendingEntry × PendingExit)
  handed : List RfTxRequest

/-- Before any call. -/
def PendingLog.init : PendingLog := ⟨pendingQueueInit, [], [], []⟩

/-- The frames that are expired. -/
def PendingQueue.expiring (pq : PendingQueue) (nowMs : UInt32) :
    List (PendingEntry × PendingExit) :=
  (pq.held.filter (·.Expired nowMs)).map (·, .expired nowMs)

/-- The frames that are for a destination. -/
def PendingQueue.draining (pq : PendingQueue) (dstId nextHop nowMs : UInt32) :
    List (PendingEntry × PendingExit) :=
  (pq.held.filter (·.dstId = dstId)).map (·, .drained dstId nextHop nowMs)

/-- One call. -/
def PendingLog.call (l : PendingLog) (c : PendingCall) : PendingLog :=
  match c.action with
  | .enqueue dstId data toaUs =>
    let (saved, pq) := pendingQueueEnqueue l.pq dstId data toaUs c.nowMs
    { l with
      pq := pq
      saved :=
        if saved then l.saved ++ [⟨dstId, data.take rfMaxPayloadLen.toNat, toaUs, c.nowMs, true⟩]
        else l.saved
      gone := l.gone ++ if data = [] ∨ dstId = 0 then [] else l.pq.expiring c.nowMs }
  | .expire =>
    { l with
      pq := (pendingQueueExpire l.pq c.nowMs).2
      gone := l.gone ++ l.pq.expiring c.nowMs }
  | .drain dstId nextHop txQueue =>
    let (_, pq, txQueue') := pendingQueueDrainForDst l.pq dstId nextHop txQueue c.nowMs
    { l with
      pq := pq
      gone := l.gone ++
        if dstId = 0 ∨ nextHop = 0 then [] else l.pq.draining dstId nextHop c.nowMs
      handed := l.handed ++ txQueue'.items.drop txQueue.items.length }

/-- All calls. -/
def pendingLog (calls : List PendingCall) : PendingLog := calls.foldl PendingLog.call .init

/-- Frames are neither lost nor doubled. -/
structure PendingLog.Conserves (l : PendingLog) : Prop where
  counts : l.pq.Counts
  /-- What was saved has left or is held. -/
  saved_perm : l.saved.Perm (l.gone.map Prod.fst ++ l.pq.held)
  /-- Each frame that left was pushed at most once. -/
  handed_sublist : l.handed.Sublist (l.gone.filterMap fun p => p.2.request p.1)
  expired : ∀ e nowMs, (e, PendingExit.expired nowMs) ∈ l.gone → e.Expired nowMs
  drained : ∀ e dstId nextHop nowMs, (e, PendingExit.drained dstId nextHop nowMs) ∈ l.gone →
    e.dstId = dstId

/-- The requests of a drain are those of the frames that leave in it. -/
theorem drainRequests_eq (dstId nextHop nowMs : UInt32) (es : List PendingEntry) :
    drainRequests dstId nextHop nowMs es =
      (((SlotTable.held PendingEntry.Valid es).filter (·.dstId = dstId)).map
        (·, PendingExit.drained dstId nextHop nowMs)).filterMap fun p => p.2.request p.1 := by
  rw [drainRequests, SlotTable.held, List.filter_filter, List.filterMap_map, List.filterMap_filter]
  refine List.filterMap_congr fun e _ => ?_
  rw [PendingEntry.request, Function.comp_apply, PendingExit.request]
  by_cases hleaves : e.Valid ∧ e.dstId = dstId
  · by_cases hexp : e.Expired nowMs
    · rw [if_neg fun h => h.2.2 hexp]
      simp [hleaves.1, hleaves.2, hexp]
    · rw [if_pos ⟨hleaves.1, hleaves.2, hexp⟩]
      simp [hleaves.1, hleaves.2, hexp]
  · rw [if_neg fun h => hleaves ⟨h.1, h.2.1⟩, if_neg]
    simpa [and_comm] using hleaves

variable {l : PendingLog}

theorem mem_expiring {e : PendingEntry} {exit : PendingExit}
    (h : (e, exit) ∈ pq.expiring nowMs) : exit = .expired nowMs ∧ e.Expired nowMs := by
  obtain ⟨e', he', heq⟩ := List.mem_map.mp h
  obtain ⟨rfl, rfl⟩ := Prod.mk.inj heq
  exact ⟨rfl, of_decide_eq_true (List.mem_filter.mp he').2⟩

theorem mem_draining {e : PendingEntry} {exit : PendingExit} {dstId nextHop : UInt32}
    (h : (e, exit) ∈ pq.draining dstId nextHop nowMs) :
    exit = .drained dstId nextHop nowMs ∧ e.dstId = dstId := by
  obtain ⟨e', he', heq⟩ := List.mem_map.mp h
  obtain ⟨rfl, rfl⟩ := Prod.mk.inj heq
  exact ⟨rfl, of_decide_eq_true (List.mem_filter.mp he').2⟩

/-- **What an expiry does** to the history. -/
theorem PendingLog.Conserves.expire (h : l.Conserves) (nowMs : UInt32) :
    { l with
      pq := (pendingQueueExpire l.pq nowMs).2
      gone := l.gone ++ l.pq.expiring nowMs : PendingLog }.Conserves where
  counts := h.counts.expire nowMs
  saved_perm := by
    have hfst : (l.pq.expiring nowMs).map Prod.fst = l.pq.held.filter (·.Expired nowMs) := by
      rw [PendingQueue.expiring, List.map_map]
      exact List.map_id _
    dsimp only
    rw [List.map_append, hfst, List.append_assoc]
    exact h.saved_perm.trans ((held_pendingQueueExpire l.pq nowMs).append_left _)
  handed_sublist := by
    dsimp only
    rw [List.filterMap_append]
    exact h.handed_sublist.trans (List.sublist_append_left _ _)
  expired e t hmem := by
    rcases List.mem_append.mp hmem with hold | hnew
    · exact h.expired e t hold
    · obtain ⟨heq, hexp⟩ := mem_expiring hnew
      obtain rfl := PendingExit.expired.inj heq
      exact hexp
  drained e dstId nextHop t hmem := by
    rcases List.mem_append.mp hmem with hold | hnew
    · exact h.drained e dstId nextHop t hold
    · exact absurd (mem_expiring hnew).1 PendingExit.noConfusion

/-- **What a drain does** to the history. -/
theorem PendingLog.Conserves.drain (h : l.Conserves) {dstId nextHop : UInt32} (hdst : dstId ≠ 0)
    (hhop : nextHop ≠ 0) (txQueue : TxQueue) (nowMs : UInt32) :
    { l with
      pq := (pendingQueueDrainForDst l.pq dstId nextHop txQueue nowMs).2.1
      gone := l.gone ++ l.pq.draining dstId nextHop nowMs
      handed := l.handed ++
        (pendingQueueDrainForDst l.pq dstId nextHop txQueue nowMs).2.2.items.drop
          txQueue.items.length : PendingLog }.Conserves where
  counts := h.counts.drain hdst hhop txQueue nowMs
  saved_perm := by
    have hfst : (l.pq.draining dstId nextHop nowMs).map Prod.fst =
        l.pq.held.filter (·.dstId = dstId) := by
      rw [PendingQueue.draining, List.map_map]
      exact List.map_id _
    dsimp only
    rw [List.map_append, hfst, List.append_assoc]
    exact h.saved_perm.trans
      ((held_pendingQueueDrainForDst hdst hhop l.pq txQueue nowMs).append_left _)
  handed_sublist := by
    obtain ⟨-, -, hpushed⟩ := pendingQueueDrainForDst_eq hdst hhop l.pq txQueue nowMs
    dsimp only
    rw [hpushed, List.drop_left, List.filterMap_append]
    refine h.handed_sublist.append ((List.take_sublist _ _).trans ?_)
    rw [drainRequests_eq]
    exact List.Sublist.refl _
  expired e t hmem := by
    rcases List.mem_append.mp hmem with hold | hnew
    · exact h.expired e t hold
    · exact absurd (mem_draining hnew).1 PendingExit.noConfusion
  drained e dstId' nextHop' t hmem := by
    rcases List.mem_append.mp hmem with hold | hnew
    · exact h.drained e dstId' nextHop' t hold
    · obtain ⟨heq, hfor⟩ := mem_draining hnew
      obtain ⟨rfl, -, -⟩ := PendingExit.drained.inj heq
      exact hfor

/-- **A call** conserves the frames. -/
theorem PendingLog.Conserves.call (h : l.Conserves) (c : PendingCall) : (l.call c).Conserves := by
  obtain ⟨action, nowMs⟩ := c
  cases action with
  | enqueue dstId data toaUs =>
    have hexpire := h.expire nowMs
    rcases pendingQueueEnqueue_cases l.pq dstId data toaUs nowMs with
      ⟨hrefused, hcall⟩ | ⟨hgood, -, hcall⟩ | ⟨hgood, -, hsaved, hheld, hcounts⟩
    · simp only [PendingLog.call, hcall, if_pos hrefused, List.append_nil]
      exact h
    · simp only [PendingLog.call, hcall, if_neg hgood]
      exact hexpire
    · simp only [PendingLog.call, hsaved, if_neg hgood, if_true]
      refine ⟨hcounts hexpire.counts, ?_, hexpire.handed_sublist, hexpire.expired,
        hexpire.drained⟩
      -- the new frame goes from the end of the saved ones to the front of those held
      have hnew := (hexpire.saved_perm.append_right
        [⟨dstId, data.take rfMaxPayloadLen.toNat, toaUs, nowMs, true⟩]).trans
          (List.perm_append_singleton _ _)
      refine hnew.trans ?_
      exact (List.perm_middle.symm).trans (hheld.symm.append_left _)
  | expire => exact h.expire nowMs
  | drain dstId nextHop txQueue =>
    by_cases hrefused : dstId = 0 ∨ nextHop = 0
    · have hcall : pendingQueueDrainForDst l.pq dstId nextHop txQueue nowMs = (0, l.pq, txQueue) :=
        if_pos hrefused
      simp only [PendingLog.call, hcall, if_pos hrefused, List.append_nil, List.drop_length]
      exact h
    · obtain ⟨hdst, hhop⟩ := not_or.mp hrefused
      simp only [PendingLog.call, if_neg hrefused]
      exact h.drain hdst hhop txQueue nowMs

theorem conserves_pendingLog (calls : List PendingCall) : (pendingLog calls).Conserves := by
  induction calls using List.reverseRecOn with
  | nil =>
    have hheld : pendingQueueInit.held = [] := by decide
    refine ⟨?_, ?_, List.Sublist.refl _, fun e t h => absurd h List.not_mem_nil,
      fun e dstId nextHop t h => absurd h List.not_mem_nil⟩
    · exact (congrArg List.length hheld).symm
    · change ([] : List PendingEntry).Perm ([] ++ pendingQueueInit.held)
      rw [hheld]
      exact List.Perm.refl _
  | append_singleton calls c ih =>
    rw [pendingLog, List.foldl_append]
    exact ih.call c

/-- **Pending frames are conserved** in every history. A drain with a next hop clears the slots of
its destination and no others, and offers the transmit queue the re-encoding of each unexpired frame
there, in slot order, as far as it has room; without one it does nothing. -/
theorem pending_queue_conservation (calls : List PendingCall) :
    (pendingLog calls).Conserves ∧
      ∀ (dstId nextHop : UInt32) (txQueue : TxQueue) (nowMs : UInt32),
        (dstId ≠ 0 → nextHop ≠ 0 →
          (pendingQueueDrainForDst (pendingLog calls).pq dstId nextHop txQueue nowMs).2.1.entries =
              clear PendingEntry.Valid .empty (·.dstId = dstId) (pendingLog calls).pq.entries ∧
            (pendingQueueDrainForDst (pendingLog calls).pq dstId nextHop txQueue nowMs).2.2.items =
              txQueue.items ++ (drainRequests dstId nextHop nowMs
                (pendingLog calls).pq.entries).take txQueue.room) ∧
          (dstId = 0 ∨ nextHop = 0 →
            pendingQueueDrainForDst (pendingLog calls).pq dstId nextHop txQueue nowMs =
              (0, (pendingLog calls).pq, txQueue)) := by
  refine ⟨conserves_pendingLog calls, fun dstId nextHop txQueue nowMs => ⟨fun hdst hhop => ?_,
    fun hrefused => if_pos hrefused⟩⟩
  obtain ⟨hentries, -, hpushed⟩ :=
    pendingQueueDrainForDst_eq hdst hhop (pendingLog calls).pq txQueue nowMs
  exact ⟨hentries, hpushed⟩

/-- A drain without a next hop leaves the frames of its destination. -/
theorem not_pending_queue_conservation : ¬∀ (calls : List PendingCall) (dstId nextHop : UInt32)
    (txQueue : TxQueue) (nowMs : UInt32),
    ∀ e ∈ (pendingQueueDrainForDst (pendingLog calls).pq dstId nextHop txQueue nowMs).2.1.held,
      e.dstId ≠ dstId := by
  intro h
  exact h [⟨.enqueue 5 [1] 0, 0⟩] 5 0 .empty 0 ⟨5, [1], 0, 0, true⟩ (by decide) rfl

end Rivr
