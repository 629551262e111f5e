import Rivr.Firmware.Protocol
import Rivr.ForMathlib.TokenBucket

/-!
# The airtime scheduler

`firmware_core/airtime_sched.c`: a token bucket for all transmissions that are not control traffic,
and one bucket for each source of relayed frames, in a table of 16. A frame pays from both or from
none.

Over any interval the frames charged to the global bucket take at most its capacity and what the
interval refills, and a frame that is refused costs neither bucket anything (`airtime_budget`).
-/

namespace Rivr

open LittleEndian TokenBucket

/-! ### Constants and packet classes -/

def airtimeCapacityUs : UInt32 := 10000000
def airtimeRefillUsPerMs : UInt32 := 100
def airtimeNbCapacityUs : UInt32 := 2000000
def airtimeNbRefillUsPerMs : UInt32 := 20
def airtimeNbMax : ℕ := 16
def pktTypeByteOffset : UInt8 := 3

/-- `rivr_pkt_class_t`. -/
inductive RivrPktClass
  | control | chat | metrics | bulk | beacon
  deriving DecidableEq, Repr

/-- `rivr_pkt_classify`. -/
def rivrPktClassify (pktType : UInt8) : RivrPktClass :=
  if pktType = pktRouteReq ∨ pktType = pktRouteRpl ∨ pktType = pktAck ∨ pktType = pktProgPush then
    .control
  else if pktType = pktBeacon then .beacon
  else if pktType = pktChat then .chat
  else if pktType = pktData ∨ pktType = pktTelemetry then .metrics
  else .bulk

/-! ### Buckets -/

/-- The tokens of a bucket and the time of its last refill. -/
structure AirtimeBucket (capacityUs : UInt32) where
  tokensUs : UInt32
  lastRefillMs : UInt32
  tokens_le : tokensUs ≤ capacityUs

variable {cap : UInt32}

/-- `global_refill` and `nb_refill`. -/
def AirtimeBucket.refill (b : AirtimeBucket cap) (refillUsPerMs nowMs : UInt32) :
    AirtimeBucket cap :=
  if nowMs = b.lastRefillMs then b
  else
    -- product and sum wrap before the cap is applied
    let tokens := b.tokensUs + (nowMs - b.lastRefillMs) * refillUsPerMs
    { tokensUs := if tokens > cap then cap else tokens
      lastRefillMs := nowMs
      tokens_le := by
        split_ifs with h
        · exact UInt32.le_refl cap
        · exact UInt32.not_lt.mp h }

/-- The bucket after it has paid, if it can. -/
def AirtimeBucket.consume (b : AirtimeBucket cap) (toaUs : UInt32) : Option (AirtimeBucket cap) :=
  if h : b.tokensUs < toaUs then none
  else some
    { tokensUs := b.tokensUs - toaUs
      lastRefillMs := b.lastRefillMs
      tokens_le :=
        UInt32.le_trans (UInt32.sub_le (UInt32.not_lt.mp h)) b.tokens_le }

/-- The payment is undone. -/
def AirtimeBucket.restore (b : AirtimeBucket cap) (toaUs : UInt32) : AirtimeBucket cap :=
  let restored := b.tokensUs + toaUs
  { tokensUs := if restored > cap then cap else restored
    lastRefillMs := b.lastRefillMs
    tokens_le := by
      split_ifs with h
      · exact UInt32.le_refl cap
      · exact UInt32.not_lt.mp h }

/-- `airtime_nb_bucket_t`; a free slot has a node id of zero. -/
structure AirtimeNbBucket extends AirtimeBucket airtimeNbCapacityUs where
  nodeId : UInt32

/-- `airtime_ctx_t`. -/
structure AirtimeCtx extends AirtimeBucket airtimeCapacityUs where
  nb : List AirtimeNbBucket
  length_nb : nb.length = airtimeNbMax

/-- A slot after `memset`. -/
def AirtimeNbBucket.free : AirtimeNbBucket := ⟨⟨0, 0, by decide⟩, 0⟩

/-- `airtime_sched_init`. -/
def airtimeSchedInit : AirtimeCtx where
  tokensUs := airtimeCapacityUs
  lastRefillMs := 0
  tokens_le := UInt32.le_refl _
  nb := List.replicate airtimeNbMax .free
  length_nb := List.length_replicate

/-- `global_refill`. -/
def globalRefill (ctx : AirtimeCtx) (nowMs : UInt32) : AirtimeCtx :=
  { ctx with toAirtimeBucket := ctx.refill airtimeRefillUsPerMs nowMs }

/-- `nb_refill`. -/
def nbRefill (nb : AirtimeNbBucket) (nowMs : UInt32) : AirtimeNbBucket :=
  { nb with toAirtimeBucket := nb.refill airtimeNbRefillUsPerMs nowMs }

/-! ### The table of sources -/

/-- The bucket of a source that has none yet. -/
def AirtimeNbBucket.fresh (srcId nowMs : UInt32) : AirtimeNbBucket :=
  ⟨⟨airtimeNbCapacityUs, nowMs, UInt32.le_refl _⟩, srcId⟩

/-- The search for the least recent refill in the loop of `nb_get_or_alloc`, from slot `i` on. -/
def lruScan : List AirtimeNbBucket → ℕ → ℕ → UInt32 → ℕ
  | [], _, lruSlot, _ => lruSlot
  | b :: nb, i, lruSlot, lruTs =>
    if b.lastRefillMs < lruTs then lruScan nb (i + 1) i b.lastRefillMs
    else lruScan nb (i + 1) lruSlot lruTs

/-- The slot that `nb_get_or_alloc` gives to a new source. -/
def allocSlot (nb : List AirtimeNbBucket) : ℕ :=
  match nb.findIdx? fun b => b.nodeId = 0 with
  | some slot => slot
  | none => lruScan nb 0 0 (nb.headD .free).lastRefillMs

/-- `nb_get_or_alloc`: the slot, and the bucket it holds then. -/
def nbGetOrAlloc (nb : List AirtimeNbBucket) (srcId nowMs : UInt32) : ℕ × AirtimeNbBucket :=
  match nb.findIdx? fun b => b.nodeId = srcId with
  | some slot => (slot, nb.getD slot .free)
  | none => (allocSlot nb, .fresh srcId nowMs)

/-- The context with a slot of the table written. -/
def AirtimeCtx.setNb (ctx : AirtimeCtx) (slot : ℕ) (b : AirtimeNbBucket) : AirtimeCtx :=
  { ctx with nb := ctx.nb.set slot b, length_nb := by rw [List.length_set, ctx.length_nb] }

/-! ### The gate -/

/-- A frame, as the gate gets it. -/
structure AirtimeFrame where
  data : Option (List UInt8)
  len : UInt8
  deriving DecidableEq, Repr

/-- The byte of the frame, if the frame reaches beyond it. -/
def AirtimeFrame.byte (f : AirtimeFrame) (i : UInt8) : Option UInt8 :=
  if f.len > i then f.data.map fun data => data.getD i.toNat 0 else none

/-- The packet type of step 1. -/
def AirtimeFrame.pktType (f : AirtimeFrame) : UInt8 := (f.byte pktTypeByteOffset).getD 0

/-- The source of step 7, of a frame that has been relayed. -/
def AirtimeFrame.relaySource (f : AirtimeFrame) : Option UInt32 :=
  match f.data with
  | none => none
  | some data =>
    if f.len > 12 ∧ data.getD 4 0 &&& pktFlagRelay ≠ 0 then
      some (u32OfBytes (data.getD 9 0) (data.getD 10 0) (data.getD 11 0) (data.getD 12 0))
    else none

/-- Step 7 for a frame that the global bucket has paid for. -/
def relayFairness (ctx : AirtimeCtx) (srcId toaUs nowMs : UInt32) : Bool × AirtimeCtx :=
  let (slot, nb) := nbGetOrAlloc ctx.nb srcId nowMs
  let nb := nbRefill nb nowMs
  match nb.consume toaUs with
  | none => (false, { ctx.setNb slot nb with toAirtimeBucket := ctx.restore toaUs })
  | some paid => (true, ctx.setNb slot { nb with toAirtimeBucket := paid })

/-- `airtime_sched_check_consume`. -/
def airtimeSchedCheckConsume (ctx : AirtimeCtx) (frame : AirtimeFrame) (toaUs nowMs : UInt32) :
    Bool × AirtimeCtx :=
  if rivrPktClassify frame.pktType = .control then (true, ctx)
  else
    let ctx := globalRefill ctx nowMs
    match ctx.consume toaUs with
    | none => (false, ctx)
    | some paid =>
      let ctx := { ctx with toAirtimeBucket := paid }
      match frame.relaySource with
      | none => (true, ctx)
      -- a relayed frame pays a second time, from the bucket of its source
      | some srcId => if srcId = 0 then (true, ctx) else relayFairness ctx srcId toaUs nowMs

/-! ### Bucket lemmas -/

variable {b b' : AirtimeBucket cap} {toaUs : UInt32}

@[simp]
theorem AirtimeBucket.refill_lastRefillMs (b : AirtimeBucket cap) (rate nowMs : UInt32) :
    (b.refill rate nowMs).lastRefillMs = nowMs := by
  rw [AirtimeBucket.refill]
  split_ifs with h
  · exact h.symm
  · rfl

/-- A refill for the time since the last one. Where the product overflows, it gives less. -/
theorem AirtimeBucket.refill_tokens_le {since now : ℕ} (hlast : b.lastRefillMs = UInt32.ofNat since)
    (h : since ≤ now) (rate : UInt32) :
    (b.refill rate (UInt32.ofNat now)).tokensUs.toNat ≤
      b.tokensUs.toNat + rate.toNat * (now - since) := by
  have hage : (UInt32.ofNat now - b.lastRefillMs).toNat ≤ now - since := by
    rw [hlast, UInt32.toNat_sub, UInt32.toNat_ofNat', UInt32.toNat_ofNat']
    omega
  have hadd : (b.tokensUs + (UInt32.ofNat now - b.lastRefillMs) * rate).toNat ≤
      b.tokensUs.toNat + rate.toNat * (now - since) := by
    rw [UInt32.toNat_add, UInt32.toNat_mul, Nat.mul_comm rate.toNat]
    refine (Nat.mod_le _ _).trans (Nat.add_le_add_left ?_ _)
    exact (Nat.mod_le _ _).trans (Nat.mul_le_mul_right _ hage)
  rw [AirtimeBucket.refill]
  split_ifs with hsame
  · exact Nat.le_add_right _ _
  · simp only
    split_ifs with hcap
    · exact (UInt32.le_iff_toNat_le.mp (UInt32.le_of_lt hcap)).trans hadd
    · exact hadd

/-- What a bucket that has paid had, and has left. -/
theorem AirtimeBucket.consume_eq_some (h : b.consume toaUs = some b') :
    toaUs ≤ b.tokensUs ∧ b'.tokensUs = b.tokensUs - toaUs ∧ b'.lastRefillMs = b.lastRefillMs := by
  rw [AirtimeBucket.consume] at h
  split_ifs at h with hlt
  obtain rfl := Option.some.inj h
  exact ⟨UInt32.not_lt.mp hlt, rfl, rfl⟩

/-- Undoing a payment gives the bucket back as it was. -/
theorem AirtimeBucket.restore_of_consume (h : b.consume toaUs = some b') :
    b'.restore toaUs = b := by
  obtain ⟨-, htokens, hlast⟩ := AirtimeBucket.consume_eq_some h
  have hback : b'.tokensUs + toaUs = b.tokensUs := by
    rw [htokens]
    exact UInt32.sub_add_cancel _ _
  obtain ⟨tokensUs, lastRefillMs, htok⟩ := b
  simp only [AirtimeBucket.restore, hback, hlast, gt_iff_lt, UInt32.not_lt.mpr htok, if_false]

/-! ### The search for a bucket -/

theorem lruScan_lt : ∀ (nb : List AirtimeNbBucket) (i slot : ℕ) (ts : UInt32), slot < i + nb.length →
    lruScan nb i slot ts < i + nb.length
  | [], _, _, _, h => h
  | b :: nb, i, slot, ts, h => by
    rw [List.length_cons] at h ⊢
    rw [lruScan]
    split_ifs
    · have := lruScan_lt nb (i + 1) i b.lastRefillMs (by omega)
      omega
    · have := lruScan_lt nb (i + 1) slot ts (by omega)
      omega

theorem allocSlot_lt {nb : List AirtimeNbBucket} (hnb : nb.length = airtimeNbMax) :
    allocSlot nb < nb.length := by
  rw [allocSlot]
  split
  · next slot hslot => exact (List.findIdx?_eq_some_iff_getElem.mp hslot).1
  · have := lruScan_lt nb 0 0 (nb.headD .free).lastRefillMs (by rw [hnb]; decide)
    omega

/-- `nb_get_or_alloc` returns the bucket of the source, or a fresh one where there is none. -/
theorem nbGetOrAlloc_spec {nb : List AirtimeNbBucket} (hnb : nb.length = airtimeNbMax)
    (srcId nowMs : UInt32) :
    (nbGetOrAlloc nb srcId nowMs).1 < nb.length ∧
      (nb[(nbGetOrAlloc nb srcId nowMs).1]? = some (nbGetOrAlloc nb srcId nowMs).2 ∧
          (nbGetOrAlloc nb srcId nowMs).2.nodeId = srcId ∨
        (∀ b ∈ nb, b.nodeId ≠ srcId) ∧
          (nbGetOrAlloc nb srcId nowMs).2 = .fresh srcId nowMs) := by
  rw [nbGetOrAlloc]
  split
  · next slot hslot =>
    obtain ⟨hlt, hid, -⟩ := List.findIdx?_eq_some_iff_getElem.mp hslot
    have hget : nb[slot]? = some (nb.getD slot .free) := by
      rw [List.getElem?_eq_getElem hlt, List.getD_eq_getElem?_getD, List.getElem?_eq_getElem hlt]
      rfl
    refine ⟨hlt, Or.inl ⟨hget, ?_⟩⟩
    rw [List.getD_eq_getElem?_getD, List.getElem?_eq_getElem hlt]
    exact of_decide_eq_true hid
  · next hnone =>
    refine ⟨allocSlot_lt hnb, Or.inr ⟨fun b hb => ?_, rfl⟩⟩
    exact of_decide_eq_false (List.findIdx?_eq_none_iff.mp hnone b hb)

/-- A bucket of the source that is written back is found again. -/
theorem nbGetOrAlloc_set {nb : List AirtimeNbBucket} (hnb : nb.length = airtimeNbMax)
    (srcId nowMs : UInt32) {b : AirtimeNbBucket} (hb : b.nodeId = srcId) (nowMs' : UInt32) :
    nbGetOrAlloc (nb.set (nbGetOrAlloc nb srcId nowMs).1 b) srcId nowMs' =
      ((nbGetOrAlloc nb srcId nowMs).1, b) := by
  have hlt := (nbGetOrAlloc_spec hnb srcId nowMs).1
  have hfind : (nb.set (nbGetOrAlloc nb srcId nowMs).1 b).findIdx? (fun b => b.nodeId = srcId) =
      some (nbGetOrAlloc nb srcId nowMs).1 := by
    refine List.findIdx?_eq_some_iff_getElem.mpr ⟨by rwa [List.length_set], ?_, ?_⟩
    · rw [List.getElem_set_self]
      exact decide_eq_true hb
    · -- no earlier slot has the source
      intro j hj
      rw [List.getElem_set_ne (Nat.ne_of_gt hj)]
      rw [nbGetOrAlloc] at hj
      split at hj
      · next slot hslot => exact (List.findIdx?_eq_some_iff_getElem.mp hslot).2.2 j hj
      · next hnone =>
        rw [List.findIdx?_eq_none_iff.mp hnone _ (List.getElem_mem _)]
        decide
  rw [nbGetOrAlloc, hfind]
  simp only [Prod.mk.injEq, true_and]
  rw [List.getD_eq_getElem?_getD, List.getElem?_set_self hlt]
  rfl

/-! ### What the gate can do -/

/-- The outcomes of `airtime_sched_check_consume`. -/
inductive AirtimeOutcome (ctx : AirtimeCtx) (frame : AirtimeFrame) (toaUs nowMs : UInt32) :
    Bool × AirtimeCtx → Prop
  /-- Control traffic passes for free. -/
  | exempt (hcls : rivrPktClassify frame.pktType = .control) :
    AirtimeOutcome ctx frame toaUs nowMs (true, ctx)
  /-- The global bucket cannot pay. -/
  | refused (hcls : rivrPktClassify frame.pktType ≠ .control) :
    AirtimeOutcome ctx frame toaUs nowMs (false, globalRefill ctx nowMs)
  /-- The global bucket pays for a frame without a source to charge. -/
  | paid (hcls : rivrPktClassify frame.pktType ≠ .control)
    {bucket : AirtimeBucket airtimeCapacityUs}
    (hpaid : (globalRefill ctx nowMs).consume toaUs = some bucket)
    (hsrc : ∀ srcId, frame.relaySource = some srcId → srcId = 0) :
    AirtimeOutcome ctx frame toaUs nowMs
      (true, { globalRefill ctx nowMs with toAirtimeBucket := bucket })
  /-- The bucket of the source cannot pay. -/
  | refusedSource (hcls : rivrPktClassify frame.pktType ≠ .control) {srcId : UInt32}
    (hsrc : frame.relaySource = some srcId) (hne : srcId ≠ 0) :
    AirtimeOutcome ctx frame toaUs nowMs
      (false, (globalRefill ctx nowMs).setNb (nbGetOrAlloc ctx.nb srcId nowMs).1
        (nbRefill (nbGetOrAlloc ctx.nb srcId nowMs).2 nowMs))
  /-- Both buckets pay. -/
  | paidBoth (hcls : rivrPktClassify frame.pktType ≠ .control) {srcId : UInt32}
    (hsrc : frame.relaySource = some srcId) (hne : srcId ≠ 0)
    {bucket : AirtimeBucket airtimeCapacityUs}
    (hpaid : (globalRefill ctx nowMs).consume toaUs = some bucket)
    {nbBucket : AirtimeBucket airtimeNbCapacityUs}
    (hnbPaid : (nbRefill (nbGetOrAlloc ctx.nb srcId nowMs).2 nowMs).consume toaUs = some nbBucket) :
    AirtimeOutcome ctx frame toaUs nowMs
      (true, { (globalRefill ctx nowMs).setNb (nbGetOrAlloc ctx.nb srcId nowMs).1
        { nbRefill (nbGetOrAlloc ctx.nb srcId nowMs).2 nowMs with toAirtimeBucket := nbBucket } with
        toAirtimeBucket := bucket })

theorem airtimeOutcome (ctx : AirtimeCtx) (frame : AirtimeFrame) (toaUs nowMs : UInt32) :
    AirtimeOutcome ctx frame toaUs nowMs (airtimeSchedCheckConsume ctx frame toaUs nowMs) := by
  by_cases hcls : rivrPktClassify frame.pktType = .control
  · rw [airtimeSchedCheckConsume, if_pos hcls]
    exact .exempt hcls
  rw [airtimeSchedCheckConsume, if_neg hcls]
  rcases hpaid : (globalRefill ctx nowMs).consume toaUs with _ | bucket
  · simp only [hpaid]
    exact .refused hcls
  simp only [hpaid]
  rcases hsrc : frame.relaySource with _ | srcId
  · exact .paid hcls hpaid (by simp [hsrc])
  by_cases hne : srcId = 0
  · simp only [hne, if_true]
    refine .paid hcls hpaid ?_
    rintro srcId' hsrc'
    rw [hsrc, hne] at hsrc'
    exact (Option.some.inj hsrc').symm
  · simp only [hne, if_false, relayFairness]
    have hnb : (globalRefill ctx nowMs).nb = ctx.nb := rfl
    rcases hnbPaid : (nbRefill (nbGetOrAlloc ctx.nb srcId nowMs).2 nowMs).consume toaUs with
      _ | nbBucket
    · simp only [hnb, hnbPaid]
      rw [AirtimeBucket.restore_of_consume hpaid]
      exact .refusedSource hcls hsrc hne
    · simp only [hnb, hnbPaid]
      exact .paidBoth hcls hsrc hne hpaid hnbPaid

/-! ### What a refused frame costs -/

/-- The tokens of the source's bucket, with what is due at the time. -/
def AirtimeCtx.sourceTokensUs (ctx : AirtimeCtx) (srcId nowMs : UInt32) : UInt32 :=
  (nbRefill (nbGetOrAlloc ctx.nb srcId nowMs).2 nowMs).tokensUs

/-- Neither the global bucket nor that of the frame's source has fewer tokens than the refill that
is due leaves. -/
structure KeepsTokens (ctx ctx' : AirtimeCtx) (frame : AirtimeFrame) (nowMs : UInt32) : Prop where
  global : (globalRefill ctx nowMs).tokensUs ≤ ctx'.tokensUs
  source : ∀ srcId, frame.relaySource = some srcId →
    ctx.sourceTokensUs srcId nowMs ≤ ctx'.sourceTokensUs srcId nowMs

theorem nbGetOrAlloc_nodeId {nb : List AirtimeNbBucket} (hnb : nb.length = airtimeNbMax)
    (srcId nowMs : UInt32) : (nbGetOrAlloc nb srcId nowMs).2.nodeId = srcId := by
  obtain ⟨-, ⟨-, hid⟩ | ⟨-, hfresh⟩⟩ := nbGetOrAlloc_spec hnb srcId nowMs
  · exact hid
  · rw [hfresh]
    rfl

/-- A bucket that was refilled at this time has nothing due. -/
theorem nbRefill_self (b : AirtimeNbBucket) (nowMs : UInt32) :
    nbRefill (nbRefill b nowMs) nowMs = nbRefill b nowMs := by
  have hlast : (nbRefill b nowMs).lastRefillMs = nowMs := AirtimeBucket.refill_lastRefillMs _ _ _
  rw [nbRefill, AirtimeBucket.refill, if_pos hlast.symm]

theorem keepsTokens_of_refused {ctx : AirtimeCtx} {frame : AirtimeFrame} {toaUs nowMs : UInt32}
    (h : (airtimeSchedCheckConsume ctx frame toaUs nowMs).1 = false) :
    KeepsTokens ctx (airtimeSchedCheckConsume ctx frame toaUs nowMs).2 frame nowMs := by
  have hout := airtimeOutcome ctx frame toaUs nowMs
  generalize airtimeSchedCheckConsume ctx frame toaUs nowMs = r at h hout
  rcases hout with hcls | hcls | ⟨hcls, hpaid, hsrc⟩ | ⟨hcls, hsrc, hne⟩ | ⟨hcls, hsrc, hne, hp, hn⟩
  · cases h
  · exact ⟨UInt32.le_refl _, fun _ _ => UInt32.le_refl _⟩
  · cases h
  · refine ⟨UInt32.le_refl _, fun srcId hsrcId => ?_⟩
    obtain rfl := Option.some.inj (hsrcId.symm.trans hsrc)
    have hid : (nbRefill (nbGetOrAlloc ctx.nb srcId nowMs).2 nowMs).nodeId = srcId :=
      nbGetOrAlloc_nodeId ctx.length_nb srcId nowMs
    rw [AirtimeCtx.sourceTokensUs, AirtimeCtx.sourceTokensUs, AirtimeCtx.setNb]
    simp only [globalRefill]
    rw [nbGetOrAlloc_set ctx.length_nb _ nowMs hid, nbRefill_self]
    exact UInt32.le_refl _
  · cases h

/-! ### Calls of the gate -/

/-- A frame that is to be sent, some time after the one before. -/
structure AirtimeCall where
  frame : AirtimeFrame
  toaUs : UInt32
  afterMs : ℕ
  deriving DecidableEq, Repr

/-- A frame that was admitted. -/
structure Admission where
  frame : AirtimeFrame
  atMs : ℕ
  toaUs : ℕ

/-- The context, the time, and what was admitted, newest first. -/
structure AirtimeLog where
  ctx : AirtimeCtx
  nowMs : ℕ
  admitted : List Admission

def AirtimeLog.init : AirtimeLog := ⟨airtimeSchedInit, 0, []⟩

/-- When the call is made. -/
def AirtimeLog.timeOf (l : AirtimeLog) (c : AirtimeCall) : ℕ := l.nowMs + c.afterMs

/-- What the gate does with the frame. -/
def AirtimeLog.gate (l : AirtimeLog) (c : AirtimeCall) : Bool × AirtimeCtx :=
  airtimeSchedCheckConsume l.ctx c.frame c.toaUs (UInt32.ofNat (l.timeOf c))

/-- One call. -/
def AirtimeLog.call (l : AirtimeLog) (c : AirtimeCall) : AirtimeLog where
  ctx := (l.gate c).2
  nowMs := l.timeOf c
  admitted :=
    if (l.gate c).1 then ⟨c.frame, l.timeOf c, c.toaUs.toNat⟩ :: l.admitted else l.admitted

/-- After the calls. -/
def AirtimeLog.after (calls : List AirtimeCall) : AirtimeLog := calls.foldl AirtimeLog.call .init

/-- When and how much was charged to the global bucket. -/
def AirtimeLog.charges (l : AirtimeLog) : List (ℕ × ℕ) :=
  (l.admitted.filter fun a => rivrPktClassify a.frame.pktType ≠ .control).map
    fun a => (a.atMs, a.toaUs)

/-! ### The budget -/

/-- The global bucket, as a token bucket. -/
def AirtimeLog.GlobalSpends (l : AirtimeLog) : Prop :=
  ∃ since ≤ l.nowMs, l.ctx.lastRefillMs = UInt32.ofNat since ∧
    Spends airtimeCapacityUs.toNat airtimeRefillUsPerMs.toNat l.ctx.tokensUs.toNat since l.charges []

theorem globalSpends_init : AirtimeLog.init.GlobalSpends :=
  ⟨0, le_rfl, rfl, spends_init le_rfl⟩

theorem AirtimeLog.GlobalSpends.call {l : AirtimeLog} (h : l.GlobalSpends) (c : AirtimeCall) :
    (l.call c).GlobalSpends := by
  obtain ⟨since, hsince, hlast, hspends⟩ := h
  have hnow : since ≤ l.timeOf c := hsince.trans (Nat.le_add_right _ _)
  -- the refill that every outcome but the exemption begins with
  have hrefill : Spends airtimeCapacityUs.toNat airtimeRefillUsPerMs.toNat
      (globalRefill l.ctx (UInt32.ofNat (l.timeOf c))).tokensUs.toNat (l.timeOf c) l.charges [] :=
    hspends.refill hnow (UInt32.le_iff_toNat_le.mp (AirtimeBucket.tokens_le _))
      (AirtimeBucket.refill_tokens_le hlast hnow _)
  have hlast' : (globalRefill l.ctx (UInt32.ofNat (l.timeOf c))).lastRefillMs =
      UInt32.ofNat (l.timeOf c) := AirtimeBucket.refill_lastRefillMs _ _ _
  have hpay : ∀ bucket, (globalRefill l.ctx (UInt32.ofNat (l.timeOf c))).consume c.toaUs =
      some bucket → bucket.lastRefillMs = UInt32.ofNat (l.timeOf c) ∧
        Spends airtimeCapacityUs.toNat airtimeRefillUsPerMs.toNat bucket.tokensUs.toNat (l.timeOf c)
          ((l.timeOf c, c.toaUs.toNat) :: l.charges) [] := by
    intro bucket hpaid
    obtain ⟨hle, htokens, hsame⟩ := AirtimeBucket.consume_eq_some hpaid
    refine ⟨hsame.trans hlast', ?_⟩
    rw [htokens, UInt32.toNat_sub_of_le _ _ hle]
    exact hrefill.spend (UInt32.le_iff_toNat_le.mp hle)
  have hcharges : (l.call c).charges =
      if (l.gate c).1 ∧ rivrPktClassify c.frame.pktType ≠ .control then
        (l.timeOf c, c.toaUs.toNat) :: l.charges
      else l.charges := by
    rw [AirtimeLog.charges, AirtimeLog.call]
    by_cases hgate : (l.gate c).1 <;> by_cases hcls : rivrPktClassify c.frame.pktType = .control <;>
      simp [hgate, hcls, AirtimeLog.charges]
  have hctx : (l.call c).ctx = (l.gate c).2 := rfl
  have hnow' : (l.call c).nowMs = l.timeOf c := rfl
  rw [AirtimeLog.GlobalSpends, hcharges, hctx, hnow']
  have hout := airtimeOutcome l.ctx c.frame c.toaUs (UInt32.ofNat (l.timeOf c))
  rw [← AirtimeLog.gate] at hout
  generalize l.gate c = r at hout
  rcases hout with hcls | hcls | ⟨hcls, hpaid, hsrc⟩ | ⟨hcls, hsrc, hne⟩ | ⟨hcls, hsrc, hne, hpaid, hnb⟩
  · rw [if_neg (by simp [hcls])]
    exact ⟨since, hnow, hlast, hspends⟩
  · rw [if_neg (by simp)]
    exact ⟨_, le_rfl, hlast', hrefill⟩
  · rw [if_pos ⟨rfl, hcls⟩]
    exact ⟨_, le_rfl, hpay _ hpaid⟩
  · rw [if_neg (by simp)]
    exact ⟨_, le_rfl, hlast', hrefill⟩
  · rw [if_pos ⟨rfl, hcls⟩]
    exact ⟨_, le_rfl, hpay _ hpaid⟩

theorem globalSpends_after (calls : List AirtimeCall) : (AirtimeLog.after calls).GlobalSpends := by
  induction calls using List.reverseRecOn with
  | nil => exact globalSpends_init
  | append_singleton calls c ih =>
    rw [AirtimeLog.after, List.foldl_append]
    exact ih.call c

/-- **The airtime budget.** After any calls at non-decreasing times, what was charged to the global
bucket in any interval is at most the capacity and the refill of the interval, and a frame that is
refused next loses no tokens of either bucket. -/
theorem airtime_budget (calls : List AirtimeCall) :
    (∀ t₁ t₂, t₁ ≤ t₂ → spentIn t₁ t₂ (AirtimeLog.after calls).charges ≤
      airtimeCapacityUs.toNat + airtimeRefillUsPerMs.toNat * (t₂ - t₁)) ∧
    ∀ c, ((AirtimeLog.after calls).gate c).1 = false →
      KeepsTokens (AirtimeLog.after calls).ctx ((AirtimeLog.after calls).gate c).2 c.frame
        (UInt32.ofNat ((AirtimeLog.after calls).timeOf c)) := by
  refine ⟨fun t₁ t₂ ht => ?_, fun c hc => keepsTokens_of_refused hc⟩
  obtain ⟨since, -, -, hspends⟩ := globalSpends_after calls
  simpa using hspends.law t₁ t₂ ht

/-! ### Refills after a long time -/

/-- What a bucket has after a refill, over the numbers. -/
def AirtimeBucket.exactTokens (b : AirtimeBucket cap) (rate nowMs : UInt32) : ℕ :=
  min cap.toNat (b.tokensUs.toNat + rate.toNat * (nowMs - b.lastRefillMs).toNat)

/-- The tokens and what is added to them fit in 32 bits, or what is left of them there still fills
the bucket. -/
def AirtimeBucket.RefillFits (b : AirtimeBucket cap) (rate nowMs : UInt32) : Prop :=
  b.tokensUs.toNat + rate.toNat * (nowMs - b.lastRefillMs).toNat < 2 ^ 32 ∨
    cap.toNat ≤ (b.tokensUs.toNat + rate.toNat * (nowMs - b.lastRefillMs).toNat) % 2 ^ 32

/-- The refill is computed in 32 bits and cut to the capacity afterwards. -/
theorem AirtimeBucket.toNat_refill (b : AirtimeBucket cap) (rate nowMs : UInt32) :
    (b.refill rate nowMs).tokensUs.toNat =
      min cap.toNat
        ((b.tokensUs.toNat + rate.toNat * (nowMs - b.lastRefillMs).toNat) % 2 ^ 32) := by
  have htokens := UInt32.le_iff_toNat_le.mp b.tokens_le
  have hsum : (b.tokensUs + (nowMs - b.lastRefillMs) * rate).toNat =
      (b.tokensUs.toNat + rate.toNat * (nowMs - b.lastRefillMs).toNat) % 2 ^ 32 := by
    rw [UInt32.toNat_add, UInt32.toNat_mul, Nat.add_mod_mod, Nat.mul_comm]
  rw [AirtimeBucket.refill]
  split_ifs with hsame
  · rw [hsame, UInt32.sub_self, UInt32.toNat_zero, Nat.mul_zero, Nat.add_zero,
      Nat.mod_eq_of_lt b.tokensUs.toNat_lt, Nat.min_eq_right htokens]
  · dsimp only
    split_ifs with hcap
    · rw [gt_iff_lt, UInt32.lt_iff_toNat_lt, hsum] at hcap
      exact (Nat.min_eq_left hcap.le).symm
    · rw [gt_iff_lt, UInt32.lt_iff_toNat_lt, hsum, Nat.not_lt] at hcap
      rw [hsum, Nat.min_eq_right hcap]

theorem AirtimeBucket.refill_eq_exactTokens_iff (b : AirtimeBucket cap) (rate nowMs : UInt32) :
    (b.refill rate nowMs).tokensUs.toNat = b.exactTokens rate nowMs ↔ b.RefillFits rate nowMs := by
  rw [AirtimeBucket.toNat_refill, AirtimeBucket.exactTokens, AirtimeBucket.RefillFits]
  generalize b.tokensUs.toNat + rate.toNat * (nowMs - b.lastRefillMs).toNat = sum
  have hcap := cap.toNat_lt
  omega

/-- **A refill is exact** for both kinds of buckets exactly when the sum fits, or when its remainder
fills the bucket. -/
theorem airtime_refill_exact_iff (ctx : AirtimeCtx) (nb : AirtimeNbBucket) (nowMs : UInt32) :
    ((globalRefill ctx nowMs).tokensUs.toNat = ctx.exactTokens airtimeRefillUsPerMs nowMs ↔
        ctx.RefillFits airtimeRefillUsPerMs nowMs) ∧
      ((nbRefill nb nowMs).tokensUs.toNat = nb.exactTokens airtimeNbRefillUsPerMs nowMs ↔
        nb.RefillFits airtimeNbRefillUsPerMs nowMs) :=
  ⟨ctx.refill_eq_exactTokens_iff _ _, nb.refill_eq_exactTokens_iff _ _⟩

/-- After twelve idle hours the bucket has next to nothing. -/
theorem not_airtime_refill_exact : ¬∀ (ctx : AirtimeCtx) (nb : AirtimeNbBucket) (nowMs : UInt32),
    (globalRefill ctx nowMs).tokensUs.toNat = ctx.exactTokens airtimeRefillUsPerMs nowMs ∧
      (nbRefill nb nowMs).tokensUs.toNat = nb.exactTokens airtimeNbRefillUsPerMs nowMs := by
  intro h
  have hglobal := (h { airtimeSchedInit with tokensUs := 0, tokens_le := by decide } .free
    42949673).1
  exact absurd hglobal (by decide)

end Rivr
