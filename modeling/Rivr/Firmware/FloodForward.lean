import Rivr.Firmware.Dedupe
import Rivr.Firmware.Protocol

/-!
# The flood forwarder

`firmware_core/routing.c`: the safety budget that caps how much a node relays, and
`routingFloodForward`, which decides what happens to a received frame. The decision is made
in a fixed order: duplicate, TTL, hop count, budget; only a frame that passes all four has
its header changed.

The counters the code keeps for diagnostics outside the budget are not modelled, nor is the
loop-guard hash, which the code computes and then ignores.
-/

namespace Rivr

/-! ### The forward budget -/

def fwdbudgetPktTypes : UInt8 := 8
def fwdbudgetWindowMs : UInt32 := 60000
def fwdbudgetMaxFwd : UInt16 := 30
def fwdbudgetMaxAirUs : UInt32 := 3000000
def fwdbudgetHourWindowMs : UInt32 := 3600000
def fwdbudgetMaxHourAirUs : UInt32 := 360000000

/-- The build-time role of a node; `sim` is a build with no role. -/
inductive NodeRole where
  | repeater | gateway | client | sim
  deriving DecidableEq, Repr

/-- `FWDBUDGET_MAX_FWD_ROLE`. -/
def NodeRole.maxFwd : NodeRole → UInt16
  | .repeater => 60
  | .gateway => 60
  | .client => 20
  | .sim => fwdbudgetMaxFwd

/-- `FWDBUDGET_MAX_AIR_US_ROLE`. -/
def NodeRole.maxAirUs : NodeRole → UInt32
  | .sim => 0xFFFFFFFF
  | _ => fwdbudgetMaxAirUs

/-- `forward_budget_t`. -/
structure ForwardBudget where
  windowStartMs : UInt32
  fwdCount : Vector UInt16 8
  fwdAirUs : Vector UInt32 8
  maxFwdCount : UInt16
  maxAirUs : UInt32
  hourWindowStartMs : UInt32
  hourTotalAirUs : UInt32
  maxHourAirUs : UInt32
  fwdDropCount : Vector UInt16 8
  totalFwdDrops : UInt32
  txOriginatedCount : Vector UInt16 8
  deriving DecidableEq, Repr

/-- `routing_fwdbudget_init`. -/
def routingFwdbudgetInit (role : NodeRole) : ForwardBudget where
  windowStartMs := 0
  fwdCount := Vector.replicate 8 0
  fwdAirUs := Vector.replicate 8 0
  maxFwdCount := role.maxFwd
  maxAirUs := role.maxAirUs
  hourWindowStartMs := 0
  hourTotalAirUs := 0
  maxHourAirUs := fwdbudgetMaxHourAirUs
  fwdDropCount := Vector.replicate 8 0
  totalFwdDrops := 0
  txOriginatedCount := Vector.replicate 8 0

/-- The per-minute half of `fwdbudget_roll_window`. -/
def rollMinute (fb : ForwardBudget) (nowMs : UInt32) : ForwardBudget :=
  if nowMs - fb.windowStartMs ≥ fwdbudgetWindowMs then
    { fb with
      fwdCount := Vector.replicate 8 0
      fwdAirUs := Vector.replicate 8 0
      fwdDropCount := Vector.replicate 8 0
      txOriginatedCount := Vector.replicate 8 0
      windowStartMs := nowMs }
  else fb

/-- The per-hour half of `fwdbudget_roll_window`. -/
def rollHour (fb : ForwardBudget) (nowMs : UInt32) : ForwardBudget :=
  if nowMs - fb.hourWindowStartMs ≥ fwdbudgetHourWindowMs then
    { fb with hourTotalAirUs := 0, hourWindowStartMs := nowMs }
  else fb

/-- `fwdbudget_roll_window`. -/
def fwdbudgetRollWindow (fb : ForwardBudget) (nowMs : UInt32) : ForwardBudget :=
  rollHour (rollMinute fb nowMs) nowMs

/-- `routing_fwdbudget_check` on a budget that is there: the verdict and the rolled budget. -/
def routingFwdbudgetCheck (fb : ForwardBudget) (pktType : UInt8) (toaUs nowMs : UInt32) :
    Bool × ForwardBudget :=
  -- a type without counters is not limited, and rolls no window
  if pktType ≥ fwdbudgetPktTypes then (true, fb)
  else
    let fb := fwdbudgetRollWindow fb nowMs
    if fb.fwdCount.getD pktType.toNat 0 ≥ fb.maxFwdCount then (false, fb)
    else if fb.fwdAirUs.getD pktType.toNat 0 + toaUs > fb.maxAirUs then (false, fb)
    -- the limit of the hour is on all types together
    else if fb.hourTotalAirUs + toaUs > fb.maxHourAirUs then (false, fb)
    else (true, fb)

/-- `routing_fwdbudget_record` on a budget that is there. -/
def routingFwdbudgetRecord (fb : ForwardBudget) (pktType : UInt8) (toaUs nowMs : UInt32) :
    ForwardBudget :=
  if pktType ≥ fwdbudgetPktTypes then fb
  else
    let fb := fwdbudgetRollWindow fb nowMs
    { fb with
      fwdCount := fb.fwdCount.setIfInBounds pktType.toNat (fb.fwdCount.getD pktType.toNat 0 + 1)
      fwdAirUs := fb.fwdAirUs.setIfInBounds pktType.toNat
        (fb.fwdAirUs.getD pktType.toNat 0 + toaUs)
      hourTotalAirUs := fb.hourTotalAirUs + toaUs }

/-- What `routing_flood_forward` counts when the budget refuses a frame. -/
def countFwdDrop (fb : ForwardBudget) (pktType : UInt8) : ForwardBudget :=
  { fb with
    fwdDropCount :=
      if pktType < fwdbudgetPktTypes then
        fb.fwdDropCount.setIfInBounds pktType.toNat (fb.fwdDropCount.getD pktType.toNat 0 + 1)
      else fb.fwdDropCount
    totalFwdDrops := fb.totalFwdDrops + 1 }

/-- `routing_fwdbudget_adapt` with the adaptive feature built in. -/
def routingFwdbudgetAdapt (role : NodeRole) (fb : ForwardBudget) (fabricScore dcPct : UInt8) :
    ForwardBudget :=
  let load := if fabricScore > dcPct then fabricScore else dcPct
  let newCap :=
    if load < 40 then role.maxFwd
    else if load < 70 then role.maxFwd / 2
    else role.maxFwd / 4
  -- four frames a minute are always left
  { fb with maxFwdCount := if newCap < 4 then 4 else newCap }

/-! ### Flood forwarding -/

/-- `rivr_fwd_result_t`. -/
inductive RivrFwdResult where
  | forward | dropDedupe | dropTtl | dropBudget | dropLoop
  deriving DecidableEq, Repr

/-- The header of a relayed copy. -/
def relayHdr (pkt : RivrPktHdr) : RivrPktHdr :=
  { pkt with ttl := pkt.ttl - 1, hop := pkt.hop + 1, flags := pkt.flags ||| pktFlagRelay }

/-- What `routing_flood_forward` returns, and what it leaves behind its pointers. -/
structure FloodOutcome where
  result : RivrFwdResult
  cache : DedupeCache
  fb : Option ForwardBudget
  pkt : RivrPktHdr

/-- Step 4 of `routing_flood_forward`: the budget's verdict, `true` for a NULL budget. -/
def floodBudget (fb : Option ForwardBudget) (pktType : UInt8) (toaUs nowMs : UInt32) :
    Bool × Option ForwardBudget :=
  match fb with
  | none => (true, none)
  | some b =>
    if (routingFwdbudgetCheck b pktType toaUs nowMs).1 then
      (true, some (routingFwdbudgetCheck b pktType toaUs nowMs).2)
    else (false, some (countFwdDrop (routingFwdbudgetCheck b pktType toaUs nowMs).2 pktType))

/-- `routing_flood_forward`. -/
def routingFloodForward (cache : DedupeCache) (fb : Option ForwardBudget) (pkt : RivrPktHdr)
    (toaUs nowMs : UInt32) : FloodOutcome :=
  let (new, cache') := routingDedupeCheck cache pkt.srcId pkt.pktId nowMs
  if !new then ⟨.dropDedupe, cache', fb, pkt⟩
  -- the frame is in the cache by now, so its next copy counts as a duplicate
  else if pkt.ttl = 0 then ⟨.dropTtl, cache', fb, pkt⟩
  else if pkt.hop ≥ rivrPktDefaultTtl then ⟨.dropTtl, cache', fb, pkt⟩
  else
    let (within, fb') := floodBudget fb pkt.pktType toaUs nowMs
    if !within then ⟨.dropBudget, cache', fb', pkt⟩
    else
      ⟨.forward, cache', fb'.map fun b => routingFwdbudgetRecord b pkt.pktType toaUs nowMs,
        relayHdr pkt⟩

/-- Whatever is decided, the cache is the one the dedupe check leaves. -/
@[simp]
theorem routingFloodForward_cache (cache : DedupeCache) (fb : Option ForwardBudget)
    (pkt : RivrPktHdr) (toaUs nowMs : UInt32) :
    (routingFloodForward cache fb pkt toaUs nowMs).cache =
      (routingDedupeCheck cache pkt.srcId pkt.pktId nowMs).2 := by
  unfold routingFloodForward
  dsimp only
  split_ifs <;> rfl

/-- What a FORWARD decision says about the frame: it was new, it had hops left in both
counters, and the header left behind is the relayed one. -/
theorem of_routingFloodForward_forward {cache : DedupeCache} {fb : Option ForwardBudget}
    {pkt : RivrPktHdr} {toaUs nowMs : UInt32}
    (h : (routingFloodForward cache fb pkt toaUs nowMs).result = .forward) :
    (routingDedupeCheck cache pkt.srcId pkt.pktId nowMs).1 = true ∧ pkt.ttl ≠ 0 ∧
      pkt.hop < rivrPktDefaultTtl ∧
      (routingFloodForward cache fb pkt toaUs nowMs).pkt = relayHdr pkt := by
  unfold routingFloodForward at h ⊢
  dsimp only at h ⊢
  split_ifs at h ⊢ with hnew httl hhop hbudget
  exact ⟨by simpa using hnew, httl, UInt8.not_le.mp hhop, rfl⟩

/-- When the decision is FORWARD. -/
theorem routingFloodForward_eq_forward_iff {cache : DedupeCache} {fb : Option ForwardBudget}
    {pkt : RivrPktHdr} {toaUs nowMs : UInt32} :
    (routingFloodForward cache fb pkt toaUs nowMs).result = .forward ↔
      (routingDedupeCheck cache pkt.srcId pkt.pktId nowMs).1 = true ∧ pkt.ttl ≠ 0 ∧
        pkt.hop < rivrPktDefaultTtl ∧ (floodBudget fb pkt.pktType toaUs nowMs).1 = true := by
  rw [routingFloodForward]
  dsimp only
  split_ifs with hnew httl hhop hbudget
  all_goals simp_all

/-- A frame that is not forwarded keeps its header. -/
theorem routingFloodForward_pkt_of_ne {cache : DedupeCache} {fb : Option ForwardBudget}
    {pkt : RivrPktHdr} {toaUs nowMs : UInt32}
    (h : (routingFloodForward cache fb pkt toaUs nowMs).result ≠ .forward) :
    (routingFloodForward cache fb pkt toaUs nowMs).pkt = pkt := by
  unfold routingFloodForward at h ⊢
  dsimp only at h ⊢
  split_ifs at h ⊢ <;> first | rfl | exact absurd rfl h

/-- The TTL of a relayed copy is exactly one less. -/
theorem relayHdr_ttl_toNat {pkt : RivrPktHdr} (h : pkt.ttl ≠ 0) :
    (relayHdr pkt).ttl.toNat + 1 = pkt.ttl.toNat := by
  have h₀ : pkt.ttl.toNat ≠ 0 := fun h' => h (UInt8.toNat_inj.mp h')
  have hlt := pkt.ttl.toNat_lt
  simp only [relayHdr, UInt8.toNat_sub, UInt8.reduceToNat]
  omega

/-- The hop count of a relayed copy is exactly one more. -/
theorem relayHdr_hop_toNat {pkt : RivrPktHdr} (h : pkt.hop < rivrPktDefaultTtl) :
    (relayHdr pkt).hop.toNat = pkt.hop.toNat + 1 := by
  have hlt : pkt.hop.toNat < 15 := h
  simp only [relayHdr, UInt8.toNat_add, UInt8.reduceToNat]
  omega

end Rivr
