import Rivr.Firmware.Reception
import Rivr.ForMathlib.RingLog
import Rivr.ForMathlib.Runs

/-!
# The packet bus

`firmware_core/rivr_bus`: the filter in front of the receive path, for frames that reach a node over
more than one transport. Its cache remembers the keys of the last 64 frames it let through, but
neither the transport they came over nor the time. So it also rejects what only the dedupe cache
should judge: a copy heard over the same transport again, and a key that comes back after its
expiry. `bus_agrees_iff` says exactly in which sequences of frames this does not happen.
-/

namespace Rivr

open RingLog Runs

/-! ### Transports -/

/-- `rivr_iface_t`. -/
inductive RivrIface
  | lora | ble | usb | wifi | loc
  deriving DecidableEq, Repr

/-- `rivr_iface_mask_t`: the transports a frame is mirrored to. -/
abbrev RivrIfaceMask := List RivrIface

/-- `rivr_dispatch_is_app_relevant`. -/
def rivrDispatchIsAppRelevant (pktType : UInt8) : Bool :=
  pktType = pktChat ∨ pktType = pktBeacon ∨ pktType = pktData ∨ pktType = pktTelemetry ∨
    pktType = pktMailbox ∨ pktType = pktAlert

/-- `rivr_dispatch_select`. -/
def rivrDispatchSelect (pktType : UInt8) (source : RivrIface) : RivrIfaceMask :=
  match source with
  | .lora | .wifi => if rivrDispatchIsAppRelevant pktType then [.ble, .usb] else []
  | .ble => if rivrDispatchIsAppRelevant pktType then [.usb] else []
  | .usb => if rivrDispatchIsAppRelevant pktType then [.ble] else []
  | .loc => [.lora, .ble, .usb]

/-- A frame is never sent back over the transport it came over. -/
theorem not_mem_rivrDispatchSelect (pktType : UInt8) (source : RivrIface) :
    source ∉ rivrDispatchSelect pktType source := by
  cases source <;> rw [rivrDispatchSelect] <;> first | decide | (split_ifs <;> decide)

/-! ### The cache -/

def rivrBusDupCacheSize : ℕ := 64

/-- `rivr_bus_dup_cache_t`; an entry is the source id and the packet id, and an empty one has a
source id of zero. -/
structure RivrBusDupCache where
  entries : List WireKey
  head : UInt8
  length_entries : entries.length = rivrBusDupCacheSize

/-- The cache after `rivr_bus_init`. -/
def rivrBusInit : RivrBusDupCache where
  entries := List.replicate rivrBusDupCacheSize (0, 0)
  head := 0
  length_entries := List.length_replicate

/-- `rivr_bus_dup_cache_seen`. -/
def rivrBusDupCacheSeen (cache : RivrBusDupCache) (key : WireKey) : Bool :=
  key.1 ≠ 0 ∧ key ∈ cache.entries

/-- `rivr_bus_dup_cache_add`. -/
def rivrBusDupCacheAdd (cache : RivrBusDupCache) (key : WireKey) : RivrBusDupCache :=
  let slot := cache.head &&& 63
  { entries := cache.entries.set slot.toNat key
    head := (slot + 1) &&& 63
    length_entries := by simp [cache.length_entries] }

/-- What the bus decides about a frame. -/
inductive BusVerdict
  | invalid | duplicate | accept (targets : RivrIfaceMask)
  deriving DecidableEq, Repr

/-- `rivr_bus_receive` returns `true`. -/
def BusVerdict.passes : BusVerdict → Bool
  | .accept _ => true
  | _ => false

/-- The length check and the header decode of `rivr_bus_receive`: the key of a valid frame, and its
type. -/
def busKey (data : List UInt8) : Option (WireKey × UInt8) :=
  if data.length < rivrPktMinFrame.toNat ∨ data.length > rfMaxPayloadLen.toNat then none
  else
    (protocolDecode data (UInt8.ofNat data.length)).map fun x =>
      ((x.1.srcId, x.1.pktId), x.1.pktType)

/-- `rivr_bus_receive`: the verdict, and the cache it leaves. -/
def rivrBusReceive (cache : RivrBusDupCache) (data : List UInt8) (iface : RivrIface) :
    BusVerdict × RivrBusDupCache :=
  match busKey data with
  | none => (.invalid, cache)
  | some (key, pktType) =>
    if rivrBusDupCacheSeen cache key then (.duplicate, cache)
    else (.accept (rivrDispatchSelect pktType iface), rivrBusDupCacheAdd cache key)

/-- Of a frame that the bus rejects, the receive path keeps nothing. -/
theorem rfRxFrame_of_bus_rejects {cfg : BuildConfig} (node : RadioNode cfg) {env : RxVerdicts}
    (hbus : env.busAccepts = false) (frame : RfRxFrame) (nowMs : UInt32) :
    rfRxFrame node env frame nowMs = (node, []) := by
  rw [rfRxFrame]
  split
  · rfl
  · simp [hbus]

/-! ### Histories of the bus -/

/-- A frame that the bus let through. -/
structure BusReceipt where
  key : WireKey
  iface : RivrIface
  atMs : ℕ
  deriving DecidableEq, Repr

/-- A frame for the bus, some time after the one before. -/
structure BusFrame where
  data : List UInt8
  iface : RivrIface
  afterMs : ℕ

/-- The cache, the time, and what the bus let through, newest first. -/
structure BusLog where
  cache : RivrBusDupCache
  nowMs : ℕ
  accepted : List BusReceipt

def BusLog.init : BusLog := ⟨rivrBusInit, 0, []⟩

/-- When the frame is received. -/
def BusLog.timeOf (l : BusLog) (f : BusFrame) : ℕ := l.nowMs + f.afterMs

/-- The verdict on the frame. -/
def BusLog.verdict (l : BusLog) (f : BusFrame) : BusVerdict :=
  (rivrBusReceive l.cache f.data f.iface).1

/-- One frame. -/
def BusLog.receive (l : BusLog) (f : BusFrame) : BusLog where
  cache := (rivrBusReceive l.cache f.data f.iface).2
  nowMs := l.timeOf f
  accepted := match l.verdict f, busKey f.data with
    | .accept _, some (key, _) => ⟨key, f.iface, l.timeOf f⟩ :: l.accepted
    | _, _ => l.accepted

/-- A copy was let through over another transport, within the expiry time of the dedupe cache. -/
def BusLog.CrossTransport (l : BusLog) (f : BusFrame) (key : WireKey) : Prop :=
  ∃ r ∈ l.accepted, r.key = key ∧ r.iface ≠ f.iface ∧
    l.timeOf f - r.atMs ≤ dedupeExpiryMs.toNat

instance BusLog.decidableCrossTransport (l : BusLog) (f : BusFrame) (key : WireKey) :
    Decidable (l.CrossTransport f key) := inferInstanceAs (Decidable (∃ r ∈ _, _))

/-- The bus does with the frame what the dedupe cache behind it needs. -/
structure BusLog.Agrees (l : BusLog) (f : BusFrame) : Prop where
  /-- Only copies from another transport are duplicates. -/
  duplicate : l.verdict f = .duplicate →
    ∃ key pktType, busKey f.data = some (key, pktType) ∧ l.CrossTransport f key
  /-- What was heard over LoRa only is for the dedupe cache to judge. -/
  sameTransport : ∀ key pktType, busKey f.data = some (key, pktType) → f.iface = .lora →
    (∀ r ∈ l.accepted, r.key = key → r.iface = .lora) → (l.verdict f).passes = true
  /-- A key comes back after its expiry. -/
  expired : ∀ key pktType, busKey f.data = some (key, pktType) →
    (∀ r ∈ l.accepted, r.key = key → dedupeExpiryMs.toNat < l.timeOf f - r.atMs) →
      (l.verdict f).passes = true

/-- The key of the frame is among the last 64 that the bus let through, but no copy came over
another transport within the expiry time. -/
def BusLog.StaleCopy (l : BusLog) (f : BusFrame) : Prop :=
  ∃ key pktType, busKey f.data = some (key, pktType) ∧ key.1 ≠ 0 ∧
    (∃ r ∈ l.accepted.take rivrBusDupCacheSize, r.key = key) ∧ ¬l.CrossTransport f key

/-! ### The cache and the history -/

/-- The cache holds the keys of the last frames let through. -/
def BusLog.Remembers (l : BusLog) : Prop :=
  Holds (0, 0) (l.accepted.map BusReceipt.key) l.cache.entries l.cache.head.toNat

theorem and_63_toNat (x : UInt8) : (x &&& 63).toNat = x.toNat % 64 := by
  have hand : ∀ n : ℕ, n &&& 63 = n % 64 := fun n => Nat.and_two_pow_sub_one_eq_mod n 6
  simp only [UInt8.toNat_and, UInt8.reduceToNat, hand]

theorem remembers_init : BusLog.init.Remembers := holds_replicate (by decide)

/-! ### The cache and the history, by one frame -/

variable {l : BusLog} {f : BusFrame} {key : WireKey} {pktType : UInt8}

theorem BusLog.verdict_of_busKey (hkey : busKey f.data = some (key, pktType)) :
    l.verdict f = if rivrBusDupCacheSeen l.cache key then .duplicate
      else .accept (rivrDispatchSelect pktType f.iface) := by
  simp only [BusLog.verdict, rivrBusReceive, hkey]
  split <;> rfl

/-- A frame that is let through is remembered, and nothing else is. -/
theorem BusLog.Remembers.receive (h : l.Remembers) (f : BusFrame) : (l.receive f).Remembers := by
  rcases hkey : busKey f.data with _ | ⟨key, pktType⟩
  · have hsame : l.receive f = { l with nowMs := l.timeOf f } := by
      simp only [BusLog.receive, BusLog.verdict, rivrBusReceive, hkey]
    rw [hsame]
    exact h
  · by_cases hseen : rivrBusDupCacheSeen l.cache key
    · have hsame : l.receive f = { l with nowMs := l.timeOf f } := by
        simp only [BusLog.receive, BusLog.verdict, rivrBusReceive, hkey, hseen, if_true]
      rw [hsame]
      exact h
    · have hpush : l.receive f =
          ⟨rivrBusDupCacheAdd l.cache key, l.timeOf f, ⟨key, f.iface, l.timeOf f⟩ :: l.accepted⟩ := by
        simp only [BusLog.receive, BusLog.verdict, rivrBusReceive, hkey, hseen]
        rfl
      have hlen : l.cache.entries.length = 64 := l.cache.length_entries
      have hhead : l.cache.head.toNat < 64 := hlen ▸ h.head_lt
      have hslot : (l.cache.head &&& 63).toNat = l.cache.head.toNat := by
        rw [and_63_toNat, Nat.mod_eq_of_lt hhead]
      have hnext : (rivrBusDupCacheAdd l.cache key).head.toNat = (l.cache.head.toNat + 1) % 64 := by
        rw [rivrBusDupCacheAdd, and_63_toNat, UInt8.toNat_add, hslot]
        change (l.cache.head.toNat + 1) % 256 % 64 = _
        rw [Nat.mod_eq_of_lt (by omega : l.cache.head.toNat + 1 < 256)]
      have hring := Holds.push h key
      rw [hlen, ← hnext, ← hslot] at hring
      rw [hpush]
      exact hring

/-- What the cache has seen is among the last 64 keys let through. -/
theorem BusLog.Remembers.seen_iff (h : l.Remembers) (key : WireKey) :
    rivrBusDupCacheSeen l.cache key ↔
      key.1 ≠ 0 ∧ ∃ r ∈ l.accepted.take rivrBusDupCacheSize, r.key = key := by
  rw [rivrBusDupCacheSeen, decide_eq_true_iff]
  refine and_congr_right fun hsrc => ?_
  have hne : key ≠ (0, 0) := fun heq => hsrc (congrArg Prod.fst heq)
  rw [h.mem_iff hne, l.cache.length_entries, ← List.map_take, List.mem_map]

/-- **Agreement on one frame.** -/
theorem BusLog.Remembers.agrees_iff (h : l.Remembers) (f : BusFrame) :
    l.Agrees f ↔ ¬l.StaleCopy f := by
  constructor
  · rintro hagrees ⟨key, pktType, hkey, hsrc, hlast, hcross⟩
    have hdup : l.verdict f = .duplicate := by
      rw [BusLog.verdict_of_busKey hkey, if_pos ((h.seen_iff key).mpr ⟨hsrc, hlast⟩)]
    obtain ⟨key', pktType', hkey', hcross'⟩ := hagrees.duplicate hdup
    obtain ⟨rfl, -⟩ := Prod.mk.inj (Option.some.inj (hkey'.symm.trans hkey))
    exact hcross hcross'
  · intro hstale
    -- a valid frame without a copy over another transport has not been seen
    have hpass : ∀ key pktType, busKey f.data = some (key, pktType) →
        ¬l.CrossTransport f key → (l.verdict f).passes = true := by
      intro key pktType hkey hcross
      have hseen : ¬rivrBusDupCacheSeen l.cache key := by
        intro hseen
        obtain ⟨hsrc, hlast⟩ := (h.seen_iff key).mp hseen
        exact hstale ⟨key, pktType, hkey, hsrc, hlast, hcross⟩
      rw [BusLog.verdict_of_busKey hkey, if_neg hseen]
      rfl
    refine ⟨?_, ?_, ?_⟩
    · intro hdup
      rcases hkey : busKey f.data with _ | ⟨key, pktType⟩
      · rw [BusLog.verdict, rivrBusReceive, hkey] at hdup
        cases hdup
      · by_contra hnone
        have hpasses := hpass key pktType hkey fun hcross => hnone ⟨key, pktType, rfl, hcross⟩
        rw [hdup] at hpasses
        cases hpasses
    · intro key pktType hkey hlora hsame
      refine hpass key pktType hkey ?_
      rintro ⟨r, hr, hrkey, hiface, -⟩
      exact hiface ((hsame r hr hrkey).trans hlora.symm)
    · intro key pktType hkey hold
      refine hpass key pktType hkey ?_
      rintro ⟨r, hr, hrkey, -, hrecent⟩
      exact absurd (hold r hr hrkey) (Nat.not_lt.mpr hrecent)

theorem allows_agrees_iff (frames : List BusFrame) :
    ∀ {l : BusLog}, l.Remembers →
      (Allows BusLog.receive BusLog.Agrees l frames ↔
        Allows BusLog.receive (fun l f => ¬l.StaleCopy f) l frames) := by
  induction frames with
  | nil => exact fun _ => Iff.rfl
  | cons f frames ih =>
    intro l h
    exact and_congr (h.agrees_iff f) (ih (h.receive f))

/-- **Agreement of the two duplicate filters.** Over any sequence of frames the bus does what the
dedupe cache needs if and only if none of the frames is a stale copy. -/
theorem bus_agrees_iff (frames : List BusFrame) :
    Allows BusLog.receive BusLog.Agrees .init frames ↔
      Allows BusLog.receive (fun l f => ¬l.StaleCopy f) .init frames :=
  allows_agrees_iff frames remembers_init

/-! ### A copy over the same transport -/

/-- A chat frame heard over LoRa, 100 ms after the frame before. -/
def loraChat : BusFrame where
  data := (protocolEncode sampleChatHdr none 0 [] rfMaxPayloadLen).getD []
  iface := .lora
  afterMs := 100

/-- **A copy over the same transport.** The bus rejects the second copy of a chat frame that was
heard over LoRa only. -/
theorem not_bus_agrees :
    ¬∀ frames : List BusFrame, Allows BusLog.receive BusLog.Agrees .init frames := by
  intro hall
  obtain ⟨-, hsecond, -⟩ := hall [loraChat, loraChat]
  have hkey : busKey loraChat.data = some ((0xA1, 0x0405), pktChat) := by decide +kernel
  have hpasses := hsecond.sameTransport _ _ hkey rfl (by decide +kernel)
  exact absurd hpasses (by decide +kernel)

end Rivr
