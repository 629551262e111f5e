import Mathlib.Data.Fin.Basic
import Mathlib.Data.Fintype.Card
import Mathlib.Data.Fintype.Option
import Rivr.ForMathlib.Interleave

/-!
# Fragments on the BLE link

`firmware_core/ble/rivr_ble_frag.c`: frames that are longer than a packet of the link are sent in
fragments, and put together again in a few slots. A write past the buffer of a slot is modelled as
the end of the run (`none`).

What a sender hands over, fed to a receiver. While as many messages as there are slots are under
way, in any interleaving, each of them has a slot of its own that holds what was sent of it
(`RxInv`), so the last fragment of each completes it. Whatever the packets, no slot holds more than
its message, and no write goes past a buffer (`exists_run_rivrBleFragIngest`).
-/

open Interleave

namespace Rivr

/-! ### The receiver -/

/-- `RF_MAX_PAYLOAD_LEN`, as a length. -/
abbrev fragMaxLen : ℕ := 255

/-- `RIVR_BLE_FRAG_HDR_LEN`. -/
abbrev rivrBleFragHdrLen : ℕ := 6

/-- `RIVR_BLE_FRAG_RX_SLOTS`. -/
abbrev rivrBleFragRxSlots : ℕ := 4

def rivrBleFragMagic0 : UInt8 := 0x52
def rivrBleFragMagic1 : UInt8 := 0x42
def rivrBleFragVersion : UInt8 := 0x01

/-- `rivr_ble_frag_rx_slot_t`. -/
structure FragSlot where
  active : Bool
  msgId : UInt8
  totalLen : UInt8
  receivedLen : UInt8
  data : Vector UInt8 fragMaxLen
  deriving DecidableEq, Repr

/-- `rivr_ble_frag_rx_t`. -/
structure FragRx where
  nextSlot : Fin rivrBleFragRxSlots
  slots : Vector FragSlot rivrBleFragRxSlots
  deriving DecidableEq, Repr

/-- `rivr_ble_frag_rx_result_t`, with the payload handed out. -/
inductive FragRxResult
  | passthrough (payload : List UInt8)
  | incomplete
  | complete (payload : List UInt8)
  | invalid
  deriving DecidableEq, Repr

/-- `rivr_ble_frag_drop_slot`; the bytes stay. -/
def FragSlot.drop (slot : FragSlot) : FragSlot :=
  { slot with active := false, msgId := 0, totalLen := 0, receivedLen := 0 }

/-- `rivr_ble_frag_start_slot`. -/
def FragSlot.start (slot : FragSlot) (msgId totalLen : UInt8) : FragSlot :=
  { slot with active := true, msgId := msgId, totalLen := totalLen, receivedLen := 0 }

/-- `rivr_ble_frag_reset`. -/
def rivrBleFragReset (rx : FragRx) : FragRx := ⟨0, rx.slots.map FragSlot.drop⟩

/-- `rivr_ble_frag_is_packet`. -/
def rivrBleFragIsPacket (packet : List UInt8) : Bool :=
  rivrBleFragHdrLen ≤ packet.length && packet.getD 0 0 == rivrBleFragMagic0 &&
    packet.getD 1 0 == rivrBleFragMagic1 && packet.getD 2 0 == rivrBleFragVersion

/-- `rivr_ble_frag_find_slot`. -/
def FragRx.findSlot (rx : FragRx) (msgId : UInt8) : Option (Fin rivrBleFragRxSlots) :=
  (List.finRange rivrBleFragRxSlots).find? fun i =>
    rx.slots[i].active && rx.slots[i].msgId == msgId

/-- `rivr_ble_frag_alloc_slot`: a free slot, or the next one in turn. -/
def FragRx.allocSlot (rx : FragRx) : Fin rivrBleFragRxSlots × FragRx :=
  match (List.finRange rivrBleFragRxSlots).find? fun i => !rx.slots[i].active with
  | some i => (i, rx)
  | none => (rx.nextSlot, { rx with nextSlot := rx.nextSlot + 1 })

/-- Writing a slot. -/
def FragRx.setSlot (rx : FragRx) (i : Fin rivrBleFragRxSlots) (slot : FragSlot) : FragRx :=
  { rx with slots := rx.slots.set i slot }

/-- `memcpy(&data[offset], bytes, n)`. -/
def writeBytes (data : Vector UInt8 fragMaxLen) (offset : ℕ) (bytes : List UInt8) :
    Option (Vector UInt8 fragMaxLen) :=
  if offset + bytes.length ≤ fragMaxLen then
    some (Vector.ofFn fun j => if j < offset then data[j] else bytes.getD (j - offset) data[j])
  else none

/-- The last part of `rivr_ble_frag_ingest`: the fragment goes into its slot. -/
def FragRx.accept (rx : FragRx) (i : Fin rivrBleFragRxSlots) (offset : UInt8) (frag : List UInt8) :
    Option (FragRxResult × FragRx) :=
  let slot := rx.slots[i]
  -- fragments are only taken in their order
  if offset ≠ slot.receivedLen then some (.invalid, rx.setSlot i slot.drop)
  else
    match writeBytes slot.data offset.toNat frag with
    | none => none
    | some data =>
      let slot := { slot with data := data, receivedLen := UInt8.ofNat (offset.toNat + frag.length) }
      if slot.receivedLen < slot.totalLen then some (.incomplete, rx.setSlot i slot)
      else some (.complete (slot.data.toList.take slot.totalLen.toNat), rx.setSlot i slot.drop)

/-- The part of `rivr_ble_frag_ingest` that finds the slot of a valid fragment, or gives it one. -/
def FragRx.place (rx : FragRx) (msgId offset totalLen : UInt8) (frag : List UInt8) :
    Option (FragRxResult × FragRx) :=
  match rx.findSlot msgId with
  | none =>
    -- a message starts with its first fragment
    if offset ≠ 0 then some (.invalid, rx)
    else
      let (i, rx) := rx.allocSlot
      (rx.setSlot i (rx.slots[i].start msgId totalLen)).accept i offset frag
  | some i =>
    -- a first fragment starts the message again
    if offset = 0 then (rx.setSlot i (rx.slots[i].start msgId totalLen)).accept i offset frag
    else if rx.slots[i].totalLen ≠ totalLen then some (.invalid, rx.setSlot i rx.slots[i].drop)
    else rx.accept i offset frag

/-- `rivr_ble_frag_ingest`. -/
def rivrBleFragIngest (rx : FragRx) (packet : List UInt8) : Option (FragRxResult × FragRx) :=
  if packet.length = 0 then some (.invalid, rx)
  else if !rivrBleFragIsPacket packet then some (.passthrough packet, rx)
  else
    let msgId := packet.getD 3 0
    let offset := packet.getD 4 0
    let totalLen := packet.getD 5 0
    let frag := packet.drop rivrBleFragHdrLen
    if totalLen = 0 then some (.invalid, rx)
    else if frag.length = 0 ∨ offset ≥ totalLen then some (.invalid, rx)
    else if offset.toNat + frag.length > totalLen.toNat then some (.invalid, rx)
    else rx.place msgId offset totalLen frag

/-! ### The sender -/

/-- The counter of the messages after the next one, and the identifier of that. -/
def nextFragId : Option UInt8 → UInt8 × Option UInt8
  | none => (1, none)
  | some id => if id + 1 = 0 then (1, some 1) else (id + 1, some (id + 1))

/-- The packet of the fragment at an offset. -/
def fragPacket (payload : List UInt8) (fragLen : ℕ) (msgId : UInt8) (offset : ℕ) : List UInt8 :=
  [rivrBleFragMagic0, rivrBleFragMagic1, rivrBleFragVersion, msgId, UInt8.ofNat offset,
    UInt8.ofNat payload.length] ++ (payload.drop offset).take fragLen

/-- The loop of `rivr_ble_frag_send`, with fuel for its turns: whether every packet was taken, and
the packets that were handed over. -/
def fragLoop (emit : List UInt8 → Bool) (payload : List UInt8) (fragLen : ℕ) (msgId : UInt8) :
    ℕ → ℕ → Bool × List (List UInt8)
  | 0, _ => (true, [])
  | fuel + 1, offset =>
    if offset < payload.length then
      let packet := fragPacket payload fragLen msgId offset
      -- the rest is not sent once a packet was refused
      if !emit packet then (false, [packet])
      else
        let (ok, packets) := fragLoop emit payload fragLen msgId fuel (offset + fragLen)
        (ok, packet :: packets)
    else (true, [])

/-- `rivr_ble_frag_send`: whether it succeeds, the counter of the messages, and the packets that
were handed to `emit`. -/
def rivrBleFragSend (payload : List UInt8) (linkPayloadLimit : ℕ) (nextMsgId : Option UInt8)
    (emit : List UInt8 → Bool) : Bool × Option UInt8 × List (List UInt8) :=
  if payload.length = 0 ∨ fragMaxLen < payload.length then (false, nextMsgId, [])
  else if linkPayloadLimit = 0 then (false, nextMsgId, [])
  else if payload.length ≤ linkPayloadLimit then (emit payload, nextMsgId, [payload])
  -- no room for a byte behind the header
  else if linkPayloadLimit ≤ rivrBleFragHdrLen then (false, nextMsgId, [])
  else
    let (msgId, nextMsgId) := nextFragId nextMsgId
    let (ok, packets) := fragLoop emit payload (linkPayloadLimit - rivrBleFragHdrLen) msgId
      payload.length 0
    (ok, nextMsgId, packets)

/-! ### Any packets -/

theorem FragRx.getElem_setSlot (rx : FragRx) (i j : Fin rivrBleFragRxSlots) (slot : FragSlot) :
    (rx.setSlot i slot).slots[j] = if j = i then slot else rx.slots[j] := by
  simp only [setSlot, Fin.getElem_fin, Vector.getElem_set, Fin.ext_iff, eq_comm]

/-- No slot holds more than its message. -/
def FragRx.Bounded (rx : FragRx) : Prop :=
  ∀ i : Fin rivrBleFragRxSlots, rx.slots[i].receivedLen ≤ rx.slots[i].totalLen

theorem bounded_rivrBleFragReset (rx : FragRx) : (rivrBleFragReset rx).Bounded := by
  intro i
  have hslot : (rivrBleFragReset rx).slots[i] = rx.slots[i].drop := Vector.getElem_map _ i.isLt
  rw [hslot]
  exact UInt8.le_refl 0

variable {rx : FragRx} {i : Fin rivrBleFragRxSlots}

theorem FragRx.Bounded.setSlot (h : rx.Bounded) {slot : FragSlot}
    (hslot : slot.receivedLen ≤ slot.totalLen) : (rx.setSlot i slot).Bounded := by
  intro j
  rw [getElem_setSlot]
  split_ifs
  · exact hslot
  · exact h j

theorem FragRx.Bounded.dropSlot (h : rx.Bounded) (slot : FragSlot) :
    (rx.setSlot i slot.drop).Bounded := h.setSlot (UInt8.le_refl 0)

/-- A fragment that its message has room for stays in the buffer of the slot. -/
theorem FragRx.Bounded.accept (h : rx.Bounded) {offset : UInt8} {frag : List UInt8}
    (hfrag : offset.toNat + frag.length ≤ rx.slots[i].totalLen.toNat) :
    ∃ b rx', rx.accept i offset frag = some (b, rx') ∧ rx'.Bounded := by
  have htotal : rx.slots[i].totalLen.toNat < 256 := rx.slots[i].totalLen.toNat_lt
  rw [FragRx.accept]
  by_cases hoffset : offset ≠ rx.slots[i].receivedLen
  · exact ⟨_, _, if_pos hoffset, h.dropSlot _⟩
  · have hroom : offset.toNat + frag.length ≤ fragMaxLen := by
      rw [fragMaxLen]
      omega
    simp only [if_neg hoffset, writeBytes, if_pos hroom]
    split_ifs with hlt
    · refine ⟨_, _, rfl, h.setSlot ?_⟩
      exact UInt8.le_of_lt hlt
    · exact ⟨_, _, rfl, h.dropSlot _⟩

theorem FragRx.Bounded.allocSlot (h : rx.Bounded) : rx.allocSlot.2.Bounded := by
  rw [FragRx.allocSlot]
  split
  · exact h
  · exact h

theorem FragRx.Bounded.start (h : rx.Bounded) (i : Fin rivrBleFragRxSlots) (msgId : UInt8)
    {totalLen offset : UInt8} {frag : List UInt8}
    (hfrag : offset.toNat + frag.length ≤ totalLen.toNat) :
    ∃ b rx', (rx.setSlot i (rx.slots[i].start msgId totalLen)).accept i offset frag =
      some (b, rx') ∧ rx'.Bounded := by
  refine (h.setSlot ?_).accept ?_
  · exact UInt8.zero_le
  · rw [getElem_setSlot, if_pos rfl]
    exact hfrag

theorem FragRx.Bounded.place (h : rx.Bounded) (msgId : UInt8) {offset totalLen : UInt8}
    {frag : List UInt8} (hfrag : offset.toNat + frag.length ≤ totalLen.toNat) :
    ∃ b rx', rx.place msgId offset totalLen frag = some (b, rx') ∧ rx'.Bounded := by
  rw [FragRx.place]
  cases rx.findSlot msgId with
  | none =>
    dsimp only
    split_ifs
    · exact ⟨_, _, rfl, h⟩
    · exact h.allocSlot.start _ _ hfrag
  | some i =>
    dsimp only
    split_ifs with hzero hdiffer
    · exact h.start _ _ hfrag
    · exact ⟨_, _, rfl, h.dropSlot _⟩
    · refine h.accept ?_
      rw [not_not.mp hdiffer]
      exact hfrag

/-- **A packet.** Whatever its bytes, it is answered, and every slot stays within its message. -/
theorem FragRx.Bounded.ingest (h : rx.Bounded) (packet : List UInt8) :
    ∃ b rx', rivrBleFragIngest rx packet = some (b, rx') ∧ rx'.Bounded := by
  rw [rivrBleFragIngest]
  dsimp only
  split_ifs with _ _ _ _ hlen
  · exact ⟨_, _, rfl, h⟩
  · exact ⟨_, _, rfl, h⟩
  · exact ⟨_, _, rfl, h⟩
  · exact ⟨_, _, rfl, h⟩
  · exact ⟨_, _, rfl, h⟩
  · exact h.place _ (Nat.le_of_not_lt hlen)

/-- **Any packets**, from a reset receiver. -/
theorem exists_run_rivrBleFragIngest (rx : FragRx) (packets : List (List UInt8)) :
    ∃ results rx', run rivrBleFragIngest (rivrBleFragReset rx) packets = some (results, rx') ∧
      rx'.Bounded :=
  exists_run (fun _ packet h => h.ingest packet) (bounded_rivrBleFragReset rx) packets

/-! ### Messages -/

/-- What a sender is given: a frame, the limit of a packet of the link, which holds more than the
header of a fragment, and the counter of its messages. A frame that is sent whole does not start
like a fragment. -/
structure FragMsg where
  payload : List UInt8
  limit : ℕ
  nextMsgId : Option UInt8
  length_pos : 0 < payload.length
  length_le : payload.length ≤ fragMaxLen
  hdrLen_lt : rivrBleFragHdrLen < limit
  plain : payload.length ≤ limit → ¬[rivrBleFragMagic0, rivrBleFragMagic1] <+: payload

namespace FragMsg

/-- The packets that are handed over. -/
def packets (m : FragMsg) : List (List UInt8) :=
  (rivrBleFragSend m.payload m.limit m.nextMsgId fun _ => true).2.2

/-- What a receiver is to answer. -/
def results (m : FragMsg) : List FragRxResult :=
  if m.payload.length ≤ m.limit then [.passthrough m.payload]
  else List.replicate (m.packets.length - 1) .incomplete ++ [.complete m.payload]

/-- The identifier of the message. -/
def msgId (m : FragMsg) : UInt8 := (nextFragId m.nextMsgId).1

/-- The length of a fragment. -/
def fragLen (m : FragMsg) : ℕ := m.limit - rivrBleFragHdrLen

/-- The fragments from an offset on, and what is to be answered to each. -/
def planFrom (m : FragMsg) : ℕ → ℕ → List (List UInt8 × FragRxResult)
  | 0, _ => []
  | fuel + 1, offset =>
    if offset < m.payload.length then
      (fragPacket m.payload m.fragLen m.msgId offset,
        if offset + m.fragLen < m.payload.length then .incomplete else .complete m.payload) ::
        m.planFrom fuel (offset + m.fragLen)
    else []

/-- The packets, and what is to be answered to each. -/
def plan (m : FragMsg) : List (List UInt8 × FragRxResult) :=
  if m.payload.length ≤ m.limit then [(m.payload, .passthrough m.payload)]
  else m.planFrom m.payload.length 0

variable (m : FragMsg)

theorem fragLen_pos : 0 < m.fragLen := Nat.sub_pos_of_lt m.hdrLen_lt

theorem planFrom_fst (fuel offset : ℕ) : (m.planFrom fuel offset).map Prod.fst =
    (fragLoop (fun _ => true) m.payload m.fragLen m.msgId fuel offset).2 := by
  induction fuel generalizing offset with
  | zero => rfl
  | succ fuel ih =>
    rw [planFrom, fragLoop]
    by_cases hoffset : offset < m.payload.length
    · rw [if_pos hoffset, if_pos hoffset, List.map_cons, ih]
      rfl
    · rw [if_neg hoffset, if_neg hoffset]
      rfl

theorem planFrom_of_le {fuel offset : ℕ} (h : m.payload.length ≤ offset) :
    m.planFrom fuel offset = [] := by
  cases fuel with
  | zero => rfl
  | succ fuel => rw [planFrom, if_neg (Nat.not_lt.mpr h)]

/-- Every fragment but the last is incomplete. -/
theorem planFrom_snd {fuel offset : ℕ} (h : offset < m.payload.length)
    (hfuel : m.payload.length ≤ offset + fuel) : (m.planFrom fuel offset).map Prod.snd =
      List.replicate ((m.planFrom fuel offset).length - 1) .incomplete ++ [.complete m.payload] := by
  induction fuel generalizing offset with
  | zero => omega
  | succ fuel ih =>
    have hpos := m.fragLen_pos
    rw [planFrom, if_pos h, List.map_cons, List.length_cons, Nat.add_sub_cancel]
    by_cases hnext : offset + m.fragLen < m.payload.length
    · have hrest := ih hnext (by omega)
      have hlen : (m.planFrom fuel (offset + m.fragLen)).length =
          (m.planFrom fuel (offset + m.fragLen)).length - 1 + 1 := by
        have := congrArg List.length hrest
        rw [List.length_map, List.length_append, List.length_replicate, List.length_singleton] at this
        exact this
      rw [if_pos hnext, hrest, hlen, List.replicate_succ, Nat.add_sub_cancel, List.cons_append]
    · rw [if_neg hnext, m.planFrom_of_le (Nat.le_of_not_lt hnext)]
      rfl

theorem plan_fst : m.plan.map Prod.fst = m.packets := by
  have hlen : ¬(m.payload.length = 0 ∨ fragMaxLen < m.payload.length) :=
    not_or.mpr ⟨m.length_pos.ne', Nat.not_lt.mpr m.length_le⟩
  have hzero : ¬m.limit = 0 := (Nat.zero_lt_of_lt m.hdrLen_lt).ne'
  rw [plan, packets, rivrBleFragSend, if_neg hlen, if_neg hzero]
  by_cases hfits : m.payload.length ≤ m.limit
  · rw [if_pos hfits, if_pos hfits]
    rfl
  · rw [if_neg hfits, if_neg hfits, if_neg (Nat.not_le.mpr m.hdrLen_lt), planFrom_fst]
    rfl

theorem plan_snd : m.plan.map Prod.snd = m.results := by
  rw [results, ← plan_fst, List.length_map, plan]
  split_ifs with hfits
  · rfl
  · exact m.planFrom_snd m.length_pos (by omega)

end FragMsg

/-! ### Slots -/

theorem toNat_ofNat_of_le {n : ℕ} (h : n ≤ fragMaxLen) : (UInt8.ofNat n).toNat = n :=
  UInt8.toNat_ofNat_of_lt' (Nat.lt_succ_of_le h)

/-- Bytes written behind the bytes that a buffer agrees with a list on. -/
theorem exists_writeBytes {data : Vector UInt8 fragMaxLen} {payload frag : List UInt8} {offset : ℕ}
    (hdata : data.toList.take offset = payload.take offset)
    (hfrag : frag <+: payload.drop offset) (hoffset : offset ≤ payload.length)
    (hlen : payload.length ≤ fragMaxLen) :
    ∃ data', writeBytes data offset frag = some data' ∧
      data'.toList.take (offset + frag.length) = payload.take (offset + frag.length) := by
  have hroom : offset + frag.length ≤ payload.length := by
    have := hfrag.length_le
    rw [List.length_drop] at this
    omega
  refine ⟨_, by rw [writeBytes, if_pos (hroom.trans hlen)], ?_⟩
  refine List.ext_getElem (by simp [hroom, hroom.trans hlen]) fun j hj hj' => ?_
  have hjlt : j < offset + frag.length := (List.length_take_le _ _).trans_lt' hj
  rw [List.getElem_take, List.getElem_take, Vector.getElem_toList, Vector.getElem_ofFn]
  dsimp only
  split_ifs with hbefore
  · have hj : j < (data.toList.take offset).length := by
      rw [List.length_take, Vector.length_toList]
      omega
    have hsame := List.getElem_of_eq hdata hj
    rwa [List.getElem_take, List.getElem_take, Vector.getElem_toList] at hsame
  · have hbehind : j - offset < frag.length := by omega
    rw [List.getD_eq_getElem?_getD, List.getElem?_eq_getElem hbehind, Option.getD_some,
      hfrag.getElem hbehind, List.getElem_drop]
    congr 1
    omega

/-- The slot holds what was sent of the message before the offset. -/
structure FragMsg.HeldBy (m : FragMsg) (offset : ℕ) (slot : FragSlot) : Prop where
  msgId : slot.msgId = m.msgId
  totalLen : slot.totalLen = UInt8.ofNat m.payload.length
  receivedLen : slot.receivedLen = UInt8.ofNat offset
  data : slot.data.toList.take offset = m.payload.take offset

/-- The next fragment of a message, in its slot. -/
theorem FragMsg.HeldBy.accept {m : FragMsg} {offset : ℕ} (h : m.HeldBy offset rx.slots[i])
    (hactive : rx.slots[i].active = true) (hoffset : offset < m.payload.length) :
    ∃ slot, rx.accept i (UInt8.ofNat offset) ((m.payload.drop offset).take m.fragLen) =
        some (if offset + m.fragLen < m.payload.length then .incomplete else .complete m.payload,
          rx.setSlot i slot) ∧
      (offset + m.fragLen < m.payload.length →
        slot.active = true ∧ m.HeldBy (offset + m.fragLen) slot) ∧
      (m.payload.length ≤ offset + m.fragLen → slot.active = false) := by
  have hle := m.length_le
  obtain ⟨data, hwrite, hdata⟩ := exists_writeBytes h.data
    (List.take_prefix m.fragLen (m.payload.drop offset)) hoffset.le hle
  rw [List.length_take, List.length_drop] at hdata
  have hreceived : (UInt8.ofNat (offset + min m.fragLen (m.payload.length - offset))).toNat =
      offset + min m.fragLen (m.payload.length - offset) := toNat_ofNat_of_le (by omega)
  have htotal := toNat_ofNat_of_le hle
  rw [FragRx.accept, if_neg (not_not.mpr h.receivedLen.symm),
    toNat_ofNat_of_le (hoffset.le.trans hle)]
  simp only [hwrite, h.totalLen, List.length_take, List.length_drop, UInt8.lt_iff_toNat_lt, hreceived,
    htotal]
  by_cases hnext : offset + m.fragLen < m.payload.length
  · rw [if_pos hnext, if_pos (by omega)]
    refine ⟨_, rfl, fun _ => ⟨hactive, h.msgId, rfl, ?_, ?_⟩, fun hge => absurd hnext (by omega)⟩
    · rw [Nat.min_eq_left (by omega)]
    · rwa [Nat.min_eq_left (by omega)] at hdata
  · rw [if_neg hnext, if_neg (by omega)]
    have hend : offset + min m.fragLen (m.payload.length - offset) = m.payload.length := by omega
    rw [hend, List.take_length] at hdata
    rw [hdata]
    exact ⟨_, rfl, fun hlt => absurd hlt hnext, fun _ => rfl⟩

/-! ### Messages under way -/

/-- Some fragments of the message are sent, and not all. -/
def FragMsg.UnderWay (m : FragMsg) (offset : ℕ) : Prop :=
  m.limit < m.payload.length ∧ 0 < offset ∧ offset < m.payload.length

section

variable {ι : Type*}

/-- Messages that are sent in fragments have identifiers of their own. -/
def Distinct (msgs : ι → FragMsg) : Prop :=
  ∀ i j, (msgs i).limit < (msgs i).payload.length → (msgs j).limit < (msgs j).payload.length →
    (msgs i).msgId = (msgs j).msgId → i = j

/-- Each active slot holds a message under way, and each message under way has one. -/
structure RxInv (msgs : ι → FragMsg) (offsets : ι → ℕ) (rx : FragRx) : Prop where
  held : ∀ k : Fin rivrBleFragRxSlots, rx.slots[k].active = true →
    ∃ i, (msgs i).UnderWay (offsets i) ∧ (msgs i).HeldBy (offsets i) rx.slots[k]
  unique : ∀ k k' : Fin rivrBleFragRxSlots, rx.slots[k].active = true → rx.slots[k'].active = true →
    rx.slots[k].msgId = rx.slots[k'].msgId → k = k'
  slot : ∀ i, (msgs i).UnderWay (offsets i) → ∃ k : Fin rivrBleFragRxSlots,
    rx.slots[k].active = true ∧ rx.slots[k].msgId = (msgs i).msgId

variable {msgs : ι → FragMsg} {offsets : ι → ℕ}

theorem rxInv_rivrBleFragReset (msgs : ι → FragMsg) (rx : FragRx) :
    RxInv msgs (fun _ => 0) (rivrBleFragReset rx) := by
  have hfree : ∀ k : Fin rivrBleFragRxSlots, (rivrBleFragReset rx).slots[k].active = false := by
    intro k
    have hslot : (rivrBleFragReset rx).slots[k] = rx.slots[k].drop := Vector.getElem_map _ k.isLt
    rw [hslot]
    rfl
  refine ⟨fun k hk => ?_, fun k _ hk _ _ => ?_, fun i hi => absurd hi.2.1 (Nat.lt_irrefl 0)⟩
  · rw [hfree k] at hk
    exact absurd hk Bool.false_ne_true
  · rw [hfree k] at hk
    exact absurd hk Bool.false_ne_true

theorem FragRx.findSlot_eq_some {msgId : UInt8} {k : Fin rivrBleFragRxSlots}
    (h : rx.findSlot msgId = some k) : rx.slots[k].active = true ∧ rx.slots[k].msgId = msgId := by
  have hfound := List.find?_some h
  rwa [Bool.and_eq_true, beq_iff_eq] at hfound

theorem FragRx.findSlot_eq_none {msgId : UInt8} (h : rx.findSlot msgId = none)
    (k : Fin rivrBleFragRxSlots) (hactive : rx.slots[k].active = true) : rx.slots[k].msgId ≠ msgId := by
  intro hid
  have hnone := List.find?_eq_none.mp h k (List.mem_finRange k)
  rw [Bool.and_eq_true, beq_iff_eq] at hnone
  exact hnone ⟨hactive, hid⟩

/-- With a message yet to start and no more messages than slots, a slot is free. -/
theorem RxInv.exists_free [Fintype ι] (h : RxInv msgs offsets rx)
    (hcard : Fintype.card ι ≤ rivrBleFragRxSlots) {i : ι} (hi : offsets i = 0) :
    ∃ k : Fin rivrBleFragRxSlots, rx.slots[k].active = false := by
  by_contra hnone
  have hactive : ∀ k : Fin rivrBleFragRxSlots, rx.slots[k].active = true := fun k => by
    rw [← Bool.not_eq_false]
    exact fun hk => hnone ⟨k, hk⟩
  choose g hway hheld using fun k => h.held k (hactive k)
  have hinj : Function.Injective fun o : Option (Fin rivrBleFragRxSlots) => o.elim i g := by
    rintro (_ | k) (_ | k') heq
    · rfl
    · have hpos := (hway k').2.1
      rw [← show i = g k' from heq, hi] at hpos
      exact absurd hpos (Nat.lt_irrefl 0)
    · have hpos := (hway k).2.1
      rw [show g k = i from heq, hi] at hpos
      exact absurd hpos (Nat.lt_irrefl 0)
    · have hid : rx.slots[k].msgId = rx.slots[k'].msgId := by
        rw [(hheld k).msgId, (hheld k').msgId, show g k = g k' from heq]
      rw [h.unique k k' (hactive k) (hactive k') hid]
  have hle := Fintype.card_le_of_injective _ hinj
  rw [Fintype.card_option, Fintype.card_fin] at hle
  omega

theorem FragRx.exists_allocSlot {k : Fin rivrBleFragRxSlots} (h : rx.slots[k].active = false) :
    ∃ k', rx.allocSlot = (k', rx) ∧ rx.slots[k'].active = false := by
  rw [FragRx.allocSlot]
  cases hfind : (List.finRange rivrBleFragRxSlots).find? fun i => !rx.slots[i].active with
  | some k' => exact ⟨k', rfl, by simpa using List.find?_some hfind⟩
  | none =>
    have hbusy := List.find?_eq_none.mp hfind k (List.mem_finRange k)
    rw [h] at hbusy
    exact absurd rfl hbusy

/-- The slot of the next fragment of a message. -/
structure PlacedAt (m : FragMsg) (offset : ℕ) (rx rx' : FragRx) (k : Fin rivrBleFragRxSlots) :
    Prop where
  active : rx'.slots[k].active = true
  heldBy : m.HeldBy offset rx'.slots[k]
  others : ∀ k' : Fin rivrBleFragRxSlots, k' ≠ k → rx'.slots[k'] = rx.slots[k']
  before : rx.slots[k].active = true → rx.slots[k].msgId = m.msgId
  only : ∀ k' : Fin rivrBleFragRxSlots, rx.slots[k'].active = true →
    rx.slots[k'].msgId = m.msgId → k' = k

/-- Every fragment finds its slot. -/
theorem RxInv.exists_placedAt [Fintype ι] (h : RxInv msgs offsets rx) (hdistinct : Distinct msgs)
    (hcard : Fintype.card ι ≤ rivrBleFragRxSlots) {i : ι}
    (hsplit : (msgs i).limit < (msgs i).payload.length)
    (hoffset : offsets i < (msgs i).payload.length) (frag : List UInt8) :
    ∃ k rx', rx.place (msgs i).msgId (UInt8.ofNat (offsets i))
        (UInt8.ofNat (msgs i).payload.length) frag =
          rx'.accept k (UInt8.ofNat (offsets i)) frag ∧
      PlacedAt (msgs i) (offsets i) rx rx' k := by
  have hle := (msgs i).length_le
  rw [FragRx.place]
  cases hfind : rx.findSlot (msgs i).msgId with
  | some k =>
    obtain ⟨hactive, hid⟩ := FragRx.findSlot_eq_some hfind
    obtain ⟨j, hway, hheld⟩ := h.held k hactive
    obtain rfl : i = j := hdistinct i j hsplit hway.1 (hid.symm.trans hheld.msgId)
    have hne : UInt8.ofNat (offsets i) ≠ 0 := by
      intro hzero
      have hnat := congrArg UInt8.toNat hzero
      rw [toNat_ofNat_of_le (hoffset.le.trans hle)] at hnat
      exact absurd hnat hway.2.1.ne'
    refine ⟨k, rx, ?_, hactive, hheld, fun _ _ => rfl, fun _ => hid,
      fun k' hactive' hid' => h.unique k' k hactive' hactive (hid'.trans hid.symm)⟩
    dsimp only
    rw [if_neg hne, if_neg (not_not.mpr hheld.totalLen)]
  | none =>
    have hnone := FragRx.findSlot_eq_none hfind
    have hzero : offsets i = 0 := by
      by_contra hne
      obtain ⟨k, hactive, hid⟩ := h.slot i ⟨hsplit, Nat.pos_of_ne_zero hne, hoffset⟩
      exact hnone k hactive hid
    obtain ⟨k₀, hfree₀⟩ := h.exists_free hcard hzero
    obtain ⟨k, halloc, hfree⟩ := FragRx.exists_allocSlot hfree₀
    have hself := rx.getElem_setSlot k k
      (rx.slots[k].start (msgs i).msgId (UInt8.ofNat (msgs i).payload.length))
    rw [if_pos rfl] at hself
    refine ⟨k, rx.setSlot k (rx.slots[k].start (msgs i).msgId
      (UInt8.ofNat (msgs i).payload.length)), ?_, ?_, ?_, fun k' hk' => ?_, fun hactive => ?_,
      fun k' hactive hid => absurd hid (hnone k' hactive)⟩
    · dsimp only
      rw [halloc, hzero]
      exact if_neg (not_not.mpr rfl)
    · rw [hself]
      rfl
    · rw [hself, hzero]
      exact ⟨rfl, rfl, rfl, rfl⟩
    · rw [FragRx.getElem_setSlot, if_neg hk']
    · rw [hfree] at hactive
      exact absurd hactive Bool.false_ne_true

/-- What becomes of the messages under way when the fragment is taken. -/
theorem RxInv.advance [DecidableEq ι] {rx' : FragRx} {k : Fin rivrBleFragRxSlots} {i : ι} {offset : ℕ}
    {slot : FragSlot} (h : RxInv msgs offsets rx) (hdistinct : Distinct msgs)
    (hsplit : (msgs i).limit < (msgs i).payload.length)
    (hplaced : PlacedAt (msgs i) (offsets i) rx rx' k) (hpos : 0 < offset)
    (hmore : offset < (msgs i).payload.length → slot.active = true ∧ (msgs i).HeldBy offset slot)
    (hdone : (msgs i).payload.length ≤ offset → slot.active = false) :
    RxInv msgs (Function.update offsets i offset) (rx'.setSlot k slot) := by
  have hslot : ∀ k', (rx'.setSlot k slot).slots[k'] = if k' = k then slot else rx.slots[k'] := by
    intro k'
    rw [FragRx.getElem_setSlot]
    split_ifs with hk'
    · rfl
    · exact hplaced.others k' hk'
  have hlast : slot.active = true → offset < (msgs i).payload.length := by
    intro hactive
    by_contra hge
    rw [hdone (Nat.le_of_not_lt hge)] at hactive
    exact Bool.false_ne_true hactive
  refine ⟨fun k' hactive => ?_, fun k₁ k₂ h₁ h₂ hid => ?_, fun j hway => ?_⟩
  · rw [hslot] at hactive ⊢
    by_cases hk' : k' = k
    · rw [if_pos hk'] at hactive ⊢
      have hlt := hlast hactive
      exact ⟨i, by rw [Function.update_self]; exact ⟨hsplit, hpos, hlt⟩,
        by rw [Function.update_self]; exact (hmore hlt).2⟩
    · rw [if_neg hk'] at hactive ⊢
      obtain ⟨j, hway, hheld⟩ := h.held k' hactive
      have hne : j ≠ i := by
        rintro rfl
        exact hk' (hplaced.only k' hactive hheld.msgId)
      exact ⟨j, by rwa [Function.update_of_ne hne], by rwa [Function.update_of_ne hne]⟩
  · rw [hslot] at h₁ h₂
    rw [hslot, hslot] at hid
    by_cases hk₁ : k₁ = k
    · by_cases hk₂ : k₂ = k
      · rw [hk₁, hk₂]
      · rw [if_pos hk₁] at h₁ hid
        rw [if_neg hk₂] at h₂ hid
        rw [(hmore (hlast h₁)).2.msgId] at hid
        exact absurd (hplaced.only k₂ h₂ hid.symm) hk₂
    · rw [if_neg hk₁] at h₁ hid
      by_cases hk₂ : k₂ = k
      · rw [if_pos hk₂] at h₂ hid
        rw [(hmore (hlast h₂)).2.msgId] at hid
        exact absurd (hplaced.only k₁ h₁ hid) hk₁
      · rw [if_neg hk₂] at h₂ hid
        exact h.unique k₁ k₂ h₁ h₂ hid
  · by_cases hj : j = i
    · subst hj
      rw [Function.update_self] at hway
      obtain ⟨hactive, hheld⟩ := hmore hway.2.2
      exact ⟨k, by rwa [hslot, if_pos rfl], by rw [hslot, if_pos rfl, hheld.msgId]⟩
    · rw [Function.update_of_ne hj] at hway
      obtain ⟨k', hactive, hid⟩ := h.slot j hway
      have hne : k' ≠ k := by
        rintro rfl
        exact hj (hdistinct j i hway.1 hsplit (hid.symm.trans (hplaced.before hactive)))
      exact ⟨k', by rwa [hslot, if_neg hne], by rwa [hslot, if_neg hne]⟩

/-! ### Packets -/

/-- A fragment is a valid packet. -/
theorem FragMsg.ingest_fragPacket (m : FragMsg) (rx : FragRx) {offset : ℕ}
    (hoffset : offset < m.payload.length) :
    rivrBleFragIngest rx (fragPacket m.payload m.fragLen m.msgId offset) =
      rx.place m.msgId (UInt8.ofNat offset) (UInt8.ofNat m.payload.length)
        ((m.payload.drop offset).take m.fragLen) := by
  have hpos := m.fragLen_pos
  have hle := m.length_le
  have htotal := toNat_ofNat_of_le hle
  have hat := toNat_ofNat_of_le (hoffset.le.trans hle)
  have hpacket : rivrBleFragIsPacket (fragPacket m.payload m.fragLen m.msgId offset) = true := by
    simp only [rivrBleFragIsPacket, Bool.and_eq_true, decide_eq_true_iff, beq_iff_eq]
    refine ⟨⟨⟨?_, rfl⟩, rfl⟩, rfl⟩
    rw [fragPacket, List.length_append]
    exact Nat.le_add_right 6 _
  have hid : (fragPacket m.payload m.fragLen m.msgId offset).getD 3 0 = m.msgId := rfl
  have hoff : (fragPacket m.payload m.fragLen m.msgId offset).getD 4 0 = UInt8.ofNat offset := rfl
  have hlen : (fragPacket m.payload m.fragLen m.msgId offset).getD 5 0 =
      UInt8.ofNat m.payload.length := rfl
  have hfrag : (fragPacket m.payload m.fragLen m.msgId offset).drop rivrBleFragHdrLen =
      (m.payload.drop offset).take m.fragLen := rfl
  have hzero : UInt8.ofNat m.payload.length ≠ 0 := by
    intro hzero
    rw [hzero] at htotal
    exact absurd htotal.symm m.length_pos.ne'
  have hfraglen : ((m.payload.drop offset).take m.fragLen).length =
      min m.fragLen (m.payload.length - offset) := by
    rw [List.length_take, List.length_drop]
  rw [rivrBleFragIngest, if_neg (by simp [fragPacket]), hpacket, hid, hoff, hlen, hfrag, if_neg (by simp)]
  dsimp only
  rw [if_neg hzero, if_neg, if_neg]
  · rw [hat, htotal, hfraglen]
    omega
  · rw [hfraglen, ge_iff_le, UInt8.le_iff_toNat_le, hat, htotal]
    omega

/-- A frame that does not start like a fragment is handed on. -/
theorem FragMsg.ingest_payload (m : FragMsg) (rx : FragRx) (h : m.payload.length ≤ m.limit) :
    rivrBleFragIngest rx m.payload = some (.passthrough m.payload, rx) := by
  have hplain : rivrBleFragIsPacket m.payload = false := by
    refine Bool.eq_false_iff.mpr fun hpacket => m.plain h ?_
    simp only [rivrBleFragIsPacket, Bool.and_eq_true, beq_iff_eq, decide_eq_true_iff] at hpacket
    obtain ⟨⟨⟨hlen, h₀⟩, h₁⟩, -⟩ := hpacket
    match hpayload : m.payload with
    | [] => rw [hpayload] at hlen; exact absurd hlen (by decide)
    | [_] => rw [hpayload] at hlen; exact absurd hlen (show ¬6 ≤ 1 by decide)
    | a :: b :: rest =>
      rw [hpayload] at h₀ h₁
      obtain rfl : a = rivrBleFragMagic0 := h₀
      obtain rfl : b = rivrBleFragMagic1 := h₁
      exact ⟨rest, rfl⟩
  rw [rivrBleFragIngest, if_neg m.length_pos.ne', hplain]
  rfl

/-! ### Any interleaving -/

/-- What is left to send of a message. -/
def FragMsg.Left (m : FragMsg) (offset : ℕ) (todo : List (List UInt8 × FragRxResult)) : Prop :=
  (m.payload.length ≤ m.limit ∧ offset = 0 ∧ (todo = m.plan ∨ todo = [])) ∨
    (m.limit < m.payload.length ∧ ∃ fuel, todo = m.planFrom fuel offset)

theorem FragMsg.left_plan (m : FragMsg) : m.Left 0 m.plan := by
  by_cases hfits : m.payload.length ≤ m.limit
  · exact Or.inl ⟨hfits, rfl, Or.inl rfl⟩
  · refine Or.inr ⟨Nat.lt_of_not_le hfits, m.payload.length, ?_⟩
    rw [plan, if_neg hfits]

variable [Fintype ι] [DecidableEq ι]

/-- The messages under way, and what is left of all. -/
def RxLeft (msgs : ι → FragMsg) (rx : FragRx) (todo : ι → List (List UInt8 × FragRxResult)) : Prop :=
  ∃ offsets, RxInv msgs offsets rx ∧ ∀ i, (msgs i).Left (offsets i) (todo i)

/-- The next packet of a message, at any time. -/
theorem RxLeft.ingest (hdistinct : Distinct msgs) (hcard : Fintype.card ι ≤ rivrBleFragRxSlots)
    (rx : FragRx) (todo : ι → List (List UInt8 × FragRxResult)) (i : ι) (packet : List UInt8)
    (result : FragRxResult) (rest : List (List UInt8 × FragRxResult)) (h : RxLeft msgs rx todo)
    (hi : todo i = (packet, result) :: rest) :
    ∃ rx', rivrBleFragIngest rx packet = some (result, rx') ∧
      RxLeft msgs rx' (Function.update todo i rest) := by
  obtain ⟨offsets, hinv, hleft⟩ := h
  rcases hleft i with ⟨hfits, hzero, htodo⟩ | ⟨hsplit, fuel, htodo⟩
  · rcases htodo with htodo | htodo
    · rw [htodo, FragMsg.plan, if_pos hfits] at hi
      obtain ⟨⟨rfl, rfl⟩, rfl⟩ : (_ ∧ _) ∧ _ := by simpa using hi
      refine ⟨rx, (msgs i).ingest_payload rx hfits, offsets, hinv, fun j => ?_⟩
      by_cases hj : j = i
      · rw [hj, Function.update_self]
        exact Or.inl ⟨hfits, hzero, Or.inr rfl⟩
      · rw [Function.update_of_ne hj]
        exact hleft j
    · rw [htodo] at hi
      exact absurd hi.symm (List.cons_ne_nil _ _)
  · rw [htodo] at hi
    cases fuel with
    | zero => exact absurd hi.symm (List.cons_ne_nil _ _)
    | succ fuel =>
      by_cases hoffset : offsets i < (msgs i).payload.length
      · rw [FragMsg.planFrom, if_pos hoffset] at hi
        obtain ⟨hhead, rfl⟩ := List.cons.inj hi
        obtain ⟨rfl, rfl⟩ := Prod.mk.inj hhead
        obtain ⟨k, rx', hplace, hplaced⟩ := hinv.exists_placedAt hdistinct hcard hsplit hoffset
          (((msgs i).payload.drop (offsets i)).take (msgs i).fragLen)
        obtain ⟨slot, haccept, hmore, hdone⟩ := hplaced.heldBy.accept hplaced.active hoffset
        have hpos : 0 < offsets i + (msgs i).fragLen := Nat.add_pos_right _ (msgs i).fragLen_pos
        refine ⟨_, by rw [(msgs i).ingest_fragPacket rx hoffset, hplace, haccept],
          Function.update offsets i (offsets i + (msgs i).fragLen),
          hinv.advance hdistinct hsplit hplaced hpos hmore hdone, fun j => ?_⟩
        by_cases hj : j = i
        · rw [hj, Function.update_self, Function.update_self]
          exact Or.inr ⟨hsplit, fuel, rfl⟩
        · rw [Function.update_of_ne hj, Function.update_of_ne hj]
          exact hleft j
      · rw [FragMsg.planFrom, if_neg hoffset] at hi
        exact absurd hi.symm (List.cons_ne_nil _ _)

end

/-- **Round trip.** A reset receiver answers the packets of a message as planned: the frame itself,
or incomplete fragments with the whole frame on the last. So it does for each of as many messages as
there are slots, whatever the interleaving of their packets. And whatever bytes come in, no write
goes past a buffer and no slot holds more than its message. -/
theorem bleFrag_roundTrip :
    (∀ (rx : FragRx) (m : FragMsg), ∃ rx',
      run rivrBleFragIngest (rivrBleFragReset rx) m.packets = some (m.results, rx')) ∧
    (∀ (rx : FragRx) (ι : Type) [Fintype ι] [DecidableEq ι] (msgs : ι → FragMsg),
      Fintype.card ι ≤ rivrBleFragRxSlots → Distinct msgs → ∀ trace : List (ι × List UInt8),
      (∀ i, proj i trace = (msgs i).packets) → ∃ results rx',
        run rivrBleFragIngest (rivrBleFragReset rx) (trace.map Prod.snd) = some (results, rx') ∧
        ∀ i, proj i ((trace.map Prod.fst).zip results) = (msgs i).results) ∧
    (∀ (rx : FragRx) (packets : List (List UInt8)), ∃ results rx',
      run rivrBleFragIngest (rivrBleFragReset rx) packets = some (results, rx') ∧
      ∀ i : Fin rivrBleFragRxSlots, rx'.slots[i].receivedLen ≤ rx'.slots[i].totalLen) := by
  have hany : ∀ (rx : FragRx) (ι : Type) [Fintype ι] [DecidableEq ι] (msgs : ι → FragMsg),
      Fintype.card ι ≤ rivrBleFragRxSlots → Distinct msgs → ∀ trace : List (ι × List UInt8),
      (∀ i, proj i trace = (msgs i).packets) → ∃ results rx',
        run rivrBleFragIngest (rivrBleFragReset rx) (trace.map Prod.snd) = some (results, rx') ∧
        ∀ i, proj i ((trace.map Prod.fst).zip results) = (msgs i).results := by
    intro rx ι _ _ msgs hcard hdistinct trace htrace
    have hstart : RxLeft msgs (rivrBleFragReset rx) fun i => (msgs i).plan :=
      ⟨fun _ => 0, rxInv_rivrBleFragReset msgs rx, fun i => (msgs i).left_plan⟩
    obtain ⟨results, rx', hrun, hresults⟩ := exists_run_of_plan (RxLeft.ingest hdistinct hcard) trace
      hstart fun i => (htrace i).trans (msgs i).plan_fst.symm
    exact ⟨results, rx', hrun, fun i => (hresults i).trans (msgs i).plan_snd⟩
  refine ⟨fun rx m => ?_, hany, exists_run_rivrBleFragIngest⟩
  have hmap : (m.packets.map fun packet => ((), packet)).map Prod.snd = m.packets := by simp
  obtain ⟨results, rx', hrun, hresults⟩ := hany rx Unit (fun _ => m) (by decide)
    (fun _ _ _ _ _ => rfl) (m.packets.map fun packet => ((), packet)) fun _ => by
      rw [proj_unit, hmap]
  rw [hmap] at hrun
  refine ⟨rx', ?_⟩
  have hsnd := hresults ()
  rw [proj_unit, List.map_snd_zip] at hsnd
  · rw [hrun, hsnd]
  · rw [List.length_map, List.length_map, length_run hrun]

/-- Two frames of eleven bytes on a link whose packets hold four of them. -/
def twoFrames (b : Bool) : FragMsg where
  payload := (List.range 11).map fun j => if b then UInt8.ofNat j else 0x52
  limit := 10
  nextMsgId := if b then some 255 else some 1
  length_pos := by cases b <;> decide
  length_le := by cases b <;> decide
  hdrLen_lt := by decide
  plain := by cases b <;> decide

/-- The fragments of one frame around those of the other. -/
theorem bleFrag_roundTrip_twoFrames :
    let rx : FragRx := ⟨0, Vector.replicate _ ⟨false, 0, 0, 0, Vector.replicate _ 0⟩⟩
    let trace := (true, (twoFrames true).packets.getD 0 []) ::
      (((twoFrames false).packets.map fun packet => (false, packet)) ++
        ((twoFrames true).packets.drop 1).map fun packet => (true, packet))
    ∃ results rx', run rivrBleFragIngest (rivrBleFragReset rx) (trace.map Prod.snd) =
        some (results, rx') ∧
      ∀ b, proj b ((trace.map Prod.fst).zip results) = (twoFrames b).results :=
  bleFrag_roundTrip.2.1 _ Bool twoFrames (by decide) (by unfold Distinct; decide) _ (by decide)

end Rivr
