import Mathlib.Data.Fin.Basic
import Rivr.Firmware.PolicyParams
import Rivr.ForMathlib.Chunks
import Rivr.ForMathlib.LittleEndian

/-!
# The channel table

`firmware_core/channel.c`, in a build with a non-volatile storage: the table of the channels of a
node, the operations on it and the blob it is saved as. Without such a storage saving and loading do
nothing. Of the counters the table keeps only the unread ones are changed by these operations.

One channel carries the flag of the default, the index of the default is its slot, and it is joined,
as the global channel is (`ChannelTable.Inv`). The operations keep this, and so does loading, over
any table, a blob that was saved of a table like this: what is loaded is the saved table, but for
the unread counters (`channelPersistLoad_save`).
-/

open Chunks LittleEndian

namespace Rivr

/-! ### The table -/

/-- `RIVR_MAX_CHANNELS`. -/
abbrev rivrMaxChannels : ℕ := 8

/-- `RIVR_CHANNEL_NAME_MAX`. -/
abbrev rivrChannelNameMax : ℕ := 24

/-- `RIVR_CHAN_GLOBAL`. -/
def rivrChanGlobal : UInt16 := 0

def chanKindPublic : UInt8 := 0
def chanKindGroup : UInt8 := 1
def chanKindEmergency : UInt8 := 2

/-- `CHAN_FLAG_PRIORITY`. -/
def chanFlagPriority : UInt16 := 4

/-- `rivr_channel_config_t`; the kind is any byte, as a blob can hold one. -/
structure ChannelConfig where
  id : UInt16
  kind : UInt8
  flags : UInt16
  keySlot : UInt8
  name : Vector UInt8 rivrChannelNameMax
  deriving DecidableEq, Repr

/-- `rivr_channel_membership_t`. -/
structure ChannelMembership where
  channelId : UInt16
  joined : Bool
  muted : Bool
  hidden : Bool
  txDefault : Bool
  deriving DecidableEq, Repr

/-- `rivr_channel_table_t`; the default is an index of the table. -/
structure ChannelTable where
  config : Vector ChannelConfig rivrMaxChannels
  membership : Vector ChannelMembership rivrMaxChannels
  unread : Vector UInt32 rivrMaxChannels
  count : UInt8
  txDefault : Fin rivrMaxChannels
  deriving DecidableEq, Repr

/-- A name, with zeros behind it. -/
def channelName (s : String) : Vector UInt8 rivrChannelNameMax :=
  Vector.ofFn fun i => (ascii s).getD i 0

/-- `s_defaults`. -/
def sDefaults : Vector ChannelConfig rivrMaxChannels :=
  #v[⟨0, chanKindPublic, 0, 0, channelName "Global"⟩,
    ⟨1, chanKindGroup, 0, 0, channelName "Ops"⟩,
    ⟨2, chanKindGroup, 0, 0, channelName "Local"⟩,
    ⟨3, chanKindEmergency, chanFlagPriority, 0, channelName "Emergency"⟩,
    ⟨4, chanKindGroup, 0, 0, channelName ""⟩,
    ⟨5, chanKindGroup, 0, 0, channelName ""⟩,
    ⟨6, chanKindGroup, 0, 0, channelName ""⟩,
    ⟨7, chanKindGroup, 0, 0, channelName ""⟩]

/-- `s_default_membership`. -/
def sDefaultMembership : Vector ChannelMembership rivrMaxChannels :=
  #v[⟨0, true, false, false, true⟩,
    ⟨1, true, false, false, false⟩,
    ⟨2, false, false, false, false⟩,
    ⟨3, true, false, false, false⟩,
    ⟨4, false, false, true, false⟩,
    ⟨5, false, false, true, false⟩,
    ⟨6, false, false, true, false⟩,
    ⟨7, false, false, true, false⟩]

/-- The table before `main`. -/
def channelTableZero : ChannelTable where
  config := Vector.replicate _ ⟨0, 0, 0, 0, Vector.replicate _ 0⟩
  membership := Vector.replicate _ ⟨0, false, false, false, false⟩
  unread := Vector.replicate _ 0
  count := 0
  txDefault := 0

/-- `channel_init`: every field of the table is written. -/
def channelInit (_ : ChannelTable) : ChannelTable where
  config := sDefaults
  membership := sDefaultMembership
  unread := Vector.replicate _ 0
  count := 8
  txDefault := 0

/-! ### Operations -/

/-- `find_slot`; `none` is the value behind the last slot. -/
def ChannelTable.findSlot (t : ChannelTable) (channelId : UInt16) : Option (Fin rivrMaxChannels) :=
  match (List.finRange rivrMaxChannels).find? fun i =>
      t.config[i].id == channelId && t.config[i].name[0] != 0 with
  | some i => some i
  | none => if channelId = rivrChanGlobal then some 0 else none

/-- Writing the membership of a slot. -/
def ChannelTable.setMembership (t : ChannelTable) (i : Fin rivrMaxChannels)
    (m : ChannelMembership) : ChannelTable := { t with membership := t.membership.set i m }

/-- `channel_is_joined`. -/
def channelIsJoined (t : ChannelTable) (channelId : UInt16) : Bool :=
  match t.findSlot channelId with
  | none => false
  | some i => t.membership[i].joined

/-- `channel_join`. -/
def channelJoin (t : ChannelTable) (channelId : UInt16) : ChannelTable :=
  match t.findSlot channelId with
  | none => t
  | some i => t.setMembership i { t.membership[i] with joined := true }

/-- `channel_leave`. -/
def channelLeave (t : ChannelTable) (channelId : UInt16) : ChannelTable :=
  if channelId = rivrChanGlobal then t
  else
    match t.findSlot channelId with
    | none => t
    | some i =>
      let t := t.setMembership i { t.membership[i] with joined := false }
      -- the default for sending falls back to the first channel
      if t.membership[i].txDefault then
        let t := t.setMembership i { t.membership[i] with txDefault := false }
        let t := t.setMembership 0 { t.membership[(0 : Fin rivrMaxChannels)] with txDefault := true }
        { t with txDefault := 0 }
      else t

/-- `channel_set_muted`. -/
def channelSetMuted (t : ChannelTable) (channelId : UInt16) (muted : Bool) : ChannelTable :=
  match t.findSlot channelId with
  | none => t
  | some i => t.setMembership i { t.membership[i] with muted := muted }

/-- `channel_set_hidden`. -/
def channelSetHidden (t : ChannelTable) (channelId : UInt16) (hidden : Bool) : ChannelTable :=
  match t.findSlot channelId with
  | none => t
  | some i => t.setMembership i { t.membership[i] with hidden := hidden }

/-- `channel_set_tx_default`. -/
def channelSetTxDefault (t : ChannelTable) (channelId : UInt16) : Bool × ChannelTable :=
  match t.findSlot channelId with
  | none => (false, t)
  | some i =>
    -- only a channel that was joined can be the default
    if !t.membership[i].joined then (false, t)
    else
      let t := { t with
        membership := t.membership.map fun m : ChannelMembership => { m with txDefault := false } }
      let t := t.setMembership i { t.membership[i] with txDefault := true }
      (true, { t with txDefault := i })

/-- `channel_get_tx_default`. -/
def channelGetTxDefault (t : ChannelTable) : UInt16 := t.config[t.txDefault].id

/-- `channel_mark_unread`. -/
def channelMarkUnread (t : ChannelTable) (channelId : UInt16) : ChannelTable :=
  match t.findSlot channelId with
  | none => t
  | some i =>
    if t.membership[i].muted then t else { t with unread := t.unread.set i (t.unread[i] + 1) }

/-- `channel_clear_unread`. -/
def channelClearUnread (t : ChannelTable) (channelId : UInt16) : ChannelTable :=
  match t.findSlot channelId with
  | none => t
  | some i => { t with unread := t.unread.set i 0 }

/-- A call of an operation. -/
inductive ChannelOp
  | join (channelId : UInt16)
  | leave (channelId : UInt16)
  | setMuted (channelId : UInt16) (muted : Bool)
  | setHidden (channelId : UInt16) (hidden : Bool)
  | setTxDefault (channelId : UInt16)
  | markUnread (channelId : UInt16)
  | clearUnread (channelId : UInt16)
  deriving DecidableEq, Repr

/-- The table after a call. -/
def ChannelTable.call (t : ChannelTable) : ChannelOp → ChannelTable
  | .join channelId => channelJoin t channelId
  | .leave channelId => channelLeave t channelId
  | .setMuted channelId muted => channelSetMuted t channelId muted
  | .setHidden channelId hidden => channelSetHidden t channelId hidden
  | .setTxDefault channelId => (channelSetTxDefault t channelId).2
  | .markUnread channelId => channelMarkUnread t channelId
  | .clearUnread channelId => channelClearUnread t channelId

/-! ### The blob -/

/-- One round of the inner loop of `crc8_maxim`. -/
def crc8Shift (crc : UInt8) : UInt8 :=
  if crc &&& 1 ≠ 0 then (crc >>> 1) ^^^ 0x8C else crc >>> 1

/-- `crc8_maxim`. -/
def crc8Maxim (buf : List UInt8) : UInt8 :=
  buf.foldl (fun crc b => crc8Shift^[8] (crc ^^^ b)) 0

/-- `CHAN_PERSIST_MAGIC`. -/
def chanPersistMagic : UInt8 := 0xC4

/-- `CHAN_PERSIST_VER`. -/
def chanPersistVer : UInt8 := 1

/-- `sizeof(rivr_channel_persist_entry_t)`. -/
abbrev chanEntrySize : ℕ := 34

/-- `1u` or `0u`. -/
def flagByte (b : Bool) : UInt8 := if b then 1 else 0

/-- `rivr_channel_persist_entry_t` of a slot, packed. -/
def persistEntry (c : ChannelConfig) (m : ChannelMembership) : List UInt8 :=
  [u16Byte c.id 0, u16Byte c.id 8, c.kind, u16Byte c.flags 0, u16Byte c.flags 8, c.keySlot] ++
    (c.name.toList ++
      [flagByte m.joined, flagByte m.muted, flagByte m.hidden, flagByte m.txDefault])

/-- The check byte: that of the first three bytes, mixed with that of each entry. -/
def blobCrc (header : List UInt8) (entries : List (List UInt8)) : UInt8 :=
  entries.foldl (fun crc e => crc ^^^ crc8Maxim e) (crc8Maxim header)

/-- The blob that `channel_persist_save` stores. -/
def channelPersistSave (t : ChannelTable) : List UInt8 :=
  let header := [chanPersistMagic, chanPersistVer, 8]
  let entries := (List.finRange rivrMaxChannels).map fun i => persistEntry t.config[i] t.membership[i]
  header ++ (blobCrc header entries :: entries.flatten)

/-- `entries[i]`. -/
def blobEntry (buf : List UInt8) (i : ℕ) : List UInt8 :=
  (buf.drop (4 + chanEntrySize * i)).take chanEntrySize

/-- Applying a loaded entry to its slot. -/
def ChannelTable.applyEntry (t : ChannelTable) (i : Fin rivrMaxChannels) (e : List UInt8) :
    ChannelTable :=
  let id := u16OfBytes (e.getD 0 0) (e.getD 1 0)
  { t with
    config := t.config.set i
      { id := id
        kind := e.getD 2 0
        flags := u16OfBytes (e.getD 3 0) (e.getD 4 0)
        keySlot := e.getD 5 0
        name := (Vector.ofFn fun j => e.getD (6 + j) 0).set 23 0 }
    membership := t.membership.set i
      { channelId := id
        joined := e.getD 30 0 != 0
        muted := e.getD 31 0 != 0
        hidden := e.getD 32 0 != 0
        txDefault := e.getD 33 0 != 0 }
    txDefault := if e.getD 33 0 != 0 then i else t.txDefault }

/-- `channel_persist_load`, of the blob the storage returns, if any. -/
def channelPersistLoad (stored : Option (List UInt8)) (t : ChannelTable) : Bool × ChannelTable :=
  match stored with
  | none => (false, t)
  | some buf =>
    let n := buf.getD 2 0
    let entries := (List.range n.toNat).map (blobEntry buf)
    -- all checks come before the first entry is written
    if buf.length < 4 then (false, t)
    else if buf.length > 4 + rivrMaxChannels * chanEntrySize then (false, t)
    else if buf.getD 0 0 ≠ chanPersistMagic then (false, t)
    else if buf.getD 1 0 ≠ chanPersistVer then (false, t)
    else if n = 0 ∨ n.toNat > rivrMaxChannels then (false, t)
    else if buf.length < 4 + n.toNat * chanEntrySize then (false, t)
    else if blobCrc (buf.take 3) entries ≠ buf.getD 3 0 then (false, t)
    else
      let loaded := ((List.finRange rivrMaxChannels).take n.toNat).foldl
        (fun t i => t.applyEntry i (blobEntry buf i)) t
      (true, { loaded with count := n })

/-! ### The default channel -/

/-- The two copies of the default agree, and the default and the global channel are joined. -/
structure ChannelTable.Inv (t : ChannelTable) : Prop where
  config : t.config = sDefaults
  channelId : ∀ i : Fin rivrMaxChannels, t.membership[i].channelId = sDefaults[i].id
  count : t.count = 8
  flag : ∀ i : Fin rivrMaxChannels, t.membership[i].txDefault = true ↔ i = t.txDefault
  joinedDefault : t.membership[t.txDefault].joined = true
  joinedGlobal : t.membership[(0 : Fin rivrMaxChannels)].joined = true

theorem inv_channelInit (t : ChannelTable) : (channelInit t).Inv :=
  have hflag : ∀ i : Fin rivrMaxChannels, sDefaultMembership[i].txDefault = true ↔ i = 0 := by decide
  have hid : ∀ i : Fin rivrMaxChannels, sDefaultMembership[i].channelId = sDefaults[i].id := by decide
  ⟨rfl, hid, rfl, hflag, rfl, rfl⟩

variable {t : ChannelTable} {channelId : UInt16} {i : Fin rivrMaxChannels}

/-- A slot that is found has the identifier. -/
theorem id_of_findSlot (h : t.config = sDefaults) (hslot : t.findSlot channelId = some i) :
    sDefaults[i].id = channelId := by
  rw [ChannelTable.findSlot] at hslot
  split at hslot
  · next j hj =>
    obtain rfl : j = i := Option.some.inj hslot
    have hfound := List.find?_some hj
    rw [Bool.and_eq_true, beq_iff_eq, h] at hfound
    exact hfound.1
  · split_ifs at hslot with hglobal
    obtain rfl : 0 = i := Option.some.inj hslot
    exact hglobal.symm

/-! ### Operations -/

theorem ChannelTable.getElem_setMembership (t : ChannelTable) (i j : Fin rivrMaxChannels)
    (m : ChannelMembership) :
    (t.setMembership i m).membership[j] = if j = i then m else t.membership[j] := by
  simp only [setMembership, Fin.getElem_fin, Vector.getElem_set, Fin.ext_iff, eq_comm]

/-- Writing a membership that keeps the flag of the default, and leaves neither the default nor the
global channel. -/
theorem ChannelTable.Inv.setMembership (h : t.Inv) {m : ChannelMembership}
    (hid : m.channelId = t.membership[i].channelId)
    (hflag : m.txDefault = t.membership[i].txDefault)
    (hjoined : i = t.txDefault ∨ i = 0 → m.joined = true) : (t.setMembership i m).Inv where
  config := h.config
  channelId j := by
    rw [getElem_setMembership]
    split_ifs with hj
    · rw [hid, h.channelId, hj]
    · exact h.channelId j
  count := h.count
  flag j := by
    rw [getElem_setMembership]
    split_ifs with hj
    · rw [hflag, hj]
      exact h.flag i
    · exact h.flag j
  joinedDefault := by
    rw [getElem_setMembership]
    split_ifs with hj
    · exact hjoined (Or.inl hj.symm)
    · exact h.joinedDefault
  joinedGlobal := by
    rw [getElem_setMembership]
    split_ifs with hj
    · exact hjoined (Or.inr hj.symm)
    · exact h.joinedGlobal

theorem ChannelTable.Inv.joined (h : t.Inv) (hi : i = t.txDefault ∨ i = 0) :
    t.membership[i].joined = true := by
  rcases hi with rfl | rfl
  · exact h.joinedDefault
  · exact h.joinedGlobal

theorem ChannelTable.Inv.channelJoin (h : t.Inv) (channelId : UInt16) :
    (channelJoin t channelId).Inv := by
  rw [Rivr.channelJoin]
  split
  · exact h
  · exact h.setMembership rfl rfl fun _ => rfl

theorem ChannelTable.Inv.channelSetMuted (h : t.Inv) (channelId : UInt16) (muted : Bool) :
    (channelSetMuted t channelId muted).Inv := by
  rw [Rivr.channelSetMuted]
  split
  · exact h
  · exact h.setMembership rfl rfl h.joined

theorem ChannelTable.Inv.channelSetHidden (h : t.Inv) (channelId : UInt16) (hidden : Bool) :
    (channelSetHidden t channelId hidden).Inv := by
  rw [Rivr.channelSetHidden]
  split
  · exact h
  · exact h.setMembership rfl rfl h.joined

/-- Leaving the default falls back to the global channel, which cannot be left. -/
theorem ChannelTable.Inv.channelLeave (h : t.Inv) (channelId : UInt16) :
    (channelLeave t channelId).Inv := by
  rw [Rivr.channelLeave]
  split_ifs with hglobal
  · exact h
  · split
    · exact h
    · next i hslot =>
      have hne : i ≠ 0 := by
        rintro rfl
        exact hglobal (id_of_findSlot h.config hslot).symm
      simp only [getElem_setMembership, if_true]
      by_cases hdefault : i = t.txDefault
      · rw [if_pos ((h.flag i).mpr hdefault)]
        refine ⟨h.config, fun j => ?_, h.count, fun j => ?_, ?_, ?_⟩
        all_goals simp only [getElem_setMembership, if_true, if_neg hne.symm]
        · split_ifs with hj hji
          · rw [hj, h.channelId]
          · rw [hji, h.channelId]
          · exact h.channelId j
        · split_ifs with hj hji
          · exact iff_of_true rfl hj
          · exact iff_of_false not_false hj
          · exact iff_of_false (fun hflag => hji (((h.flag j).mp hflag).trans hdefault.symm)) hj
        · exact h.joinedGlobal
        · exact h.joinedGlobal
      · rw [if_neg fun hflag => hdefault ((h.flag i).mp hflag)]
        exact h.setMembership rfl rfl fun hi => absurd hi (not_or.mpr ⟨hdefault, hne⟩)

theorem ChannelTable.Inv.channelSetTxDefault (h : t.Inv) (channelId : UInt16) :
    (channelSetTxDefault t channelId).2.Inv := by
  rw [Rivr.channelSetTxDefault]
  split
  · exact h
  · next i hslot =>
    split_ifs with hjoined
    · exact h
    · have hcleared : ∀ j : Fin rivrMaxChannels, (t.membership.map fun m : ChannelMembership =>
          { m with txDefault := false })[j] = { t.membership[j] with txDefault := false } :=
        fun j => Vector.getElem_map _ j.isLt
      refine ⟨h.config, fun j => ?_, h.count, fun j => ?_, ?_, ?_⟩
      all_goals simp only [getElem_setMembership, hcleared, if_true]
      · split_ifs with hj
        · rw [hj, h.channelId]
        · exact h.channelId j
      · split_ifs with hj
        · exact iff_of_true rfl hj
        · exact iff_of_false not_false hj
      · simpa using hjoined
      · split_ifs with hj
        · simpa using hjoined
        · exact h.joinedGlobal

theorem ChannelTable.Inv.call (h : t.Inv) (op : ChannelOp) : (t.call op).Inv := by
  cases op with
  | join channelId => exact h.channelJoin channelId
  | leave channelId => exact h.channelLeave channelId
  | setMuted channelId muted => exact h.channelSetMuted channelId muted
  | setHidden channelId hidden => exact h.channelSetHidden channelId hidden
  | setTxDefault channelId => exact h.channelSetTxDefault channelId
  | markUnread channelId =>
    rw [ChannelTable.call, channelMarkUnread]
    split
    · exact h
    · split_ifs
      · exact h
      · exact ⟨h.config, h.channelId, h.count, h.flag, h.joinedDefault, h.joinedGlobal⟩
  | clearUnread channelId =>
    rw [ChannelTable.call, channelClearUnread]
    split
    · exact h
    · exact ⟨h.config, h.channelId, h.count, h.flag, h.joinedDefault, h.joinedGlobal⟩

/-! ### Saving and loading -/

@[simp] theorem length_persistEntry (c : ChannelConfig) (m : ChannelMembership) :
    (persistEntry c m).length = chanEntrySize := by
  simp [persistEntry]

@[simp] theorem flagByte_bne_zero (b : Bool) : (flagByte b != 0) = b := by
  cases b <;> rfl

theorem getD_persistEntry_name (c : ChannelConfig) (m : ChannelMembership) {j : ℕ}
    (h : j < rivrChannelNameMax) : (persistEntry c m).getD (6 + j) 0 = c.name[j] := by
  rw [persistEntry, Nat.add_comm]
  simp [List.getElem?_append_left, h]

theorem getD_persistEntry_flags (c : ChannelConfig) (m : ChannelMembership) (j : ℕ) :
    (persistEntry c m).getD (30 + j) 0 =
      [flagByte m.joined, flagByte m.muted, flagByte m.hidden, flagByte m.txDefault].getD j 0 := by
  have hlen : c.name.toList.length = 24 := c.name.length_toList
  rw [persistEntry, Nat.add_comm]
  simp [List.getElem?_append_right, hlen]

/-- An entry that was saved of a slot restores it, but for the last byte of the name. -/
theorem applyEntry_persistEntry (t : ChannelTable) (i : Fin rivrMaxChannels) (c : ChannelConfig)
    (m : ChannelMembership) : t.applyEntry i (persistEntry c m) =
      { t with
        config := t.config.set i { c with name := c.name.set 23 0 }
        membership := t.membership.set i { m with channelId := c.id }
        txDefault := if m.txDefault then i else t.txDefault } := by
  have hname : Vector.ofFn (fun j : Fin rivrChannelNameMax => (persistEntry c m).getD (6 + j) 0) =
      c.name := by
    ext j hj
    rw [Vector.getElem_ofFn, getD_persistEntry_name c m hj]
  have hid : u16OfBytes ((persistEntry c m).getD 0 0) ((persistEntry c m).getD 1 0) = c.id :=
    u16OfBytes_u16Byte c.id
  have hflags : u16OfBytes ((persistEntry c m).getD 3 0) ((persistEntry c m).getD 4 0) = c.flags :=
    u16OfBytes_u16Byte c.flags
  have hjoined : (persistEntry c m).getD 30 0 = flagByte m.joined := getD_persistEntry_flags c m 0
  have hmuted : (persistEntry c m).getD 31 0 = flagByte m.muted := getD_persistEntry_flags c m 1
  have hhidden : (persistEntry c m).getD 32 0 = flagByte m.hidden := getD_persistEntry_flags c m 2
  have hdefault : (persistEntry c m).getD 33 0 = flagByte m.txDefault :=
    getD_persistEntry_flags c m 3
  simp only [ChannelTable.applyEntry, hname, hid, hflags, hjoined, hmuted, hhidden, hdefault,
    flagByte_bne_zero]
  rfl

/-- The slots of `saved`, loaded over those of `t`. -/
def ChannelTable.applySlots (t saved : ChannelTable) (l : List (Fin rivrMaxChannels)) :
    ChannelTable :=
  l.foldl (fun t i => t.applyEntry i (persistEntry saved.config[i] saved.membership[i])) t

theorem ChannelTable.getElem_applyEntry (t : ChannelTable) (i j : Fin rivrMaxChannels)
    (c : ChannelConfig) (m : ChannelMembership) :
    (t.applyEntry i (persistEntry c m)).config[j] =
        (if j = i then { c with name := c.name.set 23 0 } else t.config[j]) ∧
      (t.applyEntry i (persistEntry c m)).membership[j] =
        if j = i then { m with channelId := c.id } else t.membership[j] := by
  simp only [applyEntry_persistEntry, Fin.getElem_fin, Vector.getElem_set, Fin.ext_iff, eq_comm,
    and_self]

/-- Loading slots, each once: by induction on the list of the slots. -/
theorem ChannelTable.getElem_applySlots (t saved : ChannelTable) (l : List (Fin rivrMaxChannels))
    (j : Fin rivrMaxChannels) :
    (t.applySlots saved l).config[j] =
        (if j ∈ l then { saved.config[j] with name := saved.config[j].name.set 23 0 }
        else t.config[j]) ∧
      (t.applySlots saved l).membership[j] =
        if j ∈ l then { saved.membership[j] with channelId := saved.config[j].id }
        else t.membership[j] := by
  induction l generalizing t with
  | nil => exact ⟨rfl, rfl⟩
  | cons i l ih =>
    obtain ⟨hconfig, hmembership⟩ := ih
      (t.applyEntry i (persistEntry saved.config[i] saved.membership[i]))
    obtain ⟨hconfig', hmembership'⟩ :=
      t.getElem_applyEntry i j saved.config[i] saved.membership[i]
    rw [applySlots, List.foldl_cons, ← applySlots, hconfig, hmembership, hconfig', hmembership']
    by_cases hl : j ∈ l
    · simp only [hl, List.mem_cons, or_true, if_true, and_self]
    · by_cases hj : j = i
      · subst hj
        simp [hl]
      · simp [hl, hj]

/-- The default that loading leaves, when one slot has the flag. -/
theorem ChannelTable.txDefault_applySlots (t saved : ChannelTable) (l : List (Fin rivrMaxChannels))
    (hflag : ∀ i : Fin rivrMaxChannels, saved.membership[i].txDefault = true ↔ i = saved.txDefault) :
    (t.applySlots saved l).txDefault =
        (if saved.txDefault ∈ l then saved.txDefault else t.txDefault) ∧
      (t.applySlots saved l).unread = t.unread := by
  induction l generalizing t with
  | nil => exact ⟨rfl, rfl⟩
  | cons i l ih =>
    obtain ⟨hdefault, hunread⟩ := ih
      (t.applyEntry i (persistEntry saved.config[i] saved.membership[i]))
    rw [applySlots, List.foldl_cons, ← applySlots, hdefault, hunread, applyEntry_persistEntry]
    refine ⟨?_, rfl⟩
    by_cases hi : i = saved.txDefault
    · obtain rfl := hi
      simp only [(hflag saved.txDefault).mpr rfl, List.mem_cons, true_or, if_true, ite_self]
    · simp only [if_neg fun h => hi ((hflag i).mp h), List.mem_cons, Ne.symm hi, false_or]

/-- The entries of a saved blob. -/
theorem blobEntry_save (saved : ChannelTable) (i : Fin rivrMaxChannels) :
    blobEntry (channelPersistSave saved) i =
      persistEntry saved.config[i] saved.membership[i] := by
  have hentries : ∀ e ∈ (List.finRange rivrMaxChannels).map fun i =>
      persistEntry saved.config[i] saved.membership[i], e.length = chanEntrySize := by
    intro e he
    obtain ⟨j, -, rfl⟩ := List.mem_map.mp he
    exact length_persistEntry _ _
  have hi : (i : ℕ) < ((List.finRange rivrMaxChannels).map fun i =>
      persistEntry saved.config[i] saved.membership[i]).length := by simp
  have hpiece := take_drop_flatten hentries hi
  rw [List.getElem_map, List.getElem_finRange] at hpiece
  rw [blobEntry, ← List.drop_drop]
  exact hpiece

/-- Loading all the slots of a table. -/
theorem ChannelTable.Inv.applySlots {saved : ChannelTable} (h : saved.Inv) (t : ChannelTable) :
    { t.applySlots saved (List.finRange rivrMaxChannels) with count := 8 } =
      { saved with unread := t.unread } := by
  have hname : ∀ j : Fin rivrMaxChannels, { sDefaults[j] with name := sDefaults[j].name.set 23 0 } =
      sDefaults[j] := by decide
  have hslot := t.getElem_applySlots saved (List.finRange rivrMaxChannels)
  obtain ⟨hdefault, hunread⟩ := t.txDefault_applySlots saved (List.finRange rivrMaxChannels) h.flag
  have hconfig : (t.applySlots saved (List.finRange rivrMaxChannels)).config = saved.config := by
    refine Vector.ext fun j hj => ?_
    have hj' := (hslot ⟨j, hj⟩).1
    rw [if_pos (List.mem_finRange _), h.config, hname ⟨j, hj⟩] at hj'
    rw [h.config]
    exact hj'
  have hmembership : (t.applySlots saved (List.finRange rivrMaxChannels)).membership =
      saved.membership := by
    refine Vector.ext fun j hj => ?_
    have hj' := (hslot ⟨j, hj⟩).2
    rw [if_pos (List.mem_finRange _), h.config, ← h.channelId ⟨j, hj⟩] at hj'
    exact hj'
  rw [if_pos (List.mem_finRange _)] at hdefault
  cases hloaded : t.applySlots saved (List.finRange rivrMaxChannels) with
  | mk config membership unread count txDefault =>
    rw [hloaded] at hconfig hmembership hdefault hunread
    subst hconfig hmembership hdefault hunread
    rw [← h.count]

/-- **Loading what was saved.** Over any table, a blob restores the table that it was saved of. -/
theorem channelPersistLoad_save {saved : ChannelTable} (h : saved.Inv) (t : ChannelTable) :
    channelPersistLoad (some (channelPersistSave saved)) t =
      (true, { saved with unread := t.unread }) := by
  have hentries : (List.range rivrMaxChannels).map (blobEntry (channelPersistSave saved)) =
      (List.finRange rivrMaxChannels).map fun i =>
        persistEntry saved.config[i] saved.membership[i] := by
    rw [← List.map_coe_finRange_eq_range, List.map_map]
    exact List.map_congr_left fun i _ => blobEntry_save saved i
  have hstep : (fun (t : ChannelTable) (i : Fin rivrMaxChannels) =>
      t.applyEntry i (blobEntry (channelPersistSave saved) i)) = fun t i =>
        t.applyEntry i (persistEntry saved.config[i] saved.membership[i]) := by
    funext t i
    rw [blobEntry_save]
  have hlen : (channelPersistSave saved).length = 4 + rivrMaxChannels * chanEntrySize := by
    simp only [channelPersistSave, List.length_append, List.length_cons, List.length_nil,
      List.length_flatten, List.map_map, Function.comp_def, length_persistEntry, List.map_const',
      List.sum_replicate, List.length_finRange]
    rfl
  obtain ⟨entries, hsaved⟩ : ∃ entries, entries = (List.finRange rivrMaxChannels).map fun i =>
      persistEntry saved.config[i] saved.membership[i] := ⟨_, rfl⟩
  rw [← hsaved] at hentries
  have hblob : channelPersistSave saved = chanPersistMagic :: chanPersistVer :: 8 ::
      blobCrc [chanPersistMagic, chanPersistVer, 8] entries :: entries.flatten := by
    rw [hsaved]
    rfl
  have hmagic : (channelPersistSave saved).getD 0 0 = chanPersistMagic := by rw [hblob]; rfl
  have hver : (channelPersistSave saved).getD 1 0 = chanPersistVer := by rw [hblob]; rfl
  have hcount : (channelPersistSave saved).getD 2 0 = 8 := by rw [hblob]; rfl
  have hcrc : (channelPersistSave saved).getD 3 0 =
      blobCrc ((channelPersistSave saved).take 3) entries := by rw [hblob]; rfl
  have hslots : (List.finRange rivrMaxChannels).take (8 : UInt8).toNat = List.finRange _ := rfl
  have hrange : List.range (8 : UInt8).toNat = List.range rivrMaxChannels := rfl
  have happly := h.applySlots t
  rw [ChannelTable.applySlots] at happly
  rw [channelPersistLoad]
  simp only [hmagic, hver, hcount, hcrc, hslots, hrange, hentries, hstep, happly, hlen]
  rw [if_neg (by decide), if_neg (by decide), if_neg (not_not.mpr rfl), if_neg (not_not.mpr rfl),
    if_neg (by decide), if_neg (by decide), if_neg (not_not.mpr rfl)]

/-! ### Runs -/

/-- The tables that the operations and loads of saved tables lead to. -/
inductive ChannelReachable : ChannelTable → Prop
  | init (t : ChannelTable) : ChannelReachable (channelInit t)
  | call {t : ChannelTable} (h : ChannelReachable t) (op : ChannelOp) : ChannelReachable (t.call op)
  | load {t saved : ChannelTable} (h : ChannelReachable t) (hsaved : ChannelReachable saved) :
      ChannelReachable (channelPersistLoad (some (channelPersistSave saved)) t).2

theorem ChannelReachable.inv {t : ChannelTable} (h : ChannelReachable t) : t.Inv := by
  induction h with
  | init t => exact inv_channelInit t
  | call _ op ih => exact ih.call op
  | load _ _ _ ihsaved =>
    rw [channelPersistLoad_save ihsaved]
    exact ⟨ihsaved.config, ihsaved.channelId, ihsaved.count, ihsaved.flag, ihsaved.joinedDefault,
      ihsaved.joinedGlobal⟩

/-- **One default.** In every reachable table exactly one channel carries the flag of the default,
it is the one at the index of the default, it is joined, and so is the global channel. -/
theorem channel_default {t : ChannelTable} (h : ChannelReachable t) :
    (∃! i : Fin rivrMaxChannels, t.membership[i].txDefault = true) ∧
      t.membership[t.txDefault].txDefault = true ∧
      t.membership[t.txDefault].joined = true ∧ channelIsJoined t rivrChanGlobal = true := by
  have hinv := h.inv
  have hdefault : t.membership[t.txDefault].txDefault = true := (hinv.flag t.txDefault).mpr rfl
  have hglobal : t.findSlot rivrChanGlobal = some 0 := by
    rw [ChannelTable.findSlot, hinv.config]
    rfl
  refine ⟨⟨t.txDefault, hdefault, fun i hi => (hinv.flag i).mp hi⟩, hdefault, hinv.joinedDefault, ?_⟩
  rw [channelIsJoined, hglobal]
  exact hinv.joinedGlobal

/-- The local channel is made the default and left. -/
theorem channel_default_left :
    let t := (((channelInit channelTableZero).call (.join 2)).call (.setTxDefault 2)).call (.leave 2)
    (∃! i : Fin rivrMaxChannels, t.membership[i].txDefault = true) ∧
      t.membership[t.txDefault].txDefault = true ∧
      t.membership[t.txDefault].joined = true ∧ channelIsJoined t rivrChanGlobal = true :=
  channel_default
    (.call (.call (.call (.init channelTableZero) (.join 2)) (.setTxDefault 2)) (.leave 2))

/-! ### A restart -/

/-- A table has the configuration, the memberships and the default of another. -/
structure ChannelTable.Restores (saved t : ChannelTable) : Prop where
  config : t.config = saved.config
  membership : t.membership = saved.membership
  txDefault : t.txDefault = saved.txDefault

/-- The boot of a node in the order that the header asks for: what was saved is loaded over the
zeros, and then the table is initialised. -/
def channelBoot (stored : Option (List UInt8)) : ChannelTable :=
  channelInit (channelPersistLoad stored channelTableZero).2

/-- **A restart.** Loading restores a reachable table, over any other; but initialising writes the
defaults over what was loaded, so a table survives a boot only when its memberships are the
defaults. -/
theorem channelBoot_restores_iff {saved : ChannelTable} (h : ChannelReachable saved) :
    saved.Restores (channelBoot (some (channelPersistSave saved))) ↔
      saved.membership = sDefaultMembership := by
  constructor
  · exact fun hrestores => hrestores.membership.symm
  · intro hmembership
    refine ⟨h.inv.config.symm, hmembership.symm, ?_⟩
    refine (h.inv.flag 0).mp ?_
    rw [hmembership]
    rfl

theorem channelBoot_restores_init :
    (channelInit channelTableZero).Restores
      (channelBoot (some (channelPersistSave (channelInit channelTableZero)))) :=
  (channelBoot_restores_iff (.init channelTableZero)).mpr rfl

/-- A node that muted a channel, saved its table and restarted has it unmuted. -/
theorem not_channelBoot_restores : ¬∀ saved, ChannelReachable saved →
    saved.Restores (channelBoot (some (channelPersistSave saved))) := by
  intro h
  have hmuted := (h _ (.call (.init channelTableZero) (.setMuted 1 true))).membership
  exact absurd hmuted (by decide)

end Rivr
