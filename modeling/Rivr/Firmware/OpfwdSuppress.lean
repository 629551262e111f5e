import Mathlib.Algebra.Ring.Nat
import Rivr.Firmware.Dedupe
import Rivr.ForMathlib.RingLog
import Rivr.ForMathlib.SlotTable

/-!
# The suppression ring

`firmware_core/opfwd_suppress.h`: a ring of sixteen packets that neighbours were overheard
relaying, each of them for 300 ms. A packet that is overheard again has its expiry moved in the slot
where it is; only a packet that is not in the ring takes the next slot. Against the log of the
packets that took a slot, newest first (`Follows`), the ring holds the last sixteen, and a check
finds the ones among them that have not expired (`Follows.check_iff`).
-/

namespace Rivr

open SlotTable

def opfwdSuppressSize : ℕ := 16
def opfwdSuppressExpiryMs : UInt32 := 300

/-- `opfwd_entry_t`; an empty slot has a source id of zero. -/
structure OpfwdEntry where
  srcId : UInt32
  pktId : UInt16
  expiresMs : UInt32
  deriving DecidableEq, Repr

/-- A zeroed slot. -/
def OpfwdEntry.empty : OpfwdEntry := ⟨0, 0, 0⟩

/-- The packet that a slot is for. -/
def OpfwdEntry.key (e : OpfwdEntry) : WireKey := (e.srcId, e.pktId)

/-- The slot has not expired; the comparison is one of signed 32-bit differences. -/
def OpfwdEntry.Fresh (e : OpfwdEntry) (nowMs : UInt32) : Prop := (e.expiresMs - nowMs).toInt32 > 0

instance OpfwdEntry.decidableFresh (e : OpfwdEntry) (nowMs : UInt32) : Decidable (e.Fresh nowMs) :=
  inferInstanceAs (Decidable (_ > _))

/-- `opfwd_suppress_t`. -/
structure OpfwdSuppress where
  entries : List OpfwdEntry
  nextWrite : UInt8
  length_entries : entries.length = opfwdSuppressSize

/-- The zero-initialised table. -/
def OpfwdSuppress.init : OpfwdSuppress where
  entries := List.replicate opfwdSuppressSize .empty
  nextWrite := 0
  length_entries := List.length_replicate

/-- The loop of `opfwd_suppress_add`: the slots with a new expiry in the first one for the packet,
if there is one. -/
def refreshScan (srcId : UInt32) (pktId : UInt16) (expiresMs : UInt32) :
    List OpfwdEntry → Option (List OpfwdEntry)
  | [] => none
  | e :: es =>
    if e.srcId = srcId ∧ e.pktId = pktId then some ({ e with expiresMs := expiresMs } :: es)
    else (refreshScan srcId pktId expiresMs es).map (e :: ·)

theorem refreshScan_length {srcId : UInt32} {pktId : UInt16} {expiresMs : UInt32}
    {es es' : List OpfwdEntry} (h : refreshScan srcId pktId expiresMs es = some es') :
    es'.length = es.length := by
  induction es generalizing es' with
  | nil => exact nomatch h
  | cons e es ih =>
    rw [refreshScan] at h
    split_ifs at h with hkey
    · rw [← Option.some.inj h]
      rfl
    · obtain ⟨rest, hrest, rfl⟩ := Option.map_eq_some_iff.mp h
      rw [List.length_cons, List.length_cons, ih hrest]

/-- `opfwd_suppress_add`. -/
def opfwdSuppressAdd (tbl : OpfwdSuppress) (srcId : UInt32) (pktId : UInt16) (nowMs : UInt32) :
    OpfwdSuppress :=
  if srcId = 0 then tbl
  else
    match h : refreshScan srcId pktId (nowMs + opfwdSuppressExpiryMs) tbl.entries with
    | some entries =>
      { tbl with
        entries := entries
        length_entries := (refreshScan_length h).trans tbl.length_entries }
    | none =>
      { entries := tbl.entries.set tbl.nextWrite.toNat
          ⟨srcId, pktId, nowMs + opfwdSuppressExpiryMs⟩
        nextWrite := (tbl.nextWrite + 1) % 16
        length_entries := by simp [tbl.length_entries] }

/-- `opfwd_suppress_check`. -/
def opfwdSuppressCheck (tbl : OpfwdSuppress) (srcId : UInt32) (pktId : UInt16) (nowMs : UInt32) :
    Bool :=
  if srcId = 0 then false
  else tbl.entries.any fun e => e.srcId = srcId ∧ e.pktId = pktId ∧ e.Fresh nowMs

/-! ### Times -/

/-- A slot is fresh for 300 ms after the packet was overheard. -/
theorem fresh_iff {e : OpfwdEntry} {since now : ℕ}
    (hexp : e.expiresMs = UInt32.ofNat since + opfwdSuppressExpiryMs) (hsince : since ≤ now)
    (hnear : now < since + 2 ^ 31) : e.Fresh (UInt32.ofNat now) ↔ now < since + 300 := by
  have hdiff : (e.expiresMs - UInt32.ofNat now).toNat =
      if now ≤ since + 300 then since + 300 - now else 2 ^ 32 + (since + 300) - now := by
    rw [hexp, UInt32.toNat_sub, UInt32.toNat_add, UInt32.toNat_ofNat', UInt32.toNat_ofNat']
    change (2 ^ 32 - now % 2 ^ 32 + (since % 2 ^ 32 + 300) % 2 ^ 32) % 2 ^ 32 = _
    split_ifs <;> omega
  rw [OpfwdEntry.Fresh, gt_iff_lt, Int32.lt_iff_toInt_lt]
  change 0 < BitVec.toInt (e.expiresMs - UInt32.ofNat now).toBitVec ↔ _
  rw [BitVec.toInt_eq_toNat_cond]
  change 0 < (if 2 * (e.expiresMs - UInt32.ofNat now).toNat < 2 ^ 32 then _
    else ((e.expiresMs - UInt32.ofNat now).toNat : ℤ) - _) ↔ _
  rw [show ((e.expiresMs - UInt32.ofNat now).toBitVec.toNat : ℤ) =
    ((e.expiresMs - UInt32.ofNat now).toNat : ℤ) from rfl, hdiff]
  split_ifs <;> omega

/-! ### The packets that took a slot -/

/-- The slot with a new expiry, if it is for the packet. -/
def OpfwdEntry.refreshed (key : WireKey) (expiresMs : UInt32) (e : OpfwdEntry) : OpfwdEntry :=
  if e.key = key then { e with expiresMs := expiresMs } else e

@[simp]
theorem key_refreshed (key : WireKey) (expiresMs : UInt32) (e : OpfwdEntry) :
    (e.refreshed key expiresMs).key = e.key := by
  rw [OpfwdEntry.refreshed]
  split_ifs <;> rfl

theorem srcId_refreshed (key : WireKey) (expiresMs : UInt32) (e : OpfwdEntry) :
    (e.refreshed key expiresMs).srcId = e.srcId :=
  congrArg Prod.fst (key_refreshed key expiresMs e)

theorem refreshed_of_ne {key : WireKey} {e : OpfwdEntry} (h : e.key ≠ key) (expiresMs : UInt32) :
    e.refreshed key expiresMs = e := if_neg h

/-- The packets that took a slot, newest first, after one more was overheard. -/
def recordPair (log : List OpfwdEntry) (key : WireKey) (nowMs : UInt32) : List OpfwdEntry :=
  if ∃ e ∈ log.take opfwdSuppressSize, e.key = key then
    log.map (OpfwdEntry.refreshed key (nowMs + opfwdSuppressExpiryMs))
  else ⟨key.1, key.2, nowMs + opfwdSuppressExpiryMs⟩ :: log

/-- What is among the last of the log then: the packet with its new expiry, and others as they
were. -/
theorem mem_take_recordPair {log : List OpfwdEntry} {key : WireKey} {nowMs : UInt32}
    {e : OpfwdEntry} (h : e ∈ (recordPair log key nowMs).take opfwdSuppressSize) :
    (e.key = key ∧ e.expiresMs = nowMs + opfwdSuppressExpiryMs) ∨
      (e.key ≠ key ∧ e ∈ log.take opfwdSuppressSize) := by
  rw [recordPair] at h
  split_ifs at h with hmem
  · rw [← List.map_take] at h
    obtain ⟨x, hx, rfl⟩ := List.mem_map.mp h
    by_cases hkey : x.key = key
    · exact Or.inl ⟨(key_refreshed _ _ x).trans hkey, by rw [OpfwdEntry.refreshed, if_pos hkey]⟩
    · rw [refreshed_of_ne hkey]
      exact Or.inr ⟨hkey, hx⟩
  · rcases List.mem_cons.mp h with rfl | hold
    · exact Or.inl ⟨rfl, rfl⟩
    · have htake : e ∈ log.take opfwdSuppressSize :=
        List.take_subset_take_left log (Nat.le_succ _) hold
      exact Or.inr ⟨fun hkey => hmem ⟨e, htake, hkey⟩, htake⟩

/-- The packet that was overheard is among the last of the log. -/
theorem exists_mem_recordPair (log : List OpfwdEntry) (key : WireKey) (nowMs : UInt32) :
    ∃ e ∈ (recordPair log key nowMs).take opfwdSuppressSize, e.key = key := by
  rw [recordPair]
  split_ifs with hmem
  · obtain ⟨e, he, hkey⟩ := hmem
    rw [← List.map_take]
    exact ⟨_, List.mem_map_of_mem he, (key_refreshed _ _ e).trans hkey⟩
  · exact ⟨_, List.mem_cons_self, rfl⟩

/-- The ring holds the last packets that took a slot, each of them once. -/
structure OpfwdSuppress.Follows (tbl : OpfwdSuppress) (log : List OpfwdEntry) : Prop where
  holds : RingLog.Holds OpfwdEntry.empty log tbl.entries tbl.nextWrite.toNat
  once : OneEach (fun e => e.srcId ≠ 0) OpfwdEntry.key tbl.entries

theorem follows_init : OpfwdSuppress.init.Follows [] where
  holds := RingLog.holds_replicate (by decide)
  once := by
    intro i j x y hx _ hvx
    exact absurd (congrArg OpfwdEntry.srcId (List.eq_of_mem_replicate (List.mem_of_getElem? hx))) hvx

variable {tbl : OpfwdSuppress} {log : List OpfwdEntry} {key : WireKey}

/-- What is in the ring. -/
theorem OpfwdSuppress.Follows.mem_iff (h : tbl.Follows log) {e : OpfwdEntry} (he : e.srcId ≠ 0) :
    e ∈ tbl.entries ↔ e ∈ log.take opfwdSuppressSize := by
  have hne : e ≠ OpfwdEntry.empty := fun heq => he (congrArg OpfwdEntry.srcId heq)
  rw [h.holds.mem_iff hne, tbl.length_entries]

theorem srcId_ne_zero_of_key {e : OpfwdEntry} (hkey : key.1 ≠ 0) (he : e.key = key) :
    e.srcId ≠ 0 := by
  rw [← he] at hkey
  exact hkey

/-- **What a check finds**: the packet is among the last that took a slot, and has not expired. -/
theorem OpfwdSuppress.Follows.check_iff (h : tbl.Follows log) (hkey : key.1 ≠ 0)
    (nowMs : UInt32) : opfwdSuppressCheck tbl key.1 key.2 nowMs = true ↔
      ∃ e ∈ log.take opfwdSuppressSize, e.key = key ∧ e.Fresh nowMs := by
  rw [opfwdSuppressCheck, if_neg hkey, List.any_eq_true]
  constructor
  · rintro ⟨e, he, hcheck⟩
    obtain ⟨hsrc, hpkt, hfresh⟩ := of_decide_eq_true hcheck
    exact ⟨e, (h.mem_iff (hsrc ▸ hkey)).mp he, Prod.ext hsrc hpkt, hfresh⟩
  · rintro ⟨e, he, rfl, hfresh⟩
    exact ⟨e, (h.mem_iff hkey).mpr he, decide_eq_true ⟨rfl, rfl, hfresh⟩⟩

/-! ### One more packet -/

theorem refreshScan_of_not_mem {expiresMs : UInt32} {es : List OpfwdEntry}
    (h : ∀ e ∈ es, e.key ≠ key) : refreshScan key.1 key.2 expiresMs es = none := by
  induction es with
  | nil => rfl
  | cons e es ih =>
    have hhead : ¬(e.srcId = key.1 ∧ e.pktId = key.2) := fun heq =>
      h e List.mem_cons_self (Prod.ext heq.1 heq.2)
    rw [refreshScan, if_neg hhead, ih fun e he => h e (List.mem_cons_of_mem _ he)]
    rfl

/-- A packet that has a slot, and only one, is refreshed there. -/
theorem refreshScan_of_mem {expiresMs : UInt32} (hkey : key.1 ≠ 0) {es : List OpfwdEntry}
    (hone : OneEach (fun e => e.srcId ≠ 0) OpfwdEntry.key es) (h : ∃ e ∈ es, e.key = key) :
    refreshScan key.1 key.2 expiresMs es = some (es.map (OpfwdEntry.refreshed key expiresMs)) := by
  induction es with
  | nil => simp at h
  | cons e es ih =>
    obtain ⟨hrest, hfirst⟩ := oneEach_cons.mp hone
    rw [refreshScan, List.map_cons]
    by_cases he : e.key = key
    · have hothers : es.map (OpfwdEntry.refreshed key expiresMs) = es := by
        refine (List.map_congr_left fun y hy => ?_).trans (List.map_id es)
        refine refreshed_of_ne (fun hy' => ?_) expiresMs
        exact hfirst (srcId_ne_zero_of_key hkey he) y hy (srcId_ne_zero_of_key hkey hy')
          (hy'.trans he.symm)
      rw [if_pos ⟨congrArg Prod.fst he, congrArg Prod.snd he⟩, hothers, OpfwdEntry.refreshed,
        if_pos he]
    · have hhead : ¬(e.srcId = key.1 ∧ e.pktId = key.2) := fun heq => he (Prod.ext heq.1 heq.2)
      obtain ⟨y, hy, hy'⟩ := h
      have hmem : ∃ e ∈ es, e.key = key := by
        rcases List.mem_cons.mp hy with rfl | hy
        · exact absurd hy' he
        · exact ⟨y, hy, hy'⟩
      rw [if_neg hhead, ih hrest hmem, refreshed_of_ne he]
      rfl

theorem oneEach_map_refreshed {expiresMs : UInt32} {es : List OpfwdEntry}
    (h : OneEach (fun e => e.srcId ≠ 0) OpfwdEntry.key es) :
    OneEach (fun e => e.srcId ≠ 0) OpfwdEntry.key
      (es.map (OpfwdEntry.refreshed key expiresMs)) := by
  intro i j x y hx hy hvx hvy hxy
  rw [List.getElem?_map] at hx hy
  obtain ⟨x₀, hx₀, rfl⟩ := Option.map_eq_some_iff.mp hx
  obtain ⟨y₀, hy₀, rfl⟩ := Option.map_eq_some_iff.mp hy
  rw [srcId_refreshed] at hvx hvy
  rw [key_refreshed, key_refreshed] at hxy
  exact h hx₀ hy₀ hvx hvy hxy

/-- **One more packet** keeps the ring at the end of the log. -/
theorem OpfwdSuppress.Follows.add (h : tbl.Follows log) (hkey : key.1 ≠ 0) (nowMs : UInt32) :
    (opfwdSuppressAdd tbl key.1 key.2 nowMs).Follows (recordPair log key nowMs) := by
  have hiff : (∃ e ∈ tbl.entries, e.key = key) ↔
      ∃ e ∈ log.take opfwdSuppressSize, e.key = key := by
    refine exists_congr fun e => and_congr_left fun he => ?_
    exact h.mem_iff (srcId_ne_zero_of_key hkey he)
  rw [opfwdSuppressAdd, if_neg hkey, recordPair]
  split
  · rename_i entries hscan
    -- a packet with a slot
    have hmem : ∃ e ∈ tbl.entries, e.key = key := by
      by_contra hnone
      push Not at hnone
      rw [refreshScan_of_not_mem hnone] at hscan
      exact nomatch hscan
    rw [refreshScan_of_mem hkey h.once hmem] at hscan
    obtain rfl := Option.some.inj hscan
    rw [if_pos (hiff.mp hmem)]
    refine ⟨h.holds.map (refreshed_of_ne (fun heq => hkey ?_) _), oneEach_map_refreshed h.once⟩
    rw [← heq]
    rfl
  · rename_i hscan
    -- a packet without one takes the next slot
    have hnone : ¬∃ e ∈ tbl.entries, e.key = key := by
      intro hmem
      rw [refreshScan_of_mem hkey h.once hmem] at hscan
      exact nomatch hscan
    have hlen : tbl.entries.length = 16 := tbl.length_entries
    have hhead : tbl.nextWrite.toNat < 16 := hlen ▸ h.holds.head_lt
    have hnext : ((tbl.nextWrite + 1) % 16).toNat = (tbl.nextWrite.toNat + 1) % 16 := by
      rw [UInt8.toNat_mod, UInt8.toNat_add]
      change (tbl.nextWrite.toNat + 1) % 256 % 16 = _
      rw [Nat.mod_eq_of_lt (by omega : tbl.nextWrite.toNat + 1 < 256)]
    rw [if_neg (fun hlog => hnone (hiff.mpr hlog))]
    refine ⟨?_, ?_⟩
    · have hpush := h.holds.push ⟨key.1, key.2, nowMs + opfwdSuppressExpiryMs⟩
      rw [hlen] at hpush
      dsimp only
      rw [hnext]
      exact hpush
    · refine (writes_set h.holds.head_lt).oneEach h.once fun i y hi hy hvy hy' => ?_
      rw [List.getElem?_set_ne (Ne.symm hi)] at hy
      exact hnone ⟨y, List.mem_of_getElem? hy, hy'⟩

end Rivr
