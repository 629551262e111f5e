import Rivr.ForMathlib.RecentLog
import Rivr.ForMathlib.SlotTable
import Mathlib.Tactic.SplitIfs

/-!
# The dedupe cache

`firmware_core/routing.c`: a ring of the last 64 accepted wire identities `(srcId, pktId)`,
each of them forgotten after a minute. A source id of zero marks an empty slot, so a frame
with that source id is never found again.

The ring's purpose is the log of what it accepted: `Remembers` says that the last 64 entries
of the log are in the ring, except those older than the expiry time. `routingDedupeCheck`
keeps it (`remembers_routingDedupeCheck`), and so never accepts a key that is among the last
64 accepted and no more than a minute old (`spaced_cons`).

A clock of the code is a 32-bit counter of milliseconds that wraps; here time is a natural
number and the code reads it modulo `2 ^ 32`.
-/

namespace Rivr

/-! ### The cache -/

def dedupeCacheSize : ℕ := 64
def dedupeExpiryMs : UInt32 := 60000

/-- `dedupe_entry_t`. -/
structure DedupeEntry where
  srcId : UInt32
  pktId : UInt16
  seenAtMs : UInt32
  deriving DecidableEq, Repr

/-- A zeroed slot. -/
def DedupeEntry.empty : DedupeEntry := ⟨0, 0, 0⟩

/-- `dedupe_cache_t`. -/
structure DedupeCache where
  entries : List DedupeEntry
  head : UInt8
  length_entries : entries.length = dedupeCacheSize
  head_lt : head.toNat < dedupeCacheSize

/-- `routing_dedupe_init`. -/
def routingDedupeInit : DedupeCache where
  entries := List.replicate dedupeCacheSize .empty
  head := 0
  length_entries := List.length_replicate
  head_lt := by decide

/-- The entry is older than the expiry time. -/
def DedupeEntry.Expired (e : DedupeEntry) (nowMs : UInt32) : Prop :=
  nowMs - e.seenAtMs > dedupeExpiryMs

instance (e : DedupeEntry) (nowMs : UInt32) : Decidable (e.Expired nowMs) :=
  inferInstanceAs (Decidable (_ > _))

/-- The loop of `routing_dedupe_check`: whether a match was found, and the slots it leaves.
Expired slots are zeroed on the way; the slots after a match are not looked at. -/
def dedupeScan (srcId : UInt32) (pktId : UInt16) (nowMs : UInt32) :
    List DedupeEntry → Bool × List DedupeEntry
  | [] => (false, [])
  | e :: es =>
    if e.srcId = 0 then
      let (found, es') := dedupeScan srcId pktId nowMs es
      (found, e :: es')
    else if e.Expired nowMs then
      let (found, es') := dedupeScan srcId pktId nowMs es
      (found, .empty :: es')
    else if e.srcId = srcId ∧ e.pktId = pktId then (true, e :: es)
    else
      let (found, es') := dedupeScan srcId pktId nowMs es
      (found, e :: es')

@[simp]
theorem dedupeScan_length (srcId : UInt32) (pktId : UInt16) (nowMs : UInt32)
    (es : List DedupeEntry) : (dedupeScan srcId pktId nowMs es).2.length = es.length := by
  induction es with
  | nil => rfl
  | cons e es ih =>
    unfold dedupeScan
    dsimp only
    split_ifs <;> simp [ih]

/-- The ring head after one more insertion. -/
def nextHead (head : UInt8) : UInt8 := (head + 1) &&& 63

theorem nextHead_toNat (head : UInt8) : (nextHead head).toNat = (head.toNat + 1) % 64 := by
  have hand : ∀ n : ℕ, n &&& 63 = n % 64 := fun n => Nat.and_two_pow_sub_one_eq_mod n 6
  simp only [nextHead, UInt8.toNat_and, UInt8.toNat_add, UInt8.reduceToNat, hand]
  omega

/-- `routing_dedupe_check`: `true` when the key is new, with the cache it leaves. -/
def routingDedupeCheck (cache : DedupeCache) (srcId : UInt32) (pktId : UInt16)
    (nowMs : UInt32) : Bool × DedupeCache :=
  if (dedupeScan srcId pktId nowMs cache.entries).1 then
    (false, { cache with
      entries := (dedupeScan srcId pktId nowMs cache.entries).2
      length_entries := by simp [cache.length_entries] })
  else
    (true, {
      entries := (dedupeScan srcId pktId nowMs cache.entries).2.set cache.head.toNat
        ⟨srcId, pktId, nowMs⟩
      head := nextHead cache.head
      length_entries := by simp [cache.length_entries]
      head_lt := by
        rw [nextHead_toNat]
        exact Nat.mod_lt _ (by decide) })

/-! ### The scan -/

/-- A slot that holds a key and is not expired. -/
def DedupeEntry.Live (e : DedupeEntry) (nowMs : UInt32) : Prop :=
  e.srcId ≠ 0 ∧ ¬e.Expired nowMs

/-- The scan changes no live slot. -/
theorem dedupeScan_getElem?_of_live {srcId : UInt32} {pktId : UInt16} {nowMs : UInt32}
    {es : List DedupeEntry} {i : ℕ} {e : DedupeEntry} (he : es[i]? = some e)
    (hlive : e.Live nowMs) : (dedupeScan srcId pktId nowMs es).2[i]? = some e := by
  induction es generalizing i with
  | nil => simp at he
  | cons a es ih =>
    unfold dedupeScan
    dsimp only
    cases i with
    | zero =>
      obtain rfl : a = e := by simpa using he
      rw [if_neg hlive.1, if_neg hlive.2]
      split_ifs <;> rfl
    | succ i =>
      have he' : es[i]? = some e := by simpa using he
      split_ifs <;> simp [ih he', he']

/-- A scan that finds nothing met no live slot with the key. -/
theorem not_live_of_dedupeScan {srcId : UInt32} {pktId : UInt16} {nowMs : UInt32}
    {es : List DedupeEntry} (h : (dedupeScan srcId pktId nowMs es).1 = false)
    {e : DedupeEntry} (he : e ∈ es) (hkey : e.srcId = srcId ∧ e.pktId = pktId) :
    ¬e.Live nowMs := by
  induction es with
  | nil => simp at he
  | cons a es ih =>
    unfold dedupeScan at h
    dsimp only at h
    rintro ⟨h₀, hexp⟩
    rcases List.mem_cons.mp he with rfl | he'
    · rw [if_neg h₀, if_neg hexp, if_pos hkey] at h
      simp at h
    · split_ifs at h with h₁ h₂ h₃
      · exact ih h he' ⟨h₀, hexp⟩
      · exact ih h he' ⟨h₀, hexp⟩
      · exact ih h he' ⟨h₀, hexp⟩

/-- What a scan finds is in the cache. -/
theorem exists_of_dedupeScan {srcId : UInt32} {pktId : UInt16} {nowMs : UInt32}
    {es : List DedupeEntry} (h : (dedupeScan srcId pktId nowMs es).1 = true) :
    ∃ e ∈ es, e.srcId ≠ 0 ∧ e.srcId = srcId ∧ e.pktId = pktId := by
  induction es with
  | nil => exact absurd h Bool.false_ne_true
  | cons e es ih =>
    rw [dedupeScan] at h
    dsimp only at h
    split_ifs at h with hempty hexpired hkey
    · obtain ⟨e', he', hkey⟩ := ih h
      exact ⟨e', List.mem_cons_of_mem _ he', hkey⟩
    · obtain ⟨e', he', hkey⟩ := ih h
      exact ⟨e', List.mem_cons_of_mem _ he', hkey⟩
    · exact ⟨e, List.mem_cons_self, hempty, hkey⟩
    · obtain ⟨e', he', hkey⟩ := ih h
      exact ⟨e', List.mem_cons_of_mem _ he', hkey⟩

/-- A scan zeroes slots at most. -/
theorem shrinks_dedupeScan (srcId : UInt32) (pktId : UInt16) (nowMs : UInt32)
    (es : List DedupeEntry) :
    SlotTable.Shrinks (fun e => e.srcId ≠ 0) es (dedupeScan srcId pktId nowMs es).2 := by
  induction es with
  | nil => exact SlotTable.Shrinks.refl _
  | cons e es ih =>
    rw [dedupeScan]
    dsimp only
    split_ifs
    · exact ih.cons fun _ => rfl
    · exact ih.cons fun hempty => absurd rfl hempty
    · exact SlotTable.Shrinks.refl _
    · exact ih.cons fun _ => rfl

/-! ### The log of accepted keys -/

/-- The key the cache is about. -/
abbrev WireKey := UInt32 × UInt16

/-- The slot that an insertion at time `t` fills. -/
def slotOf (k : WireKey) (t : ℕ) : DedupeEntry := ⟨k.1, k.2, UInt32.ofNat t⟩

/-- What the cache is for: it holds the last 64 accepted keys, except those that are older
than the expiry time. The log is newest first, with the time of each acceptance. -/
structure Remembers (now : ℕ) (log : List (WireKey × ℕ)) (cache : DedupeCache) : Prop where
  /-- No acceptance lies in the future. -/
  past : ∀ x ∈ log, x.2 ≤ now
  /-- The `i`-th last acceptance sits `i + 1` places behind the head. -/
  recent : ∀ i < dedupeCacheSize, ∀ k t, log[i]? = some (k, t) → k.1 ≠ 0 →
    cache.entries[(cache.head.toNat + 63 - i) % 64]? = some (slotOf k t) ∨ 60000 < now - t

/-- A cache remembers the empty log, whatever it holds. -/
theorem remembers_nil (now : ℕ) (cache : DedupeCache) : Remembers now [] cache :=
  ⟨by simp, by simp⟩

/-- Time passing only makes entries older. -/
theorem Remembers.mono {now now' : ℕ} {log : List (WireKey × ℕ)} {cache : DedupeCache}
    (h : Remembers now log cache) (hle : now ≤ now') : Remembers now' log cache where
  past x hx := (h.past x hx).trans hle
  recent i hi k t hlog hk := (h.recent i hi k t hlog hk).imp_right fun hw => by omega

/-- Within the expiry time the 32-bit age is the true age. -/
theorem not_expired_slotOf {k : WireKey} {t now : ℕ} (hle : t ≤ now) (hwin : ¬60000 < now - t) :
    ¬(slotOf k t).Expired (UInt32.ofNat now) := by
  have hage : (UInt32.ofNat now - UInt32.ofNat t).toNat = now - t := by
    rw [UInt32.toNat_sub, UInt32.toNat_ofNat', UInt32.toNat_ofNat']
    omega
  simp only [DedupeEntry.Expired, slotOf, dedupeExpiryMs, gt_iff_lt, UInt32.lt_iff_toNat_lt, hage,
    UInt32.reduceToNat]
  omega

theorem live_slotOf {k : WireKey} {t now : ℕ} (hk : k.1 ≠ 0) (hle : t ≤ now)
    (hwin : ¬60000 < now - t) : (slotOf k t).Live (UInt32.ofNat now) :=
  ⟨hk, not_expired_slotOf hle hwin⟩

/-- A duplicate leaves the log as it is. -/
theorem Remembers.check_false {now : ℕ} {log : List (WireKey × ℕ)} {cache : DedupeCache}
    {k : WireKey} (h : Remembers now log cache)
    (hdup : (routingDedupeCheck cache k.1 k.2 (UInt32.ofNat now)).1 = false) :
    Remembers now log (routingDedupeCheck cache k.1 k.2 (UInt32.ofNat now)).2 := by
  unfold routingDedupeCheck at hdup ⊢
  split_ifs at hdup ⊢ with hfound
  · refine ⟨h.past, fun i hi k' t hlog hk' => ?_⟩
    rcases h.recent i hi k' t hlog hk' with hslot | hwin
    · by_cases hwin : 60000 < now - t
      · exact Or.inr hwin
      · have hle : t ≤ now := h.past _ (List.mem_of_getElem? hlog)
        exact Or.inl (dedupeScan_getElem?_of_live hslot (live_slotOf hk' hle hwin))
    · exact Or.inr hwin

/-- A new key enters the log, and nothing of the last 64 is overwritten. -/
theorem Remembers.check_true {now : ℕ} {log : List (WireKey × ℕ)} {cache : DedupeCache}
    {k : WireKey} (h : Remembers now log cache)
    (hnew : (routingDedupeCheck cache k.1 k.2 (UInt32.ofNat now)).1 = true) :
    Remembers now ((k, now) :: log)
      (routingDedupeCheck cache k.1 k.2 (UInt32.ofNat now)).2 := by
  have hhead : cache.head.toNat < 64 := cache.head_lt
  have hlen : cache.entries.length = 64 := cache.length_entries
  unfold routingDedupeCheck at hnew ⊢
  split_ifs at hnew ⊢ with hfound
  refine ⟨by simpa using h.past, fun i hi k' t hlog hk' => ?_⟩
  simp only [dedupeCacheSize] at hi
  simp only [nextHead_toNat]
  cases i with
  | zero =>
    -- the entry just written is one place behind the new head
    obtain ⟨rfl, rfl⟩ : k = k' ∧ now = t := by simpa using hlog
    have hidx : ((cache.head.toNat + 1) % 64 + 63 - 0) % 64 = cache.head.toNat := by omega
    rw [hidx, List.getElem?_set_self (by simp [hlen, hhead])]
    exact Or.inl rfl
  | succ i =>
    have hlog' : log[i]? = some (k', t) := by simpa using hlog
    have hidx : ((cache.head.toNat + 1) % 64 + 63 - (i + 1)) % 64 =
        (cache.head.toNat + 63 - i) % 64 := by omega
    have hne : cache.head.toNat ≠ (cache.head.toNat + 63 - i) % 64 := by omega
    rw [hidx, List.getElem?_set_ne hne]
    rcases h.recent i (by simp only [dedupeCacheSize]; omega) k' t hlog' hk' with hslot | hwin
    · by_cases hwin : 60000 < now - t
      · exact Or.inr hwin
      · have hle : t ≤ now := h.past _ (List.mem_of_getElem? hlog')
        exact Or.inl (dedupeScan_getElem?_of_live hslot (live_slotOf hk' hle hwin))
    · exact Or.inr hwin

/-- **What acceptance means.** A key is accepted only when it is not among the last 64
accepted ones, or is there but more than a minute old. -/
theorem Remembers.window_lt_of_check {now : ℕ} {log : List (WireKey × ℕ)} {cache : DedupeCache}
    {k : WireKey} (h : Remembers now log cache)
    (hnew : (routingDedupeCheck cache k.1 k.2 (UInt32.ofNat now)).1 = true) (hk : k.1 ≠ 0)
    {i t : ℕ} (hi : i < dedupeCacheSize) (hlog : log[i]? = some (k, t)) : 60000 < now - t := by
  unfold routingDedupeCheck at hnew
  split_ifs at hnew with hfound
  rcases h.recent i hi k t hlog hk with hslot | hwin
  · by_contra hwin
    have hle : t ≤ now := h.past _ (List.mem_of_getElem? hlog)
    have hmiss : (dedupeScan k.1 k.2 (UInt32.ofNat now) cache.entries).1 = false := by
      simpa using hfound
    exact not_live_of_dedupeScan hmiss (List.mem_of_getElem? hslot) ⟨rfl, rfl⟩
      (live_slotOf hk hle hwin)
  · exact hwin

/-- The log of a cache: it remembers the log, the log's times are in order, and a key comes
back only after the cache forgot it. -/
structure DedupeLog (now : ℕ) (log : List (WireKey × ℕ)) (cache : DedupeCache) : Prop where
  remembers : Remembers now log cache
  sorted : RecentLog.Sorted log
  spaced : RecentLog.Spaced (fun k : WireKey => k.1 ≠ 0) dedupeCacheSize 60000 log

theorem dedupeLog_nil (now : ℕ) (cache : DedupeCache) : DedupeLog now [] cache :=
  ⟨remembers_nil now cache, List.Pairwise.nil, trivial⟩

theorem DedupeLog.mono {now now' : ℕ} {log : List (WireKey × ℕ)} {cache : DedupeCache}
    (h : DedupeLog now log cache) (hle : now ≤ now') : DedupeLog now' log cache :=
  ⟨h.remembers.mono hle, h.sorted, h.spaced⟩

/-- The log after a check: longer by the key exactly when it was accepted. -/
def logAfter (accepted : Bool) (k : WireKey) (now : ℕ) (log : List (WireKey × ℕ)) :
    List (WireKey × ℕ) :=
  if accepted then (k, now) :: log else log

/-- `routing_dedupe_check` keeps the log. -/
theorem DedupeLog.check {now : ℕ} {log : List (WireKey × ℕ)} {cache : DedupeCache}
    (h : DedupeLog now log cache) (k : WireKey) :
    DedupeLog now
      (logAfter (routingDedupeCheck cache k.1 k.2 (UInt32.ofNat now)).1 k now log)
      (routingDedupeCheck cache k.1 k.2 (UInt32.ofNat now)).2 := by
  cases hres : (routingDedupeCheck cache k.1 k.2 (UInt32.ofNat now)).1 with
  | false => exact ⟨h.remembers.check_false hres, h.sorted, h.spaced⟩
  | true =>
    refine ⟨h.remembers.check_true hres, ?_, ?_, h.spaced⟩
    · exact List.pairwise_cons.mpr ⟨h.remembers.past, h.sorted⟩
    · exact fun hk i hi t hlog => h.remembers.window_lt_of_check hres hk hi hlog

end Rivr
