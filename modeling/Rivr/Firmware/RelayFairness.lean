import Rivr.Firmware.AirtimeSched
import Rivr.ForMathlib.SlotTable

/-!
# Relay fairness

What `airtime_sched_check_consume` admits of the relayed frames of one source. Control traffic and
frames without a source are not charged to it. A bucket that makes room for another source is lost
with what it had spent, and the source starts again from a full one. So in any interval a source is
charged at most one capacity, another one for each bucket it loses there before that is full again,
and the refill of the interval (`relay_fairness`), for any number of sources in any order.
-/

namespace Rivr

open SlotTable TokenBucket

/-! ### Sources in the log -/

/-- The source loses its bucket while that is not full. -/
def LosesBucket (nb nb' : List AirtimeNbBucket) (srcId nowMs : UInt32) : Prop :=
  (∃ b ∈ nb, b.nodeId = srcId ∧ (nbRefill b nowMs).tokensUs < airtimeNbCapacityUs) ∧
    ∀ b ∈ nb', b.nodeId ≠ srcId

instance LosesBucket.decidable (nb nb' : List AirtimeNbBucket) (srcId nowMs : UInt32) :
    Decidable (LosesBucket nb nb' srcId nowMs) := inferInstanceAs (Decidable (_ ∧ _))

/-- The log of the gate, and for each source the times at which it lost its bucket. -/
structure RelayLog extends AirtimeLog where
  lost : UInt32 → List ℕ

def RelayLog.init : RelayLog := ⟨.init, fun _ => []⟩

/-- One call. -/
def RelayLog.call (l : RelayLog) (c : AirtimeCall) : RelayLog where
  toAirtimeLog := l.toAirtimeLog.call c
  lost srcId :=
    if LosesBucket l.ctx.nb (l.gate c).2.nb srcId (UInt32.ofNat (l.timeOf c)) then
      l.timeOf c :: l.lost srcId
    else l.lost srcId

/-- After the calls. -/
def RelayLog.after (calls : List AirtimeCall) : RelayLog := calls.foldl RelayLog.call .init

/-- When and how much was admitted of the relayed frames of the source. -/
def RelayLog.relayed (l : RelayLog) (srcId : UInt32) : List (ℕ × ℕ) :=
  (l.admitted.filter fun a => a.frame.relaySource = some srcId).map fun a => (a.atMs, a.toaUs)

/-- Of these, what is not control traffic. -/
def RelayLog.relayCharges (l : RelayLog) (srcId : UInt32) : List (ℕ × ℕ) :=
  (l.admitted.filter fun a =>
    a.frame.relaySource = some srcId ∧ rivrPktClassify a.frame.pktType ≠ .control).map
      fun a => (a.atMs, a.toaUs)

/-! ### The invariant -/

/-- No two slots are for the same source. -/
def OneBucketEach (nb : List AirtimeNbBucket) : Prop :=
  OneEach (fun b => b.nodeId ≠ 0) AirtimeNbBucket.nodeId nb

/-- The level of a source: that of its bucket, or full where it has none. -/
def SourceLevel (nb : List AirtimeNbBucket) (srcId : UInt32) (level since : ℕ) : Prop :=
  (∃ b ∈ nb, b.nodeId = srcId ∧ b.tokensUs.toNat = level ∧ b.lastRefillMs = UInt32.ofNat since) ∨
    (∀ b ∈ nb, b.nodeId ≠ srcId) ∧ level = airtimeNbCapacityUs.toNat

/-- The bucket of the source, as a token bucket. -/
def SourceSpends (nb : List AirtimeNbBucket) (srcId : UInt32) (nowMs : ℕ)
    (charges : List (ℕ × ℕ)) (lost : List ℕ) : Prop :=
  ∃ level, ∃ since ≤ nowMs, SourceLevel nb srcId level since ∧
    Spends airtimeNbCapacityUs.toNat airtimeNbRefillUsPerMs.toNat level since charges lost

variable {nb nb' : List AirtimeNbBucket} {srcId srcId' : UInt32} {nowMs nowMs' : ℕ}
  {charges : List (ℕ × ℕ)} {lost : List ℕ}

theorem SourceSpends.later (h : SourceSpends nb srcId nowMs charges lost) (hnow : nowMs ≤ nowMs') :
    SourceSpends nb srcId nowMs' charges lost := by
  obtain ⟨level, since, hsince, hlevel, hspends⟩ := h
  exact ⟨level, since, hsince.trans hnow, hlevel, hspends⟩

theorem not_losesBucket_self (nb : List AirtimeNbBucket) (srcId nowMs : UInt32) :
    ¬LosesBucket nb nb srcId nowMs := by
  rintro ⟨⟨b, hb, hid, -⟩, hnone⟩
  exact hnone b hb hid

/-! ### Writing the bucket of a source -/

section Write

variable {slot : ℕ} {x : AirtimeNbBucket}

theorem OneBucketEach.set (h : OneBucketEach nb) (hnb : nb.length = airtimeNbMax)
    (t : UInt32) (hx : x.nodeId = srcId) (hne : srcId ≠ 0) :
    OneBucketEach (nb.set (nbGetOrAlloc nb srcId t).1 x) := by
  obtain ⟨hlt, hfound⟩ := nbGetOrAlloc_spec hnb srcId t
  refine (writes_set hlt).oneEach h ?_
  intro i y hi hy hv heq
  rw [List.getElem?_set_ne (Ne.symm hi)] at hy
  rw [hx] at heq
  rcases hfound with ⟨hget, hid⟩ | ⟨hnone, -⟩
  · exact hi (h hy hget hv (fun hzero => hne (hid.symm.trans hzero)) (heq.trans hid.symm))
  · exact hnone y (List.mem_of_getElem? hy) heq

/-- The buckets of other sources stay as they are, but for one that may be lost. -/
theorem SourceSpends.set_of_ne (hone : OneBucketEach nb) (hsrc : srcId ≠ 0)
    (h : SourceSpends nb srcId nowMs charges lost) (hx : x.nodeId ≠ srcId) :
    SourceSpends (nb.set slot x) srcId nowMs charges
      (if LosesBucket nb (nb.set slot x) srcId (UInt32.ofNat nowMs) then nowMs :: lost
        else lost) := by
  obtain ⟨level, since, hsince, ⟨b, hb, hid, htokens, hlast⟩ | ⟨hnone, hfull⟩, hspends⟩ := h
  · by_cases hkept : ∃ b' ∈ nb.set slot x, b'.nodeId = srcId
    · -- the slot written is not that of the source
      obtain ⟨b', hb', hid'⟩ := hkept
      have hmem : b' ∈ nb := by
        rcases List.mem_or_eq_of_mem_set hb' with hmem | rfl
        · exact hmem
        · exact absurd hid' hx
      have heq : b' = b := hone.eq hmem hb (hid'.symm ▸ hsrc) (hid.symm ▸ hsrc) (hid'.trans hid.symm)
      rw [if_neg fun hloses => hloses.2 b' hb' hid']
      exact ⟨level, since, hsince, Or.inl ⟨b, heq ▸ hb', hid, htokens, hlast⟩, hspends⟩
    · have hgone : ∀ b' ∈ nb.set slot x, b'.nodeId ≠ srcId := fun b' hb' hid' => hkept ⟨b', hb', hid'⟩
      refine ⟨_, nowMs, le_rfl, Or.inr ⟨hgone, rfl⟩, ?_⟩
      split_ifs with hloses
      · exact hspends.reset hsince
      · -- a bucket that is full again may go
        have hrefilled : airtimeNbCapacityUs ≤ (nbRefill b (UInt32.ofNat nowMs)).tokensUs :=
          UInt32.not_lt.mp fun hlt => hloses ⟨⟨b, hb, hid, hlt⟩, hgone⟩
        have hadd := AirtimeBucket.refill_tokens_le hlast hsince airtimeNbRefillUsPerMs
        rw [htokens] at hadd
        exact hspends.refill hsince le_rfl ((UInt32.le_iff_toNat_le.mp hrefilled).trans hadd)
  · have hgone : ∀ b' ∈ nb.set slot x, b'.nodeId ≠ srcId := by
      intro b' hb'
      rcases List.mem_or_eq_of_mem_set hb' with hmem | rfl
      · exact hnone b' hmem
      · exact hx
    rw [if_neg fun hloses => by
      obtain ⟨b, hb, hid, -⟩ := hloses.1
      exact hnone b hb hid]
    exact ⟨level, since, hsince, Or.inr ⟨hgone, hfull⟩, hspends⟩

/-- The bucket that the source of a frame gets, as a token bucket. -/
theorem SourceSpends.refilled (hone : OneBucketEach nb) (hnb : nb.length = airtimeNbMax)
    (hsrc : srcId ≠ 0) (h : SourceSpends nb srcId nowMs charges lost) :
    Spends airtimeNbCapacityUs.toNat airtimeNbRefillUsPerMs.toNat
      (nbRefill (nbGetOrAlloc nb srcId (UInt32.ofNat nowMs)).2 (UInt32.ofNat nowMs)).tokensUs.toNat
      nowMs charges lost := by
  obtain ⟨level, since, hsince, hlevel, hspends⟩ := h
  have hcap : ∀ b : AirtimeNbBucket, b.tokensUs.toNat ≤ airtimeNbCapacityUs.toNat :=
    fun b => UInt32.le_iff_toNat_le.mp b.tokens_le
  obtain ⟨-, ⟨hget, hid⟩ | ⟨hnone, hfresh⟩⟩ := nbGetOrAlloc_spec hnb srcId (UInt32.ofNat nowMs)
  · rcases hlevel with ⟨b, hb, hidb, htokens, hlast⟩ | ⟨hnone, -⟩
    · have heq : (nbGetOrAlloc nb srcId (UInt32.ofNat nowMs)).2 = b :=
        hone.eq (List.mem_of_getElem? hget) hb (hid.symm ▸ hsrc) (hidb.symm ▸ hsrc)
          (hid.trans hidb.symm)
      have hadd := AirtimeBucket.refill_tokens_le hlast hsince airtimeNbRefillUsPerMs
      rw [htokens] at hadd
      rw [heq]
      exact hspends.refill hsince (hcap _) hadd
    · exact absurd hid (hnone _ (List.mem_of_getElem? hget))
  · rcases hlevel with ⟨b, hb, hidb, -, -⟩ | ⟨-, rfl⟩
    · exact absurd hidb (hnone b hb)
    · exact hspends.refill hsince (hcap _) ((hcap _).trans (Nat.le_add_right _ _))

/-- The source's own bucket, written at this time. -/
theorem sourceSpends_set (hslot : slot < nb.length) (hx : x.nodeId = srcId)
    (hlast : x.lastRefillMs = UInt32.ofNat nowMs)
    (h : Spends airtimeNbCapacityUs.toNat airtimeNbRefillUsPerMs.toNat x.tokensUs.toNat nowMs charges
      lost) :
    SourceSpends (nb.set slot x) srcId nowMs charges
      (if LosesBucket nb (nb.set slot x) srcId (UInt32.ofNat nowMs) then nowMs :: lost
        else lost) := by
  have hmem : x ∈ nb.set slot x := List.mem_set hslot x
  rw [if_neg fun hloses => hloses.2 x hmem hx]
  exact ⟨_, nowMs, le_rfl, Or.inl ⟨x, hmem, hx, rfl, hlast⟩, h⟩

end Write

/-! ### One call -/

/-- Every source's bucket is a token bucket. -/
structure RelayLog.Fair (l : RelayLog) : Prop where
  one : OneBucketEach l.ctx.nb
  spends : ∀ srcId ≠ 0,
    SourceSpends l.ctx.nb srcId l.nowMs (l.relayCharges srcId) (l.lost srcId)

theorem fair_init : RelayLog.init.Fair where
  one := by
    intro i j x y hx hy hvx
    have hmem : x ∈ List.replicate airtimeNbMax AirtimeNbBucket.free := List.mem_of_getElem? hx
    rw [List.eq_of_mem_replicate hmem] at hvx
    exact absurd rfl hvx
  spends srcId hsrc := by
    refine ⟨_, 0, le_rfl, Or.inr ⟨?_, rfl⟩, spends_init le_rfl⟩
    intro b hb hid
    rw [List.eq_of_mem_replicate hb] at hid
    exact hsrc hid.symm

section Call

variable {l : RelayLog} {c : AirtimeCall}

theorem relayCharges_call (l : RelayLog) (c : AirtimeCall) (srcId : UInt32) :
    (l.call c).relayCharges srcId =
      if (l.gate c).1 ∧ c.frame.relaySource = some srcId ∧
          rivrPktClassify c.frame.pktType ≠ .control then
        (l.timeOf c, c.toaUs.toNat) :: l.relayCharges srcId
      else l.relayCharges srcId := by
  rw [RelayLog.relayCharges, RelayLog.call, AirtimeLog.call]
  by_cases hgate : (l.gate c).1 <;>
    by_cases hin : c.frame.relaySource = some srcId ∧ rivrPktClassify c.frame.pktType ≠ .control <;>
      simp [hgate, hin, RelayLog.relayCharges]

theorem RelayLog.Fair.later (h : l.Fair) (c : AirtimeCall) (hsrc : srcId ≠ 0) :
    SourceSpends l.ctx.nb srcId (l.timeOf c) (l.relayCharges srcId) (l.lost srcId) :=
  (h.spends srcId hsrc).later (Nat.le_add_right _ _)

/-- A call that leaves the table alone and charges no source. -/
theorem RelayLog.Fair.call_same (h : l.Fair) {r : Bool × AirtimeCtx} (hgate : l.gate c = r)
    (hnb : r.2.nb = l.ctx.nb)
    (hnone : r.1 = true → ∀ srcId, c.frame.relaySource = some srcId →
      rivrPktClassify c.frame.pktType ≠ .control → srcId = 0) : (l.call c).Fair := by
  have hctx : (l.call c).ctx.nb = l.ctx.nb := (congrArg (fun r => r.2.nb) hgate).trans hnb
  refine ⟨?_, fun srcId hsrc => ?_⟩
  · rw [hctx]
    exact h.one
  · have hlost : (l.call c).lost srcId = l.lost srcId := by
      refine if_neg ?_
      rw [hgate, hnb]
      exact not_losesBucket_self _ _ _
    rw [hctx, hlost, relayCharges_call, if_neg]
    · exact h.later c hsrc
    · rw [hgate]
      rintro ⟨hcharged, hrelay, hcls⟩
      exact hsrc (hnone hcharged srcId hrelay hcls)

/-- A call that writes the bucket of the frame's source, after what it was charged. -/
theorem RelayLog.Fair.call_write (h : l.Fair) {r : Bool × AirtimeCtx} (hgate : l.gate c = r)
    (hcls : rivrPktClassify c.frame.pktType ≠ .control)
    (hrelay : c.frame.relaySource = some srcId) (hne : srcId ≠ 0) {x : AirtimeNbBucket}
    (hnb : r.2.nb =
      l.ctx.nb.set (nbGetOrAlloc l.ctx.nb srcId (UInt32.ofNat (l.timeOf c))).1 x)
    (hx : x.nodeId = srcId) (hlast : x.lastRefillMs = UInt32.ofNat (l.timeOf c))
    (hspends : Spends airtimeNbCapacityUs.toNat airtimeNbRefillUsPerMs.toNat x.tokensUs.toNat
      (l.timeOf c)
      (if r.1 then (l.timeOf c, c.toaUs.toNat) :: l.relayCharges srcId else l.relayCharges srcId)
      (l.lost srcId)) : (l.call c).Fair := by
  have hctx : (l.call c).ctx.nb = _ := (congrArg (fun r => r.2.nb) hgate).trans hnb
  refine ⟨?_, fun srcId' hsrc => ?_⟩
  · rw [hctx]
    exact h.one.set l.ctx.length_nb _ hx hne
  have hlost : (l.call c).lost srcId' =
      if LosesBucket l.ctx.nb (l.ctx.nb.set (nbGetOrAlloc l.ctx.nb srcId
          (UInt32.ofNat (l.timeOf c))).1 x) srcId' (UInt32.ofNat (l.timeOf c)) then
        l.timeOf c :: l.lost srcId'
      else l.lost srcId' := by
    rw [RelayLog.call, hgate, hnb]
  rw [hctx, hlost, relayCharges_call, hgate]
  by_cases hsame : srcId' = srcId
  · subst hsame
    have hcharges : (if r.1 = true ∧ c.frame.relaySource = some srcId' ∧
          rivrPktClassify c.frame.pktType ≠ .control then
        (l.timeOf c, c.toaUs.toNat) :: l.relayCharges srcId' else l.relayCharges srcId') =
        if r.1 then (l.timeOf c, c.toaUs.toNat) :: l.relayCharges srcId'
          else l.relayCharges srcId' := by
      simp [hrelay, hcls]
    rw [hcharges]
    exact sourceSpends_set (nbGetOrAlloc_spec l.ctx.length_nb _ _).1 hx hlast hspends
  · rw [if_neg]
    · refine (h.later c hsrc).set_of_ne h.one hsrc ?_
      rw [hx]
      exact Ne.symm hsame
    · -- a frame of another source charges nothing here
      rintro ⟨-, hrelay', -⟩
      exact hsame (Option.some.inj (hrelay'.symm.trans hrelay))

theorem RelayLog.Fair.call (h : l.Fair) (c : AirtimeCall) : (l.call c).Fair := by
  have hout := airtimeOutcome l.ctx c.frame c.toaUs (UInt32.ofNat (l.timeOf c))
  rw [← AirtimeLog.gate] at hout
  generalize hgate : l.gate c = r at hout
  have hid : ∀ srcId, (nbRefill (nbGetOrAlloc l.ctx.nb srcId (UInt32.ofNat (l.timeOf c))).2
      (UInt32.ofNat (l.timeOf c))).nodeId = srcId :=
    fun srcId => nbGetOrAlloc_nodeId l.ctx.length_nb srcId _
  have hlast : ∀ b : AirtimeNbBucket, (nbRefill b (UInt32.ofNat (l.timeOf c))).lastRefillMs =
      UInt32.ofNat (l.timeOf c) := fun b => AirtimeBucket.refill_lastRefillMs _ _ _
  rcases hout with hcls | hcls | ⟨hcls, hpaid, hsrc⟩ | ⟨hcls, hsrc, hne⟩ | ⟨hcls, hsrc, hne, hpaid, hnb⟩
  · exact h.call_same hgate rfl fun _ _ _ hcls' => absurd hcls hcls'
  · exact h.call_same hgate rfl fun hcharged => absurd hcharged Bool.false_ne_true
  · exact h.call_same hgate rfl fun _ srcId hrelay _ => hsrc srcId hrelay
  · exact h.call_write hgate hcls hsrc hne rfl (hid _) (hlast _)
      ((h.later c hne).refilled h.one l.ctx.length_nb hne)
  · obtain ⟨hle, htokens, hsame⟩ := AirtimeBucket.consume_eq_some hnb
    have hrefilled := (h.later c hne).refilled h.one l.ctx.length_nb hne
    refine h.call_write hgate hcls hsrc hne rfl (hid _) (hsame.trans (hlast _)) ?_
    rw [htokens, UInt32.toNat_sub_of_le _ _ hle]
    exact hrefilled.spend (UInt32.le_iff_toNat_le.mp hle)

end Call

/-! ### Fairness -/

theorem fair_after (calls : List AirtimeCall) : (RelayLog.after calls).Fair := by
  induction calls using List.reverseRecOn with
  | nil => exact fair_init
  | append_singleton calls c ih =>
    rw [RelayLog.after, List.foldl_append]
    exact ih.call c

/-- **Relay fairness.** Of a source's relayed frames that are not control traffic, the gate admits
in any interval at most the capacity of a bucket, the same again each time the source loses its
bucket in the interval before that is full, and the refill of the interval. -/
theorem relay_fairness (calls : List AirtimeCall) {srcId : UInt32} (hsrc : srcId ≠ 0) {t₁ t₂ : ℕ}
    (ht : t₁ ≤ t₂) :
    spentIn t₁ t₂ ((RelayLog.after calls).relayCharges srcId) ≤
      airtimeNbCapacityUs.toNat * (countIn t₁ t₂ ((RelayLog.after calls).lost srcId) + 1) +
        airtimeNbRefillUsPerMs.toNat * (t₂ - t₁) := by
  obtain ⟨_, _, -, -, hspends⟩ := (fair_after calls).spends srcId hsrc
  exact hspends.law t₁ t₂ ht

/-- A frame of 200 ms that has been relayed. -/
def relayedFrame (pktType : UInt8) (srcId : UInt32) : AirtimeCall where
  frame :=
    { data := some (packHeader
        { sampleChatHdr with pktType := pktType, flags := pktFlagRelay, srcId := srcId } 0)
      len := rivrPktHdrLen }
  toaUs := 200000
  afterMs := 0

/-- Three chat frames of one source. -/
theorem relay_fairness_chat :
    spentIn 0 0 ((RelayLog.after (List.replicate 3 (relayedFrame pktChat 0xA1))).relayCharges 0xA1) ≤
      airtimeNbCapacityUs.toNat * (countIn 0 0
        ((RelayLog.after (List.replicate 3 (relayedFrame pktChat 0xA1))).lost 0xA1) + 1) +
          airtimeNbRefillUsPerMs.toNat * (0 - 0) :=
  relay_fairness _ (by decide) le_rfl

/-- Everything that is relayed for the source counts, and keeps to one capacity and the refill. -/
def RelayLog.KeepsToOneBucket (l : RelayLog) (srcId : UInt32) : Prop :=
  ∀ t₁ t₂, t₁ ≤ t₂ → spentIn t₁ t₂ (l.relayed srcId) ≤
    airtimeNbCapacityUs.toNat + airtimeNbRefillUsPerMs.toNat * (t₂ - t₁)

/-- **What is not charged to a source.** Of 200 ms each, eleven acknowledgements of one source,
eleven chat frames of the source 0, and eleven chat frames of a source that loses its bucket to the
last of 16 others after the tenth. -/
theorem not_relay_fairness :
    ¬(RelayLog.after (List.replicate 11 (relayedFrame pktAck 0xA1))).KeepsToOneBucket 0xA1 ∧
    ¬(RelayLog.after (List.replicate 11 (relayedFrame pktChat 0))).KeepsToOneBucket 0 ∧
    ¬(RelayLog.after (List.replicate 10 (relayedFrame pktChat 0xA1) ++
        (List.range 16).map (fun i => relayedFrame pktChat (UInt32.ofNat (i + 1))) ++
        [relayedFrame pktChat 0xA1])).KeepsToOneBucket 0xA1 := by
  refine ⟨fun h => ?_, fun h => ?_, fun h => ?_⟩
  · exact absurd (h 0 0 le_rfl) (by decide +kernel)
  · exact absurd (h 0 0 le_rfl) (by decide +kernel)
  · exact absurd (h 0 0 le_rfl) (by decide +kernel)

end Rivr
