import Mathlib.Data.Fintype.Card
import Mathlib.Logic.Function.Basic
import Rivr.Firmware.AirtimeClass
import Rivr.Firmware.RmlCodec
import Rivr.Firmware.RmlThreads
import Rivr.ForMathlib.RingLog
import Rivr.ForMathlib.Worklist

/-!
# Relaying a message through a network

Any number of nodes decide about the messages that reach them, each with a policy state of its own.
A step delivers a copy of a message in flight to its receiver, loses one, or lets a node decide
about some other message; the order is arbitrary, and so are the contexts and the nodes that hear a
relay.

A node accepts a message id again only after it marked as many newer ids as its ring holds
(`rml_accepts_once`), a relay always has less to go (`rml_relay_ttl`), and the relays that one
message causes are bounded by the number of nodes and its first TTL (`rml_relay_terminates`).
-/

namespace Rivr

open Worklist

/-! ### One node -/

/-- A node: its policy state and, as an observer, the ids of the messages that it accepted, newest
first. A message without an id is not counted. -/
structure RmlNode where
  state : RmlState
  accepted : List UInt32

/-- A node that has just started. -/
def RmlNode.init : RmlNode := ⟨rmlInit, []⟩

/-- The node after a decision. -/
def RmlNode.decide (n : RmlNode) (msg : RmlMessage) (ctx : RmlContext) : RmlNode where
  state := (rmlPolicyDecide n.state msg ctx).2
  accepted :=
    if (rmlPolicyDecide n.state msg ctx).1.accept = true ∧ msg.msgId ≠ 0 then
      msg.msgId :: n.accepted
    else n.accepted

/-- The seen ring holds the end of the log of accepted ids, and what it held was never accepted. -/
structure RmlNode.SeenLog (n : RmlNode) : Prop where
  length : n.state.seen.seen.length = rmlSeenCacheSize
  holds : RingLog.Holds 0 n.accepted n.state.seen.seen n.state.seen.next
  apart : ∀ (A B C : List UInt32) (msgId : UInt32),
    n.accepted = A ++ msgId :: (B ++ msgId :: C) → rmlSeenCacheSize ≤ B.length

theorem seenLog_init : RmlNode.init.SeenLog := by
  constructor
  · exact List.length_replicate
  · exact RingLog.holds_replicate (by decide)
  · intro A B C msgId h
    exact absurd h (by simp [RmlNode.init])

/-- What a decision does to the ring: only an accepted message is marked, and only one that the ring
did not hold is accepted. -/
theorem rmlPolicyDecide_seen (s : RmlState) (msg : RmlMessage) (ctx : RmlContext) :
    ((rmlPolicyDecide s msg ctx).1.accept = false ∧ (rmlPolicyDecide s msg ctx).2.seen = s.seen) ∨
      ((rmlPolicyDecide s msg ctx).1.accept = true ∧ rmlSeen s.seen msg.msgId = false ∧
        (rmlPolicyDecide s msg ctx).2.seen = rmlMarkSeen s.seen msg.msgId) := by
  have hhandle : ∀ s₁ : RmlState, (rmlHandleThreadState s₁ msg ctx).2.seen = s₁.seen := by
    intro s₁
    unfold rmlHandleThreadState rmlRepairDecision
    dsimp only
    split_ifs
    · split <;> rfl
    · rfl
    · split
      · rfl
      · split <;> rfl
    · rfl
  have hend : ∀ policy effectivePriority state,
      (rmlRelayDecision msg ctx policy effectivePriority state).accept = true := by
    intro policy effectivePriority state
    unfold rmlRelayDecision
    split
    · rfl
    · split
      · rfl
      · split <;> rfl
  unfold rmlPolicyDecide
  dsimp only
  generalize (if msg.intent = rmlIntentStatus then rmlStatusIsCurrentOrNewer s.status msg
    else (true, s.status)) = r
  split_ifs with hmagic hversion hlen hseen hexpired hcurrent hpressure haccept
  · exact Or.inl ⟨rfl, rfl⟩
  · exact Or.inl ⟨rfl, rfl⟩
  · exact Or.inl ⟨rfl, rfl⟩
  · exact Or.inl ⟨rfl, rfl⟩
  · exact Or.inl ⟨rfl, rfl⟩
  · exact Or.inl ⟨rfl, rfl⟩
  · exact Or.inl ⟨rfl, rfl⟩
  · exact Or.inl ⟨by simpa using haccept, hhandle _⟩
  · refine Or.inr ⟨hend _ _ _, by simpa using hseen, ?_⟩
    rw [hhandle]

/-- **One decision** keeps the log. -/
theorem RmlNode.SeenLog.decide {n : RmlNode} (h : n.SeenLog) (msg : RmlMessage)
    (ctx : RmlContext) : (n.decide msg ctx).SeenLog := by
  have hsame : ∀ n' : RmlNode, n'.accepted = n.accepted → n'.state.seen = n.state.seen →
      n'.SeenLog := by
    intro n' haccepted hseen
    constructor
    · rw [hseen]
      exact h.length
    · rw [haccepted, hseen]
      exact h.holds
    · rw [haccepted]
      exact h.apart
  rcases rmlPolicyDecide_seen n.state msg ctx with ⟨hno, hseen⟩ | ⟨hyes, hnew, hseen⟩
  · refine hsame _ (if_neg fun hboth => ?_) hseen
    rw [hno] at hboth
    exact nomatch hboth.1
  · by_cases hid : msg.msgId = 0
    · refine hsame _ (if_neg fun hboth => hboth.2 hid) (hseen.trans ?_)
      exact if_pos (Or.inl hid)
    · have hnotin : msg.msgId ∉ n.state.seen.seen := by
        intro hmem
        rw [rmlSeen, decide_eq_false_iff_not] at hnew
        exact hnew ⟨hid, hmem⟩
      have hmark : rmlMarkSeen n.state.seen msg.msgId =
          ⟨n.state.seen.seen.set n.state.seen.next msg.msgId,
            (n.state.seen.next + 1) % rmlSeenCacheSize⟩ := by
        rw [rmlMarkSeen, if_neg]
        rintro (hzero | hold)
        · exact hid hzero
        · rw [hnew] at hold
          exact nomatch hold
      have haccepted : (n.decide msg ctx).accepted = msg.msgId :: n.accepted :=
        if_pos ⟨hyes, hid⟩
      have hring : (n.decide msg ctx).state.seen = ⟨n.state.seen.seen.set n.state.seen.next
          msg.msgId, (n.state.seen.next + 1) % rmlSeenCacheSize⟩ := hseen.trans hmark
      constructor
      · rw [hring, List.length_set]
        exact h.length
      · rw [haccepted, hring, ← h.length]
        exact h.holds.push msg.msgId
      · intro A B C msgId heq
        rw [haccepted] at heq
        rcases A with _ | ⟨x, A⟩
        · obtain ⟨rfl, htail⟩ := List.cons.inj heq
          -- a message accepted again within 64 others would still be in the ring
          by_contra hfew
          refine hnotin ((h.holds.mem_iff hid).mpr ?_)
          rw [h.length, htail, List.mem_iff_getElem?]
          refine ⟨B.length, ?_⟩
          rw [List.getElem?_take_of_lt (by omega), List.getElem?_append_right le_rfl, Nat.sub_self]
          rfl
        · exact h.apart A B C msgId (List.cons.inj heq).2

/-- **One relay** has less to go than what was received, no more than the intent allows, and
something left. -/
theorem rml_relay_ttl {s : RmlState} {msg : RmlMessage} {ctx : RmlContext}
    (h : (rmlPolicyDecide s msg ctx).1.relay = true) :
    1 ≤ (rmlPolicyDecide s msg ctx).1.nextTtl ∧ (rmlPolicyDecide s msg ctx).1.nextTtl < msg.ttl ∧
      (rmlPolicyDecide s msg ctx).1.nextTtl ≤ (rmlPolicyForIntent msg.intent).maxRelayTtl := by
  have hend : ∀ effectivePriority state, (rmlRelayDecision msg ctx (rmlPolicyForIntent msg.intent)
      effectivePriority state).relay = true →
      1 ≤ (rmlRelayDecision msg ctx (rmlPolicyForIntent msg.intent) effectivePriority
          state).nextTtl ∧
        (rmlRelayDecision msg ctx (rmlPolicyForIntent msg.intent) effectivePriority
          state).nextTtl < msg.ttl ∧
        (rmlRelayDecision msg ctx (rmlPolicyForIntent msg.intent) effectivePriority
          state).nextTtl ≤ (rmlPolicyForIntent msg.intent).maxRelayTtl := by
    intro effectivePriority state
    generalize rmlPolicyForIntent msg.intent = policy
    unfold rmlRelayDecision
    by_cases httl : msg.ttl = 0
    · rw [if_pos httl]
      exact fun hrelay => nomatch hrelay
    rw [if_neg httl]
    by_cases hduty : !ctx.hardRadioOk ∨ ctx.dutyCycleBlocked ∨ !rmlAirtimeAllowed ctx policy
    · rw [if_pos hduty]
      exact fun hrelay => nomatch hrelay
    rw [if_neg hduty]
    by_cases hfull : rmlQueueFull ctx = true
    · rw [if_pos hfull]
      exact fun hrelay => nomatch hrelay
    rw [if_neg hfull]
    dsimp only [rmlDecision]
    intro hrelay
    -- the ttl is not zero, so one less is less
    have hless : msg.ttl - 1 < msg.ttl := by
      have hpos : msg.ttl.toNat ≠ 0 := fun hzero => httl (UInt8.toNat_inj.mp hzero)
      have hone : (1 : UInt8) ≤ msg.ttl := UInt8.le_iff_toNat_le.mpr (Nat.pos_of_ne_zero hpos)
      rw [UInt8.lt_iff_toNat_lt, UInt8.toNat_sub_of_le _ _ hone]
      exact Nat.sub_lt (Nat.pos_of_ne_zero hpos) Nat.one_pos
    by_cases hcap : msg.ttl - 1 > policy.maxRelayTtl
    · rw [if_pos hcap] at hrelay ⊢
      have hne : policy.maxRelayTtl ≠ 0 := fun hzero => by simp [hzero] at hrelay
      refine ⟨?_, UInt8.lt_trans hcap hless, UInt8.le_refl _⟩
      rw [UInt8.le_iff_toNat_le]
      exact Nat.pos_of_ne_zero fun hzero => hne (UInt8.toNat_inj.mp hzero)
    · rw [if_neg hcap] at hrelay ⊢
      have hne : msg.ttl - 1 ≠ 0 := fun hzero => by simp [hzero] at hrelay
      refine ⟨?_, hless, UInt8.not_lt.mp hcap⟩
      rw [UInt8.le_iff_toNat_le]
      exact Nat.pos_of_ne_zero fun hzero => hne (UInt8.toNat_inj.mp hzero)
  revert h
  unfold rmlPolicyDecide
  dsimp only
  generalize (if msg.intent = rmlIntentStatus then rmlStatusIsCurrentOrNewer s.status msg
    else (true, s.status)) = r
  split_ifs
  · exact fun hrelay => nomatch hrelay
  · exact fun hrelay => nomatch hrelay
  · exact fun hrelay => nomatch hrelay
  · exact fun hrelay => nomatch hrelay
  · exact fun hrelay => nomatch hrelay
  · exact fun hrelay => nomatch hrelay
  · exact fun hrelay => nomatch hrelay
  · intro hrelay
    rw [rmlHandleThreadState_relay] at hrelay
    exact nomatch hrelay
  · exact hend _ _

/-! ### Networks -/

/-- A copy of the message on its way to one receiver. -/
structure RmlCopy (ι : Type*) where
  receiver : ι
  msg : RmlMessage
  deriving DecidableEq

/-- The network: its nodes, the copies in flight, and, as an observer, the number of relays. -/
structure RmlNet (ι : Type*) where
  node : ι → RmlNode
  inFlight : Multiset (RmlCopy ι)
  relays : ℕ

variable {ι : Type*}

/-- The copies that a transmission heard by `receivers` puts in flight. -/
def rmlCopiesTo (receivers : Finset ι) (msg : RmlMessage) : Multiset (RmlCopy ι) :=
  receivers.val.map fun r => ⟨r, msg⟩

/-- The relay that the receiver of a copy makes of it, if it decides to. -/
def RmlNet.relayOf (s : RmlNet ι) (c : RmlCopy ι) (ctx : RmlContext) : Option RmlMessage :=
  let decided := rmlPolicyDecide (s.node c.receiver).state c.msg ctx
  if decided.1.relay then rmlRelayMessage decided.2.threads c.msg decided.1 else none

variable [DecidableEq ι]

/-- A node decides about a message. -/
def RmlNet.decide (s : RmlNet ι) (i : ι) (msg : RmlMessage) (ctx : RmlContext) : RmlNet ι :=
  { s with node := Function.update s.node i ((s.node i).decide msg ctx) }

/-- One step of a network in which copies of one message are in flight. -/
inductive RmlStep : RmlNet ι → RmlNet ι → Prop
  | relay {s : RmlNet ι} {c : RmlCopy ι} {relay : RmlMessage} (ctx : RmlContext)
      (receivers : Finset ι) (hc : c ∈ s.inFlight) (hrelay : s.relayOf c ctx = some relay) :
      RmlStep s { s.decide c.receiver c.msg ctx with
        inFlight := s.inFlight.erase c + rmlCopiesTo receivers relay.onWire
        relays := s.relays + 1 }
  | absorb {s : RmlNet ι} {c : RmlCopy ι} (ctx : RmlContext) (hc : c ∈ s.inFlight)
      (hrelay : s.relayOf c ctx = none) :
      RmlStep s { s.decide c.receiver c.msg ctx with inFlight := s.inFlight.erase c }
  | lose {s : RmlNet ι} (c : RmlCopy ι) (hc : c ∈ s.inFlight) :
      RmlStep s { s with inFlight := s.inFlight.erase c }
  /-- A node decides about some other message. -/
  | traffic {s : RmlNet ι} (i : ι) (msg : RmlMessage) (ctx : RmlContext) :
      RmlStep s (s.decide i msg ctx)

/-- Runs of the network. -/
abbrev RmlRun : RmlNet ι → RmlNet ι → Prop := Relation.ReflTransGen RmlStep

/-- The start: one transmission of the message, heard by some nodes, whatever they decided
before. -/
structure RmlStart (msg : RmlMessage) (s : RmlNet ι) : Prop where
  inFlight : ∃ receivers, s.inFlight = rmlCopiesTo receivers msg
  relays : s.relays = 0
  nodes : ∀ i, (s.node i).SeenLog

/-! ### What a step preserves -/

omit [DecidableEq ι] in
/-- A relay carries the id of the message, and has less to go. -/
theorem RmlNet.relayOf_spec {s : RmlNet ι} {c : RmlCopy ι} {ctx : RmlContext} {relay : RmlMessage}
    (h : s.relayOf c ctx = some relay) :
    relay.onWire.msgId = c.msg.msgId ∧ relay.onWire.ttl < c.msg.ttl := by
  rw [relayOf] at h
  split_ifs at h with hrelay
  have hfields : relay.msgId = c.msg.msgId ∧
      relay.ttl = (rmlPolicyDecide (s.node c.receiver).state c.msg ctx).1.nextTtl := by
    rw [rmlRelayMessage] at h
    split_ifs at h
    · split at h
      · exact nomatch h
      · split_ifs at h
        obtain rfl := Option.some.inj h
        exact ⟨rfl, rfl⟩
    · obtain rfl := Option.some.inj h
      exact ⟨rfl, rfl⟩
  refine ⟨hfields.1, ?_⟩
  have hlt := (rml_relay_ttl hrelay).2.1
  rw [← hfields.2] at hlt
  exact hlt

/-- How many relays a copy can still cause. -/
def rmlCopyWeight (ι : Type*) [Fintype ι] (c : RmlCopy ι) : ℕ :=
  fanWeight (Fintype.card ι) c.msg.ttl.toNat

/-- The most relays that one message can cause. -/
def rmlRelayBound (ι : Type*) [Fintype ι] (msg : RmlMessage) : ℕ :=
  Fintype.card ι * fanWeight (Fintype.card ι) msg.ttl.toNat

/-- The invariant of the copies of a message. -/
structure RmlInv [Fintype ι] (msg : RmlMessage) (s : RmlNet ι) : Prop where
  carries : ∀ c ∈ s.inFlight, c.msg.msgId = msg.msgId
  nodes : ∀ i, (s.node i).SeenLog
  bounded : s.relays + potential (rmlCopyWeight ι) s.inFlight ≤ rmlRelayBound ι msg

/-- Deciding keeps the log of every node. -/
theorem seenLog_decide {s : RmlNet ι} (h : ∀ i, (s.node i).SeenLog) (i : ι) (msg : RmlMessage)
    (ctx : RmlContext) (j : ι) : ((s.decide i msg ctx).node j).SeenLog := by
  by_cases hj : j = i
  · subst hj
    simpa [RmlNet.decide] using (h j).decide msg ctx
  · simpa [RmlNet.decide, hj] using h j

/-- Taking a copy out of flight takes its weight off the potential. -/
private theorem potential_erase_rml [Fintype ι] {s : RmlNet ι} {c : RmlCopy ι}
    (hc : c ∈ s.inFlight) :
    rmlCopyWeight ι c + potential (rmlCopyWeight ι) (s.inFlight.erase c) =
      potential (rmlCopyWeight ι) s.inFlight := by
  conv_rhs => rw [← Multiset.cons_erase hc]
  exact (potential_cons _ _ _).symm

omit [DecidableEq ι] in
private theorem card_rmlCopiesTo_le [Fintype ι] (receivers : Finset ι) (msg : RmlMessage) :
    (rmlCopiesTo receivers msg).card ≤ Fintype.card ι := by
  simpa [rmlCopiesTo] using Finset.card_le_univ receivers

omit [DecidableEq ι] in
/-- The copies of a relay weigh less than what was relayed. -/
private theorem potential_rmlCopiesTo_lt [Fintype ι] (receivers : Finset ι) {c : RmlCopy ι}
    {msg : RmlMessage} (httl : msg.ttl < c.msg.ttl) :
    potential (rmlCopyWeight ι) (rmlCopiesTo receivers msg) < rmlCopyWeight ι c := by
  have hrank : ∀ c' ∈ rmlCopiesTo receivers msg, c'.msg.ttl.toNat ≤ msg.ttl.toNat := by
    intro c' hc'
    obtain ⟨r, -, rfl⟩ := Multiset.mem_map.mp hc'
    exact le_rfl
  calc potential (rmlCopyWeight ι) (rmlCopiesTo receivers msg)
      < fanWeight (Fintype.card ι) (msg.ttl.toNat + 1) :=
        potential_lt_fanWeight (card_rmlCopiesTo_le receivers msg) hrank
    _ ≤ rmlCopyWeight ι c := fanWeight_mono _ (UInt8.lt_iff_toNat_lt.mp httl)

/-- **Step lemma.** Every step keeps the invariant. -/
theorem RmlInv.step [Fintype ι] {msg : RmlMessage} {s s' : RmlNet ι} (h : RmlInv msg s)
    (hstep : RmlStep s s') : RmlInv msg s' := by
  obtain ⟨hcarries, hnodes, hbounded⟩ := h
  have herase : ∀ c, ∀ c' ∈ s.inFlight.erase c, c'.msg.msgId = msg.msgId :=
    fun c c' hc' => hcarries c' (Multiset.mem_of_mem_erase hc')
  cases hstep with
  | @relay c relay ctx receivers hc hrelay =>
    obtain ⟨hid, httl⟩ := s.relayOf_spec hrelay
    constructor
    · intro c' hc'
      rcases Multiset.mem_add.mp hc' with hc' | hc'
      · exact herase c c' hc'
      · obtain ⟨r, -, rfl⟩ := Multiset.mem_map.mp hc'
        exact hid.trans (hcarries c hc)
    · exact seenLog_decide hnodes c.receiver c.msg ctx
    · -- what goes out has less to go than what came in
      have hlt := potential_rmlCopiesTo_lt receivers httl
      have hpot := potential_erase_rml hc
      dsimp only
      rw [potential_add]
      omega
  | @absorb c ctx hc hrelay =>
    have hpot := potential_erase_rml hc
    refine ⟨herase c, seenLog_decide hnodes c.receiver c.msg ctx, ?_⟩
    dsimp only [RmlNet.decide]
    omega
  | lose c hc =>
    have hpot := potential_erase_rml hc
    refine ⟨herase c, hnodes, ?_⟩
    dsimp only
    omega
  | traffic i m ctx => exact ⟨hcarries, seenLog_decide hnodes i m ctx, hbounded⟩

omit [DecidableEq ι] in
/-- The invariant holds at the start. -/
theorem rmlInv_start [Fintype ι] {msg : RmlMessage} {s : RmlNet ι} (h : RmlStart msg s) :
    RmlInv msg s := by
  obtain ⟨⟨receivers, hfly⟩, hrelays, hnodes⟩ := h
  refine ⟨?_, hnodes, ?_⟩
  · intro c hc
    rw [hfly] at hc
    obtain ⟨r, -, rfl⟩ := Multiset.mem_map.mp hc
    rfl
  · have hle : potential (rmlCopyWeight ι) (rmlCopiesTo receivers msg) ≤
        (rmlCopiesTo receivers msg).card * fanWeight (Fintype.card ι) msg.ttl.toNat := by
      refine potential_le_card_mul fun c hc => ?_
      obtain ⟨r, -, rfl⟩ := Multiset.mem_map.mp hc
      exact le_rfl
    have hmul := Nat.mul_le_mul_right (fanWeight (Fintype.card ι) msg.ttl.toNat)
      (card_rmlCopiesTo_le receivers msg)
    rw [hrelays, hfly, rmlRelayBound]
    omega

/-- **Run lemma.** Every reachable network satisfies the invariant. -/
theorem RmlInv.run [Fintype ι] {msg : RmlMessage} {s s' : RmlNet ι} (h : RmlInv msg s)
    (run : RmlRun s s') : RmlInv msg s' := by
  induction run with
  | refl => exact h
  | tail _ hstep ih => exact ih.step hstep

/-- **Relaying ends.** In every run from the transmission of a message, however its copies and other
messages are delivered: each node accepts an id again only after it accepted 64 newer ones; every
relay has at least one hop left, fewer than what was received, and no more than the intent allows;
and the relays of the message are bounded by the number of nodes and its TTL. -/
theorem rml_relay_terminates [Fintype ι] {msg : RmlMessage} {s₀ s : RmlNet ι}
    (start : RmlStart msg s₀) (run : RmlRun s₀ s) :
    (∀ (i : ι) (A B C : List UInt32) (msgId : UInt32),
      (s.node i).accepted = A ++ msgId :: (B ++ msgId :: C) → rmlSeenCacheSize ≤ B.length) ∧
    (∀ (i : ι) (m : RmlMessage) (ctx : RmlContext),
      (rmlPolicyDecide (s.node i).state m ctx).1.relay = true →
      1 ≤ (rmlPolicyDecide (s.node i).state m ctx).1.nextTtl ∧
        (rmlPolicyDecide (s.node i).state m ctx).1.nextTtl < m.ttl ∧
        (rmlPolicyDecide (s.node i).state m ctx).1.nextTtl ≤
          (rmlPolicyForIntent m.intent).maxRelayTtl) ∧
    s.relays ≤ rmlRelayBound ι msg := by
  have hinv := (rmlInv_start start).run run
  refine ⟨fun i => (hinv.nodes i).apart, fun i m ctx h => rml_relay_ttl h, ?_⟩
  exact (Nat.le_add_right _ _).trans hinv.bounded

/-- Two nodes that have just started; one of them is about to receive a text. -/
def sampleRmlNet : RmlNet Bool := ⟨fun _ => .init, rmlCopiesTo {true} sampleText, 0⟩

theorem rmlStart_sample : RmlStart sampleText sampleRmlNet where
  inFlight := ⟨{true}, rfl⟩
  relays := rfl
  nodes _ := seenLog_init

/-- The other one hears its relay. -/
theorem rml_relay_terminates_sample :
    ∃ s, RmlRun sampleRmlNet s ∧ s.relays = 1 ∧ s.relays ≤ rmlRelayBound Bool sampleText := by
  have hsome : (sampleRmlNet.relayOf ⟨true, sampleText⟩ (sampleRmlContext 5)).isSome := by
    decide +kernel
  obtain ⟨relay, hrelay⟩ := Option.isSome_iff_exists.mp hsome
  have hstep := RmlStep.relay (sampleRmlContext 5) {false} (Multiset.mem_singleton_self _) hrelay
  have run := Relation.ReflTransGen.single hstep
  exact ⟨_, run, rfl, (rml_relay_terminates rmlStart_sample run).2.2⟩

end Rivr
