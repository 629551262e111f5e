import Mathlib.Data.Fintype.Card
import Rivr.Firmware.FloodForward
import Rivr.ForMathlib.Worklist

/-!
# Flooding one frame through a network

Any number of nodes run `routingFloodForward` on the copies of one frame. A step delivers a
copy in flight to its receiver, loses a copy, lets a node receive some other frame, lets its
clock run or its budget change; the order is arbitrary, and so is the set of nodes that hear a
transmission.

`flood_storm_free` is about every run: a node forwards the frame again only after its cache
took in 64 other keys or more than a minute passed; every forwarded copy has one hop less to
go; and, whatever the caches forget, the number of transmissions is bounded by the number of
nodes and the first TTL alone.
-/

namespace Rivr

open Worklist

variable {ι : Type*} [DecidableEq ι]

/-! ### Nodes and copies -/

/-- The dedupe key of a frame. -/
def wireKey (pkt : RivrPktHdr) : WireKey := (pkt.srcId, pkt.pktId)

/-- A node: the state of its forwarder, its clock, and, as an observer, the log of the keys
its dedupe cache inserted, newest first. -/
structure FloodNode where
  cache : DedupeCache
  fb : Option ForwardBudget
  nowMs : ℕ
  inserted : List (WireKey × ℕ)

/-- The forwarder's decision on a frame. -/
def FloodNode.receive (n : FloodNode) (pkt : RivrPktHdr) (toaUs : UInt32) : FloodOutcome :=
  routingFloodForward n.cache n.fb pkt toaUs (UInt32.ofNat n.nowMs)

/-- The node after the decision. -/
def FloodNode.after (n : FloodNode) (pkt : RivrPktHdr) (toaUs : UInt32) : FloodNode where
  cache := (n.receive pkt toaUs).cache
  fb := (n.receive pkt toaUs).fb
  nowMs := n.nowMs
  inserted := logAfter
    (routingDedupeCheck n.cache pkt.srcId pkt.pktId (UInt32.ofNat n.nowMs)).1
    (wireKey pkt) n.nowMs n.inserted

/-- A copy of the frame on its way to one receiver. -/
structure Copy (ι : Type*) where
  receiver : ι
  pkt : RivrPktHdr
  deriving DecidableEq

/-- The network: its nodes, the copies in flight, and, as an observer, how many times the
frame was transmitted. -/
structure FloodNet (ι : Type*) where
  node : ι → FloodNode
  inFlight : Multiset (Copy ι)
  transmissions : ℕ

/-- The copies that a transmission heard by `receivers` puts in flight. -/
def copiesTo (receivers : Finset ι) (pkt : RivrPktHdr) : Multiset (Copy ι) :=
  receivers.val.map fun r => ⟨r, pkt⟩

/-- The network with one node replaced. -/
def FloodNet.setNode (s : FloodNet ι) (i : ι) (n : FloodNode) : FloodNet ι :=
  { s with node := Function.update s.node i n }

/-- The network after the receiver of `c` forwarded it to `receivers`. -/
def FloodNet.forward (s : FloodNet ι) (c : Copy ι) (toaUs : UInt32) (receivers : Finset ι) :
    FloodNet ι :=
  { s.setNode c.receiver ((s.node c.receiver).after c.pkt toaUs) with
    inFlight := s.inFlight.erase c +
      copiesTo receivers ((s.node c.receiver).receive c.pkt toaUs).pkt
    transmissions := s.transmissions + 1 }

/-- Node `i` takes a copy and returns a FORWARD decision. -/
def Forwards (i : ι) (s s' : FloodNet ι) : Prop :=
  ∃ (c : Copy ι) (toaUs : UInt32) (receivers : Finset ι), c ∈ s.inFlight ∧ c.receiver = i ∧
    ((s.node i).receive c.pkt toaUs).result = .forward ∧ s' = s.forward c toaUs receivers

/-- One step of a network in which copies of the frame with the given key are in flight. -/
inductive FloodStep (key : WireKey) : FloodNet ι → FloodNet ι → Prop
  | forward {s s' : FloodNet ι} (i : ι) (h : Forwards i s s') : FloodStep key s s'
  | drop {s : FloodNet ι} {c : Copy ι} (toaUs : UInt32) (hc : c ∈ s.inFlight)
      (hres : ((s.node c.receiver).receive c.pkt toaUs).result ≠ .forward) :
      FloodStep key s { s.setNode c.receiver ((s.node c.receiver).after c.pkt toaUs) with
        inFlight := s.inFlight.erase c }
  | lose {s : FloodNet ι} (c : Copy ι) (hc : c ∈ s.inFlight) :
      FloodStep key s { s with inFlight := s.inFlight.erase c }
  /-- A node receives a frame with another key. -/
  | traffic {s : FloodNet ι} (i : ι) (pkt : RivrPktHdr) (toaUs : UInt32)
      (hkey : wireKey pkt ≠ key) : FloodStep key s (s.setNode i ((s.node i).after pkt toaUs))
  /-- The budget changes outside the forwarder. -/
  | setBudget {s : FloodNet ι} (i : ι) (fb : Option ForwardBudget) :
      FloodStep key s (s.setNode i { s.node i with fb := fb })
  | tick {s : FloodNet ι} (i : ι) (ms : ℕ) :
      FloodStep key s (s.setNode i { s.node i with nowMs := (s.node i).nowMs + ms })

/-- Runs of the network. -/
abbrev FloodReach (key : WireKey) : FloodNet ι → FloodNet ι → Prop :=
  Relation.ReflTransGen (FloodStep key)

/-- The start: one transmission of the frame, heard by some nodes. The nodes' caches and
budgets hold whatever they hold; the observers start now. -/
structure FloodStart (hdr : RivrPktHdr) (s : FloodNet ι) : Prop where
  inFlight : ∃ receivers, s.inFlight = copiesTo receivers hdr
  transmissions : s.transmissions = 1
  inserted : ∀ i, (s.node i).inserted = []

/-! ### One node -/

@[simp]
theorem FloodNode.after_nowMs (n : FloodNode) (pkt : RivrPktHdr) (toaUs : UInt32) :
    (n.after pkt toaUs).nowMs = n.nowMs := rfl

/-- Receiving a frame keeps the cache's log. -/
theorem FloodNode.dedupeLog_after {n : FloodNode} (h : DedupeLog n.nowMs n.inserted n.cache)
    (pkt : RivrPktHdr) (toaUs : UInt32) :
    DedupeLog (n.after pkt toaUs).nowMs (n.after pkt toaUs).inserted
      (n.after pkt toaUs).cache := by
  simp only [FloodNode.after, FloodNode.receive, routingFloodForward_cache]
  exact h.check (wireKey pkt)

/-- A forwarded frame was just inserted. -/
theorem FloodNode.inserted_after_of_forward {n : FloodNode} {pkt : RivrPktHdr} {toaUs : UInt32}
    (h : (n.receive pkt toaUs).result = .forward) :
    (n.after pkt toaUs).inserted = (wireKey pkt, n.nowMs) :: n.inserted := by
  have hnew := (of_routingFloodForward_forward h).1
  simp only [FloodNode.after, hnew, logAfter, if_true]

/-- The log only grows, and the clock only runs forward. -/
structure FloodNode.Later (n n' : FloodNode) : Prop where
  grows : ∃ since, n'.inserted = since ++ n.inserted
  clock : n.nowMs ≤ n'.nowMs

theorem FloodNode.Later.refl (n : FloodNode) : n.Later n := ⟨⟨[], rfl⟩, le_rfl⟩

theorem FloodNode.Later.trans {n n' n'' : FloodNode} (h : n.Later n') (h' : n'.Later n'') :
    n.Later n'' := by
  obtain ⟨⟨since, hs⟩, hc⟩ := h
  obtain ⟨⟨since', hs'⟩, hc'⟩ := h'
  exact ⟨⟨since' ++ since, by rw [hs', hs, List.append_assoc]⟩, hc.trans hc'⟩

theorem FloodNode.later_after (n : FloodNode) (pkt : RivrPktHdr) (toaUs : UInt32) :
    n.Later (n.after pkt toaUs) := by
  refine ⟨?_, le_rfl⟩
  simp only [FloodNode.after, logAfter]
  split_ifs
  · exact ⟨[(wireKey pkt, n.nowMs)], rfl⟩
  · exact ⟨[], rfl⟩

/-! ### What a step preserves -/

/-- The weight of a copy: how many transmissions it can still cause. -/
def copyWeight (ι : Type*) [Fintype ι] (c : Copy ι) : ℕ :=
  fanWeight (Fintype.card ι) c.pkt.ttl.toNat

/-- The most transmissions that one frame can cause. -/
def stormBound (ι : Type*) [Fintype ι] (hdr : RivrPktHdr) : ℕ :=
  1 + Fintype.card ι * fanWeight (Fintype.card ι) hdr.ttl.toNat

/-- The invariant of a flood. -/
structure FloodInv [Fintype ι] (hdr : RivrPktHdr) (s : FloodNet ι) : Prop where
  carries : ∀ c ∈ s.inFlight, wireKey c.pkt = wireKey hdr
  logs : ∀ i, DedupeLog (s.node i).nowMs (s.node i).inserted (s.node i).cache
  bounded : s.transmissions + potential (copyWeight ι) s.inFlight ≤ stormBound ι hdr

/-- What holds of every node still holds after one node was replaced by one that has it. -/
private theorem forall_setNode {P : FloodNode → Prop} {s : FloodNet ι} {i : ι} {n : FloodNode}
    (h : ∀ j, P (s.node j)) (hn : P n) (j : ι) : P ((s.setNode i n).node j) := by
  by_cases hj : j = i
  · subst hj
    simpa [FloodNet.setNode] using hn
  · simpa [FloodNet.setNode, hj] using h j

private theorem wireKey_relayHdr (pkt : RivrPktHdr) : wireKey (relayHdr pkt) = wireKey pkt := rfl

omit [DecidableEq ι] in
private theorem card_copiesTo_le [Fintype ι] (receivers : Finset ι) (pkt : RivrPktHdr) :
    (copiesTo receivers pkt).card ≤ Fintype.card ι := by
  simpa [copiesTo] using Finset.card_le_univ receivers

/-- Taking a copy out of flight takes its weight off the potential. -/
private theorem potential_erase [Fintype ι] {s : FloodNet ι} {c : Copy ι} (hc : c ∈ s.inFlight) :
    copyWeight ι c + potential (copyWeight ι) (s.inFlight.erase c) =
      potential (copyWeight ι) s.inFlight := by
  conv_rhs => rw [← Multiset.cons_erase hc]
  exact (potential_cons _ _ _).symm

omit [DecidableEq ι] in
/-- The copies of a forwarded copy weigh less than it does. -/
private theorem potential_copiesTo_lt [Fintype ι] (receivers : Finset ι) {c : Copy ι}
    (httl : c.pkt.ttl ≠ 0) :
    potential (copyWeight ι) (copiesTo receivers (relayHdr c.pkt)) < copyWeight ι c := by
  have hrank : ∀ c' ∈ copiesTo receivers (relayHdr c.pkt),
      c'.pkt.ttl.toNat ≤ (relayHdr c.pkt).ttl.toNat := by
    intro c' hc'
    obtain ⟨r, -, rfl⟩ := Multiset.mem_map.mp hc'
    exact le_rfl
  have hlt := potential_lt_fanWeight (card_copiesTo_le receivers _) hrank
  rwa [relayHdr_ttl_toNat httl] at hlt

/-- **Step lemma.** Every step keeps the invariant. -/
theorem FloodInv.step [Fintype ι] {hdr : RivrPktHdr} {s s' : FloodNet ι} (h : FloodInv hdr s)
    (hstep : FloodStep (wireKey hdr) s s') : FloodInv hdr s' := by
  obtain ⟨hcarries, hlogs, hbounded⟩ := h
  have herase : ∀ c, ∀ c' ∈ s.inFlight.erase c, wireKey c'.pkt = wireKey hdr :=
    fun c c' hc' => hcarries c' (Multiset.mem_of_mem_erase hc')
  cases hstep with
  | forward i hf =>
    obtain ⟨c, toaUs, receivers, hc, rfl, hres, rfl⟩ := hf
    obtain ⟨-, httl, -, hpkt⟩ := of_routingFloodForward_forward hres
    have hrelay : ((s.node c.receiver).receive c.pkt toaUs).pkt = relayHdr c.pkt := hpkt
    refine ⟨?_, ?_, ?_⟩
    · intro c' hc'
      simp only [FloodNet.forward, hrelay] at hc'
      rcases Multiset.mem_add.mp hc' with hc' | hc'
      · exact herase c c' hc'
      · obtain ⟨r, -, rfl⟩ := Multiset.mem_map.mp hc'
        exact (wireKey_relayHdr c.pkt).trans (hcarries c hc)
    · exact forall_setNode (P := fun n => DedupeLog n.nowMs n.inserted n.cache) hlogs
        (FloodNode.dedupeLog_after (hlogs _) _ _)
    · -- all the copies of the relay weigh less than the one received, since the ttl went down
      have hlt := potential_copiesTo_lt receivers httl
      have herase := potential_erase hc
      simp only [FloodNet.forward, hrelay, potential_add]
      omega
  | @drop c toaUs hc hres =>
    have hpot := potential_erase hc
    refine ⟨herase c, ?_, ?_⟩
    · exact forall_setNode (P := fun n => DedupeLog n.nowMs n.inserted n.cache) hlogs
        (FloodNode.dedupeLog_after (hlogs _) _ _)
    · simp only [FloodNet.setNode]
      omega
  | lose c hc =>
    have hpot := potential_erase hc
    refine ⟨herase c, hlogs, ?_⟩
    dsimp only
    omega
  | traffic i pkt toaUs hkey =>
    exact ⟨hcarries, forall_setNode (P := fun n => DedupeLog n.nowMs n.inserted n.cache) hlogs
      (FloodNode.dedupeLog_after (hlogs _) _ _), hbounded⟩
  | setBudget i fb =>
    exact ⟨hcarries, forall_setNode (P := fun n => DedupeLog n.nowMs n.inserted n.cache) hlogs
      (hlogs i), hbounded⟩
  | tick i ms =>
    exact ⟨hcarries, forall_setNode (P := fun n => DedupeLog n.nowMs n.inserted n.cache) hlogs
      ((hlogs i).mono (Nat.le_add_right _ _)), hbounded⟩

omit [DecidableEq ι] in
/-- The invariant holds at the start. -/
theorem floodInv_start [Fintype ι] {hdr : RivrPktHdr} {s : FloodNet ι} (h : FloodStart hdr s) :
    FloodInv hdr s := by
  obtain ⟨⟨receivers, hfly⟩, htx, hins⟩ := h
  refine ⟨?_, fun i => ?_, ?_⟩
  · intro c hc
    rw [hfly] at hc
    obtain ⟨r, -, rfl⟩ := Multiset.mem_map.mp hc
    rfl
  · rw [hins i]
    exact dedupeLog_nil _ _
  · have hle : potential (copyWeight ι) (copiesTo receivers hdr) ≤
        (copiesTo receivers hdr).card * fanWeight (Fintype.card ι) hdr.ttl.toNat := by
      refine potential_le_card_mul fun c hc => ?_
      obtain ⟨r, -, rfl⟩ := Multiset.mem_map.mp hc
      exact le_rfl
    have hmul := Nat.mul_le_mul_right (fanWeight (Fintype.card ι) hdr.ttl.toNat)
      (card_copiesTo_le receivers hdr)
    rw [htx, hfly]
    simp only [stormBound]
    omega

/-- **Run lemma.** Every reachable network satisfies the invariant. -/
theorem FloodInv.reach [Fintype ι] {hdr : RivrPktHdr} {s s' : FloodNet ι} (h : FloodInv hdr s)
    (hreach : FloodReach (wireKey hdr) s s') : FloodInv hdr s' := by
  induction hreach with
  | refl => exact h
  | tail _ hstep ih => exact ih.step hstep

/-- A step moves every node forward in its log and its clock. -/
theorem FloodStep.later {key : WireKey} {s s' : FloodNet ι} (h : FloodStep key s s') (j : ι) :
    (s.node j).Later (s'.node j) := by
  have hset : ∀ i n, (s.node i).Later n → (s.node j).Later ((s.setNode i n).node j) := by
    intro i n hn
    by_cases hj : j = i
    · subst hj
      simpa [FloodNet.setNode] using hn
    · simpa [FloodNet.setNode, hj] using FloodNode.Later.refl _
  cases h with
  | forward i hf =>
    obtain ⟨c, toaUs, receivers, -, -, -, rfl⟩ := hf
    exact hset _ _ (FloodNode.later_after _ _ _)
  | drop toaUs hc hres => exact hset _ _ (FloodNode.later_after _ _ _)
  | lose c hc => exact FloodNode.Later.refl _
  | traffic i pkt toaUs hkey => exact hset _ _ (FloodNode.later_after _ _ _)
  | setBudget i fb => exact hset _ _ ⟨⟨[], rfl⟩, le_rfl⟩
  | tick i ms => exact hset _ _ ⟨⟨[], rfl⟩, Nat.le_add_right _ _⟩

theorem FloodReach.later {key : WireKey} {s s' : FloodNet ι} (h : FloodReach key s s') (j : ι) :
    (s.node j).Later (s'.node j) := by
  induction h with
  | refl => exact FloodNode.Later.refl _
  | tail _ hstep ih => exact ih.trans (hstep.later j)

/-- A node that forwards a copy in flight has just inserted the frame's key. -/
theorem Forwards.inserted [Fintype ι] {hdr : RivrPktHdr} {i : ι} {s s' : FloodNet ι}
    (h : Forwards i s s') (hinv : FloodInv hdr s) :
    (s'.node i).inserted = (wireKey hdr, (s.node i).nowMs) :: (s.node i).inserted := by
  obtain ⟨c, toaUs, receivers, hc, rfl, hres, rfl⟩ := h
  rw [← hinv.carries c hc]
  simpa [FloodNet.forward, FloodNet.setNode] using FloodNode.inserted_after_of_forward hres

/-! ### No storm -/

/-- What it means that a flood of the frame `hdr` from `s₀` is no storm. -/
structure StormFree [Fintype ι] (hdr : RivrPktHdr) (s₀ : FloodNet ι) : Prop where
  /-- Between two FORWARD decisions of one node its cache inserted 64 other keys, or more than
  the expiry time passed. -/
  atMostOnce : ∀ (i : ι) (s₁ s₂ s₃ s₄ : FloodNet ι), FloodReach (wireKey hdr) s₀ s₁ →
    Forwards i s₁ s₂ → FloodReach (wireKey hdr) s₂ s₃ → Forwards i s₃ s₄ →
    ∃ since, (s₃.node i).inserted = since ++ (s₂.node i).inserted ∧
      (dedupeCacheSize ≤ since.countP (fun x => x.1 ≠ wireKey hdr) ∨
        dedupeExpiryMs.toNat < (s₃.node i).nowMs - (s₁.node i).nowMs)
  /-- A forwarded copy has exactly one TTL less and one hop more. -/
  countsDown : ∀ s, FloodReach (wireKey hdr) s₀ s → ∀ c ∈ s.inFlight, ∀ toaUs,
    ((s.node c.receiver).receive c.pkt toaUs).result = .forward →
    ((s.node c.receiver).receive c.pkt toaUs).pkt.ttl.toNat + 1 = c.pkt.ttl.toNat ∧
    ((s.node c.receiver).receive c.pkt toaUs).pkt.hop.toNat = c.pkt.hop.toNat + 1
  /-- A copy without TTL or hops left is never forwarded. -/
  exhausted : ∀ s, FloodReach (wireKey hdr) s₀ s → ∀ c ∈ s.inFlight, ∀ toaUs,
    c.pkt.ttl = 0 ∨ rivrPktDefaultTtl ≤ c.pkt.hop →
    ((s.node c.receiver).receive c.pkt toaUs).result ≠ .forward
  /-- The number of transmissions is bounded in every run. -/
  finite : ∀ s, FloodReach (wireKey hdr) s₀ s → s.transmissions ≤ stormBound ι hdr

/-- **Flood storm freedom.** -/
theorem flood_storm_free [Fintype ι] {hdr : RivrPktHdr} {s₀ : FloodNet ι}
    (hsrc : hdr.srcId ≠ 0) (hstart : FloodStart hdr s₀) : StormFree hdr s₀ := by
  have hinv₀ := floodInv_start hstart
  refine ⟨?_, ?_, ?_, ?_⟩
  · intro i s₁ s₂ s₃ s₄ h₁ hf₁ h₃ hf₃
    have hinv₁ := hinv₀.reach h₁
    have hinv₃ := (hinv₁.step (.forward i hf₁)).reach h₃
    have hinv₄ := hinv₃.step (.forward i hf₃)
    obtain ⟨since, hsince⟩ := (h₃.later i).grows
    refine ⟨since, hsince, ?_⟩
    -- between the two forwards the node inserted other frames, and the first one lies before them
    have hlog₃ : (s₃.node i).inserted =
        since ++ (wireKey hdr, (s₁.node i).nowMs) :: (s₁.node i).inserted := by
      rw [hsince, hf₁.inserted hinv₁]
    have hspaced := (hinv₄.logs i).spaced
    have hsorted := (hinv₃.logs i).sorted
    rw [hf₃.inserted hinv₃, hlog₃] at hspaced
    rw [hlog₃] at hsorted
    exact hspaced.between hsorted hsrc
  · intro s _ c _ toaUs hres
    obtain ⟨-, httl, hhop, hpkt⟩ := of_routingFloodForward_forward hres
    have hrelay : ((s.node c.receiver).receive c.pkt toaUs).pkt = relayHdr c.pkt := hpkt
    rw [hrelay]
    exact ⟨relayHdr_ttl_toNat httl, relayHdr_hop_toNat hhop⟩
  · intro s _ c _ toaUs hout hres
    obtain ⟨-, httl, hhop, -⟩ := of_routingFloodForward_forward hres
    rcases hout with h | h
    · exact httl h
    · exact absurd hhop (UInt8.not_lt.mpr h)
  · intro s hs
    have hbounded := (hinv₀.reach hs).bounded
    omega

/-- A chat frame that node `true` sent to node `false`, both freshly started. -/
def twoNodeFlood : FloodNet Bool where
  node := fun _ => ⟨routingDedupeInit, some (routingFwdbudgetInit .repeater), 0, []⟩
  inFlight := copiesTo {false} sampleChatHdr
  transmissions := 1

theorem flood_storm_free_two : StormFree sampleChatHdr twoNodeFlood :=
  flood_storm_free (by decide) ⟨⟨{false}, rfl⟩, rfl, fun _ => rfl⟩

end Rivr
