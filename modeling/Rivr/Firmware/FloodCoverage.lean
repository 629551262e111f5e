import Rivr.Firmware.FloodForward
import Rivr.ForMathlib.Broadcast

/-!
# Flooding in rounds

The nodes of a network run `routingFloodForward` on one frame, and what a node sends in a round is
heard by all its neighbours in the next; the order in which a node takes the copies of a round is
arbitrary. While no cache forgets the frame and no budget refuses it, the frame is a broadcast in
rounds (`broadcast_floodRounds`), so it covers the nodes up to one hop beyond its TTL, each first in
the round of its distance (`flood_coverage`).
-/

open SimpleGraph

namespace Rivr

/-! ### Rounds -/

/-- What a node forwards with. -/
structure FloodPeer where
  cache : DedupeCache
  fb : Option ForwardBudget

/-- Copies taken one after another, with the decision on each. -/
def FloodPeer.receiveAll (toaUs nowMs : UInt32) : FloodPeer → List RivrPktHdr →
    FloodPeer × List FloodOutcome
  | n, [] => (n, [])
  | n, pkt :: pkts =>
    let o := routingFloodForward n.cache n.fb pkt toaUs nowMs
    let rest := receiveAll toaUs nowMs ⟨o.cache, o.fb⟩ pkts
    (rest.1, o :: rest.2)

/-- The copies that go out again. -/
def relayed (outcomes : List FloodOutcome) : List RivrPktHdr :=
  (outcomes.filter fun o => o.result = .forward).map FloodOutcome.pkt

/-- What the network decides: in which order a node takes what its neighbours sent, and what its
clock and the airtime are in a round. -/
structure FloodAir (V : Type*) where
  order : ℕ → V → List V
  nowMs : ℕ → V → UInt32
  toaUs : ℕ → V → UInt32

/-- A round of a node: the copies it hears, the decisions, what it sends, and its state then. -/
structure FloodRound where
  peer : FloodPeer
  heard : List RivrPktHdr
  outcomes : List FloodOutcome
  sent : List RivrPktHdr

variable {V : Type*} [DecidableEq V]

/-- The rounds: the origin sends the frame, and what is sent in a round is heard in the next. -/
def floodRounds (air : FloodAir V) (origin : V) (frame : RivrPktHdr) (start : V → FloodPeer) :
    ℕ → V → FloodRound
  | 0, v => ⟨start v, [], [], if v = origin then [frame] else []⟩
  | k + 1, v =>
    let heard := (air.order (k + 1) v).flatMap fun u => (floodRounds air origin frame start k u).sent
    let r := (floodRounds air origin frame start k v).peer.receiveAll (air.toaUs (k + 1) v)
      (air.nowMs (k + 1) v) heard
    ⟨r.1, heard, r.2, relayed r.2⟩

/-! ### One node -/

/-- An entry of the frame. -/
def DedupeEntry.IsOf (e : DedupeEntry) (frame : RivrPktHdr) : Prop :=
  e.srcId = frame.srcId ∧ e.pktId = frame.pktId

/-- A copy of the frame. -/
def RivrPktHdr.IsCopyOf (pkt frame : RivrPktHdr) : Prop :=
  pkt.srcId = frame.srcId ∧ pkt.pktId = frame.pktId

variable {frame pkt : RivrPktHdr} {cache : DedupeCache} {fb : Option ForwardBudget}
  {toaUs nowMs : UInt32}

/-- A frame that the cache holds is a duplicate, and stays held. -/
theorem routingFloodForward_of_held (fb : Option ForwardBudget) (toaUs : UInt32) {e : DedupeEntry}
    (he : e ∈ cache.entries) (hkey : e.IsOf frame) (hlive : e.Live nowMs)
    (hpkt : pkt.IsCopyOf frame) :
    (routingFloodForward cache fb pkt toaUs nowMs).result = .dropDedupe ∧
      e ∈ (routingFloodForward cache fb pkt toaUs nowMs).cache.entries := by
  have hfound : (dedupeScan pkt.srcId pkt.pktId nowMs cache.entries).1 = true := by
    rw [← Bool.not_eq_false]
    exact fun hmiss => not_live_of_dedupeScan hmiss he
      ⟨hkey.1.trans hpkt.1.symm, hkey.2.trans hpkt.2.symm⟩ hlive
  obtain ⟨i, hi⟩ := List.mem_iff_getElem?.mp he
  have hstays : e ∈ (dedupeScan pkt.srcId pkt.pktId nowMs cache.entries).2 :=
    List.mem_of_getElem? (dedupeScan_getElem?_of_live hi hlive)
  rw [routingFloodForward_cache, routingFloodForward, routingDedupeCheck, if_pos hfound]
  exact ⟨rfl, hstays⟩

/-- A frame that the cache does not hold is new, is held from then on, and goes out again while it
has hops left and the budget lets it. -/
theorem routingFloodForward_of_not_held (fb : Option ForwardBudget) (toaUs nowMs : UInt32)
    (hnew : ∀ e ∈ cache.entries, ¬e.IsOf frame) (hpkt : pkt.IsCopyOf frame) :
    (routingFloodForward cache fb pkt toaUs nowMs).result ≠ .dropDedupe ∧
      ⟨frame.srcId, frame.pktId, nowMs⟩ ∈
        (routingFloodForward cache fb pkt toaUs nowMs).cache.entries ∧
      (pkt.ttl ≠ 0 → pkt.hop < rivrPktDefaultTtl →
        (routingFloodForward cache fb pkt toaUs nowMs).result ≠ .dropBudget →
        (routingFloodForward cache fb pkt toaUs nowMs).result = .forward) := by
  have hmiss : ¬(dedupeScan pkt.srcId pkt.pktId nowMs cache.entries).1 = true := fun hfound => by
    obtain ⟨e, he, -, hkey⟩ := exists_of_dedupeScan hfound
    exact hnew e he ⟨hkey.1.trans hpkt.1, hkey.2.trans hpkt.2⟩
  have hhead : cache.head.toNat < (dedupeScan pkt.srcId pkt.pktId nowMs cache.entries).2.length := by
    rw [dedupeScan_length, cache.length_entries]
    exact cache.head_lt
  refine ⟨?_, ?_, fun httl hhop hbudget => ?_⟩
  · rw [routingFloodForward, routingDedupeCheck, if_neg hmiss]
    dsimp only
    rw [if_neg (by decide)]
    split_ifs <;> simp
  · rw [routingFloodForward_cache, routingDedupeCheck, if_neg hmiss, ← hpkt.1, ← hpkt.2]
    exact List.mem_iff_getElem?.mpr ⟨cache.head.toNat, List.getElem?_set_self hhead⟩
  · rw [routingFloodForward, routingDedupeCheck, if_neg hmiss] at hbudget ⊢
    dsimp only at hbudget ⊢
    rw [if_neg (by decide), if_neg httl, if_neg (UInt8.not_le.mpr hhop)] at hbudget ⊢
    split_ifs at hbudget ⊢
    · exact absurd rfl hbudget
    · rfl

theorem not_expired_self (srcId : UInt32) (pktId : UInt16) (nowMs : UInt32) :
    ¬(⟨srcId, pktId, nowMs⟩ : DedupeEntry).Expired nowMs := by
  rw [DedupeEntry.Expired, UInt32.sub_self]
  decide

variable {n : FloodPeer} {pkts : List RivrPktHdr}

/-- Copies of a frame that is held. -/
theorem receiveAll_of_held (toaUs : UInt32) {e : DedupeEntry} (he : e ∈ n.cache.entries)
    (hkey : e.IsOf frame) (hlive : e.Live nowMs) (hpkts : ∀ pkt ∈ pkts, pkt.IsCopyOf frame) :
    (∀ o ∈ (n.receiveAll toaUs nowMs pkts).2, o.result = .dropDedupe) ∧
      e ∈ (n.receiveAll toaUs nowMs pkts).1.cache.entries := by
  induction pkts generalizing n with
  | nil => exact ⟨fun o ho => absurd ho List.not_mem_nil, he⟩
  | cons pkt pkts ih =>
    obtain ⟨hdrop, hheld⟩ := routingFloodForward_of_held n.fb toaUs he hkey hlive
      (hpkts pkt List.mem_cons_self)
    obtain ⟨hrest, hheld'⟩ := ih (n := ⟨_, (routingFloodForward n.cache n.fb pkt toaUs nowMs).fb⟩)
      hheld fun p hp => hpkts p (List.mem_cons_of_mem _ hp)
    refine ⟨fun o ho => ?_, hheld'⟩
    rcases List.mem_cons.mp ho with rfl | ho
    · exact hdrop
    · exact hrest o ho

/-- Copies of a frame that is not held: the first is new. -/
theorem receiveAll_of_not_held (toaUs nowMs : UInt32) (hsrc : frame.srcId ≠ 0)
    (hnew : ∀ e ∈ n.cache.entries, ¬e.IsOf frame) (hpkt : pkt.IsCopyOf frame)
    (hpkts : ∀ pkt ∈ pkts, pkt.IsCopyOf frame) :
    (∃ o ∈ (n.receiveAll toaUs nowMs (pkt :: pkts)).2, o.result ≠ .dropDedupe ∧
      (pkt.ttl ≠ 0 → pkt.hop < rivrPktDefaultTtl → o.result ≠ .dropBudget →
        o.result = .forward)) ∧
      ⟨frame.srcId, frame.pktId, nowMs⟩ ∈
        (n.receiveAll toaUs nowMs (pkt :: pkts)).1.cache.entries := by
  obtain ⟨haccept, hheld, hforward⟩ := routingFloodForward_of_not_held n.fb toaUs nowMs hnew
    hpkt
  refine ⟨⟨_, List.mem_cons_self, haccept, hforward⟩, ?_⟩
  exact (receiveAll_of_held (n := ⟨_, (routingFloodForward n.cache n.fb pkt toaUs nowMs).fb⟩) toaUs
    hheld ⟨rfl, rfl⟩ ⟨hsrc, not_expired_self _ _ _⟩ hpkts).2

/-- What goes out again is a copy with one hop less to go. -/
theorem exists_of_mem_relayed (h : pkt ∈ relayed (n.receiveAll toaUs nowMs pkts).2) :
    ∃ p ∈ pkts, p.ttl ≠ 0 ∧ p.hop < rivrPktDefaultTtl ∧ pkt = relayHdr p := by
  obtain ⟨o, ho, rfl⟩ := List.mem_map.mp h
  obtain ⟨hmem, hforward⟩ := List.mem_filter.mp ho
  clear h ho
  induction pkts generalizing n with
  | nil => exact absurd hmem List.not_mem_nil
  | cons p pkts ih =>
    rcases List.mem_cons.mp hmem with rfl | hmem
    · obtain ⟨-, httl, hhop, hpkt⟩ := of_routingFloodForward_forward (of_decide_eq_true hforward)
      exact ⟨p, List.mem_cons_self, httl, hhop, hpkt⟩
    · obtain ⟨p', hp', hp⟩ := ih hmem
      exact ⟨p', List.mem_cons_of_mem _ hp', hp⟩

/-! ### The invariant of the rounds -/

/-- What the network is like: nodes take what their neighbours sent, and the frame has a source, a
TTL within the default and no hops behind it. It is new to every node but the origin, no cache
forgets it while it is under way, and no budget refuses it. -/
structure FloodSetting (G : SimpleGraph V) (air : FloodAir V) (origin : V) (frame : RivrPktHdr)
    (start : V → FloodPeer) : Prop where
  neighbours : ∀ k v u, u ∈ air.order k v ↔ G.Adj u v
  src : frame.srcId ≠ 0
  ttl : frame.ttl ≤ rivrPktDefaultTtl
  hop : frame.hop = 0
  held : ∃ e ∈ (start origin).cache.entries, e.IsOf frame ∧
    ∀ k ≤ frame.ttl.toNat + 1, ¬e.Expired (air.nowMs k origin)
  new : ∀ v ≠ origin, ∀ e ∈ (start v).cache.entries, ¬e.IsOf frame
  expiry : ∀ v j k, j ≤ k → k ≤ frame.ttl.toNat + 1 → air.nowMs k v - air.nowMs j v ≤ dedupeExpiryMs
  budget : ∀ k v, ∀ o ∈ (floodRounds air origin frame start k v).outcomes, o.result ≠ .dropBudget

variable {G : SimpleGraph V} {air : FloodAir V} {origin : V} {start : V → FloodPeer}

/-- What is sent in a round has made as many hops. -/
theorem FloodSetting.sent (h : FloodSetting G air origin frame start) (k : ℕ) (v : V)
    (hpkt : pkt ∈ (floodRounds air origin frame start k v).sent) :
    pkt.IsCopyOf frame ∧ pkt.ttl.toNat + k = frame.ttl.toNat ∧ pkt.hop.toNat = k := by
  induction k generalizing v pkt with
  | zero =>
    rw [floodRounds] at hpkt
    dsimp only at hpkt
    split_ifs at hpkt
    · obtain rfl := List.mem_singleton.mp hpkt
      exact ⟨⟨rfl, rfl⟩, rfl, by rw [h.hop]; rfl⟩
    · exact absurd hpkt List.not_mem_nil
  | succ k ih =>
    obtain ⟨p, hp, httl, hhop, rfl⟩ := exists_of_mem_relayed hpkt
    obtain ⟨u, -, hu⟩ := List.mem_flatMap.mp hp
    obtain ⟨hcopy, httl', hhop'⟩ := ih u hu
    have hlast := relayHdr_ttl_toNat httl
    have hnext := relayHdr_hop_toNat hhop
    exact ⟨hcopy, by omega, by omega⟩

theorem FloodSetting.heard (h : FloodSetting G air origin frame start) (k : ℕ) (v : V)
    (hpkt : pkt ∈ (floodRounds air origin frame start (k + 1) v).heard) :
    pkt.IsCopyOf frame ∧ pkt.ttl.toNat + k = frame.ttl.toNat ∧ pkt.hop.toNat = k := by
  obtain ⟨u, -, hu⟩ := List.mem_flatMap.mp hpkt
  exact h.sent k u hu

/-- No more than the TTL allows is under way. -/
theorem FloodSetting.le_of_heard (h : FloodSetting G air origin frame start) {k : ℕ} {v : V}
    (hne : (floodRounds air origin frame start (k + 1) v).heard ≠ []) : k ≤ frame.ttl.toNat := by
  obtain ⟨pkt, hpkt⟩ := List.exists_mem_of_ne_nil _ hne
  obtain ⟨-, httl, -⟩ := h.heard k v hpkt
  omega

theorem floodRounds_peer (k : ℕ) (v : V) : (floodRounds air origin frame start (k + 1) v).peer =
    ((floodRounds air origin frame start k v).peer.receiveAll (air.toaUs (k + 1) v)
      (air.nowMs (k + 1) v) (floodRounds air origin frame start (k + 1) v).heard).1 := rfl

theorem floodRounds_outcomes (k : ℕ) (v : V) :
    (floodRounds air origin frame start (k + 1) v).outcomes =
    ((floodRounds air origin frame start k v).peer.receiveAll (air.toaUs (k + 1) v)
      (air.nowMs (k + 1) v) (floodRounds air origin frame start (k + 1) v).heard).2 := rfl

/-- The node heard the frame, or sent it first. -/
def Knows (air : FloodAir V) (origin : V) (frame : RivrPktHdr) (start : V → FloodPeer) (k : ℕ)
    (v : V) : Prop :=
  v = origin ∨ ∃ j ≤ k, (floodRounds air origin frame start j v).heard ≠ []

theorem not_knows_iff {k : ℕ} {v : V} : ¬Knows air origin frame start k v ↔
    v ≠ origin ∧ ∀ j ≤ k, (floodRounds air origin frame start j v).heard = [] := by
  simp only [Knows, not_or, not_exists, not_and, not_not, ne_eq]

/-- A node holds the frame exactly when it knows it. -/
theorem FloodSetting.holds (h : FloodSetting G air origin frame start) (k : ℕ) (v : V) :
    (Knows air origin frame start k v →
      ∃ e ∈ (floodRounds air origin frame start k v).peer.cache.entries, e.IsOf frame ∧
        ∀ i, k ≤ i → i ≤ frame.ttl.toNat + 1 → ¬e.Expired (air.nowMs i v)) ∧
    (¬Knows air origin frame start k v →
      ∀ e ∈ (floodRounds air origin frame start k v).peer.cache.entries, ¬e.IsOf frame) := by
  induction k with
  | zero =>
    refine ⟨?_, fun hnot => h.new v (not_knows_iff.mp hnot).1⟩
    rintro (rfl | ⟨j, hj, hheard⟩)
    · -- the origin holds its own frame, and nothing has been heard yet
      obtain ⟨e, he, hof, hlive⟩ := h.held
      exact ⟨e, he, hof, fun i _ hi => hlive i hi⟩
    · obtain rfl := Nat.le_zero.mp hj
      exact absurd rfl hheard
  | succ k ih =>
    obtain ⟨hknown, hunknown⟩ := ih
    rw [floodRounds_peer]
    cases hheard : (floodRounds air origin frame start (k + 1) v).heard with
    | nil =>
      -- a node that hears nothing knows what it knew
      have hsame : Knows air origin frame start (k + 1) v ↔ Knows air origin frame start k v := by
        refine or_congr_right ⟨?_, fun ⟨j, hj, hne⟩ => ⟨j, hj.trans (Nat.le_succ k), hne⟩⟩
        rintro ⟨j, hj, hne⟩
        rcases Nat.le_succ_iff.mp hj with hj | rfl
        · exact ⟨j, hj, hne⟩
        · exact absurd hheard hne
      rw [hsame]
      refine ⟨fun hk => ?_, hunknown⟩
      obtain ⟨e, he, hof, hlive⟩ := hknown hk
      exact ⟨e, he, hof, fun i hi => hlive i ((Nat.le_succ k).trans hi)⟩
    | cons pkt pkts =>
      have hne : (floodRounds air origin frame start (k + 1) v).heard ≠ [] := by
        rw [hheard]
        exact List.cons_ne_nil _ _
      have hcopies : ∀ p ∈ pkt :: pkts, p.IsCopyOf frame := fun p hp =>
        (h.heard k v (hheard ▸ hp)).1
      have hround := h.le_of_heard hne
      refine ⟨fun _ => ?_, fun hnot => absurd (Or.inr ⟨k + 1, le_rfl, hne⟩) hnot⟩
      -- a copy that is known leaves the cache alone; the first copy is entered now
      by_cases hk : Knows air origin frame start k v
      · obtain ⟨e, he, hof, hlive⟩ := hknown hk
        have hsrc : e.srcId ≠ 0 := by
          rw [hof.1]
          exact h.src
        have hheld := (receiveAll_of_held (air.toaUs (k + 1) v) he hof
          ⟨hsrc, hlive (k + 1) (Nat.le_succ k) (by omega)⟩ hcopies).2
        exact ⟨e, hheld, hof, fun i hi => hlive i ((Nat.le_succ k).trans hi)⟩
      · have hheld := (receiveAll_of_not_held (air.toaUs (k + 1) v)
          (air.nowMs (k + 1) v) h.src (hunknown hk) (hcopies pkt List.mem_cons_self)
          fun p hp => hcopies p (List.mem_cons_of_mem _ hp)).2
        refine ⟨_, hheld, ⟨rfl, rfl⟩, fun i hi hT => ?_⟩
        exact UInt32.not_lt.mpr (h.expiry v (k + 1) i hi hT)

/-- A node that knows the frame drops every copy. -/
theorem FloodSetting.drops (h : FloodSetting G air origin frame start) {k : ℕ} {v : V}
    (hk : Knows air origin frame start k v) :
    ∀ o ∈ (floodRounds air origin frame start (k + 1) v).outcomes, o.result = .dropDedupe := by
  intro o ho
  obtain ⟨e, he, hof, hlive⟩ := (h.holds k v).1 hk
  have hsrc : e.srcId ≠ 0 := by
    rw [hof.1]
    exact h.src
  have hne : (floodRounds air origin frame start (k + 1) v).heard ≠ [] := by
    intro hnil
    rw [floodRounds_outcomes, hnil] at ho
    exact absurd ho List.not_mem_nil
  have hround := h.le_of_heard hne
  rw [floodRounds_outcomes] at ho
  exact (receiveAll_of_held _ he hof ⟨hsrc, hlive (k + 1) (Nat.le_succ k) (by omega)⟩
    fun p hp => (h.heard k v hp).1).1 o ho

/-- A node that hears the frame first takes it, and sends it again while it has hops left. -/
theorem FloodSetting.accepts (h : FloodSetting G air origin frame start) {k : ℕ} {v : V}
    (hk : ¬Knows air origin frame start k v)
    (hne : (floodRounds air origin frame start (k + 1) v).heard ≠ []) :
    ∃ o ∈ (floodRounds air origin frame start (k + 1) v).outcomes, o.result ≠ .dropDedupe ∧
      (k + 1 ≤ frame.ttl.toNat → o.result = .forward) := by
  have hbudget := h.budget (k + 1) v
  rw [floodRounds_outcomes] at hbudget ⊢
  cases hheard : (floodRounds air origin frame start (k + 1) v).heard with
  | nil => exact absurd hheard hne
  | cons pkt pkts =>
    have hcopies : ∀ p ∈ pkt :: pkts, p.IsCopyOf frame := fun p hp =>
      (h.heard k v (hheard ▸ hp)).1
    have hpkt : pkt ∈ (floodRounds air origin frame start (k + 1) v).heard := by
      rw [hheard]
      exact List.mem_cons_self
    obtain ⟨-, httl, hhop⟩ := h.heard k v hpkt
    rw [hheard] at hbudget
    obtain ⟨⟨o, ho, haccept, hforward⟩, -⟩ := receiveAll_of_not_held
      (air.toaUs (k + 1) v) (air.nowMs (k + 1) v) h.src ((h.holds k v).2 hk)
      (hcopies pkt List.mem_cons_self) fun p hp => hcopies p (List.mem_cons_of_mem _ hp)
    refine ⟨o, ho, haccept, fun hround => hforward ?_ ?_ (hbudget o ho)⟩
    · rintro hzero
      rw [hzero] at httl
      have : (0 : UInt8).toNat = 0 := rfl
      omega
    · have hle := UInt8.le_iff_toNat_le.mp h.ttl
      rw [UInt8.lt_iff_toNat_lt]
      omega

/-! ### Coverage -/

/-- The rounds are a broadcast. -/
theorem FloodSetting.broadcast (h : FloodSetting G air origin frame start) :
    Broadcast G origin frame.ttl.toNat
      (fun k v => (floodRounds air origin frame start k v).sent ≠ [])
      fun k v => (floodRounds air origin frame start k v).heard ≠ [] where
  start v := by
    rw [floodRounds]
    dsimp only
    split_ifs with hv
    · exact iff_of_true (List.cons_ne_nil _ _) hv
    · exact iff_of_false (not_not.mpr rfl) hv
  silent _ := not_not.mpr rfl
  hears_succ k v := by
    rw [floodRounds]
    dsimp only
    rw [ne_eq, List.flatMap_eq_nil_iff, not_forall]
    refine exists_congr fun u => ?_
    rw [Classical.not_imp, h.neighbours]
  sends_succ k v := by
    have hsent : (floodRounds air origin frame start (k + 1) v).sent =
        relayed (floodRounds air origin frame start (k + 1) v).outcomes := rfl
    have hunknown : (v ≠ origin ∧ ∀ j ≤ k, ¬(floodRounds air origin frame start j v).heard ≠ []) ↔
        ¬Knows air origin frame start k v := by
      simp only [not_knows_iff, ne_eq, not_not]
    constructor
    · intro hne
      obtain ⟨pkt, hpkt⟩ := List.exists_mem_of_ne_nil _ hne
      obtain ⟨-, httl, -⟩ := h.sent (k + 1) v hpkt
      rw [hsent] at hpkt
      obtain ⟨o, ho, -⟩ := List.mem_map.mp hpkt
      obtain ⟨ho, hforward⟩ := List.mem_filter.mp ho
      -- a node that knows the frame drops every copy, so it sends nothing
      have hk : ¬Knows air origin frame start k v := fun hk => by
        rw [h.drops hk o ho] at hforward
        exact absurd hforward (by decide)
      obtain ⟨hv, hfirst⟩ := hunknown.mpr hk
      refine ⟨by omega, hv, fun hnil => ?_, hfirst⟩
      rw [floodRounds_outcomes, hnil] at ho
      exact absurd ho List.not_mem_nil
    · rintro ⟨hT, hv, hne, hfirst⟩
      obtain ⟨o, ho, -, hforward⟩ := h.accepts (hunknown.mp ⟨hv, hfirst⟩) hne
      rw [hsent]
      exact List.ne_nil_of_mem (List.mem_map_of_mem
        (List.mem_filter.mpr ⟨ho, decide_eq_true (hforward hT)⟩))

/-- **Coverage.** A node other than the origin hears the frame first in the round of its distance,
and the farthest that hear it are one hop beyond its TTL; and the nodes that take it for new are
these, in that round and no other. -/
theorem flood_coverage (h : FloodSetting G air origin frame start) (k : ℕ) (v : V) :
    (v ≠ origin → (((floodRounds air origin frame start k v).heard ≠ [] ∧
        ∀ j < k, (floodRounds air origin frame start j v).heard = []) ↔
      G.edist origin v = k ∧ k ≤ frame.ttl.toNat + 1)) ∧
    ((∃ o ∈ (floodRounds air origin frame start k v).outcomes, o.result ≠ .dropDedupe) ↔
      1 ≤ k ∧ G.edist origin v = k ∧ k ≤ frame.ttl.toNat + 1) := by
  have hfirst : v ≠ origin → (((floodRounds air origin frame start k v).heard ≠ [] ∧
        ∀ j < k, (floodRounds air origin frame start j v).heard = []) ↔
      G.edist origin v = k ∧ k ≤ frame.ttl.toNat + 1) := fun hv => by
    have hiff := h.broadcast.first_hears_iff hv k
    simpa only [ne_eq, not_not] using hiff
  refine ⟨hfirst, ?_⟩
  cases k with
  | zero => simp [floodRounds]
  | succ k =>
    constructor
    · rintro ⟨o, ho, haccept⟩
      obtain ⟨hv, hbefore⟩ := not_knows_iff.mp fun hk => haccept (h.drops hk o ho)
      have hne : (floodRounds air origin frame start (k + 1) v).heard ≠ [] := fun hnil => by
        rw [floodRounds_outcomes, hnil] at ho
        exact absurd ho List.not_mem_nil
      exact ⟨Nat.le_add_left 1 k, (hfirst hv).mp ⟨hne, fun j hj => hbefore j (Nat.le_of_lt_succ hj)⟩⟩
    · rintro ⟨-, hdist, hT⟩
      have hv : v ≠ origin := by
        rintro rfl
        rw [edist_self] at hdist
        exact absurd hdist.symm (Nat.cast_ne_zero.mpr (Nat.succ_ne_zero k))
      obtain ⟨hne, hbefore⟩ := (hfirst hv).mpr ⟨hdist, hT⟩
      obtain ⟨o, ho, haccept, -⟩ := h.accepts
        (not_knows_iff.mpr ⟨hv, fun j hj => hbefore j (Nat.lt_succ_of_le hj)⟩) hne
      exact ⟨o, ho, haccept⟩

/-! ### A link -/

/-- Without budgets nothing is refused. -/
theorem receiveAll_of_no_budget (hfb : n.fb = none) :
    (n.receiveAll toaUs nowMs pkts).1.fb = none ∧
      ∀ o ∈ (n.receiveAll toaUs nowMs pkts).2, o.result ≠ .dropBudget := by
  induction pkts generalizing n with
  | nil => exact ⟨hfb, fun o ho => absurd ho List.not_mem_nil⟩
  | cons pkt pkts ih =>
    have hone : (routingFloodForward n.cache n.fb pkt toaUs nowMs).fb = none ∧
        (routingFloodForward n.cache n.fb pkt toaUs nowMs).result ≠ .dropBudget := by
      rw [routingFloodForward, hfb]
      dsimp only [floodBudget]
      split_ifs with _ _ _ hbudget
      · exact ⟨rfl, by simp⟩
      · exact ⟨rfl, by simp⟩
      · exact ⟨rfl, by simp⟩
      · exact absurd hbudget (by decide)
      · exact ⟨rfl, by simp⟩
    obtain ⟨hrest, hresults⟩ :=
      ih (n := ⟨(routingFloodForward n.cache n.fb pkt toaUs nowMs).cache, _⟩) hone.1
    refine ⟨hrest, fun o ho => ?_⟩
    rcases List.mem_cons.mp ho with rfl | ho
    · exact hone.2
    · exact hresults o ho

theorem floodRounds_of_no_budget (hfb : ∀ v, (start v).fb = none) (k : ℕ) (v : V) :
    (floodRounds air origin frame start k v).peer.fb = none ∧
      ∀ o ∈ (floodRounds air origin frame start k v).outcomes, o.result ≠ .dropBudget := by
  induction k with
  | zero => exact ⟨hfb v, fun o ho => absurd ho List.not_mem_nil⟩
  | succ k ih => exact receiveAll_of_no_budget ih.1

/-- Two nodes in range of each other. -/
def linkAir : FloodAir Bool := ⟨fun _ v => [!v], fun _ _ => 0, fun _ _ => 0⟩

/-- The first of them sends a chat frame, which is in its cache. -/
def linkStart (v : Bool) : FloodPeer :=
  ⟨if v then routingDedupeInit
    else (routingDedupeCheck routingDedupeInit sampleChatHdr.srcId sampleChatHdr.pktId 0).2, none⟩

theorem linkSetting : FloodSetting (⊤ : SimpleGraph Bool) linkAir false sampleChatHdr linkStart where
  neighbours _ v u := by cases v <;> cases u <;> simp [linkAir]
  src := by decide
  ttl := by decide
  hop := rfl
  held := ⟨⟨sampleChatHdr.srcId, sampleChatHdr.pktId, 0⟩, by decide, ⟨rfl, rfl⟩,
    fun k _ => not_expired_self _ _ _⟩
  new v hv := by
    obtain rfl : v = true := by simpa using hv
    intro e he hof
    obtain rfl := List.eq_of_mem_replicate he
    exact absurd hof.1 (by decide)
  expiry _ _ _ _ _ := show (0 : UInt32) - 0 ≤ dedupeExpiryMs by decide
  budget k v := (floodRounds_of_no_budget (fun _ => rfl) k v).2

theorem flood_coverage_link :
    (∃ o ∈ (floodRounds linkAir false sampleChatHdr linkStart 1 true).outcomes,
      o.result ≠ .dropDedupe) ↔
    1 ≤ 1 ∧ (⊤ : SimpleGraph Bool).edist false true = (1 : ℕ) ∧ 1 ≤ sampleChatHdr.ttl.toNat + 1 :=
  (flood_coverage linkSetting 1 true).2

end Rivr
