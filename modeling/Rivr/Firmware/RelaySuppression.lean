import Rivr.Firmware.Mesh
import Rivr.Firmware.RelayNode

/-!
# Suppressing a relay that a neighbour has sent

When a node overhears a neighbour relaying a packet while its own relay of it still waits in the
transmit queue, `opfwd_suppress.h` means to cancel the own copy. It never does. The packet bus
remembers the same packets as the dedupe cache behind it, slot by slot (`Lockstep`), so of the
frames that reach the flood decision none is a duplicate (`Lockstep.receive`), the branch that notes
an overheard relay is not taken, and the ring stays empty (`SuppressLog.Inert`). Whether an own copy
that was overheard still goes out is therefore up to the airtime scheduler and the duty cycle alone
(`opfwd_suppression_iff`).

Past the bus the ring would do its work for 300 ms (`suppressed_iff`), less than a relay can wait.
-/

namespace Rivr

open Runs

/-! ### What a record would do -/

/-- A packet that was just overheard is found for 300 ms. -/
theorem suppressed_iff {tbl : OpfwdSuppress} {log : List OpfwdEntry} (h : tbl.Follows log)
    {key : WireKey} (hkey : key.1 ≠ 0) {since now : ℕ} (hsince : since ≤ now)
    (hnear : now < since + 2 ^ 31) :
    opfwdSuppressCheck (opfwdSuppressAdd tbl key.1 key.2 (UInt32.ofNat since)) key.1 key.2
        (UInt32.ofNat now) = true ↔ now < since + 300 := by
  rw [(h.add hkey _).check_iff hkey]
  constructor
  · rintro ⟨e, he, hekey, hfresh⟩
    rcases mem_take_recordPair he with ⟨-, hexp⟩ | ⟨hne, -⟩
    · exact (fresh_iff hexp hsince hnear).mp hfresh
    · exact absurd hekey hne
  · intro hnow
    obtain ⟨e, he, hekey⟩ := exists_mem_recordPair log key (UInt32.ofNat since)
    rcases mem_take_recordPair he with ⟨-, hexp⟩ | ⟨hne, -⟩
    · exact ⟨e, he, hekey, (fresh_iff hexp hsince hnear).mpr hnow⟩
    · exact absurd hekey hne

theorem opfwdSuppressCheck_init (key : WireKey) (nowMs : UInt32) :
    opfwdSuppressCheck .init key.1 key.2 nowMs = false := by
  by_cases hkey : key.1 = 0
  · rw [opfwdSuppressCheck, if_pos hkey]
  · rw [← Bool.not_eq_true, follows_init.check_iff hkey]
    rintro ⟨e, he, -⟩
    exact absurd he List.not_mem_nil

/-! ### The bus and the dedupe cache -/

/-- Every packet of the dedupe cache is in the same slot of the bus cache. -/
structure Lockstep (bus : RivrBusDupCache) (cache : DedupeCache) : Prop where
  head : cache.head = bus.head
  slot : ∀ (i : ℕ) (e : DedupeEntry), cache.entries[i]? = some e → e.srcId ≠ 0 →
    bus.entries[i]? = some (e.srcId, e.pktId)

theorem lockstep_init : Lockstep rivrBusInit routingDedupeInit where
  head := rfl
  slot := by
    intro i e he hsrc
    exact absurd (congrArg DedupeEntry.srcId (List.eq_of_mem_replicate (List.mem_of_getElem? he)))
      hsrc

variable {bus : RivrBusDupCache} {cache : DedupeCache}

/-- **A packet that the bus does not know is new to the dedupe cache**, and takes the same slot of
both. -/
theorem Lockstep.check (h : Lockstep bus cache) {key : WireKey}
    (hnew : rivrBusDupCacheSeen bus key = false) (nowMs : UInt32) :
    (routingDedupeCheck cache key.1 key.2 nowMs).1 = true ∧
      Lockstep (rivrBusDupCacheAdd bus key) (routingDedupeCheck cache key.1 key.2 nowMs).2 := by
  have hmiss : ¬(dedupeScan key.1 key.2 nowMs cache.entries).1 = true := by
    intro hfound
    obtain ⟨e, he, hsrc, hkey⟩ := exists_of_dedupeScan hfound
    obtain ⟨i, hi⟩ := List.mem_iff_getElem?.mp he
    have hknown : key ∈ bus.entries := by
      have hslot := h.slot i e hi hsrc
      rw [hkey.1, hkey.2] at hslot
      exact List.mem_of_getElem? hslot
    rw [rivrBusDupCacheSeen, decide_eq_false_iff_not] at hnew
    exact hnew ⟨hkey.1 ▸ hsrc, hknown⟩
  have hhead : cache.head.toNat < 64 := cache.head_lt
  have hslot : (bus.head &&& 63).toNat = cache.head.toNat := by
    rw [and_63_toNat, ← h.head, Nat.mod_eq_of_lt hhead]
  rw [routingDedupeCheck, if_neg hmiss]
  refine ⟨rfl, ?_, ?_⟩
  · have hsame : bus.head &&& 63 = cache.head := UInt8.toNat.inj hslot
    rw [rivrBusDupCacheAdd]
    dsimp only
    rw [hsame, nextHead]
  · intro i e he hsrc
    rw [rivrBusDupCacheAdd]
    dsimp only at he ⊢
    rw [hslot]
    -- the slot at the head is the one that both write
    by_cases hi : i = cache.head.toNat
    · subst hi
      have hlt : cache.head.toNat < (dedupeScan key.1 key.2 nowMs cache.entries).2.length := by
        rw [dedupeScan_length, cache.length_entries]
        exact hhead
      rw [List.getElem?_set_self hlt] at he
      obtain rfl := Option.some.inj he
      exact List.getElem?_set_self (by rw [bus.length_entries]; exact hhead)
    · rw [List.getElem?_set_ne (Ne.symm hi)] at he ⊢
      exact h.slot i e (shrinks_dedupeScan key.1 key.2 nowMs cache.entries he hsrc) hsrc

variable {build : RelayBuild} {node : RelayNode build}

/-- A frame that decodes is rejected and leaves the bus cache as it is, or is new and enters it. -/
theorem rivrBusReceive_cases (bus : RivrBusDupCache) (iface : RivrIface) {data : List UInt8}
    {hdr : RivrPktHdr} {pl : Option (List UInt8)}
    (hdec : protocolDecode data (UInt8.ofNat data.length) = some (hdr, pl)) :
    ((rivrBusReceive bus data iface).1.passes = false ∧ (rivrBusReceive bus data iface).2 = bus) ∨
      (rivrBusDupCacheSeen bus (hdr.srcId, hdr.pktId) = false ∧
        (rivrBusReceive bus data iface).1.passes = true ∧
        (rivrBusReceive bus data iface).2 = rivrBusDupCacheAdd bus (hdr.srcId, hdr.pktId)) := by
  rw [rivrBusReceive, busKey, hdec]
  split_ifs
  · exact Or.inl ⟨rfl, rfl⟩
  · by_cases hseen : rivrBusDupCacheSeen bus (hdr.srcId, hdr.pktId) = true
    · simp [hseen, BusVerdict.passes]
    · simp [hseen, BusVerdict.passes]

/-- **Receiving keeps the caches in step**, and notes nothing in the ring. -/
theorem Lockstep.receive (h : Lockstep node.bus node.dedupe) (frame : RfRxFrame)
    (iface : RivrIface) (nowMs : UInt32) :
    Lockstep (node.receive frame iface nowMs).1.bus (node.receive frame iface nowMs).1.dedupe ∧
      (node.receive frame iface nowMs).1.opfwd = node.opfwd := by
  rcases hdecoded : node.decoded frame with _ | ⟨hdr, pl⟩
  · rw [RelayNode.receive, hdecoded]
    exact ⟨h, rfl⟩
  obtain ⟨hdec, hnet⟩ := Option.filter_eq_some_iff.mp hdecoded
  have hnet : hdr.netId = 0 ∨ hdr.netId = node.netId := of_decide_eq_true hnet
  rcases rivrBusReceive_cases node.bus iface hdec with ⟨hreject, hsame⟩ | ⟨hnew, hpass, hadd⟩
  · rw [RelayNode.receive, hdecoded]
    dsimp only
    rw [onFabric_bus, hreject, hsame]
    exact ⟨by simpa using h, by simp⟩
  · -- the frame is new to the dedupe cache as well
    obtain ⟨hfresh, hstep⟩ := h.check hnew nowMs
    have hnodup : ¬(node.floodDecision frame hdr nowMs).result = .dropDedupe := by
      rw [RadioNode.floodDecision, routingFloodForward_eq_dropDedupe, hfresh]
      exact Bool.noConfusion
    rw [RelayNode.receive, hdecoded]
    dsimp only
    rw [onFabric_bus, hpass, hadd, onFabric_toRadioNode, onFabric_opfwd]
    simp only [Bool.not_true, Bool.false_eq_true, if_false, hnodup, false_and]
    rw [rfRxFrame_dedupe hdec hnet rfl]
    exact ⟨hstep, trivial⟩

/-! ### Runs of a node -/

/-- What can happen at a node. -/
inductive RelayAction
  /-- A frame is taken from the receive buffer; `allowed` is the answer of the origination policy
  to a frame of a BLE application. -/
  | receive (frame : RfRxFrame) (iface : RivrIface) (allowed : Bool)
  /-- A frame of the node's own program or console goes to the sink. -/
  | originate (value : List UInt8)
  /-- The retry table is looked through. -/
  | retryTick
  /-- Another part of the firmware offers a request to the transmit queue. -/
  | enqueue (req : RfTxRequest)
  /-- The transmit queue is drained. -/
  | drain (radio : ℕ → RadioOutcome)
  /-- Time passes. -/
  | wait (ms : ℕ)

/-- A request that a drain took out of the queue, with the last time that its packet was overheard
while it waited there as a relay. -/
structure CopyTurn extends TxTurn where
  heardMs : Option ℕ

/-- A node with its clock and, as an observer, the waiting relays whose packet was overheard, newest
first, and the requests that left the queue. -/
structure SuppressLog (build : RelayBuild) where
  node : RelayNode build
  nowMs : ℕ
  heard : List (RfTxRequest × ℕ)
  turns : List CopyTurn

/-- A node that has just been switched on. -/
def SuppressLog.init (build : RelayBuild) (role : NodeRole) (myNodeId : UInt32) (netId : UInt16) :
    SuppressLog build := ⟨.init build role myNodeId netId, 0, [], []⟩

/-- The clock of the node as its code reads it. -/
def SuppressLog.clock (l : SuppressLog build) : UInt32 := UInt32.ofNat l.nowMs

/-- The node with other globals of its radio side. -/
def SuppressLog.setRadio (l : SuppressLog build) (radioNode : RadioNode build.toBuildConfig) :
    SuppressLog build :=
  { l with node := { l.node with toRadioNode := radioNode } }

/-- The requests in the queue that are relays of the packet that the frame relays. -/
def SuppressLog.ownCopies (l : SuppressLog build) (frame : RfRxFrame) : List RfTxRequest :=
  match l.node.overhears frame with
  | none => []
  | some key => l.node.txQueue.items.filter fun req => req.relayKey = some key

/-- When the packet of the request was last overheard. -/
def SuppressLog.heardMs (l : SuppressLog build) (req : RfTxRequest) : Option ℕ :=
  (l.heard.find? fun x => x.1 = req).map Prod.snd

/-- One action. -/
def SuppressLog.act (l : SuppressLog build) : RelayAction → SuppressLog build
  | .receive frame iface allowed =>
    if iface = .ble then
      l.setRadio (sourceHandleBleOrigination l.node.toRadioNode frame.data allowed l.clock)
    else
      { l with
        node := (l.node.receive frame iface l.clock).1
        heard := (l.ownCopies frame).map (·, l.nowMs) ++ l.heard }
  | .originate value => l.setRadio (rfTxSinkCb l.node.toRadioNode value l.clock)
  | .retryTick => l.setRadio (l.node.toRadioNode.retryTick l.clock)
  | .enqueue req => l.setRadio (l.node.toRadioNode.push req).2
  | .drain radio =>
    { l with
      node := (txDrainLoop l.clock radio txDrainLimit l.node).2
      turns := (txDrainLoop l.clock radio txDrainLimit l.node).1.map (fun turn =>
        ⟨turn, l.heardMs turn.req⟩) ++ l.turns }
  | .wait ms => { l with nowMs := l.nowMs + ms }

/-- The node after a list of actions. -/
def SuppressLog.after (build : RelayBuild) (role : NodeRole) (myNodeId : UInt32) (netId : UInt16)
    (actions : List RelayAction) : SuppressLog build :=
  actions.foldl SuppressLog.act (.init build role myNodeId netId)

/-- Suppression is effective: no relay went out that had been overheard. -/
def SuppressLog.Effective (l : SuppressLog build) : Prop :=
  ∀ turn ∈ l.turns, turn.heardMs ≠ none → turn.sent = false

instance SuppressLog.decidableEffective (l : SuppressLog build) : Decidable l.Effective :=
  inferInstanceAs (Decidable (∀ turn ∈ l.turns, _))

/-- The ring is empty, and has suppressed nothing. -/
structure SuppressLog.Inert (l : SuppressLog build) : Prop where
  lockstep : Lockstep l.node.bus l.node.dedupe
  empty : l.node.opfwd = .init
  sent : ∀ turn ∈ l.turns, turn.sent = turn.admitted

theorem inert_init (role : NodeRole) (myNodeId : UInt32) (netId : UInt16) :
    (SuppressLog.init build role myNodeId netId).Inert where
  lockstep := lockstep_init
  empty := rfl
  sent := fun _ h => absurd h List.not_mem_nil

variable {l : SuppressLog build}

theorem SuppressLog.Inert.setRadio (h : l.Inert) {radioNode : RadioNode build.toBuildConfig}
    (hdedupe : radioNode.dedupe = l.node.dedupe) : (l.setRadio radioNode).Inert where
  lockstep := show Lockstep l.node.bus radioNode.dedupe from hdedupe ▸ h.lockstep
  empty := h.empty
  sent := h.sent

/-- **No action wakes the ring.** -/
theorem SuppressLog.Inert.act (h : l.Inert) (a : RelayAction) : (l.act a).Inert := by
  cases a with
  | receive frame iface allowed =>
    rw [SuppressLog.act]
    split_ifs
    · exact h.setRadio (sourceHandleBleOrigination_dedupe _ _ _ _)
    · obtain ⟨hlockstep, hring⟩ := h.lockstep.receive frame iface l.clock
      exact ⟨hlockstep, hring.trans h.empty, h.sent⟩
  | originate value => exact h.setRadio (rfTxSinkCb_dedupe _ _ _)
  | retryTick => exact h.setRadio rfl
  | enqueue req => exact h.setRadio rfl
  | drain radio =>
    obtain ⟨hbus, hdedupe, hring⟩ := sameCaches_txDrainLoop l.clock radio txDrainLimit l.node
    refine ⟨?_, hring.trans h.empty, fun turn hturn => ?_⟩
    · rw [SuppressLog.act, hbus, hdedupe]
      exact h.lockstep
    · rcases List.mem_append.mp hturn with hnew | hold
      · obtain ⟨t, ht, rfl⟩ := List.mem_map.mp hnew
        refine sent_eq_admitted (fun key => ?_) ht
        rw [h.empty]
        exact opfwdSuppressCheck_init key l.clock
      · exact h.sent turn hold
  | wait ms => exact ⟨h.lockstep, h.empty, h.sent⟩

theorem inert_after (role : NodeRole) (myNodeId : UInt32) (netId : UInt16)
    (actions : List RelayAction) : (SuppressLog.after build role myNodeId netId actions).Inert :=
  (run_foldl (allows_true SuppressLog.act _ actions)).invariant (inert_init role myNodeId netId)
    fun _ a h _ => h.act a

/-- **Opportunistic suppression.** In every run from start-up, the relays that were overheard while
they waited are kept off the air if and only if the airtime scheduler or the duty cycle refuses each
of them. -/
theorem opfwd_suppression_iff (build : RelayBuild) (role : NodeRole) (myNodeId : UInt32)
    (netId : UInt16) (actions : List RelayAction) :
    (SuppressLog.after build role myNodeId netId actions).Effective ↔
      ∀ turn ∈ (SuppressLog.after build role myNodeId netId actions).turns,
        turn.heardMs ≠ none → turn.admitted = false := by
  have hinert : (SuppressLog.after build role myNodeId netId actions).Inert :=
    inert_after role myNodeId netId actions
  refine forall₂_congr fun turn hturn => ?_
  rw [hinert.sent turn hturn]

/-! ### A relay that goes out after its neighbour's -/

/-- A repeater. -/
def repeaterBuild : RelayBuild where
  toBuildConfig := { clientBuild with isClient := false }
  fabricRepeater := true

/-- A frame heard over LoRa. -/
def overLora (hdr : RivrPktHdr) : RelayAction :=
  .receive ⟨wireFrame hdr [], -80, 5, 0⟩ .lora true

/-- A chat frame is heard, and 10 ms later the relay of it by a neighbour; the own relay goes out
when its time has come. -/
def overheardRelay : List RelayAction :=
  [overLora sampleChatHdr, .wait 10, overLora (relayHdr sampleChatHdr), .wait 200,
    .drain fun _ => ⟨true, 300⟩]

/-- **A relay that was overheard.** The repeater sends its own relay all the same, 200 ms after it
overheard that of its neighbour. -/
theorem not_opfwd_suppression :
    ¬∀ actions : List RelayAction,
      (SuppressLog.after repeaterBuild .repeater 0xB2 sampleChatHdr.netId actions).Effective := by
  intro hall
  exact absurd (hall overheardRelay) (by decide +kernel)

end Rivr
