import Rivr.Firmware.Acknowledgement
import Rivr.Firmware.MessageCopies
import Rivr.Firmware.RouteLoops

/-!
# Delivery to the application

A frame that reaches the handlers of a node is handed to the application once. What keeps a message
from being handed over again is the dedupe cache, and its keys are packet ids: it stops the other
copies of a frame, not the frames that the retry table sends under new ids. So a message whose
acknowledgement is lost is delivered again (`not_message_deliveries`).

What holds is this. A message that goes to a sink once has at most five packet ids in the whole
mesh, and while a node remembers the frames it accepted, the last 64 of the last minute, it hands
the message over at most once for each of them (`message_deliveries`).
-/

namespace Rivr

open RecentLog

variable {cfg : BuildConfig} {ι : Type*} {build : ι → BuildConfig} {m : MessageId}

/-! ### Handing over -/

/-- The event hands the message to `handle_chat_message` or `handle_mailbox_store`. -/
def AppEvent.Hands (m : MessageId) : AppEvent → Prop
  | .chatMessage hdr _ => hdr.srcId = m.srcId ∧ hdr.seq = m.seq
  | .mailboxStore hdr _ => hdr.srcId = m.srcId ∧ hdr.seq = m.seq
  | _ => False

instance AppEvent.decidableHands (m : MessageId) : ∀ ev : AppEvent, Decidable (ev.Hands m)
  | .chatMessage .. => inferInstanceAs (Decidable (_ ∧ _))
  | .mailboxStore .. => inferInstanceAs (Decidable (_ ∧ _))
  | .telemetryPublish .. => .isFalse id
  | .alertEvent .. => .isFalse id
  | .inject _ => .isFalse id

/-- The message was handed to the application with the frame. -/
def Reception.Delivers (m : MessageId) (r : Reception) : Prop := ∃ ev ∈ r.events, ev.Hands m

instance Reception.decidableDelivers (m : MessageId) (r : Reception) : Decidable (r.Delivers m) :=
  inferInstanceAs (Decidable (∃ ev ∈ r.events, ev.Hands m))

/-- The key of a reception in the dedupe cache. -/
def Reception.wireKey (r : Reception) : WireKey := (r.hdr.srcId, r.hdr.pktId)

/-- Only a frame of the message hands it over. -/
theorem ofMessage_of_hands {node : RadioNode cfg} {frame : RfRxFrame} {hdr : RivrPktHdr}
    {pl : Option (List UInt8)} {nowMs : UInt32} {ev : AppEvent}
    (h : ev ∈ (node.handle frame hdr pl nowMs).events) (hev : ev.Hands m) : hdr.OfMessage m := by
  have happ : ev ∈ appEvents frame hdr pl → hdr.OfMessage m := by
    intro hmem
    unfold appEvents at hmem
    rcases List.mem_append.mp hmem with hmem | hinject
    · rcases pl with _ | payload
      · exact absurd hmem List.not_mem_nil
      · dsimp only at hmem
        split_ifs at hmem with hchat htelemetry hmail halert
        · obtain rfl := List.mem_singleton.mp hmem
          exact ⟨.inl hchat.1, hev⟩
        · obtain rfl := List.mem_singleton.mp hmem
          exact hev.elim
        · obtain rfl := List.mem_singleton.mp hmem
          exact ⟨.inr hmail.1, hev⟩
        · obtain rfl := List.mem_singleton.mp hmem
          exact hev.elim
        · exact absurd hmem List.not_mem_nil
    · obtain rfl := List.mem_singleton.mp hinject
      exact hev.elim
  rw [RadioNode.handle] at h
  split_ifs at h
  all_goals first | exact absurd h List.not_mem_nil | exact happ h

/-! ### What a node remembers -/

/-- Every reception enters the dedupe cache, and nothing else does. -/
theorem DedupeLog.rfRxFrame {node : RadioNode cfg} {now : ℕ} {log : List (WireKey × ℕ)}
    (h : DedupeLog now log node.dedupe) (env : RxVerdicts) (frame : RfRxFrame) :
    DedupeLog now
      (match node.accepted env frame (UInt32.ofNat now) with
        | none => log
        | some (hdr, _) => ((hdr.srcId, hdr.pktId), now) :: log)
      (rfRxFrame node env frame (UInt32.ofNat now)).1.dedupe := by
  rw [RadioNode.accepted]
  rcases hdec : protocolDecode frame.data (UInt8.ofNat frame.data.length) with _ | ⟨hdr, pl⟩
  · rw [Rivr.rfRxFrame, hdec]
    exact h
  · have hcheck := h.check (hdr.srcId, hdr.pktId)
    dsimp only [Option.bind_some, bind]
    -- a frame of another network, or one the bus has seen, does not reach the cache
    by_cases hpass : (hdr.netId = 0 ∨ hdr.netId = node.netId) ∧ env.busAccepts = true
    · rw [rfRxFrame_dedupe hdec hpass.1 hpass.2]
      by_cases hfresh :
          (routingDedupeCheck node.dedupe hdr.srcId hdr.pktId (UInt32.ofNat now)).1 = true
      · rw [if_pos ⟨hpass.1, hpass.2, hfresh⟩]
        rwa [logAfter, if_pos hfresh] at hcheck
      · rw [if_neg fun hall => hfresh hall.2.2]
        rwa [logAfter, if_neg hfresh] at hcheck
    · rw [if_neg fun hall => hpass ⟨hall.1, hall.2.1⟩, Rivr.rfRxFrame, hdec]
      dsimp only
      split_ifs with hnet hbus
      · exact h
      · exact h
      all_goals
        rw [not_and_or, not_not, not_not] at hnet
        exact absurd ⟨hnet, by simpa using hbus⟩ hpass

/-- The receptions of a node are the log of its dedupe cache, and what they hand over is theirs. -/
structure DeliveryInv (s : Mesh build) : Prop where
  log : ∀ j, DedupeLog (s.nowMs j) ((s.received j).map fun r => (r.wireKey, r.atMs))
    (s.node j).dedupe
  handed : ∀ j, ∀ r ∈ s.received j, ∀ m, r.Delivers m → r.hdr.OfMessage m

theorem deliveryInv_booted {s : Mesh build} (h : s.Booted) : DeliveryInv s := by
  constructor
  · intro j
    rw [h.received j]
    exact dedupeLog_nil _ _
  · intro j r hr
    rw [h.received j] at hr
    exact absurd hr List.not_mem_nil

/-- A step that receives nothing. -/
theorem DeliveryInv.of_same {s s' : Mesh build} (h : DeliveryInv s)
    (hdedupe : ∀ j, (s'.node j).dedupe = (s.node j).dedupe) (hnow : ∀ j, s.nowMs j ≤ s'.nowMs j)
    (hreceived : s'.received = s.received) : DeliveryInv s' := by
  constructor
  · intro j
    rw [hdedupe j, hreceived]
    exact (h.log j).mono (hnow j)
  · rw [hreceived]
    exact h.handed

/-! ### At most once for each packet id -/

/-- Two deliveries of a message under one packet id, the later one first: the node has forgotten
the earlier one in between. -/
theorem DeliveryInv.forgotten {s : Mesh build} (h : DeliveryInv s) (hsrc : m.srcId ≠ 0) {j : ι}
    {A B C : List Reception} {r₀ r₁ : Reception} (heq : s.received j = A ++ r₁ :: (B ++ r₀ :: C))
    (h₀ : r₀.Delivers m) (h₁ : r₁.Delivers m) (hpkt : r₁.hdr.pktId = r₀.hdr.pktId) :
    64 ≤ B.countP (fun r => r.wireKey ≠ r₀.wireKey) ∨ 60000 < r₁.atMs - r₀.atMs := by
  have hmem₀ : r₀ ∈ s.received j := by simp [heq]
  have hmem₁ : r₁ ∈ s.received j := by simp [heq]
  have hsrc₀ : r₀.hdr.srcId = m.srcId := (h.handed j r₀ hmem₀ m h₀).2.1
  have hsrc₁ : r₁.hdr.srcId = m.srcId := (h.handed j r₁ hmem₁ m h₁).2.1
  have hkey : r₁.wireKey = r₀.wireKey := Prod.ext (hsrc₁.trans hsrc₀.symm) hpkt
  have hlog := h.log j
  have hmap : (s.received j).map (fun r => (r.wireKey, r.atMs)) =
      A.map (fun r => (r.wireKey, r.atMs)) ++ (r₀.wireKey, r₁.atMs) ::
        (B.map (fun r => (r.wireKey, r.atMs)) ++
          (r₀.wireKey, r₀.atMs) :: C.map fun r => (r.wireKey, r.atMs)) := by
    rw [heq, List.map_append, List.map_cons, List.map_append, List.map_cons, hkey]
  have hkey₀ : r₀.wireKey.1 ≠ 0 := by
    rw [Reception.wireKey, hsrc₀]
    exact hsrc
  have hspaced := hlog.spaced
  have hsorted := hlog.sorted
  rw [hmap] at hspaced hsorted
  have hwindow := hspaced.of_append.between
    (List.pairwise_cons.mp (List.pairwise_append.mp hsorted).2.1).2 hkey₀
  rwa [List.countP_map] at hwindow

/-! ### Actions -/

variable [DecidableEq ι]

theorem dedupe_update {s : Mesh build} {i : ι} {node : RadioNode (build i)}
    (h : node.dedupe = (s.node i).dedupe) (j : ι) :
    (Function.update s.node i node j).dedupe = (s.node j).dedupe := by
  by_cases hj : j = i
  · subst hj
    rw [Function.update_self, h]
  · rw [Function.update_of_ne hj]

/-- Receiving a frame. -/
theorem DeliveryInv.receive {s : Mesh build} (h : DeliveryInv s) (i : ι) (frame : RfRxFrame)
    (env : RxVerdicts) : DeliveryInv (s.receive i frame env) := by
  constructor
  · intro j
    have hnode : (s.receive i frame env).node =
        Function.update s.node i (Rivr.rfRxFrame (s.node i) env frame (s.clock i)).1 := rfl
    have hreceived : (s.receive i frame env).received =
        match (s.node i).accepted env frame (s.clock i) with
        | none => s.received
        | some (hdr, pl) => Function.update s.received i
            (⟨hdr, pl, s.nowMs i, (Rivr.rfRxFrame (s.node i) env frame (s.clock i)).2⟩ ::
              s.received i) := rfl
    have hnow : (s.receive i frame env).nowMs = s.nowMs := rfl
    rw [hnode, hreceived, hnow]
    by_cases hj : j = i
    · subst hj
      have hlog := (h.log j).rfRxFrame env frame
      rw [Function.update_self, Mesh.clock]
      rcases hacc : (s.node j).accepted env frame (UInt32.ofNat (s.nowMs j)) with _ | ⟨hdr, pl⟩
      · rw [hacc] at hlog
        exact hlog
      · rw [hacc] at hlog
        dsimp only
        rw [Function.update_self]
        exact hlog
    · rw [Function.update_of_ne hj]
      rcases (s.node i).accepted env frame (s.clock i) with _ | ⟨hdr, pl⟩
      · exact h.log j
      · dsimp only
        rw [Function.update_of_ne hj]
        exact h.log j
  · intro j r hr m hdelivers
    rcases mem_received_receive.mp hr with hold | ⟨-, ⟨hdr, pl⟩, hacc, rfl⟩
    · exact h.handed j r hold m hdelivers
    · obtain ⟨ev, hev, hhands⟩ := hdelivers
      dsimp only at hev
      rw [rfRxFrame_of_accepts (accepted_eq_some_iff.mp hacc)] at hev
      exact ofMessage_of_hands hev hhands

/-- **Every action** keeps the log. -/
theorem DeliveryInv.act {s : Mesh build} (h : DeliveryInv s) (a : MeshAction ι) :
    DeliveryInv (s.act a) := by
  cases a with
  | originate i value =>
    exact h.of_same (dedupe_update (rfTxSinkCb_dedupe _ _ _)) (fun _ => le_refl _) rfl
  | bleFrame i data allowed =>
    exact h.of_same (dedupe_update (sourceHandleBleOrigination_dedupe _ _ _ _))
      (fun _ => le_refl _) rfl
  | retryTick i => exact h.of_same (dedupe_update rfl) (fun _ => le_refl _) rfl
  | transmit i =>
    rw [Mesh.act, Mesh.transmit]
    split
    · exact h
    · exact h.of_same (dedupe_update rfl) (fun _ => le_refl _) rfl
  | receive i number rssiDbm snrDb env =>
    rw [Mesh.act]
    split
    · exact h
    · exact h.receive i _ env
  | wait i ms =>
    refine h.of_same (fun _ => rfl) (fun j => ?_) rfl
    rw [Mesh.act]
    dsimp only
    by_cases hj : j = i
    · subst hj
      rw [Function.update_self]
      exact Nat.le_add_right _ _
    · rw [Function.update_of_ne hj]

/-- **Every run** keeps the log. -/
theorem MeshRun.deliveryInv {kind : Mesh build → MeshAction ι → Prop} {s₀ s : Mesh build}
    (run : MeshRun kind s₀ s) (h : DeliveryInv s₀) : DeliveryInv s :=
  run.invariant h fun _ a hi _ => hi.act a

/-! ### The deliveries of a message -/

omit [DecidableEq ι] in
/-- In a stretch that the node still remembers, deliveries of a message have different packet
ids. -/
theorem DeliveryInv.nodup_window {s : Mesh build} (h : DeliveryInv s) (hsrc : m.srcId ≠ 0) {j : ι}
    {A W C : List Reception} (heq : s.received j = A ++ W ++ C) (hlen : W.length ≤ 64)
    (htime : ∀ r ∈ W, ∀ r' ∈ W, r'.atMs - r.atMs ≤ 60000) :
    ((W.filter fun r => r.Delivers m).map fun r => r.hdr.pktId).Nodup := by
  rw [List.Nodup, List.pairwise_map, List.pairwise_iff_forall_sublist]
  intro r₁ r₀ hsub hpkt
  have hmem₁ := List.of_mem_filter (hsub.subset (List.mem_cons_self ..))
  have hmem₀ := List.of_mem_filter (hsub.subset (List.mem_cons_of_mem _ (List.mem_cons_self ..)))
  obtain ⟨W₁, W₂, rfl, hr₁, hr₀⟩ :=
    List.cons_sublist_iff.mp (hsub.trans List.filter_sublist)
  obtain ⟨A₁, B₁, rfl⟩ := List.append_of_mem hr₁
  obtain ⟨B₂, C₂, rfl⟩ := List.append_of_mem (List.singleton_sublist.mp hr₀)
  have hsplit : s.received j = (A ++ A₁) ++ r₁ :: ((B₁ ++ B₂) ++ r₀ :: (C₂ ++ C)) := by
    simp only [heq, List.append_assoc, List.cons_append]
  rcases h.forgotten hsrc hsplit (by simpa using hmem₀) (by simpa using hmem₁) hpkt with hfull | hlate
  · have hcount := List.countP_le_length (p := fun r => r.wireKey ≠ r₀.wireKey) (l := B₁ ++ B₂)
    simp only [List.length_append, List.length_cons] at hlen hcount
    omega
  · have hsoon := htime r₀ (by simp) r₁ (by simp)
    omega

/-- **At most once for each packet id.** A message that goes to a sink once has at most five packet
ids. A node hands it over under one packet id a second time only when it has forgotten the first:
after 64 other frames or a minute. So it hands the message over at most five times in a stretch
that it remembers. -/
theorem message_deliveries {s₀ s₁ s : Mesh build} {a : MeshAction ι} (hboot : s₀.Booted)
    (hsrc : m.srcId ≠ 0) (before : MeshRun (Silent m) s₀ s₁)
    (after : MeshRun (Silent m) (s₁.act a) s) :
    ∃ ids : List UInt16, ids.length ≤ 5 ∧ ∀ j,
      (∀ r ∈ s.received j, r.Delivers m → r.hdr.pktId ∈ ids) ∧
      (∀ (A B C : List Reception) (r₀ r₁ : Reception),
        s.received j = A ++ r₁ :: (B ++ r₀ :: C) → r₀.Delivers m → r₁.Delivers m →
        r₁.hdr.pktId = r₀.hdr.pktId →
        64 ≤ B.countP (fun r => r.wireKey ≠ r₀.wireKey) ∨ 60000 < r₁.atMs - r₀.atMs) ∧
      ∀ A W C : List Reception, s.received j = A ++ W ++ C → W.length ≤ 64 →
        (∀ r ∈ W, ∀ r' ∈ W, r'.atMs - r.atMs ≤ 60000) →
        W.countP (fun r => r.Delivers m) ≤ 5 := by
  obtain ⟨ids, hcopies⟩ := exists_copyInv hboot before after
  have hinv : DeliveryInv s :=
    after.deliveryInv ((before.deliveryInv (deliveryInv_booted hboot)).act a)
  have hids : ∀ j, ∀ r ∈ s.received j, r.Delivers m → r.hdr.pktId ∈ ids := fun j r hr hd =>
    hcopies.received j r hr (hinv.handed j r hr m hd)
  refine ⟨ids, hcopies.length_le, fun j => ⟨hids j, ?_, ?_⟩⟩
  · intro A B C r₀ r₁ heq h₀ h₁ hpkt
    exact hinv.forgotten hsrc heq h₀ h₁ hpkt
  · intro A W C heq hlen htime
    have hnodup := hinv.nodup_window hsrc heq hlen htime
    -- in the stretch each packet id occurs once, and each is one of the five
    have hsubset : ((W.filter fun r => r.Delivers m).map fun r => r.hdr.pktId) ⊆ ids := by
      intro pktId hpkt
      obtain ⟨r, hr, rfl⟩ := List.mem_map.mp hpkt
      obtain ⟨hmem, hd⟩ := List.mem_filter.mp hr
      exact hids j r (by simp [heq, hmem]) (by simpa using hd)
    calc W.countP (fun r => r.Delivers m)
        = ((W.filter fun r => r.Delivers m).map fun r => r.hdr.pktId).length := by
          rw [List.length_map, List.countP_eq_length_filter]
      _ ≤ ids.length := (hnodup.subperm hsubset).length_le
      _ ≤ 5 := hcopies.length_le

/-! ### A lost acknowledgement -/

/-- `0xA` learns a route to `0xD` from what it hears. -/
def lostAckBefore : List (MeshAction Trio) :=
  [.originate .d (chatFrame 0xD 0 77), .transmit .d, hears .a 0, .wait .a 1000]

/-- `0xD` receives the message, its acknowledgement is never heard, and `0xA` sends again. -/
def lostAckAfter : List (MeshAction Trio) :=
  [.transmit .a, hears .d 1, .wait .a 5000, .retryTick .a, .transmit .a, hears .d 2]

/-- The mesh in which `0xA` has given message 78 to its sink. -/
def lostAckSent : Mesh fun _ : Trio => clientBuild :=
  (trioStart.run lostAckBefore).act (.originate .a (chatFrame 0xA 0xD 78))

theorem meshRun_lostAckBefore :
    MeshRun (Silent ⟨0xA, 78⟩) trioStart (trioStart.run lostAckBefore) :=
  MeshRun.start.run (by decide +kernel)

theorem meshRun_lostAckAfter :
    MeshRun (Silent ⟨0xA, 78⟩) lostAckSent (lostAckSent.run lostAckAfter) :=
  MeshRun.start.run (by decide +kernel)

/-- **A second delivery.** The message is handed to the application of `0xD` twice. -/
theorem not_message_deliveries :
    ¬∀ (s₀ s₁ s : Mesh fun _ : Trio => clientBuild) (a : MeshAction Trio) (m : MessageId),
      s₀.Booted → MeshRun (Silent m) s₀ s₁ → MeshRun (Silent m) (s₁.act a) s →
      ∀ j, (s.received j).countP (fun r => r.Delivers m) ≤ 1 := by
  intro honce
  have hle := honce _ _ _ _ _ booted_trioStart meshRun_lostAckBefore meshRun_lostAckAfter .d
  revert hle
  decide +kernel

theorem message_deliveries_lostAck :
    ∃ ids : List UInt16, ids.length ≤ 5 ∧
      ∀ r ∈ (lostAckSent.run lostAckAfter).received .d,
        r.Delivers ⟨0xA, 78⟩ → r.hdr.pktId ∈ ids := by
  obtain ⟨ids, hlen, hids⟩ := message_deliveries booted_trioStart (by decide)
    meshRun_lostAckBefore meshRun_lostAckAfter
  exact ⟨ids, hlen, (hids .d).1⟩

end Rivr
