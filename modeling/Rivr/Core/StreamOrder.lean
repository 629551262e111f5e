import Rivr.Core.EngineTrace
import Rivr.Core.InjectionOrder

/-!
# Edges are first in, first out

The queue of a clock is sorted by tick and number, not by arrival. While the injected events of each
clock come in the order of their ticks and no number is used twice, this makes no difference to a
node: what it is given on a clock is sorted, so that it takes it in the order in which it was sent
(`trace_fifo`). For a node with one input this follows from the order in which that input works. A
merge gets its events from several nodes; here nothing in front of it may keep events back, as an
event that leaves a delay late can be overtaken by one that went around it.
-/

namespace Rivr.Core

open ProcessNetwork Worklist

variable {checks : Bool}

/-! ### Graphs whose merges are prompt -/

/-- Nothing from the sources up to the node keeps events back. -/
inductive Prompt (table : List Row) : ℕ → Prop
  | intro {v : ℕ} {row : Row} (hrow : table[v]? = some row) (hdelays : row.1.delays = false)
      (hups : ∀ u ∈ row.2, Prompt table u) : Prompt table v

theorem Prompt.mono {table table' : List Row} (h : table <+: table') {v : ℕ}
    (hv : Prompt table v) : Prompt table' v := by
  obtain ⟨rows, rfl⟩ := h
  induction hv with
  | intro hrow hdelays _ ih =>
    refine .intro ?_ hdelays ih
    rw [List.getElem?_append_left (List.getElem?_eq_some_iff.mp hrow).1, hrow]

/-- Every node with several inputs is prompt. -/
def MergesPrompt (table : List Row) : Prop :=
  ∀ v row, table[v]? = some row → row.2.length ≤ 1 ∨ Prompt table v

/-! ### The events of one clock -/

/-- The events of a clock. -/
def onClock (c : UInt8) (evs : List Event) : List Event := evs.filter fun ev => ev.stamp.clock = c

@[simp]
theorem onClock_append (c : UInt8) (evs evs' : List Event) :
    onClock c (evs ++ evs') = onClock c evs ++ onClock c evs' := List.filter_append _ _

theorem clockSorted_iff {evs : List Event} : ClockSorted evs ↔
    ∀ c, (onClock c evs).Pairwise fun a b => a.stamp.tick ≤ b.stamp.tick := by
  rw [ClockSorted]
  constructor
  · intro h c
    refine List.pairwise_filter.mpr (h.imp fun {a b} hab ha hb => hab ?_)
    rw [decide_eq_true_eq] at ha hb
    rw [ha, hb]
  · intro h
    refine List.pairwise_iff_forall_sublist.mpr fun {a b} hab hclock => ?_
    have hsub : [a, b].Sublist (onClock a.stamp.clock evs) := by
      have := hab.filter fun ev => ev.stamp.clock = a.stamp.clock
      simpa [onClock, hclock] using this
    exact List.pairwise_iff_forall_sublist.mp (h a.stamp.clock) hsub

theorem ClockSorted.of_onClock {evs evs' : List Event} (h : ClockSorted evs')
    (hpre : ∀ c, onClock c evs <+: onClock c evs') : ClockSorted evs := by
  rw [clockSorted_iff] at h ⊢
  exact fun c => (h c).sublist (hpre c).sublist

/-! ### Insertion behind the items of a node -/

/-- An item that sorts behind all waiting items of its node is queued behind them, and the items of
the other nodes keep their order. -/
theorem filter_insertItem {q : List WorkItem} (hq : KeySorted q) (item : WorkItem) (v : ℕ)
    (h : ∀ w ∈ q, w.nodeId = item.nodeId → w.key ≤ item.key) :
    (insertItem item q).filter (fun w => w.nodeId = v) =
      q.filter (fun w => w.nodeId = v) ++ if item.nodeId = v then [item] else [] := by
  induction q with
  | nil => rw [insertItem, List.filter_singleton]; simp
  | cons x q ih =>
    obtain ⟨hle, hrest⟩ := List.pairwise_cons.mp hq
    rw [insertItem]
    split_ifs with hlt hv hv
    · -- from here on all items sort behind the new one, so none of them is of its node
      have hnone : ∀ w ∈ x :: q, w.nodeId ≠ v := by
        intro w hw heq
        have hwle := h w hw (heq.trans hv.symm)
        have hxlt := WorkItem.keyLt_iff.mp hlt
        rcases List.mem_cons.mp hw with rfl | hw
        · exact absurd hwle (not_le.mpr hxlt)
        · exact absurd (hle w hw) (not_le.mpr (lt_of_le_of_lt hwle hxlt))
      rw [List.filter_cons_of_pos (by simpa using hv),
        List.filter_eq_nil_iff.mpr fun w hw => by simpa using hnone w hw]
      rfl
    · rw [List.filter_cons_of_neg (by simpa using hv), List.append_nil]
    · rw [List.filter_cons, List.filter_cons,
        ih hrest fun w hw => h w (List.mem_cons_of_mem _ hw), if_pos hv]
      split_ifs <;> rfl
    · rw [List.filter_cons, List.filter_cons,
        ih hrest fun w hw => h w (List.mem_cons_of_mem _ hw), if_neg hv]
      split_ifs <;> rfl

/-- The items that wait at a node on a clock, in the order of the queue. -/
def Scheduler.itemsAt (s : Scheduler) (v : ℕ) (c : UInt8) : List WorkItem :=
  (queueOf c s.queues).filter fun w => w.nodeId = v

/-- The items of a node on a clock. -/
def itemsFor (v : ℕ) (c : UInt8) (items : List WorkItem) : List WorkItem :=
  items.filter fun w => w.nodeId = v ∧ w.event.stamp.clock = c

theorem itemsFor_cons (v : ℕ) (c : UInt8) (w : WorkItem) (items : List WorkItem) :
    itemsFor v c (w :: items) =
      (if w.nodeId = v ∧ w.event.stamp.clock = c then [w] else []) ++ itemsFor v c items := by
  rw [itemsFor, List.filter_cons, itemsFor]
  split_ifs <;> simp_all

/-- Items that sort behind what waits at their nodes, and among each other, are queued in their
order. -/
theorem itemsAt_pushAll {s : Scheduler} (h : s.Sorted) {items : List WorkItem}
    (hsorted : ∀ v c, KeySorted (s.itemsAt v c ++ itemsFor v c items)) (v : ℕ) (c : UInt8) :
    (s.pushAll items).itemsAt v c = s.itemsAt v c ++ itemsFor v c items := by
  induction items generalizing s with
  | nil => exact (List.append_nil _).symm
  | cons w items ih =>
    have hfirst : ∀ v c, (s.push w.nodeId w.event).itemsAt v c =
        s.itemsAt v c ++ if w.nodeId = v ∧ w.event.stamp.clock = c then [w] else [] := by
      intro v c
      have hqueue : queueOf c (s.push w.nodeId w.event).queues =
          if c = w.event.stamp.clock then insertItem w (queueOf c s.queues)
          else queueOf c s.queues := queueOf_pushQueue h.sorted _ c w
      rw [Scheduler.itemsAt, hqueue]
      by_cases hc : w.event.stamp.clock = c
      · subst hc
        rw [if_pos rfl, filter_insertItem (h.keySorted _)]
        · simp only [and_true]
          rfl
        · intro x hx hnode
          have hw := hsorted w.nodeId w.event.stamp.clock
          rw [itemsFor_cons, if_pos ⟨rfl, rfl⟩] at hw
          refine (List.pairwise_append.mp hw).2.2 x (List.mem_filter.mpr ⟨hx, ?_⟩) w (by simp)
          simpa using hnode
      · rw [if_neg (Ne.symm hc), if_neg fun hboth => hc hboth.2, List.append_nil]
        rfl
    have hrest := ih (h.push w.nodeId w.event) fun v c => by
      rw [hfirst, List.append_assoc, ← itemsFor_cons]
      exact hsorted v c
    rw [Scheduler.pushAll, List.foldl_cons]
    rw [Scheduler.pushAll] at hrest
    rw [hrest, hfirst, List.append_assoc, ← itemsFor_cons]

/-- The items that a node sends. -/
def sentItems (ids : List ℕ) (evs : List Event) : List WorkItem :=
  evs.flatMap fun ev => ids.map (WorkItem.mk · ev)

theorem sendOut_eq_pushAll (ids : List ℕ) (out : List Event) (s : Scheduler) (seq : UInt32) :
    (sendOut ids out s seq).1 = s.pushAll (sentItems ids (stampOut seq out)) := by
  induction out generalizing s seq with
  | nil => rfl
  | cons ev out ih =>
    rw [sendOut, ih, stampOut, sentItems, sentItems, Scheduler.pushAll, Scheduler.pushAll,
      List.flatMap_cons, List.foldl_append, List.foldl_map]

private theorem map_event_itemsFor_map (ids : List ℕ) (ev : Event) (v : ℕ) (c : UInt8) :
    (itemsFor v c (ids.map (WorkItem.mk · ev))).map WorkItem.event =
      onClock c (List.replicate (ids.count v) ev) := by
  induction ids with
  | nil => rfl
  | cons id ids ih =>
    rw [List.map_cons, itemsFor_cons, List.map_append, ih, List.count_cons]
    by_cases hid : id = v
    · by_cases hc : ev.stamp.clock = c <;> simp [hid, hc, List.replicate_succ, onClock]
    · simp [hid]

theorem map_event_itemsFor_sentItems (ids : List ℕ) (evs : List Event) (v : ℕ) (c : UInt8) :
    (itemsFor v c (sentItems ids evs)).map WorkItem.event =
      onClock c (evs.flatMap (List.replicate (ids.count v))) := by
  induction evs with
  | nil => rfl
  | cons ev evs ih =>
    have happend : sentItems ids (ev :: evs) =
        ids.map (WorkItem.mk · ev) ++ sentItems ids evs := rfl
    have hmap := map_event_itemsFor_map ids ev v c
    rw [itemsFor] at ih hmap
    rw [happend, itemsFor, List.filter_append, List.map_append, List.flatMap_cons, onClock_append,
      ih, hmap]

/-! ### Where the events of a trace come from -/

section Trace

variable {e₀ e : Engine} {tr : List (Act Event)}

theorem Engine.Initial.keptBack (h₀ : e₀.Initial) {v : ℕ} {node : Node}
    (hnode : e₀.nodes[v]? = some node) : node.kind.keptBack = [] :=
  (h₀.made _ (List.mem_map_of_mem (List.mem_of_getElem? hnode))).keptBack

/-- What a node of the graph has sent has the stamp of something it took. -/
theorem Engine.Accounts.exists_fired (h : Engine.Accounts checks e₀ e tr) (h₀ : e₀.Initial) {v : ℕ}
    {node : Node} (hnode : e₀.nodes[v]? = some node) {x : Event} (hx : x ∈ sent v tr) :
    ∃ y ∈ fired v tr, y.stamp = x.stamp := by
  obtain ⟨out, kind, -, hfeed, hsent⟩ := h.nodes v node hnode
  have hmem : x.unnumbered ∈ out.map Event.unnumbered := by
    rw [hsent]
    exact List.mem_map_of_mem hx
  obtain ⟨o, ho, heq⟩ := List.mem_map.mp hmem
  obtain ⟨y, hy, hstamp⟩ := exists_stamp_of_feed (h₀.keptBack hnode) hfeed ho
  have hstamp' : o.unnumbered.stamp = x.unnumbered.stamp := congrArg Event.stamp heq
  exact ⟨y, hy, hstamp.trans hstamp'⟩

/-- What a node took, it was given. -/
theorem Engine.Accounts.mem_received (h : Engine.Accounts checks e₀ e tr) {v : ℕ} {x : Event}
    (hx : x ∈ fired v tr) : x ∈ received (succOf e₀.nodes) v tr := by
  rw [← Multiset.mem_coe, h.waiting]
  exact Multiset.mem_add.mpr (Or.inl (Multiset.mem_coe.mpr hx))

theorem Engine.Initial.shuffles (h₀ : e₀.Initial) (tr : List (Act Event)) (v : ℕ) :
    Shuffles (inputs v tr :: (upsOf e₀.nodes v).map fun u => sent u tr)
      (received (succOf e₀.nodes) v tr) :=
  shuffles_received (h₀.ordered.wired.count_succOf · v) tr

theorem Engine.Initial.exists_up (h₀ : e₀.Initial) {u v : ℕ} (hu : u ∈ upsOf e₀.nodes v) :
    u < v ∧ ∃ node, e₀.nodes[u]? = some node := by
  rw [upsOf] at hu
  cases hv : e₀.nodes[v]? with
  | none => simp [hv] at hu
  | some node =>
    have hlt := h₀.ordered.wired.inputs v node hv u (by simpa [hv] using hu)
    exact ⟨hlt, _, List.getElem?_eq_getElem (hlt.trans (List.getElem?_eq_some_iff.mp hv).1)⟩

/-- Everything has the stamp of something that was injected. -/
theorem Engine.Accounts.exists_injected (h : Engine.Accounts checks e₀ e tr) (h₀ : e₀.Initial)
    {v : ℕ} {x : Event} (hx : x ∈ received (succOf e₀.nodes) v tr) :
    ∃ y ∈ injected tr, y.stamp = x.stamp := by
  induction v using Nat.strong_induction_on generalizing x with
  | _ v ih =>
    obtain ⟨l, hl, hx⟩ := (h₀.shuffles tr v).mem hx
    rcases List.mem_cons.mp hl with rfl | hl
    · exact ⟨x, (inputs_sublist_injected v tr).subset hx, rfl⟩
    · obtain ⟨u, hu, rfl⟩ := List.mem_map.mp hl
      obtain ⟨hlt, node, hnode⟩ := h₀.exists_up hu
      obtain ⟨y, hy, hstamp⟩ := h.exists_fired h₀ hnode hx
      obtain ⟨z, hz, hstamp'⟩ := ih u hlt (h.mem_received hy)
      exact ⟨z, hz, hstamp'.trans hstamp⟩

/-- What a node with one input is given is what that input sends. -/
theorem Engine.Accounts.received_eq (h : Engine.Accounts checks e₀ e tr) (h₀ : e₀.Initial)
    {u v : ℕ} (hup : upsOf e₀.nodes v = [u]) :
    received (succOf e₀.nodes) v tr = sent u tr := by
  have hsource : ¬e₀.IsSource v := by
    rintro ⟨node, hnode, hkind⟩
    have hmade := h₀.made _ (List.mem_map_of_mem (List.mem_of_getElem? hnode))
    have hnil := hmade.source hkind
    rw [upsOf, hnode] at hup
    rw [Option.map_some, Option.getD_some] at hup
    rw [hup] at hnil
    cases hnil
  have hshuffles := h₀.shuffles tr v
  rw [h.inputs v hsource, hup, shuffles_nil_cons_iff, List.map_singleton,
    shuffles_singleton_iff] at hshuffles
  exact hshuffles

/-- What a node without inputs is given comes in at it. -/
theorem Engine.Initial.received_eq (h₀ : e₀.Initial) (tr : List (Act Event)) {v : ℕ}
    (hup : upsOf e₀.nodes v = []) : received (succOf e₀.nodes) v tr = inputs v tr := by
  have hshuffles := h₀.shuffles tr v
  rwa [hup, List.map_nil, shuffles_singleton_iff] at hshuffles

/-! ### What a node is given on a clock is in order -/

/-- The node is given what it takes in the order of the ticks of each clock. -/
theorem Engine.Accounts.sorted (h : Engine.Accounts checks e₀ e tr) (h₀ : e₀.Initial)
    (hmerges : MergesPrompt (tableOf e₀.nodes)) (hinjected : ClockSorted (injected tr))
    (hpre : ∀ v c, onClock c (fired v tr) <+: onClock c (received (succOf e₀.nodes) v tr))
    (hprompt : ∀ v, Prompt (tableOf e₀.nodes) v →
      2 ≤ (upsOf e₀.nodes v).length → ClockSorted (received (succOf e₀.nodes) v tr)) (v : ℕ) :
    ClockSorted (received (succOf e₀.nodes) v tr) := by
  induction v using Nat.strong_induction_on with
  | _ v ih =>
    cases hup : upsOf e₀.nodes v with
    | nil =>
      rw [h₀.received_eq tr hup]
      exact hinjected.sublist (inputs_sublist_injected v tr)
    | cons u rest =>
      cases rest with
      | nil =>
        -- one input, which works in order
        rw [h.received_eq h₀ hup]
        obtain ⟨hlt, node, hnode⟩ := h₀.exists_up (by rw [hup]; exact List.mem_singleton_self u)
        obtain ⟨out, kind, -, hfeed, hsent⟩ := h.nodes u node hnode
        have hfired := (ih u hlt).of_onClock (hpre u)
        have hout : ClockSorted (out.map Event.unnumbered) :=
          List.pairwise_map.mpr (hfired.feed (h₀.keptBack hnode) hfeed)
        rw [hsent] at hout
        exact List.pairwise_map.mp hout
      | cons w rest =>
        refine hprompt v ?_ (by rw [hup]; simp)
        cases hv : e₀.nodes[v]? with
        | none => simp [upsOf, hv] at hup
        | some node =>
          have hrow : (tableOf e₀.nodes)[v]? = some (node.kind, node.inputs) := by
            rw [tableOf, List.getElem?_map, hv]
            rfl
          refine (hmerges v _ hrow).resolve_left fun hle => ?_
          rw [upsOf, hv] at hup
          rw [Option.map_some, Option.getD_some] at hup
          rw [hup] at hle
          simp at hle

/-! ### The invariant -/

/-- Of what a node was given on a clock, it has taken the first part, and the rest waits for it in
its order; and no event waits at a prompt node that is older than one that a prompt node took. -/
structure Engine.InOrder (e₀ e : Engine) (tr : List (Act Event)) : Prop where
  queue : ∀ v c, onClock c (received (succOf e₀.nodes) v tr) =
    onClock c (fired v tr) ++ (e.scheduler.itemsAt v c).map WorkItem.event
  sorted : ∀ v, ClockSorted (received (succOf e₀.nodes) v tr)
  prompt : ∀ u v, Prompt (tableOf e₀.nodes) u → Prompt (tableOf e₀.nodes) v → ∀ x ∈ fired u tr,
    ∀ item ∈ e.scheduler.pending, item.nodeId = v →
      x.stamp.clock = item.event.stamp.clock → x.stamp.tick ≤ item.event.stamp.tick

theorem tick_le_of_key_le {a b : WorkItem} (h : a.key ≤ b.key) :
    a.event.stamp.tick.toNat ≤ b.event.stamp.tick.toNat := by
  rw [WorkItem.key, WorkItem.key, Prod.Lex.toLex_le_toLex] at h
  rcases h with h | ⟨h, -⟩
  · exact h.le
  · exact h.le

/-- The items of one node sort like their events. -/
theorem keySorted_of_events {items : List WorkItem} {v : ℕ} (hnode : ∀ w ∈ items, w.nodeId = v)
    (h : (items.map WorkItem.event).Pairwise fun a b =>
      a.stamp.tick ≤ b.stamp.tick ∧ a.seq.toNat ≤ b.seq.toNat) : KeySorted items := by
  refine (List.pairwise_map.mp h).imp_of_mem fun {a b} ha hb hab => ?_
  obtain ⟨htick, hseq⟩ := hab
  rw [← not_lt, ← WorkItem.keyLt_iff, WorkItem.keyLt, hnode a ha, hnode b hb]
  have htick' := UInt64.le_iff_toNat_le.mp htick
  simp only [ne_eq, ← UInt64.toNat_inj, ← UInt32.toNat_inj, UInt64.lt_iff_toNat_lt,
    UInt32.lt_iff_toNat_lt]
  split_ifs <;> simp <;> omega

/-- Items that continue what their nodes were given, in order, are queued in that order. -/
theorem queue_pushAll {s : Scheduler} (hs : s.Sorted) {items : List WorkItem}
    {given took more : ℕ → List Event}
    (hqueue : ∀ v c, onClock c (given v) =
      onClock c (took v) ++ (s.itemsAt v c).map WorkItem.event)
    (hitems : ∀ v c, (itemsFor v c items).map WorkItem.event = onClock c (more v))
    (hsorted : ∀ v, ClockSorted (given v ++ more v))
    (hseq : ∀ v, (given v ++ more v).Pairwise fun a b => a.seq.toNat ≤ b.seq.toNat)
    (v : ℕ) (c : UInt8) : onClock c (given v ++ more v) =
      onClock c (took v) ++ ((s.pushAll items).itemsAt v c).map WorkItem.event := by
  have hkeys : ∀ v c, KeySorted (s.itemsAt v c ++ itemsFor v c items) := by
    intro v c
    refine keySorted_of_events (v := v) (fun w hw => ?_) ?_
    · rcases List.mem_append.mp hw with hw | hw
      · simpa using (List.mem_filter.mp hw).2
      · have hboth := (List.mem_filter.mp hw).2
        rw [decide_eq_true_eq] at hboth
        exact hboth.1
    · -- the events of these items are the last part of what the node is given on the clock
      have hsuffix : onClock c (given v ++ more v) = onClock c (took v) ++
          (s.itemsAt v c ++ itemsFor v c items).map WorkItem.event := by
        rw [onClock_append, hqueue, List.map_append, hitems, List.append_assoc]
      have hboth : (onClock c (given v ++ more v)).Pairwise fun a b =>
          a.stamp.tick ≤ b.stamp.tick ∧ a.seq.toNat ≤ b.seq.toNat :=
        List.pairwise_and_iff.mpr ⟨clockSorted_iff.mp (hsorted v) c,
          (hseq v).sublist List.filter_sublist⟩
      rw [hsuffix] at hboth
      exact (List.pairwise_append.mp hboth).2.1
  rw [itemsAt_pushAll hs hkeys, List.map_append, hitems, onClock_append, hqueue, List.append_assoc]

/-- While the counter does not wrap, the numbers go up. -/
theorem Engine.Accounts.pairwise_seq (h : Engine.Accounts checks e₀ e tr)
    (hwrap : (issued tr).length ≤ 2 ^ 32) (v : ℕ) :
    (received (succOf e₀.nodes) v tr).Pairwise fun a b => a.seq.toNat ≤ b.seq.toNat := by
  have hnumbers : ((List.range (issued tr).length).map UInt32.ofNat).Pairwise
      fun a b => a.toNat < b.toNat := by
    refine List.pairwise_map.mpr (List.pairwise_lt_range.imp_of_mem fun {a b} ha hb hlt => ?_)
    rw [List.mem_range] at ha hb
    rw [UInt32.toNat_ofNat_of_lt' (by change a < 2 ^ 32; omega),
      UInt32.toNat_ofNat_of_lt' (by change b < 2 ^ 32; omega)]
    exact hlt
  have hissued : (issued tr).Pairwise fun a b => a.seq.toNat < b.seq.toNat := by
    rw [← h.numbers, List.pairwise_map] at hnumbers
    exact hnumbers
  exact pairwise_received (fun (a b : Event) (hlt : a.seq.toNat < b.seq.toNat) => hlt.le)
    (fun a => le_refl a.seq.toNat) _ v hissued

theorem Engine.Initial.inOrder (h₀ : e₀.Initial) : e₀.InOrder e₀ [] := by
  refine ⟨fun v c => ?_, fun _ => List.Pairwise.nil, fun _ _ _ _ _ hx => absurd hx List.not_mem_nil⟩
  rw [Scheduler.itemsAt, h₀.fresh]
  rfl

theorem upsOf_of_isSource (h₀ : e₀.Initial) {v : ℕ} (hv : e₀.IsSource v) :
    upsOf e₀.nodes v = [] := by
  obtain ⟨node, hnode, hkind⟩ := hv
  have hmade := h₀.made _ (List.mem_map_of_mem (List.mem_of_getElem? hnode))
  rw [upsOf, hnode]
  exact hmade.source hkind

/-- **Step lemma**, for an event that is put in. -/
theorem Engine.InOrder.put (h : Engine.InOrder e₀ e tr) (h₀ : e₀.Initial)
    (hacc : Engine.Accounts checks e₀ e tr) (hmerges : MergesPrompt (tableOf e₀.nodes)) {id : ℕ}
    {ev : Event} (hid : e₀.IsSource id)
    (hinjected : ClockSorted (injected (tr ++ [.input id { ev with seq := e.seqCounter }])))
    (hwrap : (issued (tr ++ [.input id { ev with seq := e.seqCounter }])).length ≤ 2 ^ 32) :
    Engine.InOrder e₀ (e.put id ev) (tr ++ [.input id { ev with seq := e.seqCounter }]) := by
  have hacc' := hacc.put ev hid
  have hfired : ∀ v, fired v (tr ++ [.input id { ev with seq := e.seqCounter }]) = fired v tr :=
    fun v => by rw [fired_append, fired_singleton, Act.fired, List.append_nil]
  have hsorted := hacc'.sorted h₀ hmerges hinjected (fun v c => ?_) fun v _ hlen => ?_
  · refine ⟨fun v c => ?_, hsorted, fun u v hu hv x hx item hitem hnode hclock => ?_⟩
    · have hseq := hacc'.pairwise_seq hwrap
      simp only [received_append, received_singleton] at hsorted hseq
      rw [received_append, received_singleton, hfired]
      have hitem : ∀ v c, (itemsFor v c [⟨id, { ev with seq := e.seqCounter }⟩]).map
          WorkItem.event = onClock c (Act.received (succOf e₀.nodes) v
            (.input id { ev with seq := e.seqCounter })) := by
        intro v c
        rw [itemsFor_cons, Act.received]
        by_cases hv : id = v
        · by_cases hc : ev.stamp.clock = c <;> simp [hv, hc, onClock, itemsFor]
        · simp [hv, onClock, itemsFor]
      exact queue_pushAll hacc.scheduler h.queue hitem hsorted hseq v c
    · rw [hfired] at hx
      have hpush : (e.put id ev).scheduler.pending =
          ⟨id, { ev with seq := e.seqCounter }⟩ ::ₘ e.scheduler.pending :=
        Scheduler.pending_push _ _ _
      rw [hpush, Multiset.mem_cons] at hitem
      rcases hitem with rfl | hitem
      · -- everything that was taken was injected before
        obtain ⟨y, hy, hstamp⟩ := hacc.exists_injected h₀ (hacc.mem_received hx)
        rw [injected_append, injected_singleton, Act.injected] at hinjected
        rw [← hstamp] at hclock ⊢
        exact (List.pairwise_append.mp hinjected).2.2 y hy _ (List.mem_singleton_self _) hclock
      · exact h.prompt u v hu hv x hx item hitem hnode hclock
  · rw [hfired, received_append, onClock_append, h.queue, List.append_assoc]
    exact List.prefix_append _ _
  · have hne : id ≠ v := by
      rintro rfl
      rw [upsOf_of_isSource h₀ hid] at hlen
      exact absurd hlen (by decide)
    rw [received_append, received_singleton, Act.received, if_neg hne, List.append_nil]
    exact h.sorted v

theorem Scheduler.Sorted.queueOf_of_pop {s s' : Scheduler} {item : WorkItem} (h : s.Sorted)
    (hpop : s.pop = (some item, s')) (c : UInt8) : queueOf c s.queues =
      (if item.event.stamp.clock = c then [item] else []) ++ queueOf c s'.queues := by
  cases hidle : s.isIdle with
  | true =>
    rw [Scheduler.pop_of_isIdle hidle] at hpop
    cases hpop
  | false =>
    obtain ⟨first, emptied, queues, hfirst, heq⟩ := h.toWf.pop_eq hidle
    obtain ⟨hsome, rfl⟩ := Prod.mk.inj (heq.symm.trans hpop)
    obtain rfl := Option.some.inj hsome
    obtain ⟨hqueue, -, hothers⟩ := queueOf_popQueue hfirst
    have hclock : first.event.stamp.clock = s.turn := h.clock _ _ (hqueue ▸ List.mem_cons_self)
    rw [Scheduler.queues_served, hclock]
    by_cases hc : s.turn = c
    · rw [if_pos hc, ← hc, hqueue]
      rfl
    · rw [if_neg hc, hothers c (Ne.symm hc)]
      rfl

/-- A prompt node that has inputs has prompt inputs, and its operator keeps nothing back. -/
theorem Prompt.spec {nodes : List Node} {v : ℕ} (h : Prompt (tableOf nodes) v) :
    (∃ node, nodes[v]? = some node ∧ node.kind.delays = false) ∧
      ∀ u ∈ upsOf nodes v, Prompt (tableOf nodes) u := by
  cases h with
  | intro hrow hdelays hups =>
    obtain ⟨node, hnode, hkind, hins⟩ := tableOf_getElem? hrow
    refine ⟨⟨node, hnode, hkind ▸ hdelays⟩, fun u hu => hups u ?_⟩
    rw [upsOf, hnode] at hu
    rw [← hins]
    exact hu

/-- **Step lemma**, for a turn. -/
theorem Engine.InOrder.turn (h : Engine.InOrder e₀ e tr) (h₀ : e₀.Initial)
    (hgraph : e₀.SameGraph e) (hacc : Engine.Accounts checks e₀ e tr)
    (hmerges : MergesPrompt (tableOf e₀.nodes)) {item : WorkItem} {scheduler : Scheduler}
    {node : Node} {out : List Event} {kind : NodeKind}
    (hpop : e.scheduler.pop = (some item, scheduler)) (hnode : e.nodes[item.nodeId]? = some node)
    (hprocess : node.kind.process checks item.event = .ok (out, kind))
    (hinjected : ClockSorted (injected tr))
    (hwrap : (issued (tr ++
      [.fire item.nodeId item.event (stampOut e.seqCounter out)])).length ≤ 2 ^ 32) :
    Engine.InOrder e₀
      ({ e with scheduler := scheduler }.stepped item node { node with kind := kind } out)
      (tr ++ [.fire item.nodeId item.event (stampOut e.seqCounter out)]) := by
  have hacc' := hacc.turn hgraph hpop hnode hprocess
  have hsorted₁ := hacc.scheduler.of_pop hpop
  have hpending := (hacc.scheduler.toWf.of_pop hpop).2
  obtain ⟨kind₀, hnode₀, hoperator⟩ := hgraph.getElem? hnode
  have hsucc : succOf e₀.nodes item.nodeId = node.outputs := by
    rw [succOf, hnode₀]
    rfl
  -- after the pop, the item counts as taken
  have hqueue : ∀ v c, onClock c (received (succOf e₀.nodes) v tr) =
      onClock c (fired v (tr ++ [.fire item.nodeId item.event (stampOut e.seqCounter out)])) ++
        (scheduler.itemsAt v c).map WorkItem.event := by
    intro v c
    have hitems : (e.scheduler.itemsAt v c).map WorkItem.event =
        onClock c (if item.nodeId = v then [item.event] else []) ++
          (scheduler.itemsAt v c).map WorkItem.event := by
      rw [Scheduler.itemsAt, hacc.scheduler.queueOf_of_pop hpop, List.filter_append,
        List.map_append, Scheduler.itemsAt]
      congr 1
      by_cases hv : item.nodeId = v
      · by_cases hc : item.event.stamp.clock = c <;> simp [hv, hc, onClock]
      · by_cases hc : item.event.stamp.clock = c <;> simp [hv, hc, onClock]
    rw [h.queue, fired_append, fired_singleton, Act.fired, onClock_append, List.append_assoc,
      hitems]
  -- the events that a prompt node sends have the stamp of the item
  have hstamps : node.kind.delays = false → ∀ o ∈ stampOut e.seqCounter out,
      o.stamp = item.event.stamp := by
    intro hdelays o ho
    obtain ⟨o', ho', seq, rfl⟩ := mem_stampOut ho
    have hstamp : o'.stamp = item.event.stamp := stamp_of_process hdelays hprocess ho'
    exact hstamp
  have hprompt : ∀ v, Prompt (tableOf e₀.nodes) v → 0 < (succOf e₀.nodes item.nodeId).count v →
      Prompt (tableOf e₀.nodes) item.nodeId ∧ node.kind.delays = false := by
    intro v hv hcount
    rw [h₀.ordered.wired.count_succOf] at hcount
    have hu := hv.spec.2 _ (List.count_pos_iff.mp hcount)
    obtain ⟨⟨n, hn, hdelays⟩, -⟩ := hu.spec
    obtain rfl := Option.some.inj (hnode₀.symm.trans hn)
    exact ⟨hu, by rw [← delays_operator, ← hoperator, delays_operator, hdelays]⟩
  have hitem : item ∈ e.scheduler.pending := by
    rw [hpending]
    exact Multiset.mem_cons_self _ _
  have hinjected' : ClockSorted (injected
      (tr ++ [.fire item.nodeId item.event (stampOut e.seqCounter out)])) := by
    rwa [injected_append, injected_singleton, Act.injected, List.append_nil]
  have hsorted := hacc'.sorted h₀ hmerges hinjected' (fun v c => ?_) fun v hv hlen => ?_
  · refine ⟨fun v c => ?_, hsorted, fun u v hu hv x hx w hw hnodeId hclock => ?_⟩
    · have hseq := hacc'.pairwise_seq hwrap
      simp only [received_append, received_singleton] at hsorted hseq
      rw [received_append, received_singleton, Engine.stepped, sendOut_eq_pushAll]
      refine queue_pushAll hsorted₁ hqueue (fun v c => ?_) hsorted hseq v c
      rw [map_event_itemsFor_sentItems, Act.received, hsucc]
    · -- what waits now waited before, or was just sent
      have hold : w ∈ scheduler.pending → w ∈ e.scheduler.pending := fun hmem => by
        rw [hpending]
        exact Multiset.mem_cons_of_mem hmem
      rw [Engine.stepped] at hw
      rw [fired_append, fired_singleton, Act.fired, List.mem_append] at hx
      rcases mem_pending_sendOut hsorted₁.toWf hw with hw | ⟨v', hv', o, ho, seq, rfl⟩
      · rcases hx with hx | hx
        · exact h.prompt u v hu hv x hx w (hold hw) hnodeId hclock
        · split_ifs at hx
          · obtain rfl := List.mem_singleton.mp hx
            have hkey := hacc.scheduler.key_le_of_pop hpop (hold hw) hclock.symm
            exact UInt64.le_iff_toNat_le.mpr (tick_le_of_key_le hkey)
          · exact absurd hx List.not_mem_nil
      · have hcount : 0 < (succOf e₀.nodes item.nodeId).count v := by
          rw [hsucc, List.count_pos_iff, ← hnodeId]
          exact hv'
        obtain ⟨hu', hdelays⟩ := hprompt v hv hcount
        have hstamp : o.stamp = item.event.stamp := stamp_of_process hdelays hprocess ho
        change x.stamp.clock = o.stamp.clock at hclock
        change x.stamp.tick ≤ o.stamp.tick
        rw [hstamp] at hclock ⊢
        rcases hx with hx | hx
        · exact h.prompt u _ hu hu' x hx item hitem rfl hclock
        · split_ifs at hx
          · rw [List.mem_singleton.mp hx]
            exact UInt64.le_refl _
          · exact absurd hx List.not_mem_nil
  · rw [received_append, onClock_append, hqueue, List.append_assoc]
    exact List.prefix_append _ _
  · rw [received_append, received_singleton, Act.received]
    rcases Nat.eq_zero_or_pos ((succOf e₀.nodes item.nodeId).count v) with hzero | hcount
    · have hnil : (stampOut e.seqCounter out).flatMap (List.replicate 0) = [] :=
        List.flatMap_eq_nil_iff.mpr fun _ _ => rfl
      rw [hzero, hnil, List.append_nil]
      exact h.sorted v
    · obtain ⟨hu', hdelays⟩ := hprompt v hv hcount
      have hmore : ∀ o ∈ (stampOut e.seqCounter out).flatMap
          (List.replicate ((succOf e₀.nodes item.nodeId).count v)),
          o.stamp = item.event.stamp := by
        intro o ho
        obtain ⟨o', ho', ho⟩ := List.mem_flatMap.mp ho
        rw [List.eq_of_mem_replicate ho]
        exact hstamps hdelays o' ho'
      refine List.pairwise_append.mpr ⟨h.sorted v, ?_, fun a ha b hb hclock => ?_⟩
      · refine List.pairwise_iff_forall_sublist.mpr fun {a b} hab _ => ?_
        rw [hmore a (hab.subset List.mem_cons_self),
          hmore b (hab.subset (List.mem_cons_of_mem a (List.mem_singleton_self b)))]
        exact UInt64.le_refl _
      · -- it was sent in answer to something that a prompt node took before
        obtain ⟨l, hl, ha⟩ := (h₀.shuffles tr v).mem ha
        rcases List.mem_cons.mp hl with rfl | hl
        · have hsource : ¬e₀.IsSource v := fun hsource => by
            rw [upsOf_of_isSource h₀ hsource] at hlen
            exact absurd hlen (by decide)
          rw [hacc.inputs v hsource] at ha
          exact absurd ha List.not_mem_nil
        · obtain ⟨u, hu, rfl⟩ := List.mem_map.mp hl
          obtain ⟨-, nodeU, hnodeU⟩ := h₀.exists_up hu
          obtain ⟨y, hy, hstamp⟩ := hacc.exists_fired h₀ hnodeU ha
          rw [hmore b hb, ← hstamp] at hclock ⊢
          exact h.prompt u _ (hv.spec.2 u hu) hu' y hy item hitem rfl hclock

/-- **Run lemma.** Along a trace of ordered injections, within the numbers there are, everything is
in order. -/
theorem EngineTrace.inOrder (h : EngineTrace checks e₀ e tr) (h₀ : e₀.Initial)
    (hmerges : MergesPrompt (tableOf e₀.nodes)) (hinjected : ClockSorted (injected tr))
    (hwrap : (issued tr).length ≤ 2 ^ 32) : Engine.InOrder e₀ e tr := by
  refine (h.induct h₀ (P := fun e tr => e₀.SameGraph e ∧ Engine.Accounts checks e₀ e tr ∧
    (ClockSorted (injected tr) → (issued tr).length ≤ 2 ^ 32 → Engine.InOrder e₀ e tr))
    ⟨⟨rfl, rfl⟩, h₀.accounts, fun _ _ => h₀.inOrder⟩ ?_ ?_ ?_).2.2 hinjected hwrap
  · rintro e tr clockNow metrics ⟨hgraph, hacc, hord⟩
    refine ⟨⟨hgraph.frames, hgraph.sourceIds⟩, ⟨hacc.scheduler, hacc.nodes, hacc.waiting,
      hacc.inputs, hacc.numbers, hacc.seqCounter, hacc.effects⟩, fun hinj hlen => ?_⟩
    exact ⟨(hord hinj hlen).queue, (hord hinj hlen).sorted, (hord hinj hlen).prompt⟩
  · rintro e tr id ev hid ⟨hgraph, hacc, hord⟩
    refine ⟨⟨hgraph.frames, hgraph.sourceIds⟩, hacc.put ev hid, fun hinj hlen => ?_⟩
    have hbefore : Engine.InOrder e₀ e tr := by
      refine hord ?_ ?_
      · rw [injected_append] at hinj
        exact (List.pairwise_append.mp hinj).1
      · rw [issued_append, List.length_append] at hlen
        omega
    exact hbefore.put h₀ hacc hmerges hid hinj hlen
  · rintro e tr item scheduler node out kind ⟨hgraph, hacc, hord⟩ hpop hnode hprocess
    refine ⟨⟨(map_frame_set hnode (operator_process hprocess)).trans hgraph.frames,
      hgraph.sourceIds⟩, hacc.turn hgraph hpop hnode hprocess, fun hinj hlen => ?_⟩
    have hinj' : ClockSorted (injected tr) := by
      rwa [injected_append, injected_singleton, Act.injected, List.append_nil] at hinj
    have hbefore : Engine.InOrder e₀ e tr := by
      refine hord hinj' ?_
      rw [issued_append, List.length_append] at hlen
      omega
    exact hbefore.turn h₀ hgraph hacc hmerges hpop hnode hprocess hinj' hlen

end Trace

theorem mergesPrompt_countBoth {engine : Engine} (h : compile countBoth = .ok (engine, [])) :
    MergesPrompt (tableOf engine.nodes) := by
  obtain rfl := (Prod.mk.inj (Except.ok.inj h)).1
  have hsources : ∀ u ∈ [0, 1], Prompt (tableOf (countBoth.stmts.foldl compileStmt .new
      ).typeCheck.engine.nodes) u := by
    intro u hu
    rcases List.mem_pair.mp hu with rfl | rfl <;>
      exact .intro rfl rfl fun u hu => absurd hu List.not_mem_nil
  intro v row hrow
  have hfew : v ≠ 2 → row.2.length ≤ 1 := by
    rcases v with _ | _ | _ | _ | _ | v
    case succ.succ.succ.succ.succ => cases hrow
    all_goals
      obtain rfl := Option.some.inj hrow
      decide
  by_cases hv : v = 2
  · rw [hv]
    exact Or.inr (.intro rfl rfl hsources)
  · exact Or.inl (hfew hv)

end Rivr.Core
