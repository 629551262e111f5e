import Rivr.Core.Feed
import Rivr.Core.Unnumbered

/-!
# Debounce and the clock

A debounce node parks each event until its deadline. `tick_clock` reaches it as an event of its
own, a unit event of the new tick, and this event is processed like every other: it releases the
parked event when the deadline has passed, and it is parked in its place in any case. So an advance
that comes before the deadline of a real event takes the event's place, and the event is lost; if
none does, the event is released by the first advance after its deadline, if not before.
-/

namespace Rivr.Core

open Worklist

variable {checks : Bool}

/-- What reaches a debounce node: an event, or an advance of its clock by `tick_clock`. -/
inductive DebounceInput where
  | event (ev : Event)
  | advance (stamp : Stamp) (seq : UInt32)

/-- The unit event of an advance. -/
def unitEvent (stamp : Stamp) (seq : UInt32) : Event := { Event.new stamp .unit with seq := seq }

/-- The event that the node processes. -/
def DebounceInput.arrival : DebounceInput → Event
  | .event ev => ev
  | .advance stamp seq => unitEvent stamp seq

/-- A debounce node as the compiler makes it: `debounce.ms`, or `delay.ticks`. -/
def debounceNode (ms : Bool) (delay : UInt64) : NodeKind :=
  if ms then .debounceMs (.delayTicks ⟨delay, none⟩) else .delayTicks ⟨delay, none⟩

/-- The event that a node has parked, with its deadline. -/
def NodeKind.parked : NodeKind → Option (UInt64 × Event)
  | .delayTicks d => d.pending
  | .debounceMs (.delayTicks d) => d.pending
  | _ => none

/-! ### One input -/

/-- The kind is a debounce with the given delay. -/
def NodeKind.IsDebounce (delay : UInt64) : NodeKind → Prop
  | .delayTicks d => d.delay = delay
  | .debounceMs (.delayTicks d) => d.delay = delay
  | _ => False

theorem isDebounce_debounceNode (ms : Bool) (delay : UInt64) :
    (debounceNode ms delay).IsDebounce delay := by
  cases ms <;> rfl

/-- The events that a debounce sends when an event of the given tick comes. -/
def released (tick : UInt64) (parked : Option (UInt64 × Event)) : List Event :=
  match parked with
  | some (deadline, settled) => if deadline ≤ tick then [settled] else []
  | none => []

theorem DelayTicks.process_eq_ok {d d' : DelayTicks} {ev : Event} {out : List Event}
    (h : d.process checks ev = .ok (out, d')) :
    out = released ev.stamp.tick d.pending ∧ d'.delay = d.delay ∧
      d'.pending = some (ev.stamp.tick + d.delay, ev) := by
  obtain ⟨deadline, hdeadline, h⟩ := Except.of_bind_eq_ok h
  cases h
  exact ⟨rfl, rfl, by rw [addU64_eq hdeadline]⟩

/-- **What one input does**: the parked event leaves if its deadline has passed, and the new one is
parked. -/
theorem NodeKind.IsDebounce.process {delay : UInt64} {kind kind' : NodeKind}
    (hkind : kind.IsDebounce delay) {ev : Event} {out : List Event}
    (h : kind.process checks ev = .ok (out, kind')) :
    kind'.IsDebounce delay ∧ out = released ev.stamp.tick kind.parked ∧
      kind'.parked = some (ev.stamp.tick + delay, ev) := by
  match kind, hkind with
  | .delayTicks d, hd =>
    obtain ⟨⟨out, d'⟩, hprocess, hout⟩ := Except.of_map_eq_ok h
    cases hout
    obtain ⟨hout, hdelay, hparked⟩ := DelayTicks.process_eq_ok hprocess
    exact ⟨hdelay.trans hd, hout, by rw [← hd]; exact hparked⟩
  | .debounceMs (.delayTicks d), hd =>
    obtain ⟨⟨out, inner⟩, hinner, hout⟩ := Except.of_map_eq_ok h
    cases hout
    obtain ⟨⟨out, d'⟩, hprocess, hout⟩ := Except.of_map_eq_ok hinner
    cases hout
    obtain ⟨hout, hdelay, hparked⟩ := DelayTicks.process_eq_ok hprocess
    exact ⟨hdelay.trans hd, hout, by rw [← hd]; exact hparked⟩

theorem NodeKind.IsDebounce.feed {delay : UInt64} {kind kind' : NodeKind}
    (hkind : kind.IsDebounce delay) {evs out : List Event}
    (h : kind.feed checks evs = .ok (out, kind')) : kind'.IsDebounce delay := by
  induction evs generalizing kind out with
  | nil =>
    cases h
    exact hkind
  | cons ev evs ih =>
    obtain ⟨out₁, kind₁, out₂, h₁, h₂, rfl⟩ := NodeKind.feed_cons_eq_ok h
    exact ih (hkind.process h₁).1 h₂

/-- In the build that wraps, a debounce gets through every sequence. -/
theorem NodeKind.IsDebounce.feed_ok {delay : UInt64} {kind : NodeKind}
    (hkind : kind.IsDebounce delay) (evs : List Event) :
    ∃ out kind', kind.feed false evs = .ok (out, kind') := by
  induction evs generalizing kind with
  | nil => exact ⟨[], kind, rfl⟩
  | cons ev evs ih =>
    obtain ⟨out₁, kind₁, h₁⟩ : ∃ out kind', kind.process false ev = .ok (out, kind') := by
      match kind, hkind with
      | .delayTicks d, _ => exact ⟨_, _, rfl⟩
      | .debounceMs (.delayTicks d), _ => exact ⟨_, _, rfl⟩
    obtain ⟨out₂, kind₂, h₂⟩ := ih (hkind.process h₁).1
    exact ⟨out₁ ++ out₂, kind₂, by simp only [NodeKind.feed, h₁, h₂, bind, Except.bind]⟩

/-! ### Sequences of inputs -/

/-- What the inputs make the node send on, and its state after them. -/
def NodeKind.feedInputs (checks : Bool) (kind : NodeKind) (inputs : List DebounceInput) :
    ProcessResult :=
  kind.feed checks (inputs.map DebounceInput.arrival)

/-- A real event within the delay of an event at the tick. -/
def DebounceInput.Within (delay tick : UInt64) : DebounceInput → Prop
  | .event ev => ev.stamp.tick.toNat < tick.toNat + delay.toNat
  | .advance _ _ => False

/-- An advance at or after the end of the delay of an event at the tick. -/
def DebounceInput.Settles (delay tick : UInt64) : DebounceInput → Prop
  | .event _ => False
  | .advance stamp _ => tick.toNat + delay.toNat ≤ stamp.tick.toNat

/-- **The last real event is emitted**: an event after which no real event comes within the delay is
sent on with the first advance at or after the end of the delay, or before. -/
def EmitsLast (checks : Bool) (delay : UInt64) (kind : NodeKind) (inputs : List DebounceInput) :
    Prop :=
  ∀ before ev between advance after,
    inputs = before ++ DebounceInput.event ev :: (between ++ advance :: after) →
    advance.Settles delay ev.stamp.tick → (∀ i ∈ between, ¬i.Settles delay ev.stamp.tick) →
    (∀ i ∈ between, ¬i.Within delay ev.stamp.tick) →
    ∀ out₁ kind₁ out₂ kind₂,
      kind.feedInputs checks (before ++ [.event ev]) = .ok (out₁, kind₁) →
      kind₁.feedInputs checks (between ++ [advance]) = .ok (out₂, kind₂) → ev ∈ out₂

/-- **Advances replace no event**: an advance that comes while a real event is parked leaves it
parked, or releases it. -/
def KeepsParked (checks : Bool) (kind : NodeKind) (inputs : List DebounceInput) : Prop :=
  ∀ before stamp seq after, inputs = before ++ DebounceInput.advance stamp seq :: after →
    ∀ out₁ kind₁ out₂ kind₂, kind.feedInputs checks before = .ok (out₁, kind₁) →
      kind₁.process checks (unitEvent stamp seq) = .ok (out₂, kind₂) →
      ∀ deadline ev, DebounceInput.event ev ∈ before → kind₁.parked = some (deadline, ev) →
        ev ∈ out₂ ∨ kind₂.parked = kind₁.parked

/-- **No advance is early**: an advance that comes right after a real event comes at or after its
deadline (a sum of 64 bits). The one event that an advance replaces without harm is its own copy. -/
def NoEarlyAdvance (delay : UInt64) (inputs : List DebounceInput) : Prop :=
  ∀ before last stamp seq after, inputs = before ++ last :: DebounceInput.advance stamp seq :: after →
    DebounceInput.event last.arrival ∈ before ++ [last] →
    last.arrival.stamp.tick + delay ≤ stamp.tick ∨ last.arrival = unitEvent stamp seq

variable {delay : UInt64} {kind kind' : NodeKind} {inputs : List DebounceInput} {out : List Event}

/-- A sequence that a node gets through is got through in two parts. -/
theorem NodeKind.feed_append_eq_ok {evs evs' : List Event}
    (h : kind.feed checks (evs ++ evs') = .ok (out, kind')) :
    ∃ out₁ kind₁ out₂, kind.feed checks evs = .ok (out₁, kind₁) ∧
      kind₁.feed checks evs' = .ok (out₂, kind') ∧ out = out₁ ++ out₂ := by
  induction evs generalizing kind out with
  | nil => exact ⟨[], kind, out, rfl, h, rfl⟩
  | cons ev evs ih =>
    obtain ⟨out₁, kind₁, out₂, h₁, h₂, rfl⟩ := NodeKind.feed_cons_eq_ok h
    obtain ⟨out₃, kind₃, out₄, h₃, h₄, rfl⟩ := ih h₂
    refine ⟨out₁ ++ out₃, kind₃, out₄, ?_, h₄, by rw [List.append_assoc]⟩
    simp only [NodeKind.feed, h₁, h₃, bind, Except.bind]

/-- After some input, the last one is parked. -/
theorem NodeKind.IsDebounce.parked_feedInputs (hkind : kind.IsDebounce delay)
    {before : List DebounceInput} {last : DebounceInput}
    (h : kind.feedInputs checks (before ++ [last]) = .ok (out, kind')) :
    kind'.parked = some (last.arrival.stamp.tick + delay, last.arrival) := by
  rw [NodeKind.feedInputs, List.map_append] at h
  obtain ⟨out₁, kind₁, out₂, h₁, h₂, rfl⟩ := NodeKind.feed_append_eq_ok h
  obtain ⟨out₃, kind₃, out₄, h₃, h₄, rfl⟩ := NodeKind.feed_cons_eq_ok h₂
  cases h₄
  exact ((hkind.feed h₁).process h₃).2.2

theorem mem_released_iff {tick deadline : UInt64} {ev : Event} :
    ev ∈ released tick (some (deadline, ev)) ↔ deadline ≤ tick := by
  rw [released]
  split_ifs with h <;> simp [h]

/-- A node replaces no parked event exactly when no advance is early. -/
theorem keepsParked_iff (hkind : kind.IsDebounce delay)
    (h : kind.feedInputs checks inputs = .ok (out, kind')) :
    KeepsParked checks kind inputs ↔ NoEarlyAdvance delay inputs := by
  constructor
  · rintro hkeeps before last stamp seq after rfl hmem
    have hsplit : (before ++ last :: DebounceInput.advance stamp seq :: after) =
        (before ++ [last]) ++ DebounceInput.advance stamp seq :: after := by simp
    rw [hsplit, NodeKind.feedInputs, List.map_append] at h
    obtain ⟨out₁, kind₁, out₂, h₁, h₂, -⟩ := NodeKind.feed_append_eq_ok h
    obtain ⟨out₃, kind₃, out₄, h₃, -, -⟩ := NodeKind.feed_cons_eq_ok h₂
    have hparked := hkind.parked_feedInputs h₁
    obtain ⟨-, hout, hparked'⟩ := (hkind.feed h₁).process h₃
    -- before the advance the node holds the last event, with the end of its delay
    rcases hkeeps _ stamp seq after hsplit _ _ _ _ h₁ h₃ _ _ hmem hparked with hsent | hsame
    · rw [hout, hparked] at hsent
      exact Or.inl (mem_released_iff.mp hsent)
    · rw [hparked, hparked'] at hsame
      exact Or.inr (Prod.ext_iff.mp (Option.some.inj hsame)).2.symm
  · rintro hnoEarly before stamp seq after rfl out₁ kind₁ out₂ kind₂ h₁ h₂ deadline ev hmem hparked
    obtain ⟨-, hout, hparked'⟩ := (hkind.feed h₁).process h₂
    rcases List.eq_nil_or_concat before with rfl | ⟨before, last, rfl⟩
    · exact absurd hmem List.not_mem_nil
    · rw [List.concat_eq_append] at h₁ hmem hnoEarly
      have hlast := hkind.parked_feedInputs h₁
      rw [hparked] at hlast
      obtain ⟨rfl, rfl⟩ := Prod.ext_iff.mp (Option.some.inj hlast)
      rcases hnoEarly before last stamp seq after (by simp) hmem with hlate | hcopy
      · left
        rw [hout, hparked]
        exact mem_released_iff.mpr hlate
      · right
        rw [hparked, hparked', ← hcopy]

theorem add_le_of_toNat_add_le {a b c : UInt64} (h : a.toNat + b.toNat ≤ c.toNat) : a + b ≤ c := by
  have hc := c.toNat_lt
  rw [UInt64.le_iff_toNat_le, UInt64.toNat_add, Nat.mod_eq_of_lt (by omega)]
  exact h

/-- A parked event is sent with the first advance that settles it, if no event comes within its
delay and no advance is early. -/
theorem mem_of_parked {kind₁ kind₂ : NodeKind} {ev : Event} {out₂ : List Event}
    (before : List DebounceInput) {between after : List DebounceInput}
    {last advance : DebounceInput} (hkind : kind₁.IsDebounce delay)
    (hparked : kind₁.parked = some (ev.stamp.tick + delay, ev))
    (hnoEarly : NoEarlyAdvance delay (before ++ last :: (between ++ advance :: after)))
    (hlast : last.arrival = ev) (hmem : DebounceInput.event ev ∈ before ++ [last])
    (hsettles : advance.Settles delay ev.stamp.tick)
    (hunsettled : ∀ i ∈ between, ¬i.Settles delay ev.stamp.tick)
    (houtside : ∀ i ∈ between, ¬i.Within delay ev.stamp.tick)
    (h : kind₁.feedInputs checks (between ++ [advance]) = .ok (out₂, kind₂)) : ev ∈ out₂ := by
  induction between generalizing kind₁ before last out₂ with
  | nil =>
    obtain ⟨out₃, kind₃, out₄, h₃, -, rfl⟩ := NodeKind.feed_cons_eq_ok h
    obtain ⟨-, hout, -⟩ := hkind.process h₃
    refine List.mem_append_left _ ?_
    rw [hout, hparked]
    cases advance with
    | event _ => exact absurd hsettles id
    | advance stamp seq => exact mem_released_iff.mpr (add_le_of_toNat_add_le hsettles)
  | cons x between ih =>
    obtain ⟨out₃, kind₃, out₄, h₃, h₄, rfl⟩ := NodeKind.feed_cons_eq_ok h
    obtain ⟨hkind₃, hout, hparked₃⟩ := hkind.process h₃
    rw [hparked] at hout
    cases x with
    | event ev' =>
      -- a real event outside the delay releases the parked one
      have hlate : ¬ev'.stamp.tick.toNat < ev.stamp.tick.toNat + delay.toNat :=
        houtside _ List.mem_cons_self
      refine List.mem_append_left _ ?_
      rw [hout]
      exact mem_released_iff.mpr (add_le_of_toNat_add_le (Nat.not_lt.mp hlate))
    | advance stamp seq =>
      rcases hnoEarly before last stamp seq (between ++ advance :: after) rfl (hlast ▸ hmem)
        with hdue | hcopy
      · refine List.mem_append_left _ ?_
        rw [hout]
        exact mem_released_iff.mpr (hlast ▸ hdue)
      · -- the advance is a copy of the parked event, which stays parked
        have harrival : (DebounceInput.advance stamp seq).arrival = ev := hcopy.symm.trans hlast
        have hparked' : kind₃.parked = some (ev.stamp.tick + delay, ev) := by
          rw [hparked₃, harrival]
        refine List.mem_append_right _ (ih (before ++ [last]) hkind₃ hparked' ?_ harrival
          (List.mem_append_left _ hmem) (fun i hi => hunsettled i (List.mem_cons_of_mem _ hi))
          (fun i hi => houtside i (List.mem_cons_of_mem _ hi)) h₄)
        simpa using hnoEarly

/-- When no advance is early, the last real event is emitted. -/
theorem emitsLast_of_noEarlyAdvance (hkind : kind.IsDebounce delay)
    (hnoEarly : NoEarlyAdvance delay inputs) : EmitsLast checks delay kind inputs := by
  rintro before ev between advance after rfl hsettles hunsettled houtside out₁ kind₁ out₂ kind₂ h₁ h₂
  exact mem_of_parked before (hkind.feed h₁) (hkind.parked_feedInputs h₁) hnoEarly rfl (by simp) hsettles
    hunsettled houtside h₂

/-- **Debounce.** Of any inputs that a fresh debounce node gets through, it emits the last real
event of every silence, with the first advance after its delay at the latest, and lets no advance
replace a real event, exactly when no advance is early. -/
theorem debounce_iff (checks ms : Bool) (delay : UInt64) (inputs : List DebounceInput)
    (out : List Event) (kind : NodeKind)
    (h : (debounceNode ms delay).feedInputs checks inputs = .ok (out, kind)) :
    (EmitsLast checks delay (debounceNode ms delay) inputs ∧
      KeepsParked checks (debounceNode ms delay) inputs) ↔ NoEarlyAdvance delay inputs := by
  have hkind := isDebounce_debounceNode ms delay
  rw [keepsParked_iff hkind h]
  exact ⟨And.right, fun hnoEarly => ⟨emitsLast_of_noEarlyAdvance hkind hnoEarly, hnoEarly⟩⟩

/-- An event at tick 0, and advances to the ticks 5 and 10. -/
def earlyAdvance : List DebounceInput :=
  [.event ⟨⟨0, 0⟩, .str "x", none, 0⟩, .advance ⟨0, 5⟩ 1, .advance ⟨0, 10⟩ 2]

theorem debounce_iff_sample : ∃ out kind,
    (debounceNode true 10).feedInputs true earlyAdvance = .ok (out, kind) ∧
      ((EmitsLast true 10 (debounceNode true 10) earlyAdvance ∧
        KeepsParked true (debounceNode true 10) earlyAdvance) ↔ NoEarlyAdvance 10 earlyAdvance) :=
  ⟨_, _, rfl, debounce_iff true true 10 earlyAdvance _ _ rfl⟩

/-- `source b = rf; let x = b |> debounce.ms(10); emit { io.usb.print(x); }`. -/
def debounceProgram : Program :=
  ⟨[.source "b" none .rf, .letStmt "x" (.pipe (.ident "b") (.debounceMs 10)),
    .emit [.usbPrint "x"]]⟩

/-- An advance to tick 5 takes the place of an event at tick 0 that is due at tick 10, in the node
alone as in a compiled program, which prints nothing when the clock comes to tick 10. -/
theorem not_debounce :
    (¬∀ (ms : Bool) (delay : UInt64) (inputs : List DebounceInput) (out : List Event)
      (kind : NodeKind), (debounceNode ms delay).feedInputs true inputs = .ok (out, kind) →
      EmitsLast true delay (debounceNode ms delay) inputs ∧
        KeepsParked true (debounceNode ms delay) inputs) ∧
    ∃ engine e₁ n₁ e₂ n₂ e₃ n₃ e₄, compile debounceProgram = .ok (engine, []) ∧
      Engine.inject { engine with effectLog := some [] } "b" ⟨⟨0, 0⟩, .str "x", none, 0⟩ =
        .ok e₁ ∧ e₁.run true 9 = .ok (n₁, e₂) ∧ (e₂.tickClock 0 5).run true 9 = .ok (n₂, e₃) ∧
      (e₃.tickClock 0 10).run true 9 = .ok (n₃, e₄) ∧ e₄.effectLog = some [] := by
  constructor
  · intro h
    have hlast := (h true 10 earlyAdvance _ _ rfl).1 [] ⟨⟨0, 0⟩, .str "x", none, 0⟩
      [.advance ⟨0, 5⟩ 1] (.advance ⟨0, 10⟩ 2) [] rfl (by simp [DebounceInput.Settles])
      (by simp [DebounceInput.Settles]) (by simp [DebounceInput.Within]) _ _ _ _ rfl rfl
    revert hlast
    decide
  · exact ⟨_, _, _, _, _, _, _, _, rfl, rfl, rfl, rfl, rfl, rfl⟩

/-! ### How the clock reaches the node -/

/-- The only item of a scheduler is the one it gives. -/
theorem Scheduler.Wf.pop_of_pending {s : Scheduler} (h : s.Wf) {item : WorkItem}
    (hpending : s.pending = {item}) :
    ∃ s', s.pop = (some item, s') ∧ s'.Wf ∧ s'.pending = 0 := by
  obtain ⟨hidle, -⟩ | ⟨-, item', s', hpop, hwf, hcons⟩ := h.pop_cases
  · rw [h.isIdle_iff, hpending] at hidle
    exact absurd hidle (Multiset.singleton_ne_zero item)
  · rw [hpending] at hcons
    obtain ⟨rfl, hnone⟩ := (Multiset.singleton_eq_cons_iff _).mp hcons
    exact ⟨s', hpop, hwf, hnone⟩

/-- An event that waits for a source reaches the node behind it as it is, with a new sequence
number. -/
theorem Engine.delivered {e : Engine} (hwf : e.scheduler.Wf) {s k : ℕ} {source node node' : Node}
    {ev : Event} {out : List Event} (hpending : e.scheduler.pending = {⟨s, ev⟩})
    (hs : e.nodes[s]? = some source) (hsource : source.kind.isSource = true)
    (houtputs : source.outputs = [k]) (hk : e.nodes[k]? = some node)
    (hprocess : node.process checks { ev with seq := e.seqCounter } = .ok (out, node')) :
    ∃ e', Steps (EngineTurn checks) 2 e e' ∧ e'.nodes = e.nodes.set k node' := by
  obtain ⟨s₁, hpop₁, hwf₁, hnone₁⟩ := hwf.pop_of_pending hpending
  have hstep₁ : Engine.step checks { e with scheduler := s₁ } ⟨s, ev⟩ =
      .ok (Engine.stepped { e with scheduler := s₁ } ⟨s, ev⟩ source source [ev]) :=
    step_of_process hs (process_of_isSource hsource ev)
  have hsend : sendOut source.outputs [ev] s₁ e.seqCounter =
      (s₁.push k { ev with seq := e.seqCounter }, e.seqCounter + 1) := by
    rw [houtputs]
    rfl
  have hset : e.nodes.set s source = e.nodes := by
    obtain ⟨hlt, rfl⟩ := List.getElem?_eq_some_iff.mp hs
    exact List.set_getElem_self hlt
  have hpending₂ : (s₁.push k { ev with seq := e.seqCounter }).pending =
      {⟨k, { ev with seq := e.seqCounter }⟩} := by
    rw [Scheduler.pending_push, hnone₁]
    rfl
  obtain ⟨s₂, hpop₂, -, -⟩ := (hwf₁.push k _).pop_of_pending hpending₂
  -- two turns: the source sends the event on, and the node behind it takes it
  set e₁ := Engine.stepped { e with scheduler := s₁ } ⟨s, ev⟩ source source [ev] with he₁
  have hscheduler : e₁.scheduler = s₁.push k { ev with seq := e.seqCounter } := by
    rw [he₁, Engine.stepped, hsend]
  have hnodes : e₁.nodes = e.nodes := hset
  have hstep₂ : Engine.step checks { e₁ with scheduler := s₂ } ⟨k, { ev with seq := e.seqCounter }⟩ =
      .ok (Engine.stepped { e₁ with scheduler := s₂ } ⟨k, { ev with seq := e.seqCounter }⟩ node node'
        out) :=
    step_of_process (hnodes ▸ hk) hprocess
  refine ⟨_, (Steps.refl e).tail ⟨_, s₁, hpop₁, hstep₁⟩ |>.tail ⟨_, s₂, hscheduler ▸ hpop₂, hstep₂⟩, ?_⟩
  rw [Engine.stepped, hnodes]

/-- `tick_clock` on an idle engine: the node behind the only source of the clock processes the unit
event of the new tick. -/
theorem Engine.tickClock_delivered {e : Engine} (hwf : e.scheduler.Wf)
    (hidle : e.scheduler.isIdle = true) {clockId : UInt8} {tick : UInt64}
    (htick : clockId.toNat < 8 → e.clockNow.getD clockId.toNat 0 < tick) {s k : ℕ}
    {source node node' : Node} {out : List Event}
    (hsources : (e.nodes.filter fun n => n.kind.isSourceOn clockId).map Node.id = [s])
    (hs : e.nodes[s]? = some source) (hsource : source.kind.isSource = true)
    (houtputs : source.outputs = [k]) (hk : e.nodes[k]? = some node)
    (hprocess : node.process checks (unitEvent ⟨clockId, tick⟩ (e.seqCounter + 1)) =
      .ok (out, node')) :
    ∃ e', Steps (EngineTurn checks) 2 (e.tickClock clockId tick) e' ∧
      e'.nodes = e.nodes.set k node' := by
  have htickSources : ∀ clockNow, ∃ e', Steps (EngineTurn checks) 2
      ({ e with clockNow := clockNow }.tickSources clockId tick) e' ∧
      e'.nodes = e.nodes.set k node' := by
    intro clockNow
    simp only [Engine.tickSources, hsources, pushTicks]
    have hpending : (e.scheduler.push s (unitEvent ⟨clockId, tick⟩ e.seqCounter)).pending =
        {⟨s, unitEvent ⟨clockId, tick⟩ e.seqCounter⟩} := by
      rw [Scheduler.pending_push, hwf.isIdle_iff.mp hidle]
      rfl
    exact Engine.delivered (hwf.push s _) hpending hs hsource houtputs hk hprocess
  rw [Engine.tickClock]
  split_ifs with hclk hold
  · exact absurd (htick hclk) (UInt64.not_lt.mpr hold)
  · exact htickSources _
  · exact htickSources _

end Rivr.Core
