import Rivr.Core.FlushAll

/-!
# The stamps of what an operator sends

What an operator sends on has the stamp of the event it is processing, but for the delays and the
debounces: these send an event that came earlier, and forget the ones that they replace. Either way
the ticks of a clock that come in order leave in order (`feed_clockSorted`).
-/

namespace Rivr.Core

variable {checks : Bool}

/-! ### Operators that answer at once -/

/-- The operator keeps events back and sends them later. -/
def NodeKind.delays : NodeKind → Bool
  | .delayTicks _ => true
  | .windowMs inner => inner.delays
  | .throttleMs inner => inner.delays
  | .debounceMs inner => inner.delays
  | _ => false

theorem flushed_stamp {stamp : Stamp} {items : List Event} {o : Event}
    (ho : o ∈ flushed stamp items) : o.stamp = stamp := by
  rw [flushed] at ho
  split_ifs at ho
  · exact absurd ho List.not_mem_nil
  · rw [List.mem_singleton.mp ho]
    rfl

theorem WindowTicks.stamp_of_process {w w' : WindowTicks} {ev o : Event} {out : List Event}
    (h : w.process checks ev = .ok (out, w')) (ho : o ∈ out) : o.stamp = ev.stamp := by
  obtain ⟨⟨out₁, w₁⟩, h₁, h⟩ := Except.of_bind_eq_ok h
  obtain ⟨⟨out₂, w₂⟩, h₂, h⟩ := Except.of_bind_eq_ok h
  cases h
  rcases List.mem_append.mp ho with ho | ho
  · obtain ⟨deadline, -, h₁⟩ := Except.of_bind_eq_ok h₁
    split_ifs at h₁
    · obtain ⟨q, -, h₁⟩ := Except.of_bind_eq_ok h₁
      obtain ⟨start, -, h₁⟩ := Except.of_bind_eq_ok h₁
      cases h₁
      exact flushed_stamp ho
    · cases h₁
      exact absurd ho List.not_mem_nil
  · simp only [WindowTicks.store] at h₂
    split_ifs at h₂ <;> obtain ⟨buffer, -, h₂⟩ := Except.of_bind_eq_ok h₂ <;> cases h₂
    · exact flushed_stamp ho
    · exact absurd ho List.not_mem_nil

private theorem stamp_of_mem_ite {c : Prop} [Decidable c] {β : Type*} {ev o : Event} {a b : β}
    (ho : o ∈ (if c then ([ev], a) else ([], b)).1) : o.stamp = ev.stamp := by
  split_ifs at ho
  · rw [List.mem_singleton.mp ho]
  · exact absurd ho List.not_mem_nil

theorem AirtimeBudget.stamp_of_process {b b' : AirtimeBudget} {ev o : Event} {out : List Event}
    (h : b.process checks ev = .ok (out, b')) (ho : o ∈ out) : o.stamp = ev.stamp := by
  rw [AirtimeBudget.process_eq] at h
  obtain ⟨roll, -, h⟩ := Except.of_bind_eq_ok h
  split_ifs at h <;> obtain ⟨n, -, h⟩ := Except.of_bind_eq_ok h <;> cases h
  · rw [List.mem_singleton.mp ho]
  · exact absurd ho List.not_mem_nil

theorem ToaBudget.stamp_of_process {b b' : ToaBudget} {ev o : Event} {out : List Event}
    (h : b.process checks ev = .ok (out, b')) (ho : o ∈ out) : o.stamp = ev.stamp := by
  rw [ToaBudget.process_eq] at h
  obtain ⟨roll, -, h⟩ := Except.of_bind_eq_ok h
  obtain ⟨sum, -, h⟩ := Except.of_bind_eq_ok h
  split_ifs at h
  · cases h
    rw [List.mem_singleton.mp ho]
  · obtain ⟨dropped, -, h⟩ := Except.of_bind_eq_ok h
    cases h
    exact absurd ho List.not_mem_nil

theorem stamp_of_processInner {kind kind' : NodeKind} {ev o : Event} {out : List Event}
    (hprompt : kind.delays = false) (h : kind.processInner checks ev = .ok (out, kind'))
    (ho : o ∈ out) : o.stamp = ev.stamp := by
  cases kind with
  | windowTicks w =>
    obtain ⟨⟨out₁, w₁⟩, hw, heq⟩ := Except.of_map_eq_ok h
    cases heq
    exact WindowTicks.stamp_of_process hw ho
  | throttleTicks t =>
    cases h
    exact stamp_of_mem_ite ho
  | delayTicks d => cases hprompt
  | _ =>
    cases h
    exact absurd ho List.not_mem_nil

private theorem stamp_of_mem_mapStr {f : String → String} {ev o : Event} (ho : o ∈ mapStr f ev) :
    o.stamp = ev.stamp := by
  rw [mapStr] at ho
  split at ho <;> rw [List.mem_singleton.mp ho]

private theorem stamp_of_mem_passIf {keep : Bool} {ev o : Event} (ho : o ∈ passIf keep ev) :
    o.stamp = ev.stamp := by
  rw [passIf] at ho
  split_ifs at ho
  · rw [List.mem_singleton.mp ho]
  · exact absurd ho List.not_mem_nil

/-- An operator that keeps nothing back answers with the stamp of the event. -/
theorem stamp_of_process {kind kind' : NodeKind} {ev o : Event} {out : List Event}
    (hprompt : kind.delays = false) (h : kind.process checks ev = .ok (out, kind'))
    (ho : o ∈ out) : o.stamp = ev.stamp := by
  cases kind with
  | windowTicks w =>
    exact stamp_of_processInner hprompt
      (show (NodeKind.windowTicks w).processInner checks ev = _ from h) ho
  | throttleTicks t =>
    cases h
    exact stamp_of_mem_ite ho
  | delayTicks d => cases hprompt
  | windowMs inner | throttleMs inner | debounceMs inner =>
    rw [NodeKind.delays] at hprompt
    obtain ⟨⟨out₁, k⟩, hk, heq⟩ := Except.of_map_eq_ok h
    cases heq
    exact stamp_of_processInner hprompt hk ho
  | mapUpper | mapLower | mapTrim =>
    cases h
    exact stamp_of_mem_mapStr ho
  | filterNonempty | filterKind k | filterPktType t =>
    cases h
    exact stamp_of_mem_passIf ho
  | foldCount count | foldSum sum =>
    obtain ⟨n, -, heq⟩ := Except.of_map_eq_ok h
    cases heq
    obtain rfl := List.mem_singleton.mp ho
    rfl
  | budget b =>
    cases h
    exact stamp_of_mem_ite ho
  | airtimeBudget b =>
    obtain ⟨⟨out₁, b₁⟩, hb, heq⟩ := Except.of_map_eq_ok h
    cases heq
    exact AirtimeBudget.stamp_of_process hb ho
  | toaBudget b =>
    obtain ⟨⟨out₁, b₁⟩, hb, heq⟩ := Except.of_map_eq_ok h
    cases heq
    exact ToaBudget.stamp_of_process hb ho
  | _ =>
    cases h
    obtain rfl := List.mem_singleton.mp ho
    rfl

/-! ### Operators that keep events back -/

/-- The events that are kept back. -/
def NodeKind.keptBack : NodeKind → List Event
  | .delayTicks d => d.pending.toList.map Prod.snd
  | .windowMs (.delayTicks d) => d.pending.toList.map Prod.snd
  | .throttleMs (.delayTicks d) => d.pending.toList.map Prod.snd
  | .debounceMs (.delayTicks d) => d.pending.toList.map Prod.snd
  | _ => []

theorem keptBack_of_not_delays {kind : NodeKind} (h : kind.delays = false) :
    kind.keptBack = [] := by
  cases kind with
  | delayTicks d => cases h
  | windowMs inner | throttleMs inner | debounceMs inner =>
    cases inner with
    | delayTicks d => cases h
    | _ => rfl
  | _ => rfl

theorem DelayTicks.sublist_of_process {d d' : DelayTicks} {ev : Event} {out : List Event}
    (h : d.process checks ev = .ok (out, d')) :
    (out ++ d'.pending.toList.map Prod.snd).Sublist (d.pending.toList.map Prod.snd ++ [ev]) := by
  obtain ⟨deadline, -, h⟩ := Except.of_bind_eq_ok h
  cases h
  refine List.Sublist.append ?_ (List.Sublist.refl _)
  cases d.pending with
  | none => exact List.Sublist.refl _
  | some p =>
    dsimp only
    split_ifs
    · exact List.Sublist.refl _
    · exact List.nil_sublist _

private theorem sublist_of_processInner {kind kind' : NodeKind} {ev : Event} {out : List Event}
    (hdelays : kind.delays = true) (h : kind.processInner checks ev = .ok (out, kind')) :
    (∃ d d', kind = .delayTicks d ∧ kind' = .delayTicks d' ∧
        (out ++ d'.pending.toList.map Prod.snd).Sublist (d.pending.toList.map Prod.snd ++ [ev])) ∨
      (out = [] ∧ kind' = kind) := by
  cases kind with
  | delayTicks d =>
    obtain ⟨⟨out₁, d'⟩, hd, heq⟩ := Except.of_map_eq_ok h
    cases heq
    exact Or.inl ⟨d, d', rfl, rfl, DelayTicks.sublist_of_process hd⟩
  | windowMs inner | throttleMs inner | debounceMs inner =>
    cases h
    exact Or.inr ⟨rfl, rfl⟩
  | _ => cases hdelays

/-- An operator that keeps events back sends some of them, in their order, and keeps some of the
later ones. -/
theorem sublist_of_process {kind kind' : NodeKind} {ev : Event} {out : List Event}
    (hdelays : kind.delays = true) (h : kind.process checks ev = .ok (out, kind')) :
    (out ++ kind'.keptBack).Sublist (kind.keptBack ++ [ev]) := by
  have hback : ∀ {l : List Event}, l.Sublist (l ++ [ev]) := List.sublist_append_left _ _
  cases kind with
  | delayTicks d =>
    obtain ⟨⟨out₁, d'⟩, hd, heq⟩ := Except.of_map_eq_ok h
    cases heq
    exact DelayTicks.sublist_of_process hd
  | windowMs inner | throttleMs inner | debounceMs inner =>
    rw [NodeKind.delays] at hdelays
    obtain ⟨⟨out₁, k⟩, hk, heq⟩ := Except.of_map_eq_ok h
    cases heq
    rcases sublist_of_processInner hdelays hk with ⟨d, d', rfl, rfl, hsub⟩ | ⟨rfl, rfl⟩
    · exact hsub
    · exact hback
  | _ => cases hdelays

theorem delays_operator (kind : NodeKind) : kind.operator.delays = kind.delays := by
  induction kind with
  | windowMs inner ih | throttleMs inner ih | debounceMs inner ih => exact ih
  | _ => rfl

theorem delays_process {kind kind' : NodeKind} {ev : Event} {out : List Event}
    (h : kind.process checks ev = .ok (out, kind')) : kind'.delays = kind.delays := by
  rw [← delays_operator, operator_process h, delays_operator]

/-! ### Sequences of events -/

/-- The events of each clock come in the order of their ticks. -/
def ClockSorted (evs : List Event) : Prop :=
  evs.Pairwise fun a b => a.stamp.clock = b.stamp.clock → a.stamp.tick ≤ b.stamp.tick

theorem sublist_of_feed {kind kind' : NodeKind} {evs out : List Event}
    (hdelays : kind.delays = true) (h : kind.feed checks evs = .ok (out, kind')) :
    (out ++ kind'.keptBack).Sublist (kind.keptBack ++ evs) := by
  induction evs generalizing kind out with
  | nil =>
    cases h
    rw [List.append_nil]
    exact List.Sublist.refl _
  | cons ev evs ih =>
    obtain ⟨out₁, kind₁, out₂, h₁, h₂, rfl⟩ := NodeKind.feed_cons_eq_ok h
    have hrest := (ih ((delays_process h₁).trans hdelays) h₂).append_left out₁
    have hfirst := (sublist_of_process hdelays h₁).append_right evs
    rw [List.append_assoc]
    rw [List.append_assoc, List.append_assoc] at hfirst
    exact hrest.trans hfirst

private theorem exists_stamp_of_prompt_feed {kind kind' : NodeKind} {evs out : List Event}
    (hprompt : kind.delays = false) (h : kind.feed checks evs = .ok (out, kind')) {o : Event}
    (ho : o ∈ out) : ∃ ev ∈ evs, ev.stamp = o.stamp := by
  induction evs generalizing kind out with
  | nil =>
    cases h
    exact absurd ho List.not_mem_nil
  | cons ev evs ih =>
    obtain ⟨out₁, kind₁, out₂, h₁, h₂, rfl⟩ := NodeKind.feed_cons_eq_ok h
    rcases List.mem_append.mp ho with ho | ho
    · exact ⟨ev, List.mem_cons_self, (stamp_of_process hprompt h₁ ho).symm⟩
    · obtain ⟨ev', hev', heq⟩ := ih ((delays_process h₁).trans hprompt) h₂ ho
      exact ⟨ev', List.mem_cons_of_mem _ hev', heq⟩

/-- Each event that is sent has the stamp of one that came. -/
theorem exists_stamp_of_feed {kind kind' : NodeKind} {evs out : List Event}
    (hback : kind.keptBack = []) (h : kind.feed checks evs = .ok (out, kind')) {o : Event}
    (ho : o ∈ out) : ∃ ev ∈ evs, ev.stamp = o.stamp := by
  cases hdelays : kind.delays with
  | false => exact exists_stamp_of_prompt_feed hdelays h ho
  | true =>
    have hsub := sublist_of_feed hdelays h
    rw [hback, List.nil_append] at hsub
    exact ⟨o, hsub.subset (List.mem_append_left _ ho), rfl⟩

/-- **Order is kept.** What comes in the order of the ticks of its clock leaves so. -/
theorem ClockSorted.feed {kind kind' : NodeKind} {evs out : List Event} (hsorted : ClockSorted evs)
    (hback : kind.keptBack = []) (h : kind.feed checks evs = .ok (out, kind')) :
    ClockSorted out := by
  cases hdelays : kind.delays with
  | true =>
    have hsub := sublist_of_feed hdelays h
    rw [hback, List.nil_append] at hsub
    exact hsorted.sublist ((List.sublist_append_left _ _).trans hsub)
  | false =>
    induction evs generalizing kind out with
    | nil =>
      cases h
      exact List.Pairwise.nil
    | cons ev evs ih =>
      obtain ⟨out₁, kind₁, out₂, h₁, h₂, rfl⟩ := NodeKind.feed_cons_eq_ok h
      obtain ⟨hle, hrest⟩ := List.pairwise_cons.mp hsorted
      have hprompt := (delays_process h₁).trans hdelays
      have hback₁ : kind₁.keptBack = [] := keptBack_of_not_delays hprompt
      refine List.pairwise_append.mpr ⟨?_, ih hrest hback₁ h₂ hprompt, fun a ha b hb hclock => ?_⟩
      · -- all answers to one event have its stamp
        refine List.pairwise_iff_forall_sublist.mpr fun {a b} hab _ => ?_
        have ha := stamp_of_process hdelays h₁ (hab.subset List.mem_cons_self)
        have hb := stamp_of_process hdelays h₁ (hab.subset (List.mem_cons_of_mem a
          (List.mem_singleton_self b)))
        rw [ha, hb]
        exact UInt64.le_refl _
      · obtain ⟨ev', hev', heq⟩ := exists_stamp_of_prompt_feed hprompt h₂ hb
        have ha := stamp_of_process hdelays h₁ ha
        rw [ha, ← heq] at hclock ⊢
        exact hle ev' hev' hclock

end Rivr.Core
