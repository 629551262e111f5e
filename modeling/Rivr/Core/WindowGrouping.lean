import Rivr.Core.Feed
import Rivr.Core.Flush
import Rivr.ForMathlib.Batches

/-!
# Windows group events

A `WindowTicks` node closes a window only when an event past its end comes, and what is left when
the stream ends is flushed. The batches it emits are those of a declarative grouping: the events of
one window of ticks are a group, and a group larger than the capacity of the buffer is clipped to
its last events, to its first ones, or cut into consecutive pieces, as the policy says. The buffer
holds at most `WINDOW_CAP` events, so a larger capacity counts as `WINDOW_CAP`.
-/

namespace Rivr.Core

open Batches

variable {checks : Bool}

/-! ### The reference grouping -/

/-- The number of the window that an event lies in. -/
def windowOf (duration : UInt64) (ev : Event) : ℕ := ev.stamp.tick.toNat / duration.toNat

/-- The batches of one group. -/
def DropPolicy.clip (policy : DropPolicy) (cap : ℕ) (group : List Event) : List (List Event) :=
  match policy with
  | .dropOldest => [group.rtake cap]
  | .dropNewest => [group.take cap]
  | .flushEarly => group.toChunks cap

/-- **The reference.** The events of each window are a group, clipped by the policy. -/
def windowBatches (duration : UInt64) (policy : DropPolicy) (cap : ℕ) (evs : List Event) :
    List (List Event) :=
  (groups (windowOf duration) evs).flatMap (policy.clip cap)

/-- The value of a batch. -/
def batchValue (batch : List Event) : Value := .window (batch.map fun e => e.v.display)

/-! ### The buffer -/

/-- What storing an event does to the buffer: the batch that is closed early, and the buffer. -/
def DropPolicy.pushed (policy : DropPolicy) (cap : ℕ) (buffer : List Event) (ev : Event) :
    List (List Event) × List Event :=
  if cap ≤ buffer.length then
    match policy with
    | .dropOldest => ([], buffer.tail ++ [ev])
    | .dropNewest => ([], buffer)
    | .flushEarly => ([buffer], [ev])
  else ([], buffer ++ [ev])

/-- Storing an event fits the clipping of its group. -/
theorem filled_pushed {policy : DropPolicy} {cap : ℕ} (hcap : 0 < cap) (group : List Event)
    (closed : List (List Event)) (buffer : List Event) (ev : Event)
    (h : Filled (policy.clip cap) group closed buffer) :
    Filled (policy.clip cap) (group ++ [ev]) (closed ++ (policy.pushed cap buffer ev).1)
      (policy.pushed cap buffer ev).2 := by
  cases policy with
  | dropOldest =>
    have hne : ∀ l : List Event, l ≠ [] → l.rtake cap ≠ [] := by
      intro l hl
      rw [← List.length_pos_iff] at hl ⊢
      rw [List.rtake, List.length_drop]
      omega
    -- these two policies close a window in one piece
    have hiff := @filled_singleton_iff Event (fun l => l.rtake cap) (List.rtake_nil _) hne
    obtain ⟨rfl, rfl⟩ := hiff.mp h
    refine hiff.mpr ?_
    rw [rtake_append_singleton hcap, DropPolicy.pushed]
    split_ifs <;> exact ⟨rfl, rfl⟩
  | dropNewest =>
    have hne : ∀ l : List Event, l ≠ [] → l.take cap ≠ [] := by
      intro l hl
      rw [← List.length_pos_iff] at hl ⊢
      rw [List.length_take]
      omega
    have hiff := @filled_singleton_iff Event (fun l => l.take cap) List.take_nil hne
    obtain ⟨rfl, rfl⟩ := hiff.mp h
    refine hiff.mpr ?_
    rw [take_append_singleton, DropPolicy.pushed]
    split_ifs <;> exact ⟨rfl, rfl⟩
  | flushEarly =>
    rcases h with ⟨rfl, rfl, rfl⟩ | ⟨hne, hbuffer, hclip⟩
    · have hnew : DropPolicy.flushEarly.pushed cap [] ev = ([], [ev]) :=
        if_neg (by simpa using hcap.ne')
      rw [hnew]
      exact Or.inr ⟨by simp, by simp, toChunks_singleton hcap ev⟩
    · -- the last piece is the buffer, and one more event starts a piece or joins it
      obtain ⟨early, b, hchunks, hb, hlen, hnext⟩ := toChunks_append_singleton hne hcap
      obtain ⟨rfl, hlast⟩ := List.append_inj' (hchunks.symm.trans hclip) rfl
      obtain rfl := List.singleton_inj.mp hlast
      refine Or.inr ⟨by simp, ?_, (hnext ev).trans ?_⟩
      · rw [DropPolicy.pushed]
        split_ifs <;> simp
      · rw [DropPolicy.pushed]
        by_cases hfull : b.length = cap
        · rw [if_pos hfull, if_pos hfull.ge]
          simp
        · rw [if_neg hfull, if_neg (by omega)]
          simp

/-! ### One event -/

theorem values_flushed (stamp : Stamp) (items : List Event) :
    (flushed stamp items).map Event.v = (batchOf items).map batchValue := by
  rw [flushed, batchOf]
  cases items with
  | nil => rfl
  | cons x xs => rfl

theorem addU64_ok {a b : UInt64} (h : a.toNat + b.toNat < 2 ^ 64) :
    addU64 checks a b = .ok (a + b) := by
  rw [addU64, if_neg]
  simp only [Bool.and_eq_true, decide_eq_true_eq, not_and, not_le]
  exact fun _ => h

theorem DropPolicy.pushed_of_lt (policy : DropPolicy) {cap : ℕ} {buffer : List Event}
    (h : buffer.length < cap) (ev : Event) :
    policy.pushed cap buffer ev = ([], buffer ++ [ev]) := if_neg (Nat.not_le.mpr h)

/-- Pushing into a buffer that is drained before when it is full and the policy flushes early. -/
theorem BoundedVec.pushCapped_ok (checks : Bool) (b : BoundedVec) (ev : Event)
    (policy : DropPolicy) {cap : ℕ} (hcap : 0 < min cap windowCap)
    (hdrops : b.drops.toNat + 1 < 2 ^ 64)
    (hpolicy : policy = .flushEarly → b.inner.length < min cap windowCap) :
    ∃ b', b.pushCapped checks ev policy cap = .ok b' ∧ b'.drops.toNat ≤ b.drops.toNat + 1 ∧
      policy.pushed (min cap windowCap) b.inner ev = ([], b'.inner) := by
  rw [BoundedVec.pushCapped]
  by_cases hfull : min cap windowCap ≤ b.inner.length
  · rw [if_pos hfull, addU64_ok (by simpa using hdrops)]
    have hadd : (b.drops + 1).toNat ≤ b.drops.toNat + 1 := by
      rw [UInt64.toNat_add, UInt64.toNat_one]
      exact Nat.mod_le _ _
    obtain ⟨x, xs, hinner⟩ : ∃ x xs, b.inner = x :: xs :=
      List.exists_cons_of_length_pos (hcap.trans_le hfull)
    rw [hinner] at hfull ⊢
    cases policy with
    | dropOldest => exact ⟨_, rfl, hadd, if_pos hfull⟩
    | dropNewest => exact ⟨_, rfl, hadd, if_pos hfull⟩
    | flushEarly => exact absurd (hinner ▸ hfull) (Nat.not_le.mpr (hpolicy rfl))
  · rw [if_neg hfull]
    exact ⟨_, rfl, Nat.le_succ _, policy.pushed_of_lt (Nat.not_le.mp hfull) ev⟩

/-- **Storing an event.** -/
theorem WindowTicks.store_ok (checks : Bool) {w : WindowTicks} (ev : Event)
    (hcap : 0 < min w.cap windowCap) (hdrops : w.buffer.drops.toNat + 1 < 2 ^ 64) :
    ∃ out buffer, w.store checks ev = .ok (out, { w with buffer := buffer }) ∧
      buffer.drops.toNat ≤ w.buffer.drops.toNat + 1 ∧
      buffer.inner = (w.bufferPolicy.pushed (min w.cap windowCap) w.buffer.inner ev).2 ∧
      out.map Event.v =
        (w.bufferPolicy.pushed (min w.cap windowCap) w.buffer.inner ev).1.map batchValue := by
  simp only [WindowTicks.store, BoundedVec.isFullCapped, decide_eq_true_eq]
  by_cases hearly : w.bufferPolicy = .flushEarly ∧ min w.cap windowCap ≤ w.buffer.inner.length
  · -- the full buffer is a batch of its own, and the event starts the next
    obtain ⟨hpolicy, hfull⟩ := hearly
    rw [if_pos ⟨hpolicy, hfull⟩]
    have hempty : w.buffer.drainAll.2.inner.length < min w.cap windowCap := hcap
    obtain ⟨b', hpush, hle, hpushed⟩ := BoundedVec.pushCapped_ok checks w.buffer.drainAll.2 ev
      w.bufferPolicy hcap hdrops fun _ => hempty
    rw [w.bufferPolicy.pushed_of_lt hempty] at hpushed
    rw [hpush]
    have hne : w.buffer.inner ≠ [] := by
      rw [← List.length_pos_iff]
      exact hcap.trans_le hfull
    have hclosed : w.bufferPolicy.pushed (min w.cap windowCap) w.buffer.inner ev =
        ([w.buffer.inner], [ev]) := by
      rw [hpolicy]
      exact if_pos hfull
    refine ⟨_, b', rfl, hle, ?_, ?_⟩
    · rw [hclosed, ← (Prod.mk.inj hpushed).2]
      rfl
    · rw [values_flushed, hclosed]
      exact congrArg _ (if_neg hne)
  · rw [if_neg hearly]
    obtain ⟨b', hpush, hle, hpushed⟩ := BoundedVec.pushCapped_ok checks w.buffer ev w.bufferPolicy
      hcap hdrops fun hpolicy => Nat.not_le.mp fun hfull => hearly ⟨hpolicy, hfull⟩
    rw [hpush, hpushed]
    exact ⟨_, b', rfl, hle, rfl, rfl⟩

section Boundary

variable (checks) {w : WindowTicks} {ev : Event}
  (hfits : w.windowStart.toNat + w.duration.toNat < 2 ^ 64)

include hfits

private theorem deadline_le_iff : w.windowStart + w.duration ≤ ev.stamp.tick ↔
    w.windowStart.toNat + w.duration.toNat ≤ ev.stamp.tick.toNat := by
  rw [UInt64.le_iff_toNat_le, UInt64.toNat_add, Nat.mod_eq_of_lt hfits]

/-- An event before the end of the window changes nothing yet. -/
theorem WindowTicks.boundary_within
    (h : ev.stamp.tick.toNat < w.windowStart.toNat + w.duration.toNat) :
    w.boundary checks ev = .ok ([], w) := by
  rw [WindowTicks.boundary, addU64_ok hfits]
  exact if_neg (mt (deadline_le_iff hfits).mp (Nat.not_le.mpr h))

/-- An event at or past the end of the window closes it and opens its own. -/
theorem WindowTicks.boundary_past (hduration : w.duration ≠ 0)
    (h : w.windowStart.toNat + w.duration.toNat ≤ ev.stamp.tick.toNat) :
    w.boundary checks ev = .ok (flushed ev.stamp w.buffer.inner,
      { w with
        buffer := w.buffer.drainAll.2
        windowStart := ev.stamp.tick / w.duration * w.duration }) := by
  have hmul : mulU64 checks (ev.stamp.tick / w.duration) w.duration =
      .ok (ev.stamp.tick / w.duration * w.duration) := by
    have hle := Nat.div_mul_le_self ev.stamp.tick.toNat w.duration.toNat
    have hlt := ev.stamp.tick.toNat_lt
    rw [mulU64, if_neg]
    simp only [Bool.and_eq_true, decide_eq_true_eq, not_and, not_le, UInt64.toNat_div]
    omega
  rw [WindowTicks.boundary, addU64_ok hfits]
  refine (if_pos ((deadline_le_iff hfits).mpr h)).trans ?_
  rw [divU64, if_neg hduration]
  change mulU64 checks (ev.stamp.tick / w.duration) w.duration >>= _ = _
  rw [hmul]
  rfl

end Boundary

/-! ### Sequences of events -/

/-- A window node as the compiler makes it: `window.ms`, or `window.ticks`. -/
def windowKind (ms : Bool) (w : WindowTicks) : NodeKind :=
  if ms then .windowMs (.windowTicks w) else .windowTicks w

theorem windowKind_process (ms : Bool) {w w' : WindowTicks} {ev : Event} {out : List Event}
    (h : w.process checks ev = .ok (out, w')) :
    (windowKind ms w).process checks ev = .ok (out, windowKind ms w') := by
  cases ms <;> simp [windowKind, NodeKind.process, NodeKind.processInner, h, Except.map]

theorem windowKind_flush (ms : Bool) (w : WindowTicks) :
    (windowKind ms w).flush.1 = flushed ⟨0, w.windowStart⟩ w.buffer.inner := by
  cases ms <;> rfl

/-- A window node after the events `done`, of which it has made the batches that `sent` carries. -/
structure Windowed (duration : UInt64) (cap : ℕ) (policy : DropPolicy) (done sent : List Event)
    (w : WindowTicks) : Prop where
  duration_eq : w.duration = duration
  cap_eq : w.cap = cap
  policy_eq : w.bufferPolicy = policy
  fits : w.windowStart.toNat + duration.toNat < 2 ^ 64
  start_le : ∀ tick, (∀ e ∈ done, e.stamp.tick ≤ tick) → w.windowStart ≤ tick
  drops_le : w.buffer.drops.toNat ≤ done.length
  batched : ∃ k closed, w.windowStart.toNat = k * duration.toNat ∧
    Batched (windowOf duration) (policy.clip (min cap windowCap)) done closed k w.buffer.inner ∧
    sent.map Event.v = closed.map batchValue

/-- The window of an event ends within 64 bits. -/
def EndsInRange (duration : UInt64) (ev : Event) : Prop :=
  windowOf duration ev * duration.toNat + duration.toNat < 2 ^ 64

variable {duration : UInt64} {cap : ℕ} {policy : DropPolicy} {done sent evs : List Event}
  {w : WindowTicks}

/-- **Step lemma.** -/
theorem Windowed.process (checks : Bool) (h : Windowed duration cap policy done sent w)
    (hduration : duration ≠ 0) (hcap : 1 ≤ cap) {ev : Event} (hlast : ∀ e ∈ done, e.stamp.tick ≤ ev.stamp.tick)
    (hrange : EndsInRange duration ev) (hlen : done.length + 1 < 2 ^ 64) :
    ∃ out w', w.process checks ev = .ok (out, w') ∧
      Windowed duration cap policy (done ++ [ev]) (sent ++ out) w' := by
  obtain ⟨rfl, rfl, rfl, hfits, hstart, hdrops, k, closed, hk, hbatched, hsent⟩ := h
  have hpos : 0 < min w.cap windowCap := by
    rw [windowCap]
    omega
  have hdpos : 0 < w.duration.toNat := by
    rw [Nat.pos_iff_ne_zero]
    exact fun h0 => hduration (UInt64.toNat_inj.mp h0)
  have hle := UInt64.le_iff_toNat_le.mp (hstart _ hlast)
  have hlast' : ∀ tick, (∀ e ∈ done ++ [ev], e.stamp.tick ≤ tick) → ev.stamp.tick ≤ tick :=
    fun tick htick => htick ev (by simp)
  by_cases hpast : w.windowStart.toNat + w.duration.toNat ≤ ev.stamp.tick.toNat
  · -- the event is the first of its window
    have hnext : (ev.stamp.tick / w.duration * w.duration).toNat =
        windowOf w.duration ev * w.duration.toNat := by
      rw [UInt64.toNat_mul, UInt64.toNat_div, windowOf, Nat.mod_eq_of_lt]
      exact (Nat.div_mul_le_self _ _).trans_lt ev.stamp.tick.toNat_lt
    have hlater : windowOf w.duration ev ≠ k := by
      have hsucc : (k + 1) * w.duration.toNat ≤ ev.stamp.tick.toNat := by
        rw [Nat.succ_mul, ← hk]
        exact hpast
      have := (Nat.le_div_iff_mul_le hdpos).mpr hsucc
      rw [windowOf]
      omega
    have hboundary := WindowTicks.boundary_past checks hfits hduration hpast
    set w₁ : WindowTicks := { w with
      buffer := w.buffer.drainAll.2
      windowStart := ev.stamp.tick / w.duration * w.duration } with hw₁
    have hdrops₁ : w₁.buffer.drops.toNat + 1 < 2 ^ 64 := by
      have : w₁.buffer.drops.toNat ≤ done.length := hdrops
      omega
    obtain ⟨out, buffer, hstore, hdrops', hinner, hout⟩ :=
      WindowTicks.store_ok checks (w := w₁) ev hpos hdrops₁
    refine ⟨flushed ev.stamp w.buffer.inner ++ out, { w₁ with buffer := buffer }, ?_, rfl, rfl, rfl,
      ?_, ?_, ?_, windowOf w.duration ev, _, hnext,
      hinner ▸ hbatched.next (filled_pushed hpos) rfl hlater, ?_⟩
    · simp only [WindowTicks.process, hboundary, hstore, bind, Except.bind]
    · change (ev.stamp.tick / w.duration * w.duration).toNat + w.duration.toNat < 2 ^ 64
      rw [hnext]
      exact hrange
    · intro tick htick
      have := UInt64.le_iff_toNat_le.mp (hlast' tick htick)
      rw [UInt64.le_iff_toNat_le]
      change (ev.stamp.tick / w.duration * w.duration).toNat ≤ _
      rw [hnext, windowOf]
      exact (Nat.div_mul_le_self _ _).trans this
    · rw [List.length_append, List.length_singleton]
      exact hdrops'.trans (Nat.succ_le_succ hdrops)
    · simp only [List.map_append, hsent, hout, values_flushed, List.append_assoc]
      rfl
  · -- within the window no boundary is passed
    have hsame : windowOf w.duration ev = k := by
      rw [windowOf]
      refine Nat.div_eq_of_lt_le (by omega) ?_
      rw [Nat.succ_mul, ← hk]
      omega
    have hboundary := WindowTicks.boundary_within checks hfits (Nat.not_le.mp hpast)
    obtain ⟨out, buffer, hstore, hdrops', hinner, hout⟩ :=
      WindowTicks.store_ok checks (w := w) ev hpos (by omega)
    refine ⟨out, { w with buffer := buffer }, ?_, rfl, rfl, rfl, hfits, ?_, ?_, k, _, hk,
      hinner ▸ hbatched.same (filled_pushed hpos) hsame, ?_⟩
    · simp only [WindowTicks.process, hboundary, hstore, bind, Except.bind, List.nil_append]
    · intro tick htick
      exact UInt64.le_trans (hstart _ hlast) (hlast' tick htick)
    · rw [List.length_append, List.length_singleton]
      exact hdrops'.trans (Nat.succ_le_succ hdrops)
    · rw [List.map_append, List.map_append, hsent, hout]

/-- **Run lemma.** -/
theorem Windowed.feed (checks ms : Bool) (h : Windowed duration cap policy done sent w)
    (hduration : duration ≠ 0) (hcap : 1 ≤ cap) (hsorted : TickSorted (done ++ evs))
    (hrange : ∀ ev ∈ evs, EndsInRange duration ev) (hlen : (done ++ evs).length < 2 ^ 64) :
    ∃ out w', (windowKind ms w).feed checks evs = .ok (out, windowKind ms w') ∧
      Windowed duration cap policy (done ++ evs) (sent ++ out) w' := by
  induction evs generalizing done sent w with
  | nil => exact ⟨[], w, rfl, by simpa using h⟩
  | cons ev evs ih =>
    have hlast : ∀ e ∈ done, e.stamp.tick ≤ ev.stamp.tick := fun e he =>
      (List.pairwise_append.mp hsorted).2.2 e he ev List.mem_cons_self
    have hlen' : done.length + 1 < 2 ^ 64 := by
      simp only [List.length_append, List.length_cons] at hlen
      omega
    obtain ⟨out₁, w₁, hprocess, h₁⟩ := h.process checks hduration hcap hlast
      (hrange ev List.mem_cons_self) hlen'
    obtain ⟨out₂, w₂, hfeed, h₂⟩ := ih h₁ (by simpa using hsorted)
      (fun e he => hrange e (List.mem_cons_of_mem _ he)) (by simpa using hlen)
    refine ⟨out₁ ++ out₂, w₂, ?_, by simpa using h₂⟩
    simp only [NodeKind.feed, windowKind_process ms hprocess, hfeed, bind, Except.bind]

/-! ### The law -/

/-- The events through a node, and the end of the stream. -/
def NodeKind.drain (checks : Bool) (kind : NodeKind) (evs : List Event) :
    Except Panic (List Event) :=
  (kind.feed checks evs).map fun r => r.1 ++ r.2.flush.1

/-- A window node before its first event. -/
def windowNode (ms : Bool) (duration : UInt64) (cap : ℕ) (policy : DropPolicy) : NodeKind :=
  windowKind ms ⟨duration, cap, .new, 0, policy⟩

/-- **Window grouping.** The batches a window node makes of a sequence in the order of its ticks and
of the flush at its end are those of the reference grouping, with the capacity cut to
`WINDOW_CAP`. -/
theorem window_grouping (checks ms : Bool) (duration : UInt64) (cap : ℕ) (policy : DropPolicy)
    (evs : List Event) (hduration : duration ≠ 0) (hcap : 1 ≤ cap) (hsorted : TickSorted evs)
    (hrange : ∀ ev ∈ evs, EndsInRange duration ev) (hlen : evs.length < 2 ^ 64) :
    ∃ out, (windowNode ms duration cap policy).drain checks evs = .ok out ∧
      out.map Event.v = (windowBatches duration policy (min cap windowCap) evs).map batchValue := by
  have hinit : Windowed duration cap policy [] [] ⟨duration, cap, .new, 0, policy⟩ :=
    ⟨rfl, rfl, rfl, by simpa using duration.toNat_lt, fun tick _ => by simp, Nat.zero_le _,
      0, [], by simp, batched_init 0, rfl⟩
  obtain ⟨out, w, hfeed, h⟩ := hinit.feed checks ms hduration hcap hsorted hrange hlen
  obtain ⟨k, closed, -, hbatched, hsent⟩ := h.batched
  refine ⟨out ++ (windowKind ms w).flush.1, ?_, ?_⟩
  · rw [NodeKind.drain, windowNode, hfeed]
    rfl
  · rw [windowBatches, List.map_append, ← List.nil_append out, hsent, windowKind_flush,
      values_flushed, ← List.map_append, hbatched.finish, List.nil_append]

/-- Under the policy of early flushes the batches are the events, in their order, none of them
longer than the capacity. -/
theorem windowBatches_flushEarly {cap : ℕ} (hcap : 0 < cap) (evs : List Event) :
    (windowBatches duration .flushEarly cap evs).flatten = evs ∧
      ∀ batch ∈ windowBatches duration .flushEarly cap evs, batch.length ≤ cap := by
  constructor
  · have hflatten : ∀ gs : List (List Event),
        (gs.flatMap (DropPolicy.flushEarly.clip cap)).flatten = gs.flatten := by
      intro gs
      induction gs with
      | nil => rfl
      | cons g gs ih =>
        rw [List.flatMap_cons, List.flatten_append, ih, List.flatten_cons]
        exact congrArg (· ++ _) (toChunks_spec hcap g).1
    rw [windowBatches, hflatten, groups, List.flatten_splitBy]
  · intro batch hbatch
    obtain ⟨g, -, hg⟩ := List.mem_flatMap.mp hbatch
    exact (toChunks_spec hcap g).2 batch hg

/-- Five events in two windows of ten ticks. -/
def sampleTicks : List Event := [1, 2, 9, 15, 16].map fun tick => Event.new ⟨0, tick⟩ .unit

theorem window_grouping_sample :
    (∃ out, (windowNode false 10 2 .flushEarly).drain true sampleTicks = .ok out ∧
      out.map Event.v =
        (windowBatches 10 .flushEarly (min 2 windowCap) sampleTicks).map batchValue) ∧
    (windowBatches 10 .flushEarly 2 sampleTicks).map (List.map fun e => e.stamp.tick) =
      [[1, 2], [9], [15, 16]] :=
  ⟨window_grouping true false 10 2 .flushEarly sampleTicks (by decide) (by decide)
    (by unfold TickSorted; decide) (by unfold EndsInRange windowOf; decide) (by decide),
    by decide⟩

/-- A node with a capacity of 65 keeps 64 of 65 events of one window. -/
theorem not_window_grouping :
    ¬∀ (checks ms : Bool) (duration : UInt64) (cap : ℕ) (policy : DropPolicy) (evs : List Event),
      duration ≠ 0 → 1 ≤ cap → TickSorted evs → (∀ ev ∈ evs, EndsInRange duration ev) →
      evs.length < 2 ^ 64 → ∃ out, (windowNode ms duration cap policy).drain checks evs = .ok out ∧
        out.map Event.v = (windowBatches duration policy cap evs).map batchValue := by
  intro h
  have hsorted : TickSorted (List.replicate 65 (Event.new ⟨0, 0⟩ .unit)) :=
    List.pairwise_replicate_of_refl
  have hrange : ∀ ev ∈ List.replicate 65 (Event.new ⟨0, 0⟩ .unit), EndsInRange 10 ev := by
    intro ev hev
    obtain rfl := List.eq_of_mem_replicate hev
    unfold EndsInRange windowOf
    decide
  obtain ⟨out, hdrain, hout⟩ :=
    h true false 10 65 .dropNewest _ (by decide) (by decide) hsorted hrange (by decide)
  have hkept : (windowNode false 10 65 .dropNewest).drain true
      (List.replicate 65 (Event.new ⟨0, 0⟩ .unit)) =
      .ok [Event.new ⟨0, 0⟩ (.window (List.replicate 64 "()"))] := by
    decide +kernel
  obtain rfl := Except.ok.inj (hdrain.symm.trans hkept)
  revert hout
  decide +kernel

end Rivr.Core
