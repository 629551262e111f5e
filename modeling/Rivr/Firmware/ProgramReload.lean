import Rivr.Firmware.ProgramStore

/-!
# Reloading a program

`rivr_embed_reload` clears the table of timers before it tries the new program, and registers timers
again only when the program is taken. A reload that fails keeps the graph and the sinks, and leaves
no timer (`rivrEmbedReload_failed`); what the sinks are called with is the same up to the first
deadline of a timer that was registered (`sinkCalls_of_notDue`).
-/

open ByteParser Utf8
open Rivr.Core (Engine compile parse parseProgram)

namespace Rivr

variable {uni : Char → Bool} {nowMs : UInt32} {s s' : EmbedState} {checks : Bool}

/-! ### What a failed reload leaves -/

/-- The state that a failed reload leaves. -/
theorem rivrEmbedReload_failed (h : rivrEmbedReload uni nowMs s = .failed s') :
    s' = { s with
      runtime := { s.runtime with timers := sourcesTimerReset }
      reloadPending := false } := by
  rw [rivrEmbedReload] at h
  cases hinit : rivrEngineInit uni s.runtime.slot (progSrc s.nvs s.params) with
  | ok slot => simp [hinit] at h
  | err code =>
    simp only [hinit, Reload.failed.injEq] at h
    exact h.symm
  | panic => simp [hinit] at h

/-! ### Up to the next deadline -/

/-- No timer of the table is due. -/
def NotDue (nowMs : UInt32) (timers : TimerTable) : Prop :=
  ∀ e ∈ timers.entries, nowMs - e.lastFireMs < e.intervalMs

/-- Timers that are not due do nothing. -/
theorem drainTimers_of_notDue {slot : EngineSlot} {es : List TimerEntry}
    (h : ∀ e ∈ es, nowMs - e.lastFireMs < e.intervalMs) :
    drainTimers nowMs slot es = (slot, es, 0) := by
  induction es with
  | nil => rfl
  | cons e es ih =>
    have hhead : drainTimer nowMs slot e = (slot, e, false) :=
      if_pos (h e List.mem_cons_self)
    rw [drainTimers, hhead]
    simp only [ih fun e he => h e (List.mem_cons_of_mem _ he), Bool.toNat_false, Nat.add_zero]

/-- A turn in which no timer is due leaves the timers, and does what it would without them. -/
theorem rivrTick_of_notDue (checks : Bool) {input : TickInput} {r : Runtime}
    (h : NotDue input.nowMs r.timers) :
    rivrTick checks input r =
      ((rivrTick checks input { r with timers := sourcesTimerReset }).1,
        (rivrTick checks input { r with timers := sourcesTimerReset }).2.map fun ran =>
          { ran with timers := r.timers }) := by
  have hnone : ∀ e ∈ sourcesTimerReset.entries, input.nowMs - e.lastFireMs < e.intervalMs :=
    fun e he => nomatch he
  simp only [rivrTick, drainTimers_of_notDue h, drainTimers_of_notDue hnone]
  cases (injectAll r.slot input.injected).engine with
  | none => rfl
  | some engine =>
    dsimp only
    cases engine.run checks maxEngineSteps <;> rfl

/-- As long as no timer is due, the sinks are called as they would be without timers. -/
theorem sinkCalls_of_notDue {inputs : List TickInput} {r : Runtime}
    (h : ∀ input ∈ inputs, NotDue input.nowMs r.timers) :
    sinkCalls checks inputs r = sinkCalls checks inputs { r with timers := sourcesTimerReset } := by
  induction inputs generalizing r with
  | nil => rfl
  | cons input inputs ih =>
    have htick := rivrTick_of_notDue checks (h input List.mem_cons_self)
    have hnone : NotDue input.nowMs sourcesTimerReset := fun e he => nomatch he
    have hreset := rivrTick_of_notDue checks (r := { r with timers := sourcesTimerReset }) hnone
    rw [sinkCalls, sinkCalls, htick]
    match hcalls : rivrTick checks input { r with timers := sourcesTimerReset } with
    | (calls, .error p) => rfl
    | (calls, .ok ran) =>
      -- the turn leaves the table empty
      have hran : ran = { ran with timers := sourcesTimerReset } := by
        rw [hcalls] at hreset
        exact Except.ok.inj (Prod.ext_iff.mp hreset).2
      have hnext := ih (r := { ran with timers := r.timers }) fun input hinput =>
        h input (List.mem_cons_of_mem _ hinput)
      rw [← hran] at hnext
      simp only [Except.map, hnext]

/-! ### The law -/

/-- The graph, the timers and the sinks are in force as before, and so every later turn calls the
sinks as it would have. -/
structure KeepsRunning (checks : Bool) (s s' : EmbedState) : Prop where
  graph : s'.runtime.slot = s.runtime.slot
  timers : s'.runtime.timers = s.runtime.timers
  sinks : s'.runtime.sinks = s.runtime.sinks
  calls : ∀ inputs, sinkCalls checks inputs s'.runtime = sinkCalls checks inputs s.runtime

/-- A reload that fails leaves the node as it was exactly when no timer was registered. -/
theorem reload_failure_keeps_iff (uni : Char → Bool) (checks : Bool) (nowMs : UInt32)
    (s s' : EmbedState) (h : rivrEmbedReload uni nowMs s = .failed s') :
    KeepsRunning checks s s' ↔ s.runtime.timers.entries = [] := by
  have hs' := rivrEmbedReload_failed h
  constructor
  · intro hkeeps
    rw [← hkeeps.timers, hs']
    rfl
  · intro hnone
    have htimers : s.runtime.timers = sourcesTimerReset := TimerTable.ext hnone
    have hruntime : s'.runtime = s.runtime := by
      rw [hs', ← htimers]
    exact ⟨by rw [hruntime], by rw [hruntime], by rw [hruntime], fun inputs => by rw [hruntime]⟩

/-! ### A lost timer -/

/-- A program with one timer. -/
def tickerProgram : List UInt8 :=
  ascii "source t = timer(1000);\n" ++ ascii "emit \x7b io.usb.print(t); \x7d\n"

/-- The engine of an ASCII text that loads. -/
def asciiEngine (text : List UInt8) : Engine :=
  match parseProgram (fun _ => false) 0 text with
  | .ok program _ _ =>
    match compile program with
    | .ok (engine, _) => engine
    | .error _ => .new
  | _ => .new

/-- A client that runs the program since its start, when a text that is none was stored. -/
def tickerState : EmbedState where
  runtime :=
    { slot := ⟨some (asciiEngine tickerProgram), false⟩
      timers := registerTimers 0 ⟨some (asciiEngine tickerProgram), false⟩ sourcesTimerReset
      sinks := rivrSinksInit [] }
  params := rivrPolicyInit .client
  nvs := ⟨some (ascii "hello"), 0, 0⟩
  reloadPending := true

/-- What the failed reload leaves of it. -/
def tickerFailed : EmbedState :=
  { tickerState with
    runtime := { tickerState.runtime with timers := sourcesTimerReset }
    reloadPending := false }

theorem reload_hello : rivrEmbedReload (fun _ => false) 5 tickerState = .failed tickerFailed := by
  have hsrc : progSrc tickerState.nvs tickerState.params = ascii "hello" := by decide +kernel
  simp only [rivrEmbedReload, rivrEngineInit, hsrc, buildEngine_hello]
  rfl

theorem reload_failure_keeps_iff_ticker :
    rivrEmbedReload (fun _ => false) 5 tickerState = .failed tickerFailed ∧
      (KeepsRunning true tickerState tickerFailed ↔ tickerState.runtime.timers.entries = []) :=
  ⟨reload_hello, reload_failure_keeps_iff _ _ _ _ _ reload_hello⟩

/-- At the next deadline nothing is printed any more. -/
theorem not_reload_failure_keeps : ¬∀ (uni : Char → Bool) (checks : Bool) (nowMs : UInt32)
    (s s' : EmbedState), rivrEmbedReload uni nowMs s = .failed s' → KeepsRunning checks s s' := by
  intro h
  have hcalls := (h _ true _ _ _ reload_hello).calls [⟨1000, []⟩]
  have hbefore : sinkCalls true [⟨1000, []⟩] tickerState.runtime =
      [[(.usbPrint, .int 1000)]] := by decide +kernel
  have hafter : sinkCalls true [⟨1000, []⟩] tickerFailed.runtime = [[]] := by decide +kernel
  rw [hbefore, hafter] at hcalls
  exact absurd hcalls (by decide)

end Rivr
