import Rivr.Core.Compiler
import Rivr.Core.Parser
import Rivr.Firmware.PolicyParams

/-!
# The engine in the firmware

`rivr_core/src/ffi.rs` holds one engine in a static slot; `rivr_layer/rivr_embed.c` fills it at boot
and on a reload, and `rivr_layer/rivr_sources.c` keeps the table of the timers that its graph asks
for. A Rust panic behind the C interface stops the program.

The warnings of the compiler are dispatched to a sink that nobody registers, which is logged only.
-/

open ByteParser CString Utf8
open Rivr.Core (Engine Event NodeKind SinkKind Value compile parse)

namespace Rivr

/-! ### The engine slot -/

/-- `RIVR_ERR_*`. -/
inductive RivrErr where
  | utf8 | parse | compile | notInit | srcUnknown | nodeLimit | frozen
  deriving DecidableEq, Repr

/-- What a call into the Rust code comes to. -/
inductive RivrResult (α : Type) where
  | ok (a : α)
  | err (code : RivrErr)
  | panic
  deriving DecidableEq

/-- `RIVR_MAX_NODES`. -/
def rivrMaxNodes : ℕ := 64

/-- `ENGINE_SLOT`, with `ENGINE_READY` and `ENGINE_FROZEN`. -/
structure EngineSlot where
  engine : Option Engine
  frozen : Bool
  deriving DecidableEq

/-- The slot at power-on. -/
def EngineSlot.new : EngineSlot := ⟨none, false⟩

/-- `CStr::to_str`. -/
def cstrToStr (bytes : List UInt8) : Option String := (decodeUtf8 bytes).map String.ofList

section

variable (uni : Char → Bool)

/-- The checks of `rivr_engine_init` on the text, in order, and the engine it gives. -/
def buildEngine (programSrc : List UInt8) : RivrResult Engine :=
  match cstrToStr programSrc with
  | none => .err .utf8
  | some src =>
    match parse uni src with
    | .panic | .hang => .panic
    | .err .. => .err .parse
    | .ok program _ _ =>
      match compile program with
      | .error _ => .err .compile
      | .ok (engine, _) => if engine.nodes.length > rivrMaxNodes then .err .nodeLimit else .ok engine

/-- `rivr_engine_init`. -/
def rivrEngineInit (slot : EngineSlot) (programSrc : List UInt8) : RivrResult EngineSlot :=
  match buildEngine uni programSrc with
  | .panic => .panic
  | .err code => .err code
  | .ok engine => if slot.frozen then .err .frozen else .ok { slot with engine := some engine }

end

/-- `rivr_inject_event`. -/
def rivrInjectEvent (slot : EngineSlot) (sourceName : List UInt8) (ev : Event) :
    RivrResult EngineSlot :=
  match slot.engine with
  | none => .err .notInit
  | some engine =>
    match cstrToStr sourceName with
    | none => .err .utf8
    | some name =>
      match engine.inject name ev with
      | .error _ => .err .srcUnknown
      | .ok engine => .ok { slot with engine := some engine }

/-! ### Timers -/

/-- `RIVR_TIMER_MAX`. -/
def rivrTimerMax : ℕ := 8

/-- `rivr_timer_entry_t` of an active timer. -/
structure TimerEntry where
  name : List UInt8
  intervalMs : UInt32
  lastFireMs : UInt32
  interval_ne_zero : intervalMs ≠ 0
  deriving DecidableEq

/-- `s_timers`, the registered ones. -/
@[ext]
structure TimerTable where
  entries : List TimerEntry
  bound : entries.length ≤ rivrTimerMax
  deriving DecidableEq

/-- `sources_timer_reset`. -/
def sourcesTimerReset : TimerTable := ⟨[], Nat.zero_le _⟩

/-- `sources_register_timer`. -/
def sourcesRegisterTimer (nowMs : UInt32) (timers : TimerTable) (name : List UInt8)
    (intervalMs : UInt32) : TimerTable :=
  if h : intervalMs ≠ 0 ∧ timers.entries.length < rivrTimerMax then
    ⟨timers.entries ++ [⟨(cstr name).take 31, intervalMs, nowMs, h.1⟩], by
      rw [List.length_append]
      exact h.2⟩
  else timers

/-- `s_timer_reg_cb`. -/
def timerRegCb (nowMs : UInt32) (timers : TimerTable) (source : List UInt8 × UInt64) : TimerTable :=
  sourcesRegisterTimer nowMs timers source.1
    (if source.2 > 0xFFFFFFFF then 0xFFFFFFFF else source.2.toUInt32)

/-- What `rivr_foreach_timer_source` calls back with: the names, cut to 63 bytes, and the intervals
of the timer sources of the graph. -/
def timerSources (engine : Engine) : List (List UInt8 × UInt64) :=
  engine.nodes.filterMap fun node =>
    match node.kind with
    | .source name _ (some ms) => some ((utf8 name.toList).take 63, ms)
    | _ => none

/-- `rivr_foreach_timer_source(s_timer_reg_cb)`. -/
def registerTimers (nowMs : UInt32) (slot : EngineSlot) (timers : TimerTable) : TimerTable :=
  match slot.engine with
  | none => timers
  | some engine => (timerSources engine).foldl (timerRegCb nowMs) timers

/-- One turn of the loop of `sources_timer_drain`: the slot, the entry, and whether it fired. -/
def drainTimer (nowMs : UInt32) (slot : EngineSlot) (e : TimerEntry) :
    EngineSlot × TimerEntry × Bool :=
  if nowMs - e.lastFireMs < e.intervalMs then (slot, e, false)
  else
    let ev : Event := ⟨⟨0, nowMs.toUInt64⟩, .int (Int64.ofNat nowMs.toNat), none, 0⟩
    match rivrInjectEvent slot e.name ev with
    | .ok slot => (slot, { e with lastFireMs := nowMs }, true)
    -- the timer counts as fired, though nobody has taken its event
    | _ => (slot, { e with lastFireMs := nowMs }, false)

/-- The loop of `sources_timer_drain`. -/
def drainTimers (nowMs : UInt32) : EngineSlot → List TimerEntry → EngineSlot × List TimerEntry × ℕ
  | slot, [] => (slot, [], 0)
  | slot, e :: es =>
    let (slot, e, fired) := drainTimer nowMs slot e
    let (slot, es, n) := drainTimers nowMs slot es
    (slot, e :: es, n + fired.toNat)

theorem length_drainTimers (nowMs : UInt32) (slot : EngineSlot) (es : List TimerEntry) :
    (drainTimers nowMs slot es).2.1.length = es.length := by
  induction es generalizing slot with
  | nil => rfl
  | cons e es ih => simp only [drainTimers, List.length_cons, ih]

/-! ### Sinks -/

/-- The callbacks of `rivr_layer/rivr_sinks.c`. -/
inductive SinkCb where
  | rfTx | beacon | usbPrint | log
  deriving DecidableEq, Repr

/-- `MAX_SINK_REGS`. -/
def maxSinkRegs : ℕ := 8

/-- `s_sinks`. -/
abbrev SinkTable := List (String × SinkCb)

/-- `rivr_register_sink`. -/
def rivrRegisterSink (sinks : SinkTable) (name : String) (cb : SinkCb) : SinkTable :=
  if sinks.length ≥ maxSinkRegs then sinks else sinks ++ [(name, cb)]

/-- `rivr_sinks_init`. -/
def rivrSinksInit (sinks : SinkTable) : SinkTable :=
  [("io.lora.tx", .rfTx), ("io.lora.beacon", .beacon), ("io.usb.print", .usbPrint),
    ("log", .log)].foldl (fun sinks s => rivrRegisterSink sinks s.1 s.2) sinks

/-- The name under which an `emit` node dispatches. -/
def sinkName : SinkKind → String
  | .usbPrint => "io.usb.print"
  | .loraTx => "io.lora.tx"
  | .loraBeacon => "io.lora.beacon"
  | .debugDump => "io.debug.dump"

/-- `rivr_emit_dispatch`: the call of the first sink of the name. -/
def rivrEmitDispatch (sinks : SinkTable) (name : String) (v : Value) : List (SinkCb × Value) :=
  ((sinks.lookup name).map fun cb => (cb, v)).toList

/-! ### Running -/

/-- What the `emit` nodes dispatch in the run of at most `maxSteps` steps. -/
def emissions (checks : Bool) : ℕ → Engine → List (SinkKind × Value)
  | 0, _ => []
  | maxSteps + 1, engine =>
    match engine.scheduler.pop with
    | (none, _) => []
    | (some item, scheduler) =>
      let here :=
        match engine.nodes[item.nodeId]?.map (·.kind) with
        -- what comes out of a node of another kind goes on in the graph
        | some (.emit sink) => [(sink, item.event.v)]
        | _ => []
      match Engine.step checks { engine with scheduler := scheduler } item with
      | .error _ => here
      | .ok engine => here ++ emissions checks maxSteps engine

/-- `MAX_ENGINE_STEPS`. -/
def maxEngineSteps : ℕ := 256

/-- What runs: the engine, the timers and the sinks. -/
structure Runtime where
  slot : EngineSlot
  timers : TimerTable
  sinks : SinkTable
  deriving DecidableEq

/-- What reaches a running node between two turns: the time, and the events that the drains of the
receive buffer and of the console inject. -/
structure TickInput where
  nowMs : UInt32
  injected : List (List UInt8 × Event)

/-- Injecting, whatever comes of it. -/
def injectAll : EngineSlot → List (List UInt8 × Event) → EngineSlot
  | slot, [] => slot
  | slot, (name, ev) :: evs =>
    match rivrInjectEvent slot name ev with
    | .ok slot => injectAll slot evs
    | _ => injectAll slot evs

/-- `rivr_tick`: the calls of the sinks, and the runtime left or the panic of the engine. The chunks
of `rivr_engine_run` kick the watchdog only. -/
def rivrTick (checks : Bool) (input : TickInput) (r : Runtime) :
    List (SinkCb × Value) × Except Rivr.Core.Panic Runtime :=
  let slot := injectAll r.slot input.injected
  let drained := drainTimers input.nowMs slot r.timers.entries
  let timers : TimerTable := ⟨drained.2.1, (length_drainTimers _ _ _).trans_le r.timers.bound⟩
  match drained.1.engine with
  | none => ([], .ok { r with slot := drained.1, timers := timers })
  | some engine =>
    ((emissions checks maxEngineSteps engine).flatMap fun e =>
        rivrEmitDispatch r.sinks (sinkName e.1) e.2,
      (engine.run checks maxEngineSteps).map fun ran =>
        { r with slot := { drained.1 with engine := some ran.2 }, timers := timers })

/-- The calls of the sinks, turn by turn, up to a panic. -/
def sinkCalls (checks : Bool) : List TickInput → Runtime → List (List (SinkCb × Value))
  | [], _ => []
  | input :: inputs, r =>
    match rivrTick checks input r with
    | (calls, .error _) => [calls]
    | (calls, .ok r) => calls :: sinkCalls checks inputs r

/-! ### Storage, boot and reload -/

/-- The keys of the storage that program updates use. -/
structure Nvs where
  program : Option (List UInt8)
  otaSeq : UInt32
  otaPending : UInt32
  deriving DecidableEq

/-- `RIVR_NVS_PROG_MAX`. -/
def rivrNvsProgMax : ℕ := 2048

/-- `RIVR_POLICY_PROG_MAX`. -/
def rivrPolicyProgMax : ℕ := 768

/-- `nvs_load_program`: nothing when there is no text, it is empty, or it does not fit. -/
def nvsLoadProgram (nvs : Nvs) : Option (List UInt8) :=
  match nvs.program with
  | none => none
  | some text => if text.length + 1 ≤ rivrNvsProgMax ∧ 1 < text.length + 1 then some text else none

/-- `rivr_nvs_store_program`. -/
def rivrNvsStoreProgram (nvs : Nvs) (src : List UInt8) : Nvs := { nvs with program := some (cstr src) }

/-- The text that is loaded: the stored one, or else that of the parameters. -/
def progSrc (nvs : Nvs) (params : PolicyParams) : List UInt8 :=
  (nvsLoadProgram nvs).getD (cstr (rivrPolicyBuildProgram params rivrPolicyProgMax))

/-- The state of a node that program updates are about. -/
structure EmbedState where
  runtime : Runtime
  params : PolicyParams
  nvs : Nvs
  reloadPending : Bool
  deriving DecidableEq

/-- How a boot ends: in the main loop, in the endless loop after an error, or in a panic. -/
inductive Boot where
  | running (s : EmbedState)
  | halted (code : RivrErr)
  | aborted

/-- `rivr_embed_init`, on what the storage holds and the parameters of `rivr_policy_init`. -/
def rivrEmbedInit (uni : Char → Bool) (params : PolicyParams) (nvs : Nvs) (nowMs : UInt32) : Boot :=
  match rivrEngineInit uni .new (progSrc nvs params) with
  | .panic => .aborted
  | .err code => .halted code
  | .ok slot =>
    .running
      { runtime :=
          { slot := slot
            timers := registerTimers nowMs slot sourcesTimerReset
            sinks := rivrSinksInit [] }
        params := params
        nvs := nvs
        reloadPending := false }

/-- What `rivr_embed_reload` reports. -/
inductive Reload where
  | done (s : EmbedState)
  | failed (s : EmbedState)
  | panic

/-- `rivr_embed_reload`. -/
def rivrEmbedReload (uni : Char → Bool) (nowMs : UInt32) (s : EmbedState) : Reload :=
  -- the timers are gone before the program is known to be good
  let timers := sourcesTimerReset
  match rivrEngineInit uni s.runtime.slot (progSrc s.nvs s.params) with
  | .panic => .panic
  | .err _ => .failed { s with runtime := { s.runtime with timers := timers }, reloadPending := false }
  | .ok slot =>
    .done { s with
      runtime := { s.runtime with slot := slot, timers := registerTimers nowMs slot timers }
      reloadPending := false }

/-! ### Loading -/

variable {uni : Char → Bool}

/-- A text that the engine runs: UTF-8, parsed and compiled, and small enough. -/
def ProgramLoads (uni : Char → Bool) (text : List UInt8) (engine : Engine) : Prop :=
  ∃ s program pos rest warnings, text = utf8 s ∧
    parse uni (String.ofList s) = .ok program pos rest ∧
    compile program = .ok (engine, warnings) ∧ engine.nodes.length ≤ rivrMaxNodes

theorem cstrToStr_eq_some_iff {bytes : List UInt8} {src : String} :
    cstrToStr bytes = some src ↔ bytes = utf8 src.toList := by
  rw [cstrToStr, Option.map_eq_some_iff]
  constructor
  · rintro ⟨s, hs, rfl⟩
    rw [String.toList_ofList]
    exact decodeUtf8_eq_some_iff.mp hs
  · exact fun h => ⟨_, decodeUtf8_eq_some_iff.mpr h, String.ofList_toList⟩

theorem buildEngine_eq_ok_iff {text : List UInt8} {engine : Engine} :
    buildEngine uni text = .ok engine ↔ ProgramLoads uni text engine := by
  constructor
  · intro h
    rw [buildEngine] at h
    match hsrc : cstrToStr text with
    | none => simp only [hsrc] at h; exact nomatch h
    | some src =>
      simp only [hsrc] at h
      match hparse : parse uni src with
      | .panic | .hang | .err .. => simp only [hparse] at h; exact nomatch h
      | .ok program pos rest =>
        simp only [hparse] at h
        match hcompile : compile program with
        | .error _ => simp only [hcompile] at h; exact nomatch h
        | .ok (engine', warnings) =>
          simp only [hcompile] at h
          by_cases hlimit : engine'.nodes.length > rivrMaxNodes
          · rw [if_pos hlimit] at h
            exact nomatch h
          · rw [if_neg hlimit, RivrResult.ok.injEq] at h
            subst h
            refine ⟨src.toList, program, pos, rest, warnings, cstrToStr_eq_some_iff.mp hsrc, ?_,
              hcompile, Nat.not_lt.mp hlimit⟩
            rw [String.ofList_toList, hparse]
  · rintro ⟨s, program, pos, rest, warnings, rfl, hparse, hcompile, hlimit⟩
    have hsrc : cstrToStr (utf8 s) = some (String.ofList s) := by
      rw [cstrToStr_eq_some_iff, String.toList_ofList]
    simp only [buildEngine, hsrc, hparse, hcompile, if_neg (Nat.not_lt.mpr hlimit)]

/-- A text that the parser rejects. -/
theorem buildEngine_of_parse_err {s : List Char} {pos : ℕ} {e : Core.ParseMsg}
    (h : parse uni (String.ofList s) = .err pos e) : buildEngine uni (utf8 s) = .err .parse := by
  have hsrc : cstrToStr (utf8 s) = some (String.ofList s) := by
    rw [cstrToStr_eq_some_iff, String.toList_ofList]
  simp only [buildEngine, hsrc, h]

end Rivr
