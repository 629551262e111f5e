import Rivr.Core.InjectionOrder
import Rivr.Core.SourceNames
import Rivr.Firmware.ProgramReload

/-!
# The names of the timers

A timer source has one name in the engine and one in the table of the timers, which the callback of
`rivr_foreach_timer_source` cuts to 63 bytes and `sources_register_timer` to 31. As long as there is
room for all of them, every timer source is registered (`registerTimers_registered`), the turns of
the main loop leave the names of both sides alone (`RuntimeReach.timersOf`), and an identifier that
was not cut is found when its interval elapses.
-/

open CString Utf8
open Rivr.Core (Engine EngineReach Event NodeKind Node parse_sourceOk compile_sourceNodes
  compile_sources compile_wf)

namespace Rivr

variable {uni : Char → Bool} {checks : Bool} {text : List UInt8} {engine : Engine}

/-! ### The timer sources of a graph -/

/-- The names and the intervals of the timer sources, as the engine has them. -/
def timerNodes (engine : Engine) : List (String × UInt64) :=
  engine.nodes.filterMap fun node =>
    match node.kind with
    | .source name _ (some ms) => some (name, ms)
    | _ => none

/-- The interval that the table has for a source. -/
def timerIntervalMs (ms : UInt64) : UInt32 := if ms > 0xFFFFFFFF then 0xFFFFFFFF else ms.toUInt32

/-- The name that the table has for a source. -/
def timerName (name : String) : List UInt8 := (cstr ((utf8 name.toList).take 63)).take 31

theorem timerSources_eq (engine : Engine) :
    timerSources engine = (timerNodes engine).map fun src => ((utf8 src.1.toList).take 63, src.2) := by
  rw [timerSources, timerNodes, List.map_filterMap]
  refine List.filterMap_congr fun node _ => ?_
  rcases node.kind with ⟨name, clock, _ | ms⟩ | _ <;> rfl

/-- The timer sources of a program that loads: identifiers, with intervals that are not zero, and
names that the engine finds. -/
theorem timerNodes_of_loads (h : ProgramLoads uni text engine) {name : String} {ms : UInt64}
    (hmem : (name, ms) ∈ timerNodes engine) :
    Rivr.Core.IsIdent name ∧ ms ≠ 0 ∧ ∃ id, engine.sourceIds.lookup name = some id := by
  obtain ⟨s, program, pos, rest, warnings, -, hparse, hcompile, -⟩ := h
  obtain ⟨node, hnode, hkind⟩ := List.mem_filterMap.mp hmem
  have hkind : ∃ clock, node.kind = .source name clock (some ms) := by
    split at hkind
    · next name' clock ms' hsource =>
      obtain ⟨rfl, rfl⟩ := Prod.mk.inj (Option.some.inj hkind)
      exact ⟨clock, hsource⟩
    · exact nomatch hkind
  obtain ⟨clock, hkind⟩ := hkind
  obtain ⟨⟨clk, kind, hstmt, hclock⟩, hid⟩ := compile_sourceNodes hcompile hnode hkind
  obtain ⟨hident, hms⟩ := parse_sourceOk hparse _ hstmt
  have hkind : kind = .timer ms := by
    cases kind with
    | timer ms' => rw [Option.some.inj (Prod.mk.inj hclock).2]
    | _ => simp [Core.sourceClock] at hclock
  exact ⟨hident, hms ms hkind, hid⟩

theorem timerIntervalMs_ne_zero {ms : UInt64} (h : ms ≠ 0) : timerIntervalMs ms ≠ 0 := by
  rw [timerIntervalMs]
  split_ifs with hlt
  · decide
  · intro hzero
    refine h (UInt64.toNat_inj.mp ?_)
    have hle : ms.toNat ≤ 0xFFFFFFFF := UInt64.le_iff_toNat_le.mp (UInt64.not_lt.mp hlt)
    have hnat := congrArg UInt32.toNat hzero
    rw [UInt64.toNat_toUInt32] at hnat
    change ms.toNat % 4294967296 = 0 at hnat
    change ms.toNat = 0
    omega

/-- A name is stored whole when it has at most 31 bytes. -/
theorem cstrToStr_timerName {name : String} (h : Rivr.Core.IsIdent name) :
    cstrToStr (timerName name) = some name ↔ (utf8 name.toList).length ≤ 31 := by
  rw [cstrToStr_eq_some_iff]
  constructor
  · intro heq
    rw [← heq, timerName, List.length_take]
    exact min_le_left _ _
  · intro hle
    have hall : ∀ b ∈ utf8 name.toList, (b != 0) = true := fun b hb =>
      bne_iff_ne.mpr (h.mem_utf8_ne_zero b hb)
    rw [timerName, List.take_of_length_le (hle.trans (by decide)), cstr,
      List.takeWhile_eq_self_iff.mpr hall, List.take_of_length_le hle]

/-! ### Registration -/

/-- The entry is the one of the source. -/
structure Registered (src : String × UInt64) (e : TimerEntry) : Prop where
  name : e.name = timerName src.1
  intervalMs : e.intervalMs = timerIntervalMs src.2

theorem timerRegCb_registered (nowMs : UInt32) {timers : TimerTable} {srcs : List (String × UInt64)}
    {src : String × UInt64} (h : List.Forall₂ Registered srcs timers.entries) (hms : src.2 ≠ 0)
    (hlen : srcs.length < rivrTimerMax) :
    List.Forall₂ Registered (srcs ++ [src])
      (timerRegCb nowMs timers ((utf8 src.1.toList).take 63, src.2)).entries := by
  have hroom : timerIntervalMs src.2 ≠ 0 ∧ timers.entries.length < rivrTimerMax :=
    ⟨timerIntervalMs_ne_zero hms, h.length_eq ▸ hlen⟩
  change List.Forall₂ Registered _ (sourcesRegisterTimer nowMs timers _ (timerIntervalMs src.2)).entries
  rw [sourcesRegisterTimer, dif_pos hroom]
  exact List.rel_append h (.cons ⟨rfl, rfl⟩ .nil)

theorem foldl_timerRegCb_registered {nowMs : UInt32} (rest : List (String × UInt64))
    {srcs : List (String × UInt64)} {timers : TimerTable}
    (h : List.Forall₂ Registered srcs timers.entries) (hms : ∀ src ∈ rest, src.2 ≠ 0)
    (hlen : srcs.length + rest.length ≤ rivrTimerMax) :
    List.Forall₂ Registered (srcs ++ rest) ((rest.map fun src =>
      ((utf8 src.1.toList).take 63, src.2)).foldl (timerRegCb nowMs) timers).entries := by
  induction rest generalizing srcs timers with
  | nil => rwa [List.append_nil]
  | cons src rest ih =>
    rw [List.length_cons] at hlen
    have hnext := timerRegCb_registered nowMs h (hms src List.mem_cons_self) (by omega)
    have hlen' : (srcs ++ [src]).length + rest.length ≤ rivrTimerMax := by
      rw [List.length_append, List.length_singleton]
      omega
    have hrest := ih hnext (fun src' hsrc' => hms src' (List.mem_cons_of_mem _ hsrc')) hlen'
    rwa [List.append_assoc] at hrest

/-- **Registration.** While there is room for all of them, every timer source is registered. -/
theorem registerTimers_registered (h : ProgramLoads uni text engine)
    (hcount : (timerNodes engine).length ≤ rivrTimerMax) {slot : EngineSlot}
    (hslot : slot.engine = some engine) (nowMs : UInt32) :
    List.Forall₂ Registered (timerNodes engine)
      (registerTimers nowMs slot sourcesTimerReset).entries := by
  have hms : ∀ src ∈ timerNodes engine, src.2 ≠ 0 := fun src hsrc =>
    (timerNodes_of_loads h hsrc).2.1
  rw [registerTimers, hslot]
  dsimp only
  rw [timerSources_eq]
  have hnil : List.Forall₂ Registered [] sourcesTimerReset.entries := .nil
  exact foldl_timerRegCb_registered (timerNodes engine) hnil hms
    (by rwa [List.length_nil, Nat.zero_add])

/-! ### The turns of the main loop -/

/-- The runtimes that turns lead to. -/
inductive RuntimeReach (checks : Bool) (r₀ : Runtime) : Runtime → Prop
  | start : RuntimeReach checks r₀ r₀
  | turn {r r' : Runtime} (input : TickInput) (h : RuntimeReach checks r₀ r)
      (hok : (rivrTick checks input r).2 = .ok r') : RuntimeReach checks r₀ r'

/-- The slot holds a state of the engine. -/
def SlotOf (checks : Bool) (engine : Engine) (slot : EngineSlot) : Prop :=
  ∃ e, slot.engine = some e ∧ EngineReach checks engine e

theorem SlotOf.inject {slot slot' : EngineSlot} (h : SlotOf checks engine slot) {name : List UInt8}
    {ev : Event} (hok : rivrInjectEvent slot name ev = .ok slot') : SlotOf checks engine slot' := by
  obtain ⟨e, he, hreach⟩ := h
  simp only [rivrInjectEvent, he] at hok
  match hname : cstrToStr name with
  | none => simp only [hname] at hok; exact nomatch hok
  | some src =>
    simp only [hname] at hok
    match hinject : e.inject src ev with
    | .error _ => simp only [hinject] at hok; exact nomatch hok
    | .ok e' =>
      simp only [hinject, RivrResult.ok.injEq] at hok
      subst hok
      exact ⟨e', rfl, hreach.inject src ev hinject⟩

theorem SlotOf.injectAll {slot : EngineSlot} (h : SlotOf checks engine slot)
    (evs : List (List UInt8 × Event)) : SlotOf checks engine (injectAll slot evs) := by
  induction evs generalizing slot with
  | nil => exact h
  | cons ev evs ih =>
    rw [Rivr.injectAll]
    split
    · next hok => exact ih (h.inject hok)
    · exact ih h

theorem SlotOf.drainTimer {slot : EngineSlot} (h : SlotOf checks engine slot) (nowMs : UInt32)
    (e : TimerEntry) : SlotOf checks engine (drainTimer nowMs slot e).1 := by
  rw [Rivr.drainTimer]
  split_ifs
  · exact h
  · dsimp only
    split
    · next hok => exact h.inject hok
    · exact h

theorem SlotOf.drainTimers {slot : EngineSlot} (h : SlotOf checks engine slot) (nowMs : UInt32)
    (es : List TimerEntry) : SlotOf checks engine (drainTimers nowMs slot es).1 := by
  induction es generalizing slot with
  | nil => exact h
  | cons e es ih => exact ih (h.drainTimer nowMs e)

theorem Registered.drainTimer {src : String × UInt64} {e : TimerEntry} (h : Registered src e)
    (nowMs : UInt32) (slot : EngineSlot) : Registered src (drainTimer nowMs slot e).2.1 := by
  rw [Rivr.drainTimer]
  split_ifs
  · exact h
  · dsimp only
    split <;> exact ⟨h.name, h.intervalMs⟩

theorem registered_drainTimers {srcs : List (String × UInt64)} {es : List TimerEntry}
    (h : List.Forall₂ Registered srcs es) (nowMs : UInt32) (slot : EngineSlot) :
    List.Forall₂ Registered srcs (drainTimers nowMs slot es).2.1 := by
  induction h generalizing slot with
  | nil => exact .nil
  | cons hhead _ ih => exact .cons (hhead.drainTimer nowMs slot) (ih _)

/-- What the turns keep: a state of the engine, and the entries of its timer sources. -/
structure Runtime.TimersOf (checks : Bool) (engine : Engine) (r : Runtime) : Prop where
  slot : SlotOf checks engine r.slot
  entries : List.Forall₂ Registered (timerNodes engine) r.timers.entries

theorem Runtime.TimersOf.turn {r r' : Runtime} (h : r.TimersOf checks engine) {input : TickInput}
    (hok : (rivrTick checks input r).2 = .ok r') : r'.TimersOf checks engine := by
  have hslot := (h.slot.injectAll input.injected).drainTimers input.nowMs r.timers.entries
  have hentries := registered_drainTimers h.entries input.nowMs (injectAll r.slot input.injected)
  obtain ⟨e, he, hreach⟩ := hslot
  simp only [rivrTick, he] at hok
  rcases hrun : e.run checks maxEngineSteps with p | ⟨n, e'⟩
  · rw [hrun] at hok
    cases hok
  · rw [hrun] at hok
    obtain rfl := Except.ok.inj hok
    exact ⟨⟨e', rfl, hreach.run _ _ hrun⟩, hentries⟩

/-- **Runs.** -/
theorem RuntimeReach.timersOf {r₀ r : Runtime} (h : RuntimeReach checks r₀ r)
    (hstart : r₀.TimersOf checks engine) : r.TimersOf checks engine := by
  induction h with
  | start => exact hstart
  | turn input _ hok ih => exact ih.turn hok

/-! ### The law -/

/-- The runtime is one that a boot or a reload of the text starts. -/
def Runtime.Loaded (uni : Char → Bool) (text : List UInt8) (engine : Engine) (r : Runtime) : Prop :=
  ProgramLoads uni text engine ∧ r.slot.engine = some engine ∧
    ∃ nowMs, r.timers = registerTimers nowMs r.slot sourcesTimerReset

theorem rivrEmbedInit_loaded {params : PolicyParams} {nvs : Nvs} {nowMs : UInt32} {s : EmbedState}
    (h : rivrEmbedInit uni params nvs nowMs = .running s) :
    ∃ engine, s.runtime.Loaded uni (progSrc nvs params) engine := by
  obtain ⟨engine, hengine, hloads⟩ := rivrEmbedInit_engine h
  refine ⟨engine, hloads, hengine, nowMs, ?_⟩
  rw [rivrEmbedInit] at h
  split at h
  · cases h
  · cases h
  · obtain rfl := Boot.running.inj h
    rfl

theorem rivrEmbedReload_loaded {nowMs : UInt32} {s s' : EmbedState}
    (h : rivrEmbedReload uni nowMs s = .done s') :
    ∃ engine, s'.runtime.Loaded uni (progSrc s.nvs s.params) engine := by
  simp only [rivrEmbedReload, rivrEngineInit] at h
  cases hbuild : buildEngine uni (progSrc s.nvs s.params) with
  | panic | err =>
    simp only [hbuild] at h
    cases h
  | ok engine =>
    simp only [hbuild] at h
    split_ifs at h
    obtain rfl := Reload.done.inj h
    exact ⟨engine, buildEngine_eq_ok_iff.mp hbuild, rfl, nowMs, rfl⟩

/-- The slot when the loop of `sources_timer_drain` comes to the timer of the index. -/
def slotAtTimer (input : TickInput) (r : Runtime) (i : ℕ) : EngineSlot :=
  (drainTimers input.nowMs (injectAll r.slot input.injected) (r.timers.entries.take i)).1

/-- In every turn, every timer source has its entry in the table, and when its interval has elapsed
the stored name is that of the source and the injection succeeds. -/
def TimersAgree (checks : Bool) (engine : Engine) (r₀ : Runtime) : Prop :=
  ∀ r, RuntimeReach checks r₀ r → ∀ (input : TickInput) (i : ℕ) (name : String) (ms : UInt64),
    (timerNodes engine)[i]? = some (name, ms) →
      ∃ e, r.timers.entries[i]? = some e ∧ e.intervalMs = timerIntervalMs ms ∧
        (e.intervalMs ≤ input.nowMs - e.lastFireMs →
          cstrToStr e.name = some name ∧
            (drainTimer input.nowMs (slotAtTimer input r i) e).2.2 = true)

/-- The program is loaded with all its timers registered. -/
theorem Runtime.Loaded.timersOf {r : Runtime} (h : r.Loaded uni text engine)
    (hcount : (timerNodes engine).length ≤ rivrTimerMax) (checks : Bool) :
    r.TimersOf checks engine := by
  obtain ⟨hloads, hslot, nowMs, htimers⟩ := h
  refine ⟨⟨engine, hslot, .start⟩, ?_⟩
  rw [htimers]
  exact registerTimers_registered hloads hcount hslot nowMs

/-- A due timer fires under a name that the engine has. -/
theorem SlotOf.fires (hload : ProgramLoads uni text engine) {slot : EngineSlot}
    (h : SlotOf checks engine slot) {name : String} {id : ℕ}
    (hid : engine.sourceIds.lookup name = some id) {nowMs : UInt32} {e : TimerEntry}
    (hname : cstrToStr e.name = some name) (hdue : e.intervalMs ≤ nowMs - e.lastFireMs) :
    (Rivr.drainTimer nowMs slot e).2.2 = true := by
  obtain ⟨_, _, _, _, _, -, -, hcompile, -⟩ := hload
  obtain ⟨e', he', hreach⟩ := h
  obtain ⟨hordered, hfresh⟩ := compile_wf hcompile
  have hids := (hreach.stateOf (Engine.wf_of_ordered hordered hfresh)).sourceIds
  rw [Rivr.drainTimer, if_neg (UInt32.not_lt.mpr hdue)]
  simp only [rivrInjectEvent, he', hname, Engine.inject, hids, hid]

/-- **The names of the timers** agree in every run exactly when no timer source has a name of more
than 31 bytes. -/
theorem timer_names_iff {r₀ : Runtime} (hload : r₀.Loaded uni text engine)
    (hcount : (timerNodes engine).length ≤ rivrTimerMax) :
    TimersAgree checks engine r₀ ↔
      ∀ src ∈ timerNodes engine, (utf8 src.1.toList).length ≤ 31 := by
  have hstart := hload.timersOf hcount checks
  constructor
  · intro hagree src hsrc
    obtain ⟨i, hi⟩ := List.mem_iff_getElem?.mp hsrc
    obtain ⟨e, he, -, -⟩ := hagree r₀ .start ⟨0, []⟩ i src.1 src.2 hi
    -- a turn in which the interval has just elapsed
    obtain ⟨e', he', -, hfires⟩ := hagree r₀ .start ⟨e.intervalMs + e.lastFireMs, []⟩ i src.1 src.2 hi
    obtain rfl := Option.some.inj (he.symm.trans he')
    have hdue : e.intervalMs ≤ e.intervalMs + e.lastFireMs - e.lastFireMs := by
      rw [UInt32.add_sub_cancel]
      exact UInt32.le_refl _
    have hentry := (List.forall₂_iff_get.mp hstart.entries).2
    obtain ⟨hi', hsrc'⟩ := List.getElem?_eq_some_iff.mp hi
    obtain ⟨hi'', he''⟩ := List.getElem?_eq_some_iff.mp he
    have hname := (hentry i hi' hi'').name
    rw [List.get_eq_getElem, List.get_eq_getElem, hsrc', he''] at hname
    rw [← cstrToStr_timerName (timerNodes_of_loads hload.1 hsrc).1, ← hname]
    exact (hfires hdue).1
  · intro hshort r hreach input i name ms hi
    have hnow := hreach.timersOf hstart
    obtain ⟨hi', hsrc⟩ := List.getElem?_eq_some_iff.mp hi
    have hmem : (name, ms) ∈ timerNodes engine := List.mem_of_getElem? hi
    obtain ⟨hident, -, id, hid⟩ := timerNodes_of_loads hload.1 hmem
    obtain ⟨hlen, hentry⟩ := List.forall₂_iff_get.mp hnow.entries
    have hi'' : i < r.timers.entries.length := hlen ▸ hi'
    have hreg := hentry i hi' hi''
    rw [List.get_eq_getElem, List.get_eq_getElem, hsrc] at hreg
    have hname : cstrToStr r.timers.entries[i].name = some name := by
      rw [hreg.name]
      exact (cstrToStr_timerName hident).mpr (hshort _ hmem)
    refine ⟨r.timers.entries[i], List.getElem?_eq_getElem hi'', hreg.intervalMs, fun hdue => ?_⟩
    have hslot := (hnow.slot.injectAll input.injected).drainTimers input.nowMs
      (r.timers.entries.take i)
    exact ⟨hname, hslot.fires hload.1 hid hname hdue⟩

/-- The engine of an ASCII text is the one that the text loads. -/
theorem asciiEngine_of_loads (h : ProgramLoads (fun _ => false) text engine) :
    asciiEngine text = engine := by
  obtain ⟨s, program, pos, rest, warnings, rfl, hparse, hcompile, -⟩ := h
  rw [Core.parse, String.toList_ofList] at hparse
  rw [asciiEngine, hparse]
  dsimp only
  rw [hcompile]

/-- The runtime that a boot of the ASCII text starts. -/
def bootedRuntime (text : List UInt8) : Runtime where
  slot := ⟨some (asciiEngine text), false⟩
  timers := registerTimers 0 ⟨some (asciiEngine text), false⟩ sourcesTimerReset
  sinks := rivrSinksInit []

theorem loaded_bootedRuntime (h : asciiLoads text = true) :
    (bootedRuntime text).Loaded (fun _ => false) text (asciiEngine text) := by
  obtain ⟨engine, hloads⟩ : ∃ engine, ProgramLoads (fun _ => false) text engine :=
    programLoads_of_asciiLoads h
  rw [asciiEngine_of_loads hloads]
  exact ⟨hloads, by rw [bootedRuntime, asciiEngine_of_loads hloads],
    0, by rw [bootedRuntime, asciiEngine_of_loads hloads]⟩

theorem timer_names_iff_ticker :
    (timerNodes (asciiEngine tickerProgram)).length ≤ rivrTimerMax ∧
      (TimersAgree true (asciiEngine tickerProgram) (bootedRuntime tickerProgram) ↔
        ∀ src ∈ timerNodes (asciiEngine tickerProgram), (utf8 src.1.toList).length ≤ 31) := by
  have hloads : asciiLoads tickerProgram = true := by decide +kernel
  have hcount : (timerNodes (asciiEngine tickerProgram)).length ≤ rivrTimerMax := by decide +kernel
  exact ⟨hcount, timer_names_iff (loaded_bootedRuntime hloads) hcount⟩

/-- A program whose timer has a name of 33 letters. -/
def longTickerProgram : List UInt8 :=
  ascii "source beacon_interval_tick_for_the_mesh = timer(1000);\n" ++
    ascii "emit \x7b io.usb.print(beacon_interval_tick_for_the_mesh); \x7d\n"

/-- Its timer never reaches the engine. -/
theorem not_timer_names : ¬∀ (uni : Char → Bool) (checks : Bool) (text : List UInt8)
    (engine : Engine) (r₀ : Runtime), r₀.Loaded uni text engine →
      (timerNodes engine).length ≤ rivrTimerMax → TimersAgree checks engine r₀ := by
  intro h
  have hloads : asciiLoads longTickerProgram = true := by decide +kernel
  have hcount : (timerNodes (asciiEngine longTickerProgram)).length ≤ rivrTimerMax := by
    decide +kernel
  have hnodes : (timerNodes (asciiEngine longTickerProgram))[0]? =
      some ("beacon_interval_tick_for_the_mesh", 1000) := by decide +kernel
  obtain ⟨e, he, -, hfires⟩ := h _ true _ _ _ (loaded_bootedRuntime hloads) hcount _ .start
    ⟨1000, []⟩ 0 _ _ hnodes
  have hentry : (bootedRuntime longTickerProgram).timers.entries[0]? =
      some ⟨ascii "beacon_interval_tick_for_the_me", 1000, 0, by decide⟩ := by decide +kernel
  obtain rfl := Option.some.inj (hentry.symm.trans he)
  exact absurd (hfires (by decide)).2 (by decide +kernel)

end Rivr
