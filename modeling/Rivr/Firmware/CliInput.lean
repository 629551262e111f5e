import Rivr.Firmware.EmbedEngine
import Rivr.ForMathlib.StreamLines

/-!
# Input lines

`sources_cli_drain` of `rivr_layer/rivr_sources.c` collects the bytes of the UART in a line buffer.
At the end of a line it copies the line, behind `CLI:`, first into a text buffer and then into the
string of a `rivr_value_t`, and gives that to the engine as an event of the source `rf_rx`.

The bytes may come in any pieces. The accesses to the line buffer and to the text buffer are always
in bounds; and a line of at most 124 bytes fits the string with its `CLI:`, and reaches the engine
as it was, if it is a text (`cli_input`). The line buffer takes 125 bytes, one more than fits the
string (`strBuf_inBounds_iff`).
-/

open StreamLines Utf8
open Rivr.Core (Event Value)

namespace Rivr

/-! ### The buffers -/

/-- The buffers of `sources_cli_drain`. -/
inductive CliBuffer
  | cliBuf | textBuf | strBuf | kindTag
  deriving DecidableEq, Repr

/-- The size of a buffer. -/
def CliBuffer.size : CliBuffer → ℕ
  | .cliBuf => 126
  | .textBuf => 132
  | .strBuf => 128
  | .kindTag => 32

/-- Bytes of a buffer that are read or written. -/
structure BufferAccess where
  buffer : CliBuffer
  start : ℕ
  length : ℕ
  deriving DecidableEq, Repr

/-- The bytes are all in the buffer. -/
def BufferAccess.InBounds (a : BufferAccess) : Prop := a.start + a.length ≤ a.buffer.size

instance (a : BufferAccess) : Decidable a.InBounds := inferInstanceAs (Decidable (_ ≤ _))

/-- `rivr_fixed_str_t`. -/
structure RivrFixedStr where
  buf : List UInt8
  len : UInt8
  length_buf : buf.length = 128

/-- A zeroed string after `len` bytes of a text were copied into it; what does not fit is not in
it. -/
def RivrFixedStr.ofText (text : List UInt8) (len : UInt8) : RivrFixedStr where
  buf := (text.take len.toNat ++ List.replicate 128 0).take 128
  len := len
  length_buf := by
    rw [List.length_take, List.length_append, List.length_replicate]
    omega

@[simp] theorem RivrFixedStr.len_ofText (text : List UInt8) (len : UInt8) :
    (RivrFixedStr.ofText text len).len = len := rfl

theorem RivrFixedStr.buf_ofText (text : List UInt8) (len : UInt8) :
    (RivrFixedStr.ofText text len).buf =
      (text.take len.toNat ++ List.replicate 128 0).take 128 := rfl

/-- How `rivr_inject_event` reads a string: at most 128 bytes of it, and the empty one if these are
not UTF-8. -/
def RivrFixedStr.value (s : RivrFixedStr) : Value :=
  .str ((cstrToStr (s.buf.take (min s.len.toNat s.buf.length))).getD "")

/-! ### A line -/

/-- `"CLI:"`. -/
def cliTag : List UInt8 := utf8 "CLI:".toList

/-- `'\\n'` and `'\\r'`. -/
def isNewline (ch : UInt8) : Bool := ch = 10 || ch = 13

/-- The line buffer before its end. -/
def cliLineMax : ℕ := CliBuffer.cliBuf.size - 1

/-- The event that `rivr_inject_event` makes of the line in the line buffer. -/
def cliEvent (line : List UInt8) (nowMs : UInt32) : Event where
  stamp := ⟨0, nowMs.toUInt64⟩
  v := (RivrFixedStr.ofText (cliTag ++ line) (UInt8.ofNat (cliTag.length + line.length))).value
  tag := some "CLI"
  seq := 0

/-- The copy of the line into the value. -/
def strCopy (line : List UInt8) : BufferAccess :=
  ⟨.strBuf, 0, (UInt8.ofNat (cliTag.length + line.length)).toNat⟩

/-- The accesses at the end of a line, in order. -/
def lineAccesses (line : List UInt8) : List BufferAccess :=
  [⟨.textBuf, 0, cliTag.length + 1⟩, ⟨.cliBuf, 0, line.length⟩,
    ⟨.textBuf, cliTag.length, line.length⟩, ⟨.textBuf, cliTag.length + line.length, 1⟩,
    ⟨.textBuf, 0, (UInt8.ofNat (cliTag.length + line.length)).toNat⟩, strCopy line,
    ⟨.kindTag, 0, 4⟩]

/-! ### The drain -/

/-- What a call leaves: the bytes still to be read, the first `s_cli_pos` bytes of `s_cli_buf`, the
line that it has completed and the accesses to the buffers. -/
structure CliDrain where
  uart : List UInt8
  line : List UInt8
  completed : Option (List UInt8)
  accesses : List BufferAccess

/-- The loop of `sources_cli_drain`. -/
def cliLoop : List UInt8 → List UInt8 → CliDrain
  | [], line => ⟨[], line, none, []⟩
  | ch :: uart, line =>
    if isNewline ch then
      -- an empty line is skipped, and the call returns after another one
      if line.length = 0 then cliLoop uart line else ⟨uart, [], some line, lineAccesses line⟩
    else if line.length < cliLineMax then
      let rest := cliLoop uart (line ++ [ch])
      { rest with accesses := ⟨.cliBuf, line.length, 1⟩ :: rest.accesses }
    else cliLoop uart line  -- no place left: the byte is dropped

/-- The engine slot after an event of the source `rf_rx`, whatever comes of it. -/
def injectRfRx (slot : EngineSlot) (ev : Event) : EngineSlot :=
  match rivrInjectEvent slot (utf8 "rf_rx".toList) ev with
  | .ok slot => slot
  | _ => slot

/-- The state, with the bytes that have arrived so far, the accesses to the buffers and the events
that were injected as observers. -/
structure CliState where
  uart : List UInt8
  line : List UInt8
  slot : EngineSlot
  arrived : List UInt8
  accesses : List BufferAccess
  events : List Event

/-- Bytes arrive, or the loop of the program calls `sources_cli_drain`. -/
inductive CliStep
  | arrive (bytes : List UInt8)
  | drain (nowMs : UInt32)

/-- `sources_cli_drain`, when the UART driver is installed. -/
def sourcesCliDrain (s : CliState) (nowMs : UInt32) : CliState :=
  let d := cliLoop s.uart s.line
  { s with
    uart := d.uart
    line := d.line
    slot := (d.completed.map (cliEvent · nowMs)).elim s.slot (injectRfRx s.slot)
    accesses := s.accesses ++ d.accesses
    events := s.events ++ (d.completed.map (cliEvent · nowMs)).toList }

def CliState.step (s : CliState) : CliStep → CliState
  | .arrive bytes => { s with uart := s.uart ++ bytes, arrived := s.arrived ++ bytes }
  | .drain nowMs => sourcesCliDrain s nowMs

/-- The state after the steps, from an empty line. -/
def cliRun (slot : EngineSlot) (steps : List CliStep) : CliState :=
  steps.foldl CliState.step ⟨[], [], slot, [], [], []⟩

/-! ### The string -/

theorem length_cliTag : cliTag.length = 4 := by decide

/-- A text that fits the string is read as it was. -/
theorem value_ofText {text : List UInt8} (h : text.length ≤ 128) :
    (RivrFixedStr.ofText text (UInt8.ofNat text.length)).value =
      .str ((cstrToStr text).getD "") := by
  have hlen : (UInt8.ofNat text.length).toNat = text.length :=
    UInt8.toNat_ofNat_of_lt' (Nat.lt_of_le_of_lt h (by decide))
  have hbuf : ((text.take text.length ++ List.replicate 128 0).take 128).take text.length =
      text := by
    rw [List.take_take, Nat.min_eq_left h, List.take_length, List.take_left]
  rw [RivrFixedStr.value, RivrFixedStr.length_buf, RivrFixedStr.len_ofText,
    RivrFixedStr.buf_ofText, hlen, Nat.min_eq_left h, hbuf]

/-- The engine has received the line: behind `CLI:` when it is a text, and as an empty string
when it is not. -/
structure Receives (line : List UInt8) (ev : Event) : Prop where
  text : ∀ t, line = utf8 t → ev.v = .str (String.ofList ("CLI:".toList ++ t))
  notText : (∀ t, line ≠ utf8 t) → ev.v = .str ""

theorem cliTag_isAscii : ∀ c ∈ "CLI:".toList, IsAscii c := by decide

/-- `CLI:` before a line is a text exactly if the line is one. -/
theorem cliTag_append_eq_utf8 {line : List UInt8} {s : List Char} (h : cliTag ++ line = utf8 s) :
    ∃ t, line = utf8 t := by
  have hpre : "CLI:".toList.isPrefixOf s := by
    rw [← utf8_isPrefixOf cliTag_isAscii, ← h, List.isPrefixOf_iff_prefix]
    exact List.prefix_append _ _
  obtain ⟨t, rfl⟩ := List.isPrefixOf_iff_prefix.mp hpre
  rw [utf8_append] at h
  exact ⟨t, List.append_cancel_left h⟩

theorem receives_cliEvent {line : List UInt8} (h : line.length ≤ 124) (nowMs : UInt32) :
    Receives line (cliEvent line nowMs) := by
  have hv : (cliEvent line nowMs).v = .str ((cstrToStr (cliTag ++ line)).getD "") := by
    rw [cliEvent, ← List.length_append, value_ofText]
    rw [List.length_append, length_cliTag]
    omega
  refine ⟨?_, fun hnot => ?_⟩
  · rintro t rfl
    rw [hv, cstrToStr, cliTag, ← utf8_append, decodeUtf8_eq_some_iff.mpr rfl]
    rfl
  · have hnone : decodeUtf8 (cliTag ++ line) = none := by
      rw [Option.eq_none_iff_forall_ne_some]
      intro s hs
      obtain ⟨t, ht⟩ := cliTag_append_eq_utf8 (decodeUtf8_eq_some_iff.mp hs)
      exact hnot t ht
    rw [hv, cstrToStr, hnone]
    rfl

/-! ### The accesses -/

theorem toNat_textLength {line : List UInt8} (h : line.length ≤ cliLineMax) :
    (UInt8.ofNat (cliTag.length + line.length)).toNat = 4 + line.length := by
  rw [length_cliTag]
  exact UInt8.toNat_ofNat_of_lt' (Nat.lt_of_le_of_lt (Nat.add_le_add_left h 4) (by decide))

/-- The line buffer takes 125 bytes, and the string 124 of them behind `CLI:`. -/
theorem strBuf_inBounds_iff {line : List UInt8} (h : line.length ≤ cliLineMax) :
    (strCopy line).InBounds ↔ line.length ≤ 124 := by
  rw [strCopy, toNat_textLength h]
  change 0 + (4 + line.length) ≤ 128 ↔ _
  omega

/-- The other accesses at the end of a line are in bounds. -/
theorem lineAccesses_inBounds {line : List UInt8} (h : line.length ≤ cliLineMax) :
    ∀ a ∈ lineAccesses line, a = strCopy line ∨ a.buffer ≠ .strBuf ∧ a.InBounds := by
  have hmax : line.length ≤ 125 := h
  have hlen := toNat_textLength h
  rw [length_cliTag] at hlen
  simp only [lineAccesses, List.forall_mem_cons, List.not_mem_nil, length_cliTag, hlen,
    BufferAccess.InBounds, CliBuffer.size]
  refine ⟨.inr ⟨by decide, by omega⟩, .inr ⟨by decide, by omega⟩, .inr ⟨by decide, by omega⟩,
    .inr ⟨by decide, by omega⟩, .inr ⟨by decide, by omega⟩, .inl trivial,
    .inr ⟨by decide, by omega⟩, fun _ => False.elim⟩

/-! ### The loop -/

section

variable {ch : UInt8} {uart line : List UInt8}

theorem cliLoop_cons (ch : UInt8) (uart line : List UInt8) :
    cliLoop (ch :: uart) line =
      if isNewline ch then
        if line.length = 0 then cliLoop uart line else ⟨uart, [], some line, lineAccesses line⟩
      else if line.length < cliLineMax then
        { cliLoop uart (line ++ [ch]) with
          accesses := ⟨.cliBuf, line.length, 1⟩ :: (cliLoop uart (line ++ [ch])).accesses }
      else cliLoop uart line := rfl

theorem cliLoop_emptyLine (hch : isNewline ch) : cliLoop (ch :: uart) [] = cliLoop uart [] := by
  rw [cliLoop_cons, if_pos hch]
  rfl

theorem cliLoop_newline (hch : isNewline ch) (hline : line ≠ []) :
    cliLoop (ch :: uart) line = ⟨uart, [], some line, lineAccesses line⟩ := by
  rw [cliLoop_cons, if_pos hch, if_neg (mt List.eq_nil_of_length_eq_zero hline)]

theorem cliLoop_char (hch : ¬isNewline ch) (hline : line.length < cliLineMax) :
    cliLoop (ch :: uart) line =
      { cliLoop uart (line ++ [ch]) with
        accesses := ⟨.cliBuf, line.length, 1⟩ :: (cliLoop uart (line ++ [ch])).accesses } := by
  rw [cliLoop_cons, if_neg hch, if_pos hline]

theorem cliLoop_full (hch : ¬isNewline ch) (hline : cliLineMax ≤ line.length) :
    cliLoop (ch :: uart) line = cliLoop uart line := by
  rw [cliLoop_cons, if_neg hch, if_neg (Nat.not_lt.mpr hline)]

end

/-- The part of a line that the line buffer keeps. -/
def kept (line : List UInt8) : List UInt8 := line.take cliLineMax

@[simp] theorem kept_nil : kept [] = [] := rfl

theorem length_kept_le (line : List UInt8) : (kept line).length ≤ cliLineMax :=
  List.length_take_le _ _

theorem kept_of_length_le {line : List UInt8} (h : line.length ≤ cliLineMax) : kept line = line :=
  List.take_of_length_le h

theorem kept_ne_nil {line : List UInt8} (h : line ≠ []) : kept line ≠ [] := by
  rw [kept, Ne, List.take_eq_nil_iff, not_or]
  exact ⟨by decide, h⟩

/-- The loop read on from `seen` to `read`, and completed the lines `new`. -/
structure ReadOn (seen read : List UInt8) (new : List (List UInt8)) (d : CliDrain) : Prop where
  line : d.line = kept (openLine isNewline read)
  lines : completedLines isNewline read = completedLines isNewline seen ++ new
  completed : d.completed.toList = new.map kept
  accesses : ∀ a ∈ d.accesses, (∃ l ∈ new, a = strCopy (kept l)) ∨
    a.buffer ≠ .strBuf ∧ a.InBounds

/-- The loop keeps the open line of what it has read. -/
theorem cliLoop_readOn (uart seen : List UInt8) :
    ∃ read new, uart = read ++ (cliLoop uart (kept (openLine isNewline seen))).uart ∧
      ReadOn seen (seen ++ read) new (cliLoop uart (kept (openLine isNewline seen))) := by
  induction uart generalizing seen with
  | nil => exact ⟨[], [], rfl, by simp [cliLoop], by simp, rfl, by simp [cliLoop]⟩
  | cons ch uart ih =>
    obtain ⟨read, new, huart, hread⟩ := ih (seen ++ [ch])
    rw [List.append_assoc, List.singleton_append] at hread
    by_cases hch : isNewline ch
    · rw [openLine_concat_newline hch, kept_nil] at huart hread
      by_cases hopen : openLine isNewline seen = []
      · -- nothing is completed, and the loop goes on
        have hlines : completedLines isNewline (seen ++ [ch]) = completedLines isNewline seen := by
          rw [completedLines_concat_newline hch, hopen]
          exact List.append_nil _
        rw [hopen, kept_nil, cliLoop_emptyLine hch]
        exact ⟨ch :: read, new, congrArg (ch :: ·) huart, { hread with
          lines := hlines ▸ hread.lines }⟩
      · -- the loop ends with the line, of which the buffer holds the first 125 bytes
        rw [cliLoop_newline hch (kept_ne_nil hopen)]
        refine ⟨[ch], [openLine isNewline seen], rfl, ?_, ?_, rfl, fun a ha => ?_⟩
        · rw [openLine_concat_newline hch, kept_nil]
        · rw [completedLines_concat_newline hch, List.isEmpty_eq_false_iff.mpr hopen]
          rfl
        · refine (lineAccesses_inBounds (length_kept_le _) a ha).imp_left fun heq => ?_
          exact ⟨_, List.mem_singleton_self _, heq⟩
    · have hlines : completedLines isNewline (seen ++ [ch]) = completedLines isNewline seen :=
        completedLines_concat (by simpa using hch) seen
      have hopen : openLine isNewline (seen ++ [ch]) = openLine isNewline seen ++ [ch] :=
        openLine_concat (by simpa using hch) seen
      rw [hopen] at huart hread
      by_cases hlt : (openLine isNewline seen).length < cliLineMax
      · rw [kept_of_length_le (Nat.le_of_lt hlt), cliLoop_char hch hlt]
        rw [kept_of_length_le (by rwa [List.length_append])] at huart hread
        refine ⟨ch :: read, new, congrArg (ch :: ·) huart, hread.line, hlines ▸ hread.lines,
          hread.completed, List.forall_mem_cons.mpr ⟨.inr ⟨by simp, ?_⟩, hread.accesses⟩⟩
        exact Nat.le_of_lt (Nat.succ_lt_succ hlt)
      · have hfull : kept (openLine isNewline seen ++ [ch]) = kept (openLine isNewline seen) :=
          List.take_append_of_le_length (Nat.not_lt.mp hlt)
        rw [hfull] at huart hread
        rw [cliLoop_full hch]
        · exact ⟨ch :: read, new, congrArg (ch :: ·) huart, { hread with
            lines := hlines ▸ hread.lines }⟩
        · rw [kept, List.length_take, Nat.min_eq_left (Nat.not_lt.mp hlt)]

/-- A call leaves fewer bytes to be read, if there are any. -/
theorem length_uart_cliLoop_le (uart line : List UInt8) :
    (cliLoop uart line).uart.length ≤ uart.length - 1 := by
  induction uart generalizing line with
  | nil => exact Nat.le_refl 0
  | cons ch uart ih =>
    have hle : ∀ line, (cliLoop uart line).uart.length ≤ uart.length := fun line =>
      Nat.le_trans (ih line) (Nat.sub_le _ _)
    rw [List.length_cons, Nat.add_sub_cancel]
    by_cases hch : isNewline ch
    · by_cases hline : line = []
      · subst hline
        rw [cliLoop_emptyLine hch]
        exact hle []
      · rw [cliLoop_newline hch hline]
    · by_cases hlt : line.length < cliLineMax
      · rw [cliLoop_char hch hlt]
        exact hle _
      · rw [cliLoop_full hch (Nat.not_lt.mp hlt)]
        exact hle line

/-! ### Runs -/

/-- Of the bytes that have arrived, `seen` have been read. -/
structure CliState.Inv (slot : EngineSlot) (seen : List UInt8) (s : CliState) : Prop where
  arrived : s.arrived = seen ++ s.uart
  line : s.line = kept (openLine isNewline seen)
  events : List.Forall₂ (fun line ev => ∃ nowMs, ev = cliEvent (kept line) nowMs)
    (completedLines isNewline seen) s.events
  slot : s.slot = s.events.foldl injectRfRx slot
  accesses : ∀ a ∈ s.accesses, (∃ line ∈ completedLines isNewline seen, a = strCopy (kept line)) ∨
    a.buffer ≠ .strBuf ∧ a.InBounds

variable {slot : EngineSlot}

theorem sourcesCliDrain_inv {s : CliState} {seen : List UInt8} (hs : s.Inv slot seen)
    (nowMs : UInt32) : ∃ seen', (sourcesCliDrain s nowMs).Inv slot seen' := by
  obtain ⟨read, new, huart, hread⟩ := cliLoop_readOn s.uart seen
  rw [← hs.line] at huart hread
  have hevents : ((cliLoop s.uart s.line).completed.map (cliEvent · nowMs)).toList =
      new.map fun line => cliEvent (kept line) nowMs := by
    rw [Option.toList_map, hread.completed, List.map_map]
    rfl
  refine ⟨seen ++ read, ?_, hread.line, ?_, ?_, ?_⟩
  · change s.arrived = _ ++ (cliLoop s.uart s.line).uart
    rw [hs.arrived, List.append_assoc, ← huart]
  · change List.Forall₂ _ _ (s.events ++ _)
    rw [hevents, hread.lines]
    refine List.rel_append hs.events (List.forall₂_map_right_iff.mpr ?_)
    exact List.forall₂_same.mpr fun line _ => ⟨nowMs, rfl⟩
  · change (Option.elim _ _ _) = List.foldl _ _ (s.events ++ _)
    rw [List.foldl_append, ← hs.slot]
    cases (cliLoop s.uart s.line).completed <;> rfl
  · change ∀ a ∈ s.accesses ++ _, _
    rw [hread.lines]
    intro a ha
    rcases List.mem_append.mp ha with ha | ha
    · refine (hs.accesses a ha).imp_left fun ⟨line, hline, heq⟩ => ?_
      exact ⟨line, List.mem_append_left _ hline, heq⟩
    · refine (hread.accesses a ha).imp_left fun ⟨line, hline, heq⟩ => ?_
      exact ⟨line, List.mem_append_right _ hline, heq⟩

theorem cliRun_inv (slot : EngineSlot) (steps : List CliStep) :
    ∃ seen, (cliRun slot steps).Inv slot seen := by
  induction steps using List.reverseRecOn with
  | nil => exact ⟨[], rfl, rfl, .nil, rfl, by simp [cliRun]⟩
  | append_singleton steps st ih =>
    obtain ⟨seen, hs⟩ := ih
    rw [cliRun, List.foldl_append]
    cases st with
    | arrive bytes =>
      refine ⟨seen, { hs with arrived := ?_ }⟩
      change (cliRun slot steps).arrived ++ bytes = seen ++ ((cliRun slot steps).uart ++ bytes)
      rw [hs.arrived, List.append_assoc]
    | drain nowMs => exact sourcesCliDrain_inv hs nowMs

/-- Of the bytes that have arrived some have been read. The copies of their lines are in bounds but
for those of more than 124 bytes into the string, and the lines of at most 124 bytes, in order, are
what the engine has received. -/
theorem cli_input (slot : EngineSlot) (steps : List CliStep) :
    ∃ seen, (cliRun slot steps).arrived = seen ++ (cliRun slot steps).uart ∧
      (∀ a ∈ (cliRun slot steps).accesses, a.buffer ≠ .strBuf → a.InBounds) ∧
      (∀ a ∈ (cliRun slot steps).accesses, a.InBounds ∨
        ∃ line ∈ completedLines isNewline seen, 124 < line.length ∧ a = strCopy (kept line)) ∧
      (cliRun slot steps).slot = (cliRun slot steps).events.foldl injectRfRx slot ∧
      List.Forall₂ (fun line ev => line.length ≤ 124 → Receives line ev)
        (completedLines isNewline seen) (cliRun slot steps).events := by
  obtain ⟨seen, hs⟩ := cliRun_inv slot steps
  refine ⟨seen, hs.arrived, fun a ha hbuffer => ?_, fun a ha => ?_, hs.slot, ?_⟩
  · rcases hs.accesses a ha with ⟨line, -, rfl⟩ | ⟨-, h⟩
    · exact absurd rfl hbuffer
    · exact h
  · rcases hs.accesses a ha with ⟨line, hline, rfl⟩ | ⟨-, h⟩
    · by_cases hlen : line.length ≤ 124
      · rw [kept_of_length_le (Nat.le_succ_of_le hlen)]
        exact .inl ((strBuf_inBounds_iff (Nat.le_succ_of_le hlen)).mpr hlen)
      · exact .inr ⟨line, hline, Nat.lt_of_not_le hlen, rfl⟩
    · exact .inl h
  · refine hs.events.imp fun line ev hev hlen => ?_
    obtain ⟨nowMs, rfl⟩ := hev
    rw [kept_of_length_le (Nat.le_succ_of_le hlen)]
    exact receives_cliEvent hlen nowMs

/-- As many calls as there are bytes left read them all. -/
theorem uart_drained (steps : List CliStep) (ticks : List UInt32)
    (h : (cliRun slot steps).uart.length ≤ ticks.length) :
    (cliRun slot (steps ++ ticks.map .drain)).uart = [] := by
  induction ticks generalizing steps with
  | nil =>
    rw [List.map_nil, List.append_nil]
    exact List.eq_nil_of_length_eq_zero (Nat.le_zero.mp h)
  | cons nowMs ticks ih =>
    have hstep : (cliRun slot (steps ++ [.drain nowMs])).uart =
        (cliLoop (cliRun slot steps).uart (cliRun slot steps).line).uart := by
      rw [cliRun, List.foldl_append]
      rfl
    rw [List.map_cons, ← List.singleton_append, ← List.append_assoc]
    refine ih _ ?_
    rw [hstep]
    exact Nat.le_trans (length_uart_cliLoop_le _ _) (Nat.sub_le_of_le_add h)

/-- A line that is not UTF-8 reaches the engine as the empty string. -/
theorem not_cli_input :
    ¬∀ (slot : EngineSlot) (steps : List CliStep),
      ∃ seen, (cliRun slot steps).arrived = seen ++ (cliRun slot steps).uart ∧
        (∀ a ∈ (cliRun slot steps).accesses, a.InBounds) ∧
        List.Forall₂ (fun line ev => ∃ text : String, ev.v = .str text ∧
            utf8 text.toList = cliTag ++ line)
          (completedLines isNewline seen) (cliRun slot steps).events := by
  intro h
  obtain ⟨seen, hseen, -, hevents⟩ := h .new [.arrive [255, 10], .drain 0]
  have hs : seen = [255, 10] := by
    rw [← List.append_nil seen]
    exact hseen.symm
  subst hs
  have hlines : completedLines isNewline [255, 10] = [[255]] := by decide
  rw [hlines] at hevents
  cases hevents with
  | cons hev _ =>
    obtain ⟨text, htext, hutf8⟩ := hev
    have hnone : decodeUtf8 [255] = none := by decide
    have hnot : ∀ t, [255] ≠ utf8 t := fun t ht =>
      absurd (hnone.symm.trans (decodeUtf8_eq_some_iff.mpr ht)) (by simp)
    have hv : (cliEvent [255] 0).v = .str "" := (receives_cliEvent (by decide) 0).notText hnot
    have heq : text = "" := Value.str.inj (htext.symm.trans hv)
    subst heq
    exact absurd hutf8 (by decide)

end Rivr
