import Mathlib.Tactic.IntervalCases
import Mathlib.Tactic.Ring
import Rivr.Core.CompilerKinds
import Rivr.Firmware.EmbedEngine

/-!
# The program of a policy

The text that `rivr_policy_build_program` writes, as the engine reads it. Whatever the keys and the
values of the updates, the parameters stay in their ranges (`valid_foldl`); the text of parameters
in their ranges fits the buffers of the callers (`rivrPolicyBuildProgram_eq`) and is a phrase of the
grammar (`parse_policyPhrases`), so the engine loads it with the throttles, the timer and the duty
of the parameters (`policy_loads`).
-/

open ByteParser CString Utf8
open Rivr.Core

namespace Rivr

/-! ### The parameters -/

/-- The parameter of a key. -/
def RivrParamId.ofId (id : UInt8) : Option RivrParamId :=
  if id = 1 then some .beaconInterval
  else if id = 2 then some .chatThrottle
  else if id = 3 then some .dataThrottle
  else if id = 4 then some .dutyPercent
  else if id = 5 then some .role
  else if id = 6 then some .beaconJitter
  else none

/-- `rivr_policy_set_param` with any key: unknown ones are ignored. -/
def rivrPolicySetParamId (p : PolicyParams) (set : UInt8 × UInt32) : PolicyParams :=
  match RivrParamId.ofId set.1 with
  | some id => rivrPolicySetParam p id set.2
  | none => p

/-- The ranges of the parameters. -/
structure PolicyParams.Valid (p : PolicyParams) : Prop where
  beacon : 60000 ≤ p.beaconIntervalMs
  jitter : p.beaconJitterMs ≤ 600000
  chat : 100 ≤ p.chatThrottleMs
  data : 100 ≤ p.dataThrottleMs
  duty : 1 ≤ p.dutyPercent.toNat ∧ p.dutyPercent.toNat ≤ 10
  role : 1 ≤ p.role.toNat ∧ p.role.toNat ≤ 3

theorem valid_rivrPolicyInit (role : NodeRole) : (rivrPolicyInit role).Valid := by
  cases role <;> exact ⟨by decide, by decide, by decide, by decide, by decide, by decide⟩

theorem toNat_toUInt8_le {v : UInt32} {m : ℕ} (hm : m < 256) (h : ¬(v < 1 ∨ v > UInt32.ofNat m)) :
    1 ≤ v.toUInt8.toNat ∧ v.toUInt8.toNat ≤ m := by
  rw [not_or, UInt32.not_lt, gt_iff_lt, UInt32.not_lt, UInt32.le_iff_toNat_le,
    UInt32.le_iff_toNat_le, UInt32.toNat_ofNat_of_lt' (Nat.lt_trans hm (by decide))] at h
  have hone : (1 : UInt32).toNat = 1 := rfl
  rw [UInt32.toNat_toUInt8, Nat.mod_eq_of_lt (by omega)]
  omega

/-- Every parameter keeps its range. -/
theorem PolicyParams.Valid.setParam {p : PolicyParams} (h : p.Valid) (id : RivrParamId)
    (value : UInt32) : (rivrPolicySetParam p id value).Valid := by
  cases id with
  | beaconInterval =>
    rw [rivrPolicySetParam]
    split_ifs with hlt
    · exact h
    · exact { h with beacon := UInt32.not_lt.mp hlt }
  | beaconJitter =>
    rw [rivrPolicySetParam]
    split_ifs with hlt
    · exact h
    · exact { h with jitter := UInt32.not_lt.mp hlt }
  | chatThrottle =>
    rw [rivrPolicySetParam]
    split_ifs with hlt
    · exact h
    · exact { h with chat := UInt32.not_lt.mp hlt }
  | dataThrottle =>
    rw [rivrPolicySetParam]
    split_ifs with hlt
    · exact h
    · exact { h with data := UInt32.not_lt.mp hlt }
  | dutyPercent =>
    rw [rivrPolicySetParam]
    split_ifs with hrange
    · exact h
    · exact { h with duty := toNat_toUInt8_le (by decide) hrange }
  | role =>
    rw [rivrPolicySetParam]
    split_ifs with hrange
    · exact h
    · exact { h with role := toNat_toUInt8_le (by decide) hrange }

theorem valid_foldl {p : PolicyParams} (h : p.Valid) (sets : List (UInt8 × UInt32)) :
    (sets.foldl rivrPolicySetParamId p).Valid := by
  refine List.foldlRecOn sets rivrPolicySetParamId h fun p hp set _ => ?_
  rw [rivrPolicySetParamId]
  split
  · exact hp.setParam _ _
  · exact hp

/-! ### The text -/

/-- The throttle that a role runs with. -/
def PolicyParams.effective (p : PolicyParams) (throttleMs : UInt32) : UInt32 :=
  if p.role = rivrNodeRoleRepeater ∨ p.role = rivrNodeRoleGateway then halfThrottle throttleMs
  else throttleMs

theorem PolicyParams.le_effective (p : PolicyParams) {throttleMs : UInt32}
    (h : 100 ≤ throttleMs) : 100 ≤ p.effective throttleMs := by
  rw [PolicyParams.effective]
  split_ifs with hrelay
  · rw [halfThrottle]
    split_ifs with hlt
    · exact UInt32.le_refl _
    · exact UInt32.not_lt.mp hlt
  · exact h

theorem fmtLu_eq (n : ℕ) : fmtLu n = utf8 (Nat.toDigits 10 n) := by
  have hmap : ∀ w : List Char, (∀ c ∈ w, IsAscii c) →
      (w.map fun c => UInt8.ofNat c.toNat) = utf8 w := by
    intro w hw
    induction w with
    | nil => rfl
    | cons c w ih =>
      rw [List.map_cons, ih fun d hd => hw d (List.mem_cons_of_mem _ hd), utf8_cons,
        utf8EncodeChar_of_isAscii (hw c List.mem_cons_self)]
      rfl
  exact hmap _ fun c hc => isAscii_of_onChar isAsciiDigit_lt ((isToken_toDigits n).chars c hc)

/-- The two digits of the duty. -/
def dutyDigits (duty : UInt8) : List Char :=
  if duty < 10 then '0' :: Nat.toDigits 10 duty.toNat else Nat.toDigits 10 duty.toNat

theorem fmt02u_eq (duty : UInt8) : fmt02u duty = utf8 (dutyDigits duty) := by
  rw [fmt02u, dutyDigits]
  split_ifs
  · rw [fmtLu_eq, utf8_cons]
    rfl
  · exact fmtLu_eq _

/-! ### Operators -/

variable {uni : Char → Bool} {next : Option Char}

/-- The duty of the parameters. -/
def PolicyParams.duty (p : PolicyParams) : Float := Float.ofScientific p.dutyPercent.toNat true 2

/-- The text of the budget of a pipeline. -/
def budgetText (p : PolicyParams) : List Char :=
  "budget.toa_us(280000, 0.".toList ++ (dutyDigits p.dutyPercent ++ ", 280000)".toList)

/-- The text of the throttle of a pipeline. -/
def throttleText (throttleMs : UInt32) : List Char :=
  "throttle.ms(".toList ++ (Nat.toDigits 10 throttleMs.toNat ++ ")".toList)

/-- The ten duties, as they are written. -/
theorem dutyDigits_spec {duty : UInt8} (h : 1 ≤ duty.toNat ∧ duty.toNat ≤ 10) :
    IsToken isFloatByte ('0' :: '.' :: dutyDigits duty) ∧
      parseF64 (utf8 ('0' :: '.' :: dutyDigits duty)) =
        some (Float.ofScientific duty.toNat true 2) := by
  obtain ⟨n, hn⟩ : ∃ n, duty.toNat = n := ⟨_, rfl⟩
  obtain rfl : duty = UInt8.ofNat n := by rw [← hn, UInt8.ofNat_toNat]
  have hn' : 1 ≤ n ∧ n ≤ 10 := hn ▸ h
  obtain ⟨hone, hten⟩ := hn'
  interval_cases n <;> exact ⟨⟨by decide, by decide, by decide⟩, rfl⟩

theorem toDigits_window : Nat.toDigits 10 280000 = "280000".toList := by decide

theorem takes_budget {ws : List Char} {p : PolicyParams} (hp : p.Valid) (hws : Blanks ws) :
    Takes (parsePipeOp uni) (ws ++ budgetText p) (.budgetToaUs 280000 p.duty 280000) next := by
  obtain ⟨htoken, hvalue⟩ := dutyDigits_spec hp.duty
  have hargs : Takes (budgetToaUsOp uni) ("(280000, 0.".toList ++ (dutyDigits p.dutyPercent ++
      ", 280000)".toList)) (.budgetToaUs 280000 p.duty 280000) next := by
    have hop : Takes (budgetToaUsOp uni) _ _ next := takes_budgetToaUsOp
      (show 0 < 280000 by decide) (by decide) (show 280000 < 2 ^ 64 by decide) htoken hvalue
    rw [toDigits_window] at hop
    exact hop
  have hop : (pipeOps uni).lookup "budget.toa_us" = some (budgetToaUsOp uni) := by
    simp [pipeOps, List.lookup_cons]
  exact takes_parsePipeOp "budget.toa_us" hws ⟨by decide, by decide, by decide⟩ hop hargs rfl

theorem takes_throttle {ws : List Char} {throttleMs : UInt32} (hws : Blanks ws)
    (h : 100 ≤ throttleMs) :
    Takes (parsePipeOp uni) (ws ++ throttleText throttleMs)
      (.throttleMs (UInt64.ofNat throttleMs.toNat)) next := by
  have hpos : 0 < throttleMs.toNat :=
    Nat.lt_of_lt_of_le (by decide) (UInt32.le_iff_toNat_le.mp h)
  have hlt : throttleMs.toNat < 2 ^ 64 := Nat.lt_trans throttleMs.toNat_lt (by decide)
  have hop : (pipeOps uni).lookup "throttle.ms" =
      some (positiveOp uni "throttle.ms interval" .throttleMs) := by
    simp [pipeOps, List.lookup_cons]
  exact takes_parsePipeOp "throttle.ms" hws ⟨by decide, by decide, by decide⟩ hop
    (takes_positiveOp hpos hlt) rfl

theorem takes_filter {ws : List Char} (t : ℕ) (hws : Blanks ws) (ht : t ≤ 255) :
    Takes (parsePipeOp uni)
      (ws ++ ("filter.pkt_type(".toList ++ (Nat.toDigits 10 t ++ ")".toList)))
      (.filterPktType (UInt8.ofNat t)) next := by
  have hop : (pipeOps uni).lookup "filter.pkt_type" = some (pktTypeOp uni) := by
    simp [pipeOps, List.lookup_cons]
  exact takes_parsePipeOp "filter.pkt_type" hws ⟨by decide, by decide, by decide⟩ hop
    (takes_pktTypeOp ht) rfl

/-- The operators of the chat pipeline. -/
def chatOps (p : PolicyParams) : List OpText :=
  [("filter.pkt_type(1)".toList, .filterPktType 1),
   (budgetText p, .budgetToaUs 280000 p.duty 280000),
   (throttleText (p.effective p.chatThrottleMs),
     .throttleMs (UInt64.ofNat (p.effective p.chatThrottleMs).toNat))]

/-- The operators of the data pipeline. -/
def dataOps (p : PolicyParams) : List OpText :=
  [("filter.pkt_type(6)".toList, .filterPktType 6),
   (throttleText (p.effective p.dataThrottleMs),
     .throttleMs (UInt64.ofNat (p.effective p.dataThrottleMs).toNat))]

/-- The operators of the telemetry pipeline. -/
def telemetryOps (p : PolicyParams) : List OpText :=
  [(budgetText p, .budgetToaUs 280000 p.duty 280000)]

theorem takes_chatOps {p : PolicyParams} (hp : p.Valid) :
    ∀ o ∈ chatOps p, ∀ next, Takes (parsePipeOp uni) ([' '] ++ o.1) o.2 next := by
  have hblanks : Blanks [' '] := by decide
  refine List.forall_mem_cons.mpr ⟨fun _ => ?_, List.forall_mem_cons.mpr
    ⟨fun _ => takes_budget hp hblanks, List.forall_mem_singleton.mpr fun _ =>
      takes_throttle hblanks (p.le_effective hp.chat)⟩⟩
  exact (takes_filter 1 hblanks (by decide)).of_eq (by decide)

theorem takes_dataOps {p : PolicyParams} (hp : p.Valid) :
    ∀ o ∈ dataOps p, ∀ next, Takes (parsePipeOp uni) ([' '] ++ o.1) o.2 next := by
  have hblanks : Blanks [' '] := by decide
  refine List.forall_mem_cons.mpr ⟨fun _ => ?_, List.forall_mem_singleton.mpr fun _ =>
    takes_throttle hblanks (p.le_effective hp.data)⟩
  exact (takes_filter 6 hblanks (by decide)).of_eq (by decide)

theorem takes_telemetryOps {p : PolicyParams} (hp : p.Valid) :
    ∀ o ∈ telemetryOps p, ∀ next, Takes (parsePipeOp uni) ([' '] ++ o.1) o.2 next :=
  List.forall_mem_singleton.mpr fun _ => takes_budget hp (by decide)

/-! ### Statements -/

theorem takes_rfSource :
    Takes (parseStmt uni) "source rf_rx @lmp = rf;".toList
      (.source "rf_rx" (some ⟨"lmp"⟩) .rf) next := by
  have hkind : Takes (parseSourceKind uni) ([' '] ++ "rf".toList) .rf (some ';') :=
    takes_sourceKind (by decide) (by simp) (by decide)
  refine .of_eq (takes_source blanks_nil (takes_parseSourceStmt_clock "rf_rx" "lmp"
    ⟨by decide, by decide, by decide⟩ ⟨by decide, by decide, by decide⟩ hkind) rfl) rfl

theorem takes_beaconSource :
    Takes (parseStmt uni) "source beacon_tick = timer(60000);".toList
      (.source "beacon_tick" none (.timer 60000)) next := by
  have hkind : Takes (parseSourceKind uni) _ (.timer 60000) (some ';') :=
    takes_timer (show Blanks [' '] by decide) (show 0 < 60000 by decide) (by decide)
  refine .of_eq (takes_source blanks_nil (takes_parseSourceStmt "beacon_tick"
    ⟨by decide, by decide, by decide⟩ hkind) rfl) rfl

theorem takes_telemetrySource :
    Takes (parseStmt uni) "source telemetry_tx = programmatic;".toList
      (.source "telemetry_tx" none .programmatic) next := by
  have hkind : Takes (parseSourceKind uni) ([' '] ++ "programmatic".toList) .programmatic
      (some ';') := takes_sourceKind (by decide) (by simp) (by decide)
  refine .of_eq (takes_source blanks_nil (takes_parseSourceStmt "telemetry_tx"
    ⟨by decide, by decide, by decide⟩ hkind) rfl) rfl

theorem takes_beaconEmit :
    Takes (parseStmt uni) "emit { io.lora.beacon(beacon_tick); }".toList
      (.emit [.loraBeacon "beacon_tick"]) next := by
  have hsink : Takes (parseSink uni) _ (.loraBeacon "beacon_tick") (some ';') :=
    takes_parseSink "io.lora.beacon" blanks_nil ⟨by decide, by decide, by decide⟩ (by simp)
  refine .of_eq (takes_emit blanks_nil (takes_parseEmitStmt hsink rfl) rfl) rfl

theorem takes_telemetryEmit :
    Takes (parseStmt uni) "emit { io.lora.tx(tel_tx); }".toList
      (.emit [.loraTx "tel_tx"]) next := by
  have hsink : Takes (parseSink uni) _ (.loraTx "tel_tx") (some ';') :=
    takes_parseSink "io.lora.tx" blanks_nil ⟨by decide, by decide, by decide⟩ (by simp)
  refine .of_eq (takes_emit blanks_nil (takes_parseEmitStmt hsink rfl) rfl) rfl

theorem isStream_rf : IsStream "rf_rx" :=
  ⟨⟨by decide, by decide, by decide⟩, by rintro _ ⟨⟩; decide⟩

theorem isStream_telemetry : IsStream "telemetry_tx" :=
  ⟨⟨by decide, by decide, by decide⟩, by rintro _ ⟨⟩; decide⟩

/-- The statements of the program. -/
def policyStmts (p : PolicyParams) : List Stmt :=
  [.source "rf_rx" (some ⟨"lmp"⟩) .rf,
   .source "beacon_tick" none (.timer 60000),
   .source "telemetry_tx" none .programmatic,
   .letStmt "chat" (pipesExpr (.ident "rf_rx") (chatOps p)),
   .letStmt "data" (pipesExpr (.ident "rf_rx") (dataOps p)),
   .letStmt "tel_tx" (pipesExpr (.ident "telemetry_tx") (telemetryOps p)),
   .emit [.loraBeacon "beacon_tick"],
   .emit [.loraTx "tel_tx"]]

/-- The text of a pipeline. -/
def letText (name src : String) (ops : List OpText) : List Char :=
  "let ".toList ++ (name.toList ++ (" = ".toList ++ (src.toList ++ (pipesText ops ++
    ";".toList))))

/-- The text of the statements. -/
def policyPhrases (p : PolicyParams) : List Char :=
  ([] ++ "source rf_rx @lmp = rf;".toList) ++
  ((['\n'] ++ "source beacon_tick = timer(60000);".toList) ++
  ((['\n'] ++ "source telemetry_tx = programmatic;".toList) ++
  ((['\n', '\n'] ++ letText "chat" "rf_rx" (chatOps p)) ++
  ((['\n', '\n'] ++ letText "data" "rf_rx" (dataOps p)) ++
  ((['\n', '\n'] ++ letText "tel_tx" "telemetry_tx" (telemetryOps p)) ++
  ((['\n', '\n'] ++ "emit \x7b io.lora.beacon(beacon_tick); \x7d".toList) ++
  ((['\n'] ++ "emit \x7b io.lora.tx(tel_tx); \x7d".toList) ++ ['\n'])))))))

/-- The parser reads the statements off their text. -/
theorem parse_policyPhrases {p : PolicyParams} (hp : p.Valid) :
    parse uni (String.ofList (policyPhrases p)) =
      .ok ⟨policyStmts p⟩ (utf8 (policyPhrases p)).length [] := by
  have hident : ∀ name, name ∈ ["chat", "data", "tel_tx"] → IsToken isIdentByte name.toList := by
    simp only [List.forall_mem_cons, List.not_mem_nil, false_imp_iff, implies_true, and_true]
    exact ⟨⟨by decide, by decide, by decide⟩, ⟨by decide, by decide, by decide⟩,
      ⟨by decide, by decide, by decide⟩⟩
  have hline : Blanks ['\n'] := by decide
  have hgap : Blanks ['\n', '\n'] := by decide
  refine takes_parseProgram ?_
  refine takes_stmt blanks_nil takes_rfSource rfl (by decide) ?_ rfl
  refine takes_stmt hline takes_beaconSource rfl (by decide) ?_ rfl
  refine takes_stmt hline takes_telemetrySource rfl (by decide) ?_ rfl
  refine takes_stmt hgap (takes_letPipeline (hident "chat" (by simp)) isStream_rf
    (takes_chatOps hp)) rfl (by decide) ?_ rfl
  refine takes_stmt hgap (takes_letPipeline (hident "data" (by simp)) isStream_rf
    (takes_dataOps hp)) rfl (by decide) ?_ rfl
  refine takes_stmt hgap (takes_letPipeline (hident "tel_tx" (by simp)) isStream_telemetry
    (takes_telemetryOps hp)) rfl (by decide) ?_ rfl
  refine takes_stmt hgap takes_beaconEmit rfl (by decide) ?_ rfl
  exact takes_stmt hline takes_telemetryEmit rfl (by decide) (takes_stmts_end hline) rfl

/-! ### The lines of the text -/

/-- The lines of the program. -/
def policyLines (window duty chat data : List Char) : List Char :=
  "source rf_rx @lmp = rf;\n".toList ++ "source beacon_tick = timer(".toList ++ window ++
  ");\n".toList ++ "source telemetry_tx = programmatic;\n".toList ++ "\n".toList ++
  "let chat = rf_rx\n".toList ++ "  |> filter.pkt_type(1)\n".toList ++
  "  |> budget.toa_us(280000, 0.".toList ++ duty ++ ", 280000)\n".toList ++
  "  |> throttle.ms(".toList ++ chat ++ ");\n".toList ++ "\n".toList ++
  "let data = rf_rx\n".toList ++ "  |> filter.pkt_type(6)\n".toList ++
  "  |> throttle.ms(".toList ++ data ++ ");\n".toList ++ "\n".toList ++
  "let tel_tx = telemetry_tx\n".toList ++ "  |> budget.toa_us(280000, 0.".toList ++ duty ++
  ", 280000);\n".toList ++ "\n".toList ++ "emit \x7b io.lora.beacon(beacon_tick); \x7d\n".toList ++
  "emit \x7b io.lora.tx(tel_tx); \x7d\n".toList

theorem policyText_lines (p : PolicyParams) : policyText p =
    utf8 (policyLines (Nat.toDigits 10 60000) (dutyDigits p.dutyPercent)
      (Nat.toDigits 10 (p.effective p.chatThrottleMs).toNat)
      (Nat.toDigits 10 (p.effective p.dataThrottleMs).toNat)) := by
  unfold policyText policyLines
  simp only [ascii, fmtLu_eq, fmt02u_eq, utf8_append, PolicyParams.effective]

theorem letText_chat (p : PolicyParams) (x : List Char) :
    letText "chat" "rf_rx" (chatOps p) ++ (['\n', '\n'] ++ x) =
      "let chat = rf_rx\n".toList ++ ("  |> filter.pkt_type(1)\n".toList ++
        ("  |> budget.toa_us(280000, 0.".toList ++ (dutyDigits p.dutyPercent ++
          (", 280000)\n".toList ++ ("  |> throttle.ms(".toList ++
            (Nat.toDigits 10 (p.effective p.chatThrottleMs).toNat ++
              (");\n".toList ++ ("\n".toList ++ x)))))))) := by
  have hparts : ∀ duty chat : List Char,
      ("let ".toList ++ ("chat".toList ++ (" = ".toList ++ ("rf_rx".toList ++
        (pipesText [("filter.pkt_type(1)".toList, .filterPktType 1),
          ("budget.toa_us(280000, 0.".toList ++ (duty ++ ", 280000)".toList), .mapTrim),
          ("throttle.ms(".toList ++ (chat ++ ")".toList), .mapTrim)] ++ ";".toList))))) ++
        (['\n', '\n'] ++ x) =
      "let chat = rf_rx\n".toList ++ ("  |> filter.pkt_type(1)\n".toList ++
        ("  |> budget.toa_us(280000, 0.".toList ++ (duty ++
          (", 280000)\n".toList ++ ("  |> throttle.ms(".toList ++ (chat ++
              (");\n".toList ++ ("\n".toList ++ x)))))))) := by
    intro duty chat
    simp only [pipesText, List.flatMap_cons, List.flatMap_nil, List.append_assoc]
    rfl
  exact hparts _ _

theorem letText_data (p : PolicyParams) (x : List Char) :
    letText "data" "rf_rx" (dataOps p) ++ (['\n', '\n'] ++ x) =
      "let data = rf_rx\n".toList ++ ("  |> filter.pkt_type(6)\n".toList ++
        ("  |> throttle.ms(".toList ++ (Nat.toDigits 10 (p.effective p.dataThrottleMs).toNat ++
          (");\n".toList ++ ("\n".toList ++ x))))) := by
  have hparts : ∀ data : List Char,
      ("let ".toList ++ ("data".toList ++ (" = ".toList ++ ("rf_rx".toList ++
        (pipesText [("filter.pkt_type(6)".toList, .filterPktType 6),
          ("throttle.ms(".toList ++ (data ++ ")".toList), .mapTrim)] ++ ";".toList))))) ++
        (['\n', '\n'] ++ x) =
      "let data = rf_rx\n".toList ++ ("  |> filter.pkt_type(6)\n".toList ++
        ("  |> throttle.ms(".toList ++ (data ++ (");\n".toList ++ ("\n".toList ++ x))))) := by
    intro data
    simp only [pipesText, List.flatMap_cons, List.flatMap_nil, List.append_assoc]
    rfl
  exact hparts _

theorem letText_telemetry (p : PolicyParams) (x : List Char) :
    letText "tel_tx" "telemetry_tx" (telemetryOps p) ++ (['\n', '\n'] ++ x) =
      "let tel_tx = telemetry_tx\n".toList ++ ("  |> budget.toa_us(280000, 0.".toList ++
        (dutyDigits p.dutyPercent ++ (", 280000);\n".toList ++ ("\n".toList ++ x)))) := by
  have hparts : ∀ duty : List Char,
      ("let ".toList ++ ("tel_tx".toList ++ (" = ".toList ++ ("telemetry_tx".toList ++
        (pipesText [("budget.toa_us(280000, 0.".toList ++ (duty ++ ", 280000)".toList),
          .mapTrim)] ++ ";".toList))))) ++ (['\n', '\n'] ++ x) =
      "let tel_tx = telemetry_tx\n".toList ++ ("  |> budget.toa_us(280000, 0.".toList ++
        (duty ++ (", 280000);\n".toList ++ ("\n".toList ++ x)))) := by
    intro duty
    simp only [pipesText, List.flatMap_cons, List.flatMap_nil, List.append_assoc]
    rfl
  exact hparts _

theorem append_append_eq {a b c : List Char} (h : a ++ b = c) (x : List Char) :
    a ++ (b ++ x) = c ++ x := by rw [← List.append_assoc, h]

theorem policyPhrases_lines (p : PolicyParams) : policyPhrases p =
    policyLines (Nat.toDigits 10 60000) (dutyDigits p.dutyPercent)
      (Nat.toDigits 10 (p.effective p.chatThrottleMs).toNat)
      (Nat.toDigits 10 (p.effective p.dataThrottleMs).toNat) := by
  have hrf : "source rf_rx @lmp = rf;".toList ++ ['\n'] =
      "source rf_rx @lmp = rf;\n".toList := by decide
  have hbeacon : "source beacon_tick = timer(60000);".toList ++ ['\n'] =
      "source beacon_tick = timer(".toList ++ (Nat.toDigits 10 60000 ++ ");\n".toList) := by decide
  have htelemetry : "source telemetry_tx = programmatic;".toList ++ ['\n', '\n'] =
      "source telemetry_tx = programmatic;\n".toList ++ "\n".toList := by decide
  have hbeaconEmit : "emit \x7b io.lora.beacon(beacon_tick); \x7d".toList ++ ['\n'] =
      "emit \x7b io.lora.beacon(beacon_tick); \x7d\n".toList := by decide
  have htelemetryEmit : "emit \x7b io.lora.tx(tel_tx); \x7d".toList ++ ['\n'] =
      "emit \x7b io.lora.tx(tel_tx); \x7d\n".toList := by decide
  unfold policyPhrases policyLines
  simp only [List.nil_append, List.append_assoc]
  rw [append_append_eq hrf, append_append_eq hbeacon, append_append_eq htelemetry,
    letText_chat, letText_data, letText_telemetry, append_append_eq hbeaconEmit, htelemetryEmit]
  simp only [List.append_assoc]

theorem policyText_eq (p : PolicyParams) : policyText p = utf8 (policyPhrases p) := by
  rw [policyText_lines, policyPhrases_lines]

/-- The length of the program is that of its numbers on top of a constant. -/
theorem length_policyLines (window duty chat data : List Char) :
    (utf8 (policyLines window duty chat data)).length =
      (utf8 (policyLines [] [] [] [])).length + (utf8 window).length + 2 * (utf8 duty).length +
        (utf8 chat).length + (utf8 data).length := by
  unfold policyLines
  simp only [utf8_append, List.length_append, utf8_nil, List.length_nil]
  ring

theorem length_fmtLu_le (v : UInt32) : (utf8 (Nat.toDigits 10 v.toNat)).length ≤ 10 := by
  rw [← fmtLu_eq, fmtLu, List.length_map]
  exact (Nat.length_toDigits_le_iff (by decide) (by decide)).mpr
    (Nat.lt_trans v.toNat_lt (by decide))

theorem length_dutyDigits_le {duty : UInt8} (h : 1 ≤ duty.toNat ∧ duty.toNat ≤ 10) :
    (utf8 (dutyDigits duty)).length ≤ 2 := by
  obtain ⟨n, hn⟩ : ∃ n, duty.toNat = n := ⟨_, rfl⟩
  obtain rfl : duty = UInt8.ofNat n := by rw [← hn, UInt8.ofNat_toNat]
  have hn' : 1 ≤ n ∧ n ≤ 10 := hn ▸ h
  obtain ⟨hone, hten⟩ := hn'
  interval_cases n <;> decide

theorem length_policyText_lt {p : PolicyParams} (hp : p.Valid) : (policyText p).length < 512 := by
  have hconst : (utf8 (policyLines [] [] [] [])).length = 388 := by decide +kernel
  have hduty := length_dutyDigits_le hp.duty
  have hchat := length_fmtLu_le (p.effective p.chatThrottleMs)
  have hdata := length_fmtLu_le (p.effective p.dataThrottleMs)
  have hwindow : (utf8 (Nat.toDigits 10 60000)).length = 5 := by decide
  rw [policyText_lines, length_policyLines]
  omega

/-! ### The program on a node -/

/-- The throttle of a pipeline. -/
def throttleKind (throttleMs : UInt32) : NodeKind :=
  .throttleMs (.throttleTicks ⟨UInt64.ofNat throttleMs.toNat, UInt64.ofNat (2 ^ 64 - 1)⟩)

/-- The budget of a pipeline. -/
def budgetKind (p : PolicyParams) : NodeKind :=
  .toaBudget ⟨280000, if p.duty ≤ 0.0 then 0 else
    ((280000 : UInt64).toFloat * p.duty * 1000.0).toUInt64, 0, 0, 280000, 0⟩

/-- The kinds of the nodes of the program: the timer of the beacon polls each minute, the throttles
are those the role runs with, and the budgets have the duty of the parameters. -/
def policyKinds (p : PolicyParams) : List NodeKind :=
  [.source "rf_rx" 1 none, .source "beacon_tick" 0 (some 60000), .source "telemetry_tx" 0 none,
   .filterPktType 1, budgetKind p, throttleKind (p.effective p.chatThrottleMs),
   .filterPktType 6, throttleKind (p.effective p.dataThrottleMs),
   budgetKind p, .emit .loraBeacon, .emit .loraTx]

theorem exists_compile_policyStmts (p : PolicyParams) :
    ∃ engine warnings, compile ⟨policyStmts p⟩ = .ok (engine, warnings) ∧
      engine.nodes.map Node.kind = policyKinds p := by
  have hsources := ((Compiler.builds_new.source "rf_rx" (some ⟨"lmp"⟩) .rf).source "beacon_tick"
    none (.timer 60000)).source "telemetry_tx" none .programmatic
  have hlets := ((hsources.letPipes "chat" "rf_rx" (by simp) (chatOps p)).letPipes "data" "rf_rx"
    (by simp) (dataOps p)).letPipes "tel_tx" "telemetry_tx"
    (by simp) (telemetryOps p)
  have hemits := (hlets.emit [.loraBeacon "beacon_tick"] (by simp [Sink.target])).emit
    [.loraTx "tel_tx"] (by simp [Sink.target])
  obtain ⟨engine, warnings, hcompile, hkinds⟩ := hemits.compiles ⟨policyStmts p⟩
  exact ⟨engine, warnings, hcompile, hkinds⟩

theorem ne_zero_of_mem_fmtLu {n : ℕ} {b : UInt8} (h : b ∈ fmtLu n) : b ≠ 0 := by
  rw [fmtLu_eq] at h
  obtain ⟨c, hc, hb⟩ := List.mem_flatMap.mp h
  have hdigit : isAsciiDigit b = true :=
    List.all_eq_true.mp ((isToken_toDigits n).chars c hc) b hb
  rintro rfl
  exact absurd hdigit (by decide)

theorem ne_zero_of_mem_fmt02u {duty b : UInt8} (h : b ∈ fmt02u duty) : b ≠ 0 := by
  rw [fmt02u] at h
  split_ifs at h
  · rcases List.mem_cons.mp h with rfl | h
    · decide
    · exact ne_zero_of_mem_fmtLu h
  · exact ne_zero_of_mem_fmtLu h

/-- The text is a string in C. -/
theorem cstr_policyText (p : PolicyParams) : cstr (policyText p) = policyText p := by
  have hne : ∀ b ∈ policyText p, b ≠ 0 := by
    unfold policyText
    simp only [List.forall_mem_append, and_assoc]
    have hnum : ∀ n, ∀ b ∈ fmtLu n, b ≠ 0 := fun _ _ => ne_zero_of_mem_fmtLu
    have hduty : ∀ b ∈ fmt02u p.dutyPercent, b ≠ 0 := fun _ => ne_zero_of_mem_fmt02u
    refine ⟨by decide, by decide, hnum _, by decide, by decide, by decide, by decide, by decide,
      by decide, hduty, by decide, by decide, hnum _, by decide, by decide, by decide, by decide,
      by decide, hnum _, by decide, by decide, by decide, by decide, hduty, by decide, by decide,
      by decide, by decide⟩
  exact List.takeWhile_eq_self_iff.mpr fun b hb => bne_iff_ne.mpr (hne b hb)

/-- The text fits every buffer that it is written to. -/
theorem rivrPolicyBuildProgram_eq {p : PolicyParams} (hp : p.Valid) {bufsz : ℕ}
    (h : 512 ≤ bufsz) : rivrPolicyBuildProgram p bufsz = policyText p := by
  rw [rivrPolicyBuildProgram, if_pos (Nat.lt_of_lt_of_le (length_policyText_lt hp) h)]

/-- The text of parameters in their ranges is a string that parses to the statements of the
parameters, which compile to their nodes within the limit of the engine. -/
theorem PolicyParams.Valid.loads {p : PolicyParams} (hp : p.Valid) (uni : Char → Bool) :
    ∃ src engine warnings, cstrToStr (policyText p) = some src ∧
      parse uni src = .ok ⟨policyStmts p⟩ (policyText p).length [] ∧
      compile ⟨policyStmts p⟩ = .ok (engine, warnings) ∧
      engine.nodes.map Node.kind = policyKinds p ∧ engine.nodes.length ≤ rivrMaxNodes ∧
      buildEngine uni (policyText p) = .ok engine := by
  have hsrc : cstrToStr (policyText p) = some (String.ofList (policyPhrases p)) := by
    rw [cstrToStr, policyText_eq, decodeUtf8_eq_some_iff.mpr rfl, Option.map_some]
  have hparse : parse uni (String.ofList (policyPhrases p)) =
      .ok ⟨policyStmts p⟩ (policyText p).length [] := by
    rw [parse_policyPhrases hp, policyText_eq]
  obtain ⟨engine, warnings, hcompile, hkinds⟩ := exists_compile_policyStmts p
  have hnodes : engine.nodes.length = 11 := by
    rw [← List.length_map (f := Node.kind), hkinds]
    rfl
  have hlimit : engine.nodes.length ≤ rivrMaxNodes := by
    rw [hnodes]
    decide
  refine ⟨String.ofList (policyPhrases p), engine, warnings, hsrc, hparse, hcompile, hkinds, hlimit,
    ?_⟩
  simp only [buildEngine, hsrc, hparse, hcompile, if_neg (Nat.not_lt.mpr hlimit)]

/-- **Every policy loads.** The text of the parameters that any updates leave of the defaults of any
role is complete in the buffers of its callers, and a string that parses to the statements of the
parameters, which compile to their nodes within the limit of the engine. -/
theorem policy_loads (uni : Char → Bool) (role : NodeRole) (sets : List (UInt8 × UInt32)) :
    let p := sets.foldl rivrPolicySetParamId (rivrPolicyInit role)
    (∀ bufsz ∈ [512, 768], rivrPolicyBuildProgram p bufsz = policyText p ∧
        cstr (policyText p) = policyText p) ∧
      ∃ src engine warnings, cstrToStr (policyText p) = some src ∧
        parse uni src = .ok ⟨policyStmts p⟩ (policyText p).length [] ∧
        compile ⟨policyStmts p⟩ = .ok (engine, warnings) ∧
        engine.nodes.map Node.kind = policyKinds p ∧ engine.nodes.length ≤ rivrMaxNodes ∧
        buildEngine uni (policyText p) = .ok engine := by
  intro p
  have hp : p.Valid := valid_foldl (valid_rivrPolicyInit role) sets
  exact ⟨List.forall_mem_cons.mpr ⟨⟨rivrPolicyBuildProgram_eq hp (by decide), cstr_policyText p⟩,
    List.forall_mem_singleton.mpr ⟨rivrPolicyBuildProgram_eq hp (by decide), cstr_policyText p⟩⟩,
    hp.loads uni⟩

end Rivr
