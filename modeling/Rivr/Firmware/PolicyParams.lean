import Rivr.Firmware.FloodForward
import Rivr.Firmware.HmacSha256
import Rivr.ForMathlib.CString
import Rivr.ForMathlib.Utf8

/-!
# The policy parameters

`firmware_core/rivr_policy.c`: the parameters that an update can set, the check of the signature of
an update, and the program that is built from the parameters. How an update is read off its text is
the `@PARAMS` branch of `rivr_layer/rivr_sources.c`.
-/

open CString Utf8

namespace Rivr

/-- The bytes of an ASCII literal. -/
def ascii (s : String) : List UInt8 := utf8 s.toList

/-- `rivr_policy_params_t`. -/
structure PolicyParams where
  beaconIntervalMs : UInt32
  beaconJitterMs : UInt32
  chatThrottleMs : UInt32
  dataThrottleMs : UInt32
  dutyPercent : UInt8
  role : UInt8
  deriving DecidableEq, Repr

def rivrNodeRoleClient : UInt8 := 1
def rivrNodeRoleRepeater : UInt8 := 2
def rivrNodeRoleGateway : UInt8 := 3

/-- `rivr_policy_init`: the defaults of a build. -/
def rivrPolicyInit : NodeRole → PolicyParams
  | .gateway => ⟨300000, 60000, 2000, 2000, 10, rivrNodeRoleGateway⟩
  | .repeater => ⟨300000, 60000, 2000, 2000, 10, rivrNodeRoleRepeater⟩
  | _ => ⟨600000, 120000, 2000, 2000, 10, rivrNodeRoleClient⟩

/-- `rivr_param_id_t`. -/
inductive RivrParamId
  | beaconInterval | chatThrottle | dataThrottle | dutyPercent | role | beaconJitter
  deriving DecidableEq, Repr

/-- `rivr_policy_set_param`. -/
def rivrPolicySetParam (p : PolicyParams) (id : RivrParamId) (value : UInt32) : PolicyParams :=
  match id with
  | .beaconInterval => if value < 60000 then p else { p with beaconIntervalMs := value }
  | .beaconJitter => if value > 600000 then p else { p with beaconJitterMs := value }
  | .chatThrottle => if value < 100 then p else { p with chatThrottleMs := value }
  | .dataThrottle => if value < 100 then p else { p with dataThrottleMs := value }
  | .dutyPercent =>
    if value < 1 ∨ value > 10 then p else { p with dutyPercent := value.toUInt8 }
  | .role => if value < 1 ∨ value > 3 then p else { p with role := value.toUInt8 }

/-- `rivr_policy_role_from_str`. -/
def rivrPolicyRoleFromStr (s : List UInt8) : UInt8 :=
  if s = [] then rivrNodeRoleClient
  else if s = ascii "client" then rivrNodeRoleClient
  else if s = ascii "repeater" then rivrNodeRoleRepeater
  else if s = ascii "gateway" then rivrNodeRoleGateway
  else
    let v := strtoul s
    if v ≥ 1 ∧ v ≤ 3 then v.toUInt8 else rivrNodeRoleClient

/-! ### The signature -/

/-- The build flags of the update gate, and the key in hexadecimal. -/
structure ParamsGate where
  signedParams : Bool
  allowUnsigned : Bool
  pskHex : List UInt8

/-- `s_psk_init`. -/
def pskInit (hex : List UInt8) : List UInt8 :=
  (List.range 32).map fun i => ((scanHex2 (hex.drop (2 * i))).getD 0).toUInt8

/-- A byte that ends the signature field. -/
def isFieldEnd (b : UInt8) : Bool := b == 32 || b == 9 || b == 13 || b == 10

/-- `n` bytes in hexadecimal, two characters each. -/
def decodeMac : ℕ → List UInt8 → Option (List UInt8)
  | 0, _ => some []
  | n + 1, hex =>
    match scanHex2 hex with
    | none => none
    | some bv => (decodeMac n (hex.drop 2)).map fun mac => bv.toUInt8 :: mac

/-- `rivr_verify_params_sig`, on a buffer that holds the string. -/
def rivrVerifyParamsSig (gate : ParamsGate) (buf : List UInt8) : Bool :=
  if !gate.signedParams then true
  else
    match strstr (ascii " sig=") buf with
    | none => gate.allowUnsigned
    | some sigField =>
      let msg := buf.take (buf.length - sigField.length)
      let hex := sigField.drop 5
      if (hex.takeWhile fun b => !isFieldEnd b).length ≠ 64 then false
      else
        match decodeMac 32 hex with
        | none => false
        | some receivedMac => rivrHmacSha256 (pskInit gate.pskHex) msg == receivedMac

/-! ### Reading an update -/

/-- `sscanf(strstr(prog, key), key "%lu", &pv)`. -/
def scanParam (key prog : List UInt8) : Option UInt32 :=
  (strstr key prog).bind fun kp => scanUlong (kp.drop key.length)

/-- Setting the parameter whose key the text holds with a number. -/
def applyParam (key : String) (id : RivrParamId) (prog : List UInt8) (p : PolicyParams) :
    PolicyParams :=
  match scanParam (ascii key) prog with
  | some value => rivrPolicySetParam p id value
  | none => p

/-- The word of a role. -/
def roleToken (rv : List UInt8) : List UInt8 := (rv.takeWhile fun b => !isFieldEnd b).take 11

/-- Setting the role. -/
def applyRole (prog : List UInt8) (p : PolicyParams) : PolicyParams :=
  match strstr (ascii "role=") prog with
  | some kp => rivrPolicySetParam p .role (rivrPolicyRoleFromStr (roleToken (kp.drop 5))).toUInt32
  | none => p

/-- The parameters that an update leaves. -/
def applyParams (prog : List UInt8) (p : PolicyParams) : PolicyParams :=
  applyRole prog
    (applyParam "duty=" .dutyPercent prog
      (applyParam "data=" .dataThrottle prog
        (applyParam "chat=" .chatThrottle prog
          (applyParam "beacon=" .beaconInterval prog p))))

/-! ### Pushes -/

/-- The program buffer starts with the word for an update. -/
def isParamsPush (payload : List UInt8) : Bool :=
  7 ≤ payload.length && (ascii "@PARAMS").isPrefixOf (cstr payload)

/-- The `@PARAMS` branch of a program push: the parameters, when the signature is accepted. -/
def handleParamsPush (gate : ParamsGate) (payload : List UInt8) (p : PolicyParams) :
    Option PolicyParams :=
  if rivrVerifyParamsSig gate (cstr payload) then some (applyParams (cstr payload) p) else none

/-! ### The program of the parameters -/

/-- Half of a throttle, but 100 ms at least. -/
def halfThrottle (v : UInt32) : UInt32 := if v / 2 < 100 then 100 else v / 2

/-- `"%lu"`. -/
def fmtLu (n : ℕ) : List UInt8 := (Nat.toDigits 10 n).map fun c => UInt8.ofNat c.toNat

/-- `"%02u"`. -/
def fmt02u (n : UInt8) : List UInt8 := if n < 10 then 48 :: fmtLu n.toNat else fmtLu n.toNat

/-- The text of the program. -/
def policyText (p : PolicyParams) : List UInt8 :=
  let relay := p.role = rivrNodeRoleRepeater ∨ p.role = rivrNodeRoleGateway
  let effChat := if relay then halfThrottle p.chatThrottleMs else p.chatThrottleMs
  let effData := if relay then halfThrottle p.dataThrottleMs else p.dataThrottleMs
  ascii "source rf_rx @lmp = rf;\n" ++
  ascii "source beacon_tick = timer(" ++ fmtLu 60000 ++ ascii ");\n" ++
  ascii "source telemetry_tx = programmatic;\n" ++
  ascii "\n" ++
  ascii "let chat = rf_rx\n" ++
  ascii "  |> filter.pkt_type(1)\n" ++
  ascii "  |> budget.toa_us(280000, 0." ++ fmt02u p.dutyPercent ++ ascii ", 280000)\n" ++
  ascii "  |> throttle.ms(" ++ fmtLu effChat.toNat ++ ascii ");\n" ++
  ascii "\n" ++
  ascii "let data = rf_rx\n" ++
  ascii "  |> filter.pkt_type(6)\n" ++
  ascii "  |> throttle.ms(" ++ fmtLu effData.toNat ++ ascii ");\n" ++
  ascii "\n" ++
  ascii "let tel_tx = telemetry_tx\n" ++
  ascii "  |> budget.toa_us(280000, 0." ++ fmt02u p.dutyPercent ++ ascii ", 280000);\n" ++
  ascii "\n" ++
  ascii "emit \x7b io.lora.beacon(beacon_tick); \x7d\n" ++
  ascii "emit \x7b io.lora.tx(tel_tx); \x7d\n"

/-- `rivr_policy_build_program`: the text, or nothing when the buffer is too small. -/
def rivrPolicyBuildProgram (p : PolicyParams) (bufsz : ℕ) : List UInt8 :=
  if (policyText p).length < bufsz then policyText p else []

end Rivr
