import Rivr.Core.ParserAscii
import Rivr.Firmware.PolicyProgram
import Rivr.Firmware.Protocol

/-!
# Stored programs

The branch of `rivr_layer/rivr_sources.c` for `PKT_PROG_PUSH`, with `firmware_core/rivr_ota_core.c`,
and the boot that follows.

None of the push paths looks whether the text is a program. What is stored is what the next boot
loads (`handleProgPush_stored`), and there the text decides: the default program is loaded only when
the text is empty (`boot_after_push_iff`).
-/

open ByteParser CString LittleEndian Utf8
open Rivr.Core (Engine compile parse parseProgram)

namespace Rivr

/-! ### The push paths -/

/-- The build flags and the keys of the update gate, and the check of a signature. -/
structure ProgBuild where
  signedProg : Bool
  params : ParamsGate
  otaKeys : List (List UInt8)
  ed25519VerifyDetached : (sig msg pubKey : List UInt8) → Bool

/-- `RIVR_OTA_SIG_LEN`. -/
def rivrOtaSigLen : ℕ := 64

/-- `RIVR_OTA_HDR_LEN`. -/
def rivrOtaHdrLen : ℕ := 69

/-- `rivr_ota_verify`: the storage with the new sequence number, when the payload is accepted. -/
def rivrOtaVerify (b : ProgBuild) (nvs : Nvs) (payload : List UInt8) : Option Nvs :=
  if payload.length ≤ rivrOtaHdrLen then none
  else
    match b.otaKeys[(payload.getD rivrOtaSigLen 0).toNat]? with
    | none => none
    | some pubKey =>
      -- the signature covers the key number, the sequence number and the text
      let signedMsg := payload.drop rivrOtaSigLen
      if signedMsg.length > 256 then none
      else if !b.ed25519VerifyDetached (payload.take rivrOtaSigLen) signedMsg pubKey then none
      else
        let seq := u32OfBytes (payload.getD 65 0) (payload.getD 66 0) (payload.getD 67 0)
          (payload.getD 68 0)
        -- the number is stored here, before the text is
        if seq ≤ nvs.otaSeq then none else some { nvs with otaSeq := seq }

/-- The text that `rivr_ota_activate` hands to the storage: it is cut to the platform's buffer. -/
def otaText (payload : List UInt8) : List UInt8 := (payload.drop rivrOtaHdrLen).take 255

/-- Storing a text and asking for a reload: the text that is stored, and the state. -/
def storeProgram (s : EmbedState) (src : List UInt8) : Option (List UInt8) × EmbedState :=
  (some (cstr src), { s with nvs := rivrNvsStoreProgram s.nvs src, reloadPending := true })

/-- The branch for `PKT_PROG_PUSH`: the text that is stored, if one is, and the state left. -/
def handleProgPush (b : ProgBuild) (myNodeId : UInt32) (hdr : RivrPktHdr) (payload : List UInt8)
    (s : EmbedState) : Option (List UInt8) × EmbedState :=
  let prog := payload.take hdr.payloadLen.toNat
  -- a program for another node
  if hdr.dstId ≠ myNodeId ∧ hdr.dstId ≠ 0 then (none, s)
  else if prog = [] then (none, s)
  else if b.signedProg then
    match rivrOtaVerify b s.nvs prog with
    | none => (none, s)
    | some nvs => storeProgram { s with nvs := { nvs with otaPending := 1 } } (otaText prog)
  -- parameters are turned into a program text by the policy engine
  else if isParamsPush prog then
    match handleParamsPush b.params prog s.params with
    | none => (none, s)
    | some params => storeProgram { s with params := params } (rivrPolicyBuildProgram params 512)
  else storeProgram s prog

/-! ### What is stored -/

variable {b : ProgBuild} {myNodeId : UInt32} {hdr : RivrPktHdr} {payload text : List UInt8}
  {s : EmbedState}

theorem length_cstr_le (src : List UInt8) : (cstr src).length ≤ src.length :=
  (List.takeWhile_prefix _).length_le

theorem length_policyProgram_lt (p : PolicyParams) {bufsz : ℕ} (h : 0 < bufsz) :
    (rivrPolicyBuildProgram p bufsz).length < bufsz := by
  rw [rivrPolicyBuildProgram]
  split_ifs with hfit
  · exact hfit
  · exact h

/-- A push stores its text through `storeProgram`, and the text is short. -/
theorem exists_storeProgram (h : (handleProgPush b myNodeId hdr payload s).1 = some text) :
    ∃ s' src, handleProgPush b myNodeId hdr payload s = storeProgram s' src ∧ src.length < 512 := by
  have hlen : (payload.take hdr.payloadLen.toNat).length < 512 := by
    have := hdr.payloadLen.toNat_lt
    rw [List.length_take]
    omega
  unfold handleProgPush at h ⊢
  dsimp only at h ⊢
  split_ifs at h ⊢ with hdst hempty hsigned hparams
  · cases hverify : rivrOtaVerify b s.nvs (payload.take hdr.payloadLen.toNat) with
    | none =>
      rw [hverify] at h
      exact nomatch h
    | some nvs =>
      refine ⟨_, _, rfl, ?_⟩
      rw [otaText, List.length_take]
      omega
  · cases hupdate : handleParamsPush b.params (payload.take hdr.payloadLen.toNat) s.params with
    | none =>
      rw [hupdate] at h
      exact nomatch h
    | some params => exact ⟨_, _, rfl, length_policyProgram_lt params (by decide)⟩
  · exact ⟨_, _, rfl, hlen⟩

/-- The text that a push stores is in the storage, and the storage gives it back at boot. -/
theorem handleProgPush_stored (h : (handleProgPush b myNodeId hdr payload s).1 = some text) :
    (handleProgPush b myNodeId hdr payload s).2.nvs.program = some text ∧ text.length < 512 := by
  obtain ⟨s', src, heq, hlen⟩ := exists_storeProgram h
  rw [heq] at h ⊢
  obtain rfl : cstr src = text := Option.some.inj h
  exact ⟨rfl, (length_cstr_le src).trans_lt hlen⟩

/-! ### The default program -/

/-- The text of the default parameters of a build. -/
def defaultProgram (role : NodeRole) : List UInt8 :=
  cstr (rivrPolicyBuildProgram (rivrPolicyInit role) rivrPolicyProgMax)

/-- An ASCII text loads, computed without the Unicode tables. -/
def asciiLoads (text : List UInt8) : Bool :=
  text.all (fun b => b < 0x80) &&
    match parseProgram (fun _ => false) 0 text with
    | .ok program _ _ =>
      match compile program with
      | .ok (engine, _) => engine.nodes.length ≤ rivrMaxNodes
      | .error _ => false
    | _ => false

variable {uni : Char → Bool}

theorem programLoads_of_asciiLoads (h : asciiLoads text = true) :
    ∃ engine, ProgramLoads uni text engine := by
  rw [asciiLoads, Bool.and_eq_true, List.all_eq_true] at h
  obtain ⟨hascii, h⟩ := h
  have hbytes : ∀ b ∈ text, b.toNat < 0x80 := fun b hb => by
    have hlt := hascii b hb
    rwa [decide_eq_true_eq, UInt8.lt_iff_toNat_lt] at hlt
  have htext := utf8_charOfByte hbytes
  have hchars : ∀ c ∈ text.map fun b => Char.ofNat b.toNat, IsAscii c := by
    simp only [List.mem_map]
    rintro c ⟨b, hb, rfl⟩
    rw [IsAscii, toNat_charOfByte (hbytes b hb)]
    exact hbytes b hb
  rcases hparse : parseProgram (fun _ => false) 0 text with ⟨program, pos, rest⟩ | _ | _ | _
  · simp only [hparse] at h
    rcases hcompile : compile program with _ | ⟨engine, warnings⟩
    · simp only [hcompile, Bool.false_eq_true] at h
    · simp only [hcompile, decide_eq_true_eq] at h
      refine ⟨engine, _, program, pos, rest, warnings, htext.symm, ?_, hcompile, h⟩
      rw [parse, String.toList_ofList, Core.parseProgram_ascii hchars, htext]
      exact hparse
  all_goals simp only [hparse, Bool.false_eq_true] at h

theorem defaultProgram_loads (uni : Char → Bool) (role : NodeRole) :
    ∃ engine, ProgramLoads uni (defaultProgram role) engine := by
  obtain ⟨-, engine, -, -, -, -, -, -, hbuild⟩ := (valid_rivrPolicyInit role).loads uni
  have htext : defaultProgram role = policyText (rivrPolicyInit role) := by
    rw [defaultProgram, rivrPolicyBuildProgram_eq (valid_rivrPolicyInit role) (by decide),
      cstr_policyText]
  rw [htext]
  exact ⟨engine, buildEngine_eq_ok_iff.mp hbuild⟩

/-! ### The boot after a push -/

/-- The boot comes to the main loop with the stored or the default program in the engine. -/
def BootsNormally (uni : Char → Bool) (role : NodeRole) (nvs : Nvs) (nowMs : UInt32) : Prop :=
  ∃ s engine, rivrEmbedInit uni (rivrPolicyInit role) nvs nowMs = .running s ∧
    s.runtime.slot.engine = some engine ∧
    ((∃ text, nvs.program = some text ∧ ProgramLoads uni text engine) ∨
      ProgramLoads uni (defaultProgram role) engine)

/-- A boot runs the text it loads, or nothing. -/
theorem rivrEmbedInit_running_iff {params : PolicyParams} {nvs : Nvs} {nowMs : UInt32} :
    (∃ s, rivrEmbedInit uni params nvs nowMs = .running s) ↔
      ∃ engine, ProgramLoads uni (progSrc nvs params) engine := by
  simp only [rivrEmbedInit, rivrEngineInit, ← buildEngine_eq_ok_iff]
  cases buildEngine uni (progSrc nvs params) <;> simp [EngineSlot.new]

theorem rivrEmbedInit_engine {params : PolicyParams} {nvs : Nvs} {nowMs : UInt32}
    {s : EmbedState} (h : rivrEmbedInit uni params nvs nowMs = .running s) :
    ∃ engine, s.runtime.slot.engine = some engine ∧
      ProgramLoads uni (progSrc nvs params) engine := by
  simp only [rivrEmbedInit, rivrEngineInit, ← buildEngine_eq_ok_iff] at h ⊢
  cases hbuild : buildEngine uni (progSrc nvs params) with
  | ok engine =>
    simp only [hbuild, EngineSlot.new, Bool.false_eq_true, if_false, Boot.running.injEq] at h
    subst h
    exact ⟨engine, rfl, rfl⟩
  | err code => simp [hbuild] at h
  | panic => simp [hbuild] at h

/-- The text that is loaded when the storage holds a short one. -/
theorem progSrc_of_stored {nvs : Nvs} (params : PolicyParams) (h : nvs.program = some text)
    (hlen : text.length < 512) : progSrc nvs params =
      if text = [] then cstr (rivrPolicyBuildProgram params rivrPolicyProgMax) else text := by
  have hfits : text.length + 1 ≤ rivrNvsProgMax := by
    rw [rivrNvsProgMax]
    omega
  by_cases hnil : text = []
  · subst hnil
    simp [progSrc, nvsLoadProgram, h]
  · have hpos : 1 < text.length + 1 := Nat.succ_lt_succ (List.length_pos_of_ne_nil hnil)
    simp only [progSrc, nvsLoadProgram, h, if_pos (And.intro hfits hpos), if_neg hnil,
      Option.getD_some]

/-- After a push that stored a text, the next boot comes to normal operation exactly when the text
is empty or loads. -/
theorem boot_after_push_iff (uni : Char → Bool) (role : NodeRole) (b : ProgBuild)
    (myNodeId : UInt32) (hdr : RivrPktHdr) (payload : List UInt8) (s : EmbedState) (nowMs : UInt32)
    {text : List UInt8} (h : (handleProgPush b myNodeId hdr payload s).1 = some text) :
    BootsNormally uni role (handleProgPush b myNodeId hdr payload s).2.nvs nowMs ↔
      text = [] ∨ ∃ engine, ProgramLoads uni text engine := by
  obtain ⟨hstored, hlen⟩ := handleProgPush_stored h
  have hsrc := progSrc_of_stored (rivrPolicyInit role) hstored hlen
  constructor
  · rintro ⟨booted, -, hboot, -⟩
    have hloads := rivrEmbedInit_running_iff.mp ⟨booted, hboot⟩
    rw [hsrc] at hloads
    split_ifs at hloads with hnil
    · exact .inl hnil
    · exact .inr hloads
  · intro hcond
    -- an empty text is no text for the boot, which takes the default program
    have hloads : ∃ engine, ProgramLoads uni
        (progSrc (handleProgPush b myNodeId hdr payload s).2.nvs (rivrPolicyInit role)) engine := by
      rw [hsrc]
      split_ifs with hnil
      · exact defaultProgram_loads uni role
      · exact hcond.resolve_left hnil
    obtain ⟨booted, hboot⟩ := rivrEmbedInit_running_iff.mpr hloads
    obtain ⟨engine, hengine, hrun⟩ := rivrEmbedInit_engine hboot
    refine ⟨booted, engine, hboot, hengine, ?_⟩
    rw [hsrc] at hrun
    split_ifs at hrun with hnil
    · exact .inr hrun
    · exact .inl ⟨text, hstored, hrun⟩

/-! ### A text that is no program -/

/-- The build without signatures. -/
def unsignedBuild : ProgBuild where
  signedProg := false
  params := ⟨false, false, []⟩
  otaKeys := []
  ed25519VerifyDetached _ _ _ := false

/-- The header of a push of five bytes to every node. -/
def helloPush : RivrPktHdr :=
  { sampleChatHdr with pktType := pktProgPush, dstId := 0, payloadLen := 5 }

/-- A client at power-on, with nothing in the storage. -/
def blankState : EmbedState where
  runtime := ⟨.new, sourcesTimerReset, rivrSinksInit []⟩
  params := rivrPolicyInit .client
  nvs := ⟨none, 0, 0⟩
  reloadPending := false

theorem handleProgPush_hello : (handleProgPush unsignedBuild 0xB2 helloPush (ascii "hello")
    blankState).1 = some (ascii "hello") := by
  decide +kernel

theorem boot_after_push_iff_hello :
    (handleProgPush unsignedBuild 0xB2 helloPush (ascii "hello") blankState).1 =
        some (ascii "hello") ∧
      (BootsNormally (fun _ => false) .client
          (handleProgPush unsignedBuild 0xB2 helloPush (ascii "hello") blankState).2.nvs 0 ↔
        ascii "hello" = [] ∨ ∃ engine, ProgramLoads (fun _ => false) (ascii "hello") engine) :=
  ⟨handleProgPush_hello, boot_after_push_iff _ _ _ _ _ _ _ _ handleProgPush_hello⟩

/-- The word is no program. -/
theorem buildEngine_hello : buildEngine (fun _ => false) (ascii "hello") = .err .parse := by
  have herr : (match parse (fun _ => false) (String.ofList "hello".toList) with
      | .err .. => true
      | _ => false) = true := by decide +kernel
  match hparse : parse (fun _ => false) (String.ofList "hello".toList) with
  | .err pos e => exact buildEngine_of_parse_err hparse
  | .ok .. | .panic | .hang =>
    rw [hparse] at herr
    exact nomatch herr

theorem not_boot_after_push : ¬∀ (uni : Char → Bool) (role : NodeRole) (b : ProgBuild)
    (myNodeId : UInt32) (hdr : RivrPktHdr) (payload : List UInt8) (s : EmbedState) (nowMs : UInt32)
    (text : List UInt8), (handleProgPush b myNodeId hdr payload s).1 = some text →
      BootsNormally uni role (handleProgPush b myNodeId hdr payload s).2.nvs nowMs := by
  intro h
  obtain ⟨booted, -, hboot, -⟩ := h (fun _ => false) .client _ _ _ _ _ 0 _ handleProgPush_hello
  obtain ⟨engine, hloads⟩ := rivrEmbedInit_running_iff.mp ⟨booted, hboot⟩
  obtain ⟨hstored, hlen⟩ := handleProgPush_stored handleProgPush_hello
  rw [progSrc_of_stored _ hstored hlen, if_neg (by decide), ← buildEngine_eq_ok_iff,
    buildEngine_hello] at hloads
  exact nomatch hloads

end Rivr
