import Rivr.Firmware.OtaReplay

/-!
# Retrying an update

`rivr_ota_verify` writes the sequence number before `rivr_ota_activate` writes the text, and the
reload comes later still. A push that fails on the way has used its number up: the same payload is
refused from then on, whatever is pushed or reloaded in between (`activationFails_spent`). Only a
failure to write the number itself leaves the node as it was (`otaPushNode_seq_not_saved`).
-/

open CString

namespace Rivr

/-! ### Pushes and reloads at a node -/

/-- The branch for `PKT_PROG_PUSH` of a signed build. `savesSeq` and `push.commits` are what the
platform says to `ota_platform_save_seq` and `ota_storage_commit`. -/
def otaPushNode (b : ProgBuild) (platform : OtaPlatform) (s : EmbedState) (push : OtaPush)
    (savesSeq : Bool) : OtaVerdict × EmbedState :=
  match rivrOtaVerify b s.nvs push.payload with
  | none => (.rejected, s)
  | some nvs =>
    if !savesSeq then (.rejected, s)
    else match rivrOtaActivate platform push.commits nvs push.payload with
    | (true, nvs) => (.accepted, { s with nvs := nvs, reloadPending := true })
    | (false, nvs) => (.notStored, { s with nvs := nvs })

/-- What happens to a node with respect to updates. -/
inductive OtaStep where
  | push (push : OtaPush) (savesSeq : Bool)
  | reload (nowMs : UInt32)

/-- The node after a step; the check for a reload is the one of the main loop. -/
def otaStep (b : ProgBuild) (platform : OtaPlatform) (uni : Char → Bool) (s : EmbedState) :
    OtaStep → EmbedState
  | .push push savesSeq => (otaPushNode b platform s push savesSeq).2
  | .reload nowMs =>
    if s.reloadPending then
      match rivrEmbedReload uni nowMs s with
      | .done s' | .failed s' => s'
      -- a panic in the engine ends the run
      | .panic => s
    else s

def otaRun (b : ProgBuild) (platform : OtaPlatform) (uni : Char → Bool) (s : EmbedState)
    (steps : List OtaStep) : EmbedState :=
  steps.foldl (otaStep b platform uni) s

/-- The activation of a push fails: its text is not stored, or the reload fails. -/
def ActivationFails (b : ProgBuild) (platform : OtaPlatform) (uni : Char → Bool) (s : EmbedState)
    (push : OtaPush) (nowMs : UInt32) (s' : EmbedState) : Prop :=
  otaPushNode b platform s push true = (.notStored, s') ∨
    ∃ stored, otaPushNode b platform s push true = (.accepted, stored) ∧
      rivrEmbedReload uni nowMs stored = .failed s'

variable {b : ProgBuild} {platform : OtaPlatform} {uni : Char → Bool} {s s' : EmbedState}
  {push : OtaPush} {savesSeq : Bool} {nowMs : UInt32}

/-! ### One step -/

/-- A number that cannot be written: the push is refused, and leaves nothing. -/
theorem otaPushNode_seq_not_saved : otaPushNode b platform s push false = (.rejected, s) := by
  rw [otaPushNode]
  cases rivrOtaVerify b s.nvs push.payload with
  | none => rfl
  | some nvs => rfl

/-- Otherwise the push does at the node what it does at the gate. -/
theorem otaPushNode_of_saved : (otaPushNode b platform s push true).1 =
      (otaPush b platform s.nvs push).1 ∧
    (otaPushNode b platform s push true).2.nvs = (otaPush b platform s.nvs push).2 := by
  rw [otaPushNode, otaPush]
  cases rivrOtaVerify b s.nvs push.payload with
  | none => exact ⟨rfl, rfl⟩
  | some nvs =>
    simp only [Bool.not_true, Bool.false_eq_true, if_false]
    rcases rivrOtaActivate platform push.commits nvs push.payload with ⟨_ | _, nvs'⟩
    · exact ⟨rfl, rfl⟩
    · exact ⟨rfl, rfl⟩

/-- Storing the text keeps the sequence number. -/
theorem rivrOtaActivate_otaSeq {commits : Bool} {nvs : Nvs} {payload : List UInt8} :
    (rivrOtaActivate platform commits nvs payload).2.otaSeq = nvs.otaSeq := by
  rw [rivrOtaActivate]
  by_cases hlen : payload.length ≤ rivrOtaHdrLen
  · rw [if_pos hlen]
  rw [if_neg hlen]
  cases otaStorageWrite platform (payload.drop rivrOtaHdrLen) with
  | none => rfl
  | some text =>
    cases commits with
    | false => rfl
    | true => rfl

/-- **A push**: it is refused without a trace, or its number is above the stored one and takes its
place, whether the text is stored or not. -/
theorem otaPushNode_cases (b : ProgBuild) (platform : OtaPlatform) (s : EmbedState)
    (push : OtaPush) (savesSeq : Bool) :
    otaPushNode b platform s push savesSeq = (.rejected, s) ∨
      (s.nvs.otaSeq < otaSeqOf push.payload ∧
        (otaPushNode b platform s push savesSeq).1 ≠ .rejected ∧
        (otaPushNode b platform s push savesSeq).2.nvs.otaSeq = otaSeqOf push.payload) := by
  cases savesSeq with
  | false => exact .inl otaPushNode_seq_not_saved
  | true =>
    cases hverify : rivrOtaVerify b s.nvs push.payload with
    | none => exact .inl (by rw [otaPushNode, hverify])
    | some nvs =>
      obtain ⟨⟨-, -, -, hlt⟩, hnvs⟩ := rivrOtaVerify_eq_some.mp hverify
      have hseq : (rivrOtaActivate platform push.commits nvs push.payload).2.otaSeq =
          otaSeqOf push.payload := by
        rw [rivrOtaActivate_otaSeq, hnvs]
      refine .inr ⟨hlt, ?_⟩
      simp only [otaPushNode, hverify, Bool.not_true, Bool.false_eq_true, if_false]
      rcases hactivate : rivrOtaActivate platform push.commits nvs push.payload with ⟨_ | _, nvs'⟩
      · rw [hactivate] at hseq
        exact ⟨OtaVerdict.noConfusion, hseq⟩
      · rw [hactivate] at hseq
        exact ⟨OtaVerdict.noConfusion, hseq⟩

/-- A payload whose number is not above the stored one is refused. -/
theorem otaPushNode_of_le (h : otaSeqOf push.payload ≤ s.nvs.otaSeq) :
    otaPushNode b platform s push savesSeq = (.rejected, s) :=
  (otaPushNode_cases b platform s push savesSeq).resolve_right fun hcases =>
    absurd hcases.1 (UInt32.not_lt.mpr h)

/-- A reload that fails keeps the storage. -/
theorem nvs_of_rivrEmbedReload_failed (h : rivrEmbedReload uni nowMs s = .failed s') :
    s'.nvs = s.nvs := by
  rw [rivrEmbedReload] at h
  cases hinit : rivrEngineInit uni s.runtime.slot (progSrc s.nvs s.params) with
  | ok slot => simp [hinit] at h
  | panic => simp [hinit] at h
  | err code =>
    simp only [hinit, Reload.failed.injEq] at h
    rw [← h]

theorem nvs_of_rivrEmbedReload_done (h : rivrEmbedReload uni nowMs s = .done s') :
    s'.nvs = s.nvs := by
  rw [rivrEmbedReload] at h
  cases hinit : rivrEngineInit uni s.runtime.slot (progSrc s.nvs s.params) with
  | err code => simp [hinit] at h
  | panic => simp [hinit] at h
  | ok slot =>
    simp only [hinit, Reload.done.injEq] at h
    rw [← h]

/-! ### Runs -/

/-- No step makes the stored number smaller. -/
theorem le_otaStep (step : OtaStep) : s.nvs.otaSeq ≤ (otaStep b platform uni s step).nvs.otaSeq := by
  cases step with
  | push push savesSeq =>
    rw [otaStep]
    rcases otaPushNode_cases b platform s push savesSeq with hpush | ⟨hlt, -, hseq⟩
    · rw [hpush]
      exact UInt32.le_refl _
    · rw [hseq]
      exact UInt32.le_of_lt hlt
  | reload nowMs =>
    rw [otaStep]
    split_ifs
    · cases hreload : rivrEmbedReload uni nowMs s with
      | done s' => exact nvs_of_rivrEmbedReload_done hreload ▸ UInt32.le_refl _
      | failed s' => exact nvs_of_rivrEmbedReload_failed hreload ▸ UInt32.le_refl _
      | panic => exact UInt32.le_refl _
    · exact UInt32.le_refl _

theorem le_otaRun (steps : List OtaStep) :
    s.nvs.otaSeq ≤ (otaRun b platform uni s steps).nvs.otaSeq := by
  induction steps generalizing s with
  | nil => exact UInt32.le_refl _
  | cons step steps ih => exact UInt32.le_trans (le_otaStep step) ih

/-- **A failed activation is not retried.** The number of the payload is in the storage when its
activation fails, and the payload is refused after any pushes and reloads. -/
theorem activationFails_spent (b : ProgBuild) (platform : OtaPlatform) (uni : Char → Bool)
    (s : EmbedState) (push : OtaPush) (nowMs : UInt32) (s' : EmbedState)
    (h : ActivationFails b platform uni s push nowMs s') :
    s.nvs.otaSeq < otaSeqOf push.payload ∧ s'.nvs.otaSeq = otaSeqOf push.payload ∧
      ∀ steps again savesSeq, again.payload = push.payload →
        otaPushNode b platform (otaRun b platform uni s' steps) again savesSeq =
          (.rejected, otaRun b platform uni s' steps) := by
  have hstored : s.nvs.otaSeq < otaSeqOf push.payload ∧
      s'.nvs.otaSeq = otaSeqOf push.payload := by
    have hcases := otaPushNode_cases b platform s push true
    rcases h with hpush | ⟨stored, hpush, hreload⟩
    · rw [hpush] at hcases
      rcases hcases with hrejected | ⟨hlt, -, hseq⟩
      · exact OtaVerdict.noConfusion (Prod.ext_iff.mp hrejected).1
      · exact ⟨hlt, hseq⟩
    · rw [hpush] at hcases
      rcases hcases with hrejected | ⟨hlt, -, hseq⟩
      · exact OtaVerdict.noConfusion (Prod.ext_iff.mp hrejected).1
      · exact ⟨hlt, by rw [nvs_of_rivrEmbedReload_failed hreload, hseq]⟩
  refine ⟨hstored.1, hstored.2, fun steps again savesSeq heq => otaPushNode_of_le ?_⟩
  rw [heq, ← hstored.2]
  exact le_otaRun steps

/-! ### A text that is no program -/

/-- A build whose one key accepts every signature. -/
def signedBuild : ProgBuild :=
  { unsignedBuild with
    signedProg := true
    otaKeys := [List.replicate 32 0]
    ed25519VerifyDetached := fun _ _ _ => true }

/-- The first update, of a text that does not parse. -/
def helloUpdate : List UInt8 :=
  List.replicate 65 0 ++ [1, 0, 0, 0] ++ ascii "hello"

theorem otaPushNode_hello_notStored :
    otaPushNode signedBuild .esp32 blankState ⟨helloUpdate, false⟩ true =
      (.notStored, { blankState with nvs := ⟨none, 1, 0⟩ }) := by
  rfl

theorem otaPushNode_hello_accepted :
    otaPushNode signedBuild .esp32 blankState ⟨helloUpdate, true⟩ true =
      (.accepted, { blankState with
        nvs := ⟨some (ascii "hello"), 1, 1⟩
        reloadPending := true }) := by
  rfl

/-- The text is stored, and the reload does not take it. -/
theorem activationFails_hello : ∃ s', ActivationFails signedBuild .esp32 (fun _ => false) blankState
    ⟨helloUpdate, true⟩ 5 s' := by
  have hsrc : progSrc ⟨some (ascii "hello"), 1, 1⟩ blankState.params = ascii "hello" := by rfl
  have hinit : rivrEngineInit (fun _ => false) blankState.runtime.slot
      (progSrc ⟨some (ascii "hello"), 1, 1⟩ blankState.params) = .err .parse := by
    rw [hsrc, rivrEngineInit, buildEngine_hello]
  exact ⟨_, .inr ⟨_, otaPushNode_hello_accepted, by rw [rivrEmbedReload, hinit]⟩⟩

theorem activationFails_spent_hello : ∃ s' : EmbedState, s'.nvs.otaSeq = 1 ∧
    (otaPushNode signedBuild .esp32 s' ⟨helloUpdate, true⟩ true).1 = .rejected := by
  obtain ⟨s', hfails⟩ := activationFails_hello
  obtain ⟨-, hseq, hspent⟩ := activationFails_spent _ _ _ _ _ _ _ hfails
  exact ⟨s', hseq, congrArg Prod.fst (hspent [] ⟨helloUpdate, true⟩ true rfl)⟩

/-- The storage keeps the number of an update that it did not store. -/
theorem not_activation_retried : ¬∀ (b : ProgBuild) (platform : OtaPlatform) (uni : Char → Bool)
    (s : EmbedState) (push : OtaPush) (nowMs : UInt32) (s' : EmbedState),
      ActivationFails b platform uni s push nowMs s' →
        s'.nvs.otaSeq = s.nvs.otaSeq ∧
          (otaPushNode b platform s' ⟨push.payload, true⟩ true).1 = .accepted := by
  intro h
  have hseq := (h signedBuild .esp32 (fun _ => false) blankState ⟨helloUpdate, false⟩ 5 _
    (.inl otaPushNode_hello_notStored)).1
  exact absurd hseq (by decide)

end Rivr
