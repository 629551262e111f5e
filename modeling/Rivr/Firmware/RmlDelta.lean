import Mathlib.Algebra.Ring.Nat
import Rivr.Firmware.Rml

/-!
# Applying a delta in a buffer

`rml_apply_delta` as it works on memory: lengths of 16 and 32 bits, and copies into a buffer of
`RML_THREAD_TEXT_MAX` bytes, where a write past the buffer would be the end of the run (`none`). No
such write happens, and what stands in the buffer is the base with a range replaced
(`rmlApplyDelta_splices`).
-/

namespace Rivr

/-! ### The code -/

/-- `memcpy(out + off, src, …)`; `none` is a write past the buffer. -/
def memcpyAt (out : List UInt8) (off : ℕ) (src : List UInt8) : Option (List UInt8) :=
  if off + src.length ≤ out.length then
    some (out.take off ++ src ++ out.drop (off + src.length))
  else none

/-- A copy that is left out if there is nothing to copy. -/
def memcpyIf (out : List UInt8) (off : ℕ) (src : List UInt8) : Option (List UInt8) :=
  if src.isEmpty then some out else memcpyAt out off src

/-- `rml_apply_delta`: what it returns, the buffer, and `*out_len`. -/
def rmlApplyDeltaInto (base : RmlThreadEntry) (delta : RmlDelta) (out : List UInt8) :
    Option (Bool × List UInt8 × UInt16) :=
  let baseLen : UInt16 := .ofNat base.payload.length
  let dataLen : UInt16 := .ofNat delta.data.length
  if dataLen.toNat > rmlMaxPayload ∨ delta.offset > baseLen then some (false, out, 0)
  else if delta.op = rmlDeltaAppend then
    if (baseLen.toUInt32 + dataLen.toUInt32).toNat > rmlThreadTextMax then some (false, out, 0)
    else do
      let out ← memcpyAt out 0 base.payload
      let out ← memcpyIf out baseLen.toNat delta.data
      return (true, out, baseLen + dataLen)
  else if delta.op = rmlDeltaReplace then
    if delta.offset.toUInt32 + delta.deleteLen.toUInt32 > baseLen.toUInt32 then some (false, out, 0)
    else
      let tailOff := delta.offset + delta.deleteLen
      let tailLen := baseLen - tailOff
      let newLen := delta.offset.toUInt32 + dataLen.toUInt32 + tailLen.toUInt32
      if newLen.toNat > rmlThreadTextMax then some (false, out, 0)
      else do
        let out ← memcpyIf out 0 (base.payload.take delta.offset.toNat)
        let out ← memcpyIf out delta.offset.toNat delta.data
        let out ← memcpyIf out (delta.offset.toNat + dataLen.toNat)
          ((base.payload.drop tailOff.toNat).take tailLen.toNat)
        return (true, out, newLen.toUInt16)
  else if delta.op = rmlDeltaDeleteRange then
    if delta.offset.toUInt32 + delta.deleteLen.toUInt32 > baseLen.toUInt32 ∨ dataLen ≠ 0 then
      some (false, out, 0)
    else do
      let tailOff := delta.offset + delta.deleteLen
      let tailLen := baseLen - tailOff
      let out ← memcpyIf out 0 (base.payload.take delta.offset.toNat)
      let out ← memcpyIf out delta.offset.toNat
        ((base.payload.drop tailOff.toNat).take tailLen.toNat)
      return (true, out, delta.offset + tailLen)
  else some (false, out, 0)

/-! ### Copies one after the other -/

variable {out w b : List UInt8}

/-- A copy behind what was copied before. -/
theorem memcpyAt_append (hw : w <+: out) (hfit : w.length + b.length ≤ out.length) :
    ∃ out', memcpyAt out w.length b = some out' ∧ w ++ b <+: out' ∧
      out'.length = out.length := by
  refine ⟨_, if_pos hfit, ?_, ?_⟩
  · rw [← List.prefix_iff_eq_take.mp hw]
    exact List.prefix_append _ _
  · rw [List.length_append, List.length_append, List.length_take, List.length_drop]
    omega

theorem memcpyIf_append (hw : w <+: out) (hfit : w.length + b.length ≤ out.length) :
    ∃ out', memcpyIf out w.length b = some out' ∧ w ++ b <+: out' ∧
      out'.length = out.length := by
  rw [memcpyIf]
  split_ifs with hnil
  · rw [List.isEmpty_iff] at hnil
    exact ⟨out, rfl, by rwa [hnil, List.append_nil], rfl⟩
  · exact memcpyAt_append hw hfit

/-! ### Splicing -/

/-- The text with the addressed range replaced; data is appended at the end. -/
def RmlDelta.splice (delta : RmlDelta) (text : List UInt8) : List UInt8 :=
  if delta.op = rmlDeltaAppend then text ++ delta.data
  else text.take delta.offset.toNat ++ delta.data ++
    text.drop (delta.offset.toNat + delta.deleteLen.toNat)

/-- The range that the delta addresses lies in a text of `n` bytes. -/
def RmlDelta.Addresses (delta : RmlDelta) (n : ℕ) : Prop :=
  (delta.op = rmlDeltaAppend ∧ delta.offset.toNat ≤ n) ∨
    ((delta.op = rmlDeltaReplace ∨ delta.op = rmlDeltaDeleteRange ∧ delta.data = []) ∧
      delta.offset.toNat + delta.deleteLen.toNat ≤ n)

/-- The delta can be applied to the text: its range lies in it, and nothing is too long. -/
structure RmlDelta.AppliesTo (delta : RmlDelta) (text : List UInt8) : Prop where
  range : delta.Addresses text.length
  data : delta.data.length ≤ rmlMaxPayload
  result : (delta.splice text).length ≤ rmlThreadTextMax

variable {base : RmlThreadEntry} {delta : RmlDelta}

theorem splice_of_append (hop : delta.op = rmlDeltaAppend) (text : List UInt8) :
    delta.splice text = text ++ delta.data := if_pos hop

theorem splice_of_ne_append (hop : delta.op ≠ rmlDeltaAppend) (text : List UInt8) :
    delta.splice text = text.take delta.offset.toNat ++ delta.data ++
      text.drop (delta.offset.toNat + delta.deleteLen.toNat) := if_neg hop

theorem length_splice_of_ne_append (hop : delta.op ≠ rmlDeltaAppend) {text : List UInt8}
    (hoff : delta.offset.toNat ≤ text.length) :
    (delta.splice text).length = delta.offset.toNat + delta.data.length +
      (text.length - (delta.offset.toNat + delta.deleteLen.toNat)) := by
  rw [splice_of_ne_append hop, List.length_append, List.length_append, List.length_take,
    List.length_drop, Nat.min_eq_left hoff]

theorem appliesTo_iff_of_append (hop : delta.op = rmlDeltaAppend) {text : List UInt8}
    (hdata : delta.data.length ≤ rmlMaxPayload) (hoff : delta.offset.toNat ≤ text.length) :
    delta.AppliesTo text ↔ text.length + delta.data.length ≤ rmlThreadTextMax := by
  have hlen : (delta.splice text).length = text.length + delta.data.length := by
    rw [splice_of_append hop, List.length_append]
  exact ⟨fun h => hlen ▸ h.result, fun h => ⟨.inl ⟨hop, hoff⟩, hdata, hlen ▸ h⟩⟩

theorem appliesTo_iff_of_replace (hop : delta.op = rmlDeltaReplace) {text : List UInt8}
    (hdata : delta.data.length ≤ rmlMaxPayload) (hoff : delta.offset.toNat ≤ text.length) :
    delta.AppliesTo text ↔ delta.offset.toNat + delta.deleteLen.toNat ≤ text.length ∧
      delta.offset.toNat + delta.data.length +
        (text.length - (delta.offset.toNat + delta.deleteLen.toNat)) ≤ rmlThreadTextMax := by
  have hne : delta.op ≠ rmlDeltaAppend := by rw [hop]; decide
  have hlen := length_splice_of_ne_append hne hoff
  constructor
  · rintro ⟨⟨happend, -⟩ | ⟨-, hrange⟩, -, hres⟩
    · exact absurd happend hne
    · exact ⟨hrange, hlen ▸ hres⟩
  · rintro ⟨hrange, hres⟩
    exact ⟨.inr ⟨.inl hop, hrange⟩, hdata, hlen ▸ hres⟩

/-- Deleting makes no text too long. -/
theorem appliesTo_iff_of_deleteRange (hop : delta.op = rmlDeltaDeleteRange) {text : List UInt8}
    (hdata : delta.data.length ≤ rmlMaxPayload) (hoff : delta.offset.toNat ≤ text.length)
    (htext : text.length ≤ rmlThreadTextMax) :
    delta.AppliesTo text ↔
      delta.offset.toNat + delta.deleteLen.toNat ≤ text.length ∧ delta.data = [] := by
  have hne : delta.op ≠ rmlDeltaAppend := by rw [hop]; decide
  have hlen := length_splice_of_ne_append hne hoff
  constructor
  · rintro ⟨⟨happend, -⟩ | ⟨hreplace | ⟨-, hnil⟩, hrange⟩, -, -⟩
    · exact absurd happend hne
    · exact absurd (hop.symm.trans hreplace) (by decide)
    · exact ⟨hrange, hnil⟩
  · rintro ⟨hrange, hnil⟩
    refine ⟨.inr ⟨.inr ⟨hop, hnil⟩, hrange⟩, hdata, ?_⟩
    rw [hnil, List.length_nil] at hlen
    omega

/-! ### The code writes the splice -/

/-- What the code returns with `result`: the splice stands at the start of the buffer. -/
def RmlDelta.WritesSplice (delta : RmlDelta) (text out : List UInt8)
    (result : Option (Bool × List UInt8 × UInt16)) : Prop :=
  ∃ out' len, result = some (true, out', len) ∧ delta.splice text <+: out' ∧
    len.toNat = (delta.splice text).length ∧ out'.length = out.length

/-- Two copies one behind the other. -/
theorem memcpyIf_two {a b : List UInt8} {i : ℕ} (hi : i = a.length)
    (hfit : a.length + b.length ≤ out.length) :
    ∃ out', ((memcpyIf out 0 a).bind fun out => memcpyIf out i b) = some out' ∧ a ++ b <+: out' ∧
      out'.length = out.length := by
  obtain ⟨out₁, heq₁, hpre₁, hlen₁⟩ := memcpyIf_append (List.nil_prefix (l := out)) (b := a)
    (by rw [List.length_nil]; omega)
  rw [List.length_nil] at heq₁
  rw [List.nil_append] at hpre₁
  obtain ⟨out₂, heq₂, hpre₂, hlen₂⟩ := memcpyIf_append (b := b) hpre₁ (by omega)
  exact ⟨out₂, by rw [heq₁, Option.bind_some, hi, heq₂], hpre₂, hlen₂.trans hlen₁⟩

/-- Three copies one behind the other. -/
theorem memcpyIf_three {a b c : List UInt8} {i j : ℕ} (hi : i = a.length)
    (hj : j = a.length + b.length) (hfit : a.length + b.length + c.length ≤ out.length) :
    ∃ out', ((memcpyIf out 0 a).bind fun out => (memcpyIf out i b).bind fun out =>
        memcpyIf out j c) = some out' ∧ a ++ b ++ c <+: out' ∧ out'.length = out.length := by
  obtain ⟨out₂, heq₂, hpre₂, hlen₂⟩ :=
    memcpyIf_two (b := b) hi (by omega : a.length + b.length ≤ out.length)
  obtain ⟨out₃, heq₃, hpre₃, hlen₃⟩ := memcpyIf_append (b := c) hpre₂
    (by rw [List.length_append]; omega)
  rw [List.length_append, ← hj] at heq₃
  rw [← Option.bind_assoc, heq₂]
  exact ⟨out₃, heq₃, hpre₃, hlen₃.trans hlen₂⟩

variable {k : List UInt8 → Option (Bool × List UInt8 × UInt16)}

theorem toNat_baseLen (hbase : base.payload.length ≤ rmlThreadTextMax) :
    (UInt16.ofNat base.payload.length).toNat = base.payload.length := by
  rw [rmlThreadTextMax] at hbase
  exact UInt16.toNat_ofNat_of_lt' (by rw [UInt16.size]; omega)

/-- The range check in 32 bits is the one over the numbers. -/
theorem lt_addressed_iff (hbase : base.payload.length ≤ rmlThreadTextMax) :
    delta.offset.toUInt32 + delta.deleteLen.toUInt32 >
        (UInt16.ofNat base.payload.length).toUInt32 ↔
      base.payload.length < delta.offset.toNat + delta.deleteLen.toNat := by
  have hoff := delta.offset.toNat_lt
  have hdel := delta.deleteLen.toNat_lt
  rw [gt_iff_lt, UInt32.lt_iff_toNat_lt, UInt32.toNat_add, UInt16.toNat_toUInt32,
    UInt16.toNat_toUInt32, UInt16.toNat_toUInt32, toNat_baseLen hbase, Nat.mod_eq_of_lt (by omega)]

/-- Behind a range that lies in the base, the code finds the rest of it. -/
theorem toNat_tailLen (hbase : base.payload.length ≤ rmlThreadTextMax)
    (hrange : delta.offset.toNat + delta.deleteLen.toNat ≤ base.payload.length) :
    (UInt16.ofNat base.payload.length - (delta.offset + delta.deleteLen)).toNat =
      base.payload.length - (delta.offset.toNat + delta.deleteLen.toNat) := by
  have hlen := toNat_baseLen hbase
  have hlt := (UInt16.ofNat base.payload.length).toNat_lt
  have hsum : (delta.offset + delta.deleteLen).toNat =
      delta.offset.toNat + delta.deleteLen.toNat := by
    rw [UInt16.toNat_add, Nat.mod_eq_of_lt (by omega)]
  rw [UInt16.toNat_sub_of_le _ _ (by rw [UInt16.le_iff_toNat_le]; omega), hlen, hsum]

theorem tail_eq (hbase : base.payload.length ≤ rmlThreadTextMax)
    (hrange : delta.offset.toNat + delta.deleteLen.toNat ≤ base.payload.length) :
    (base.payload.drop (delta.offset + delta.deleteLen).toNat).take
        (UInt16.ofNat base.payload.length - (delta.offset + delta.deleteLen)).toNat =
      base.payload.drop (delta.offset.toNat + delta.deleteLen.toNat) := by
  have hlt := (UInt16.ofNat base.payload.length).toNat_lt
  rw [toNat_tailLen hbase hrange, UInt16.toNat_add, Nat.mod_eq_of_lt
    (by rw [toNat_baseLen hbase] at hlt; omega)]
  exact List.take_of_length_le (by rw [List.length_drop])

/-- **What the code does**: it writes the splice, or it refuses and reports no text. -/
theorem rmlApplyDeltaInto_cases (hbase : base.payload.length ≤ rmlThreadTextMax)
    (hdata : delta.data.length < 2 ^ 16) (hout : out.length = rmlThreadTextMax) :
    (delta.AppliesTo base.payload ∧
        delta.WritesSplice base.payload out (rmlApplyDeltaInto base delta out)) ∨
      (¬delta.AppliesTo base.payload ∧ rmlApplyDeltaInto base delta out = some (false, out, 0)) := by
  have hbaseLen := toNat_baseLen hbase
  have hdataLen : (UInt16.ofNat delta.data.length).toNat = delta.data.length :=
    UInt16.toNat_ofNat_of_lt' hdata
  have hmax : rmlThreadTextMax = 160 := rfl
  have hmax' : rmlMaxPayload = 160 := rfl
  rw [rmlApplyDeltaInto]
  dsimp only
  split_ifs with hguard happend hlong hreplace hpast hlong hdelete hpast
  · -- the checks made for every operation
    refine .inr ⟨fun h => ?_, rfl⟩
    rw [hdataLen, gt_iff_lt, gt_iff_lt, UInt16.lt_iff_toNat_lt, hbaseLen] at hguard
    rcases h.range with ⟨-, hle⟩ | ⟨-, hle⟩
    · exact hguard.elim (Nat.not_lt.mpr h.data) (Nat.not_lt.mpr hle)
    · exact hguard.elim (Nat.not_lt.mpr h.data) (by omega)
  all_goals
    rw [hdataLen, gt_iff_lt, gt_iff_lt, UInt16.lt_iff_toNat_lt, hbaseLen, not_or, Nat.not_lt,
      Nat.not_lt] at hguard
    obtain ⟨hfits, hinside⟩ := hguard
  · -- append
    rw [UInt32.toNat_add, UInt16.toNat_toUInt32, UInt16.toNat_toUInt32, hbaseLen, hdataLen,
      Nat.mod_eq_of_lt (by omega)] at hlong
    exact .inr ⟨by rw [appliesTo_iff_of_append happend hfits hinside]; omega, rfl⟩
  · rw [UInt32.toNat_add, UInt16.toNat_toUInt32, UInt16.toNat_toUInt32, hbaseLen, hdataLen,
      Nat.mod_eq_of_lt (by omega), gt_iff_lt, Nat.not_lt] at hlong
    refine .inl ⟨(appliesTo_iff_of_append happend hfits hinside).mpr hlong, ?_⟩
    obtain ⟨out₁, heq₁, hpre₁, hlen₁⟩ := memcpyAt_append (List.nil_prefix (l := out))
      (b := base.payload) (by rw [List.length_nil]; omega)
    rw [List.nil_append] at hpre₁
    obtain ⟨out₂, heq₂, hpre₂, hlen₂⟩ := memcpyIf_append (b := delta.data) hpre₁ (by omega)
    refine ⟨out₂, .ofNat base.payload.length + .ofNat delta.data.length, ?_, ?_, ?_,
      hlen₂.trans hlen₁⟩
    · rw [List.length_nil] at heq₁
      rw [heq₁, Option.bind_eq_bind, Option.bind_some, hbaseLen, heq₂]
      rfl
    · rwa [splice_of_append happend]
    · rw [splice_of_append happend, List.length_append, UInt16.toNat_add, hbaseLen, hdataLen,
        Nat.mod_eq_of_lt (by omega)]
  · -- replace
    rw [lt_addressed_iff hbase] at hpast
    exact .inr ⟨by rw [appliesTo_iff_of_replace hreplace hfits hinside]; omega, rfl⟩
  · rw [lt_addressed_iff hbase, Nat.not_lt] at hpast
    have htail := toNat_tailLen hbase hpast
    rw [UInt32.toNat_add, UInt32.toNat_add, UInt16.toNat_toUInt32, UInt16.toNat_toUInt32,
      UInt16.toNat_toUInt32, hdataLen, htail] at hlong
    exact .inr ⟨by rw [appliesTo_iff_of_replace hreplace hfits hinside]; omega, rfl⟩
  · rw [lt_addressed_iff hbase, Nat.not_lt] at hpast
    have htail := toNat_tailLen hbase hpast
    have hnew : (delta.offset.toUInt32 + (UInt16.ofNat delta.data.length).toUInt32 +
        (UInt16.ofNat base.payload.length - (delta.offset + delta.deleteLen)).toUInt32).toNat =
          delta.offset.toNat + delta.data.length +
            (base.payload.length - (delta.offset.toNat + delta.deleteLen.toNat)) := by
      rw [UInt32.toNat_add, UInt32.toNat_add, UInt16.toNat_toUInt32, UInt16.toNat_toUInt32,
        UInt16.toNat_toUInt32, hdataLen, htail]
      omega
    rw [hnew, gt_iff_lt, Nat.not_lt] at hlong
    refine .inl ⟨(appliesTo_iff_of_replace hreplace hfits hinside).mpr ⟨hpast, hlong⟩, ?_⟩
    have hhead := List.length_take_of_le hinside
    have hfit : (base.payload.take delta.offset.toNat).length + delta.data.length +
        (base.payload.drop (delta.offset.toNat + delta.deleteLen.toNat)).length ≤ out.length := by
      rwa [hhead, List.length_drop, hout]
    obtain ⟨out', heq, hpre, hlen⟩ := memcpyIf_three hhead.symm (congrArg (· + _) hhead.symm) hfit
    refine ⟨out', (delta.offset.toUInt32 + (UInt16.ofNat delta.data.length).toUInt32 +
      (UInt16.ofNat base.payload.length - (delta.offset + delta.deleteLen)).toUInt32).toUInt16,
      ?_, ?_, ?_, hlen⟩
    · have hk := congrArg (Option.bind · fun out => some (true, out, (delta.offset.toUInt32 +
        (UInt16.ofNat delta.data.length).toUInt32 + (UInt16.ofNat base.payload.length -
          (delta.offset + delta.deleteLen)).toUInt32).toUInt16)) heq
      simp only [Option.bind_assoc, Option.bind_some] at hk
      rw [tail_eq hbase hpast, hdataLen]
      exact hk
    · rwa [splice_of_ne_append happend]
    · rw [length_splice_of_ne_append happend hinside, UInt32.toNat_toUInt16, hnew]
      omega
  · -- delete
    rw [lt_addressed_iff hbase] at hpast
    refine .inr ⟨?_, rfl⟩
    rw [appliesTo_iff_of_deleteRange hdelete hfits hinside hbase]
    rintro ⟨hrange, hnil⟩
    refine hpast.elim (Nat.not_lt.mpr hrange) fun hne => hne ?_
    rw [hnil, List.length_nil]
    rfl
  · rw [lt_addressed_iff hbase, not_or, Nat.not_lt, not_ne_iff] at hpast
    obtain ⟨hrange, hzero⟩ := hpast
    have hnil : delta.data = [] := by
      rw [← List.length_eq_zero_iff, ← hdataLen, hzero]
      rfl
    have htail := toNat_tailLen hbase hrange
    refine .inl ⟨(appliesTo_iff_of_deleteRange hdelete hfits hinside hbase).mpr ⟨hrange, hnil⟩, ?_⟩
    have hhead := List.length_take_of_le hinside
    have hfit : (base.payload.take delta.offset.toNat).length +
        (base.payload.drop (delta.offset.toNat + delta.deleteLen.toNat)).length ≤ out.length := by
      rw [hhead, List.length_drop, hout]
      omega
    obtain ⟨out', heq, hpre, hlen⟩ := memcpyIf_two hhead.symm hfit
    refine ⟨out', delta.offset +
      (UInt16.ofNat base.payload.length - (delta.offset + delta.deleteLen)), ?_, ?_, ?_, hlen⟩
    · have hk := congrArg (Option.bind · fun out => some (true, out, delta.offset +
        (UInt16.ofNat base.payload.length - (delta.offset + delta.deleteLen)))) heq
      simp only [Option.bind_assoc, Option.bind_some] at hk
      rw [tail_eq hbase hrange]
      exact hk
    · rwa [splice_of_ne_append happend, hnil, List.append_nil]
    · rw [length_splice_of_ne_append happend hinside, UInt16.toNat_add, htail, hnil,
        List.length_nil]
      omega
  · -- no operation of these
    refine .inr ⟨fun h => ?_, rfl⟩
    rcases h.range with ⟨hop, -⟩ | ⟨hop | ⟨hop, -⟩, -⟩
    · exact happend hop
    · exact hreplace hop
    · exact hdelete hop

/-- The buffer holds what `rmlApplyDelta` computes on lists. -/
theorem rmlApplyDelta_eq_some_iff (hbase : base.payload.length ≤ rmlThreadTextMax)
    {text : List UInt8} :
    rmlApplyDelta base delta = some text ↔
      delta.AppliesTo base.payload ∧ text = delta.splice base.payload := by
  rw [rmlApplyDelta]
  split_ifs with hguard happend hlong hreplace hpast hlong hdelete hpast
  · refine iff_of_false (by simp) fun h => ?_
    rcases h.1.range with ⟨-, hle⟩ | ⟨-, hle⟩
    · exact hguard.elim (Nat.not_lt.mpr h.1.data) (Nat.not_lt.mpr hle)
    · exact hguard.elim (Nat.not_lt.mpr h.1.data) (by omega)
  all_goals
    rw [gt_iff_lt, gt_iff_lt, not_or, Nat.not_lt, Nat.not_lt] at hguard
    obtain ⟨hfits, hinside⟩ := hguard
  · -- append
    rw [appliesTo_iff_of_append happend hfits hinside]
    exact iff_of_false (by simp) fun h => absurd h.1 (Nat.not_le.mpr hlong)
  · rw [appliesTo_iff_of_append happend hfits hinside, splice_of_append happend, Option.some_inj,
      and_iff_right (Nat.not_lt.mp hlong), eq_comm]
  · -- replace
    rw [appliesTo_iff_of_replace hreplace hfits hinside]
    exact iff_of_false (by simp) fun h => absurd h.1.1 (Nat.not_le.mpr hpast)
  · rw [appliesTo_iff_of_replace hreplace hfits hinside]
    exact iff_of_false (by simp) fun h => absurd h.1.2 (Nat.not_le.mpr hlong)
  · rw [appliesTo_iff_of_replace hreplace hfits hinside, splice_of_ne_append happend,
      Option.some_inj, and_iff_right ⟨Nat.not_lt.mp hpast, Nat.not_lt.mp hlong⟩, eq_comm]
  · -- delete
    rw [appliesTo_iff_of_deleteRange hdelete hfits hinside hbase]
    refine iff_of_false (by simp) fun h => hpast.elim (Nat.not_lt.mpr h.1.1) fun hne => hne ?_
    rw [h.1.2, List.isEmpty_nil]
  · rw [not_or, not_not, List.isEmpty_iff, gt_iff_lt, Nat.not_lt] at hpast
    rw [appliesTo_iff_of_deleteRange hdelete hfits hinside hbase, splice_of_ne_append happend,
      Option.some_inj, and_iff_right hpast, hpast.2, List.append_nil, eq_comm]
  · refine iff_of_false (by simp) fun h => ?_
    rcases h.1.range with ⟨hop, -⟩ | ⟨hop | ⟨hop, -⟩, -⟩
    · exact happend hop
    · exact hreplace hop
    · exact hdelete hop

/-- **A delta is applied as a splice**: what the code returns, for any delta and any text. -/
theorem rmlApplyDelta_splices (base : RmlThreadEntry) (delta : RmlDelta) (out : List UInt8)
    (hbase : base.payload.length ≤ rmlThreadTextMax) (hdata : delta.data.length < 2 ^ 16)
    (hout : out.length = rmlThreadTextMax) :
    ∃ ok out' len, rmlApplyDeltaInto base delta out = some (ok, out', len) ∧
      out'.length = out.length ∧ (ok = true ↔ delta.AppliesTo base.payload) ∧
        (ok = true → out'.take len.toNat = delta.splice base.payload) ∧ (ok = false → len = 0) := by
  rcases rmlApplyDeltaInto_cases hbase hdata hout with
    ⟨happ, out', len, heq, hpre, hlen, hsame⟩ | ⟨hnot, heq⟩
  · refine ⟨true, out', len, heq, hsame, iff_of_true rfl happ, fun _ => ?_,
      fun h => absurd h.symm Bool.false_ne_true⟩
    rw [hlen]
    exact (List.prefix_iff_eq_take.mp hpre).symm
  · exact ⟨false, out, 0, heq, rfl, iff_of_false Bool.false_ne_true hnot,
      fun h => absurd h Bool.false_ne_true, fun _ => rfl⟩

theorem rmlApplyDelta_splices_greeting :
    ∃ ok out' len, rmlApplyDeltaInto
        { RmlThreadEntry.empty with payload := [0x68, 0x69, 0x21] }
        { op := rmlDeltaReplace, offset := 1, deleteLen := 1, data := [0x6f, 0x70] }
        (List.replicate 160 0) = some (ok, out', len) ∧ ok = true ∧
      out'.take len.toNat = [0x68, 0x6f, 0x70, 0x21] := by
  obtain ⟨ok, out', len, heq, -, hok, htext, -⟩ := rmlApplyDelta_splices
    { RmlThreadEntry.empty with payload := [0x68, 0x69, 0x21] }
    { op := rmlDeltaReplace, offset := 1, deleteLen := 1, data := [0x6f, 0x70] }
    (List.replicate 160 0) (by decide) (by decide) List.length_replicate
  have happ : ok = true := hok.mpr ⟨.inr ⟨.inl rfl, by decide⟩, by decide, by decide⟩
  exact ⟨ok, out', len, heq, happ, htext happ⟩

end Rivr
