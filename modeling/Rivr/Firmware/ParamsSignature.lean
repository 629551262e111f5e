import Rivr.Firmware.PolicyParams

/-!
# What the signature of a parameter update covers

The signature of an update is over the bytes before ` sig=`, and its parameters are read from the
whole text. A key that the covered bytes hold is read from them, whatever follows
(`applyParams_covered`); a key that they do not hold can be appended after the signature
(`update_appended`). Hence what is applied is determined by the covered bytes exactly when they hold
every key (`params_authentic_iff`).
-/

open CString Utf8

namespace Rivr

/-- The bytes that the signature covers. -/
def coveredBytes (payload : List UInt8) : List UInt8 :=
  let buf := cstr payload
  match strstr (ascii " sig=") buf with
  | none => buf
  | some sigField => buf.take (buf.length - sigField.length)

/-- The payload is an update whose signature is accepted. -/
def ParamsAccepted (gate : ParamsGate) (payload : List UInt8) : Prop :=
  isParamsPush payload = true ∧ rivrVerifyParamsSig gate (cstr payload) = true

/-- Every accepted update with the same covered bytes leaves the same parameters. -/
def AppliesCovered (gate : ParamsGate) (payload : List UInt8) : Prop :=
  ∀ payload', ParamsAccepted gate payload' → coveredBytes payload' = coveredBytes payload →
    ∀ p, applyParams (cstr payload') p = applyParams (cstr payload) p

/-- The keys that an update can set, with their parameters. -/
def paramKeys : List (String × RivrParamId) :=
  [("beacon=", .beaconInterval), ("chat=", .chatThrottle), ("data=", .dataThrottle),
   ("duty=", .dutyPercent), ("role=", .role)]

variable {gate : ParamsGate} {payload : List UInt8}

/-! ### The signature field -/

/-- The text of an accepted update: the covered bytes, the mark of the signature, and the rest. -/
theorem cstr_of_accepted (hsigned : gate.signedParams = true) (hunsigned : gate.allowUnsigned = false)
    (h : rivrVerifyParamsSig gate (cstr payload) = true) :
    ∃ rest, cstr payload = coveredBytes payload ++ (ascii " sig=" ++ rest) ∧
      strstr (ascii " sig=") (cstr payload) = some (ascii " sig=" ++ rest) := by
  rw [rivrVerifyParamsSig, hsigned] at h
  rcases hfind : strstr (ascii " sig=") (cstr payload) with _ | sigField
  · rw [hfind] at h
    simp [hunsigned] at h
  · obtain ⟨p, hp, rest, rfl⟩ := eq_append_of_strstr hfind
    refine ⟨rest, ?_, rfl⟩
    have hcov : coveredBytes payload = p := by
      simp only [coveredBytes, hfind]
      rw [hp, List.length_append, Nat.add_sub_cancel, List.take_left]
    rw [hcov]
    exact hp

/-! ### Keys among the covered bytes -/

/-- A key has no blank. -/
theorem notMem_blank_of_paramKeys : ∀ key ∈ paramKeys, (32 : UInt8) ∉ ascii key.1 := by decide

theorem ne_nil_of_paramKeys : ∀ key ∈ paramKeys, ascii key.1 ≠ [] := by decide

/-- A key among the covered bytes is found there. -/
theorem strstr_covered {key covered : List UInt8} (hne : key ≠ []) (hblank : (32 : UInt8) ∉ key)
    (h : key <:+: covered) : ∃ u, ∀ y,
      strstr key (covered ++ 32 :: y) = some (key ++ (u ++ 32 :: y)) := by
  have hsome : (strstr key covered).isSome := strstr_isSome hne h
  obtain ⟨r, hr⟩ := Option.isSome_iff_exists.mp hsome
  obtain ⟨-, -, u, rfl⟩ := eq_append_of_strstr hr
  refine ⟨u, fun y => ?_⟩
  rw [strstr_append_sep hne hblank, hr]
  simp

/-- The number after a covered key does not depend on what follows the covered bytes. -/
theorem scanParam_covered {key covered : List UInt8} (hne : key ≠ [])
    (hblank : (32 : UInt8) ∉ key) (h : key <:+: covered) (x y : List UInt8) :
    scanParam key (covered ++ 32 :: 115 :: x) = scanParam key (covered ++ 32 :: 115 :: y) := by
  obtain ⟨u, hu⟩ := strstr_covered hne hblank h
  simp only [scanParam, hu, Option.bind_some, List.drop_left]
  exact scanUlong_append_blank (by decide) (by decide) (by decide) u x y

/-- The word of a role ends at a blank. -/
theorem roleToken_append_blank (u y : List UInt8) : roleToken (u ++ 32 :: y) = roleToken u := by
  have h : (u ++ 32 :: y).takeWhile (fun b => !isFieldEnd b) =
      u.takeWhile fun b => !isFieldEnd b := by
    induction u with
    | nil => rfl
    | cons b u ih => simp only [List.cons_append, List.takeWhile_cons, ih]
  rw [roleToken, roleToken, h]

/-- With every key among the covered bytes, what follows them does not matter. -/
theorem applyParams_covered {covered : List UInt8}
    (h : ∀ key ∈ paramKeys, ascii key.1 <:+: covered) (x y : List UInt8) (p : PolicyParams) :
    applyParams (covered ++ 32 :: 115 :: x) p = applyParams (covered ++ 32 :: 115 :: y) p := by
  have hscan : ∀ key ∈ paramKeys, scanParam (ascii key.1) (covered ++ 32 :: 115 :: x) =
      scanParam (ascii key.1) (covered ++ 32 :: 115 :: y) := fun key hkey =>
    scanParam_covered (ne_nil_of_paramKeys key hkey) (notMem_blank_of_paramKeys key hkey)
      (h key hkey) x y
  have happly : ∀ key ∈ paramKeys, ∀ p, applyParam key.1 key.2 (covered ++ 32 :: 115 :: x) p =
      applyParam key.1 key.2 (covered ++ 32 :: 115 :: y) p := fun key hkey p => by
    rw [applyParam, applyParam, hscan key hkey]
  have hrole : ∀ p, applyRole (covered ++ 32 :: 115 :: x) p =
      applyRole (covered ++ 32 :: 115 :: y) p := by
    intro p
    have hmem : ("role=", RivrParamId.role) ∈ paramKeys := by decide
    obtain ⟨u, hu⟩ := strstr_covered (ne_nil_of_paramKeys _ hmem) (notMem_blank_of_paramKeys _ hmem)
      (h _ hmem)
    have hdrop : ∀ z : List UInt8, (ascii "role=" ++ z).drop 5 = z := fun z => rfl
    simp only [applyRole, hu, hdrop, roleToken_append_blank]
  simp only [applyParams, hrole]
  rw [happly ("duty=", .dutyPercent) (by decide), happly ("data=", .dataThrottle) (by decide),
    happly ("chat=", .chatThrottle) (by decide), happly ("beacon=", .beaconInterval) (by decide)]

/-! ### Signing a text -/

/-- The digit of a half byte. -/
def hexChar (n : ℕ) : UInt8 := if n < 10 then UInt8.ofNat (48 + n) else UInt8.ofNat (87 + n)

/-- Bytes in hexadecimal. -/
def hexLower (bytes : List UInt8) : List UInt8 :=
  bytes.flatMap fun b => [hexChar (b.toNat / 16), hexChar (b.toNat % 16)]

/-- The covered bytes with their signature, a blank, and more. -/
def signedThen (gate : ParamsGate) (covered more : List UInt8) : List UInt8 :=
  covered ++ (ascii " sig=" ++
    (hexLower (rivrHmacSha256 (pskInit gate.pskHex) covered) ++ 32 :: more))

/-- What a digit of a half byte is. -/
theorem hexChar_spec : ∀ n < 16, hexDigit (hexChar n) = some n ∧ isFieldEnd (hexChar n) = false ∧
    isSpace (hexChar n) = false ∧ hexChar n ≠ 0 ∧ hexChar n ∈ ascii "0123456789abcdef" := by
  decide

theorem length_hexLower (bytes : List UInt8) : (hexLower bytes).length = 2 * bytes.length := by
  induction bytes with
  | nil => rfl
  | cons b bytes ih =>
    rw [hexLower, List.flatMap_cons, List.length_append, ← hexLower, ih, List.length_cons]
    simp only [List.length_cons, List.length_nil]
    omega

theorem mem_hexLower {bytes : List UInt8} {x : UInt8} (h : x ∈ hexLower bytes) :
    ∃ n < 16, x = hexChar n := by
  obtain ⟨b, -, hx⟩ := List.mem_flatMap.mp h
  have hb := b.toNat_lt
  rcases List.mem_pair.mp hx with rfl | rfl
  · exact ⟨_, by omega, rfl⟩
  · exact ⟨_, by omega, rfl⟩

/-- A code in hexadecimal is decoded to itself. -/
theorem decodeMac_hexLower (mac rest : List UInt8) :
    decodeMac mac.length (hexLower mac ++ rest) = some mac := by
  induction mac with
  | nil => rfl
  | cons b mac ih =>
    have hb := b.toNat_lt
    obtain ⟨hhi, -, hspace, -⟩ := hexChar_spec (b.toNat / 16) (by omega)
    obtain ⟨hlo, -⟩ := hexChar_spec (b.toNat % 16) (by omega)
    have htext : hexLower (b :: mac) ++ rest =
        hexChar (b.toNat / 16) :: hexChar (b.toNat % 16) :: (hexLower mac ++ rest) := rfl
    have hbyte : 16 * (b.toNat / 16) + b.toNat % 16 = b.toNat := Nat.div_add_mod _ _
    rw [htext, List.length_cons, decodeMac, scanHex2, List.dropWhile_cons_of_neg (by simp [hspace]),
      scanHexPair, hhi]
    simp only [List.head?_cons, Option.bind_some, hlo, hbyte, List.drop_succ_cons, List.drop_zero,
      ih, Option.map_some]
    simp

/-- No byte of a text is NUL. -/
def NulFree (s : List UInt8) : Prop := ∀ b ∈ s, b ≠ 0

theorem cstr_of_nulFree {s : List UInt8} (h : NulFree s) : cstr s = s :=
  List.takeWhile_eq_self_iff.mpr fun b hb => by simpa using h b hb

theorem nulFree_cstr (s : List UInt8) : NulFree (cstr s) := fun b hb => by
  simpa using List.mem_takeWhile_imp hb

theorem nulFree_signedThen {covered more : List UInt8} (hcov : NulFree covered)
    (hmore : NulFree more) : NulFree (signedThen gate covered more) := by
  intro b hb
  simp only [signedThen, List.mem_append, List.mem_cons] at hb
  rcases hb with hb | hb | hb | rfl | hb
  · exact hcov b hb
  · revert b
    decide
  · obtain ⟨n, hn, rfl⟩ := mem_hexLower hb
    exact (hexChar_spec n hn).2.2.2.1
  · decide
  · exact hmore b hb

/-- The mark of the signature is found at the end of what was covered before. -/
theorem strstr_signedThen {covered rest : List UInt8}
    (h : strstr (ascii " sig=") (covered ++ (ascii " sig=" ++ rest)) = some (ascii " sig=" ++ rest))
    (more : List UInt8) : ∃ tail, strstr (ascii " sig=") (signedThen gate covered more) =
      some (ascii " sig=" ++ tail) ∧ signedThen gate covered more = covered ++ (ascii " sig=" ++ tail) :=
  ⟨_, strstr_append_self_of h, rfl⟩

/-- Whatever is appended to a signed text, its covered bytes are the same. -/
theorem coveredBytes_signedThen {covered rest more : List UInt8} (hcov : NulFree covered)
    (hmore : NulFree more)
    (h : strstr (ascii " sig=") (covered ++ (ascii " sig=" ++ rest)) = some (ascii " sig=" ++ rest)) :
    coveredBytes (signedThen gate covered more) = covered := by
  obtain ⟨tail, hfind, htext⟩ := @strstr_signedThen gate _ _ h more
  simp only [coveredBytes, cstr_of_nulFree (nulFree_signedThen hcov hmore), hfind]
  rw [htext, List.length_append, Nat.add_sub_cancel, List.take_left]

/-- Whatever is appended to a signed text, it is accepted. -/
theorem accepted_signedThen {covered rest more : List UInt8} (hcov : NulFree covered)
    (hmore : NulFree more) (hparams : (ascii "@PARAMS").isPrefixOf covered = true)
    (h : strstr (ascii " sig=") (covered ++ (ascii " sig=" ++ rest)) = some (ascii " sig=" ++ rest)) :
    ParamsAccepted gate (signedThen gate covered more) := by
  obtain ⟨t, ht⟩ := List.isPrefixOf_iff_prefix.mp hparams
  have hcstr := cstr_of_nulFree (@nulFree_signedThen gate _ _ hcov hmore)
  constructor
  · rw [isParamsPush, hcstr, Bool.and_eq_true, decide_eq_true_eq, List.isPrefixOf_iff_prefix]
    have hlen : (ascii "@PARAMS").length = 7 := by decide
    refine ⟨?_, t ++ (ascii " sig=" ++ (hexLower (rivrHmacSha256 (pskInit gate.pskHex) covered) ++
      32 :: more)), ?_⟩
    · simp only [signedThen, ← ht, List.length_append, hlen]
      omega
    · simp only [signedThen, ← ht, List.append_assoc]
  · have hmac := length_rivrHmacSha256 (pskInit gate.pskHex) covered
    -- the first signature field is the one that was inserted, whatever follows it
    have hfind := strstr_append_self_of (y := hexLower (rivrHmacSha256 (pskInit gate.pskHex) covered)
      ++ 32 :: more) h
    have hfive : ∀ z : List UInt8, (ascii " sig=" ++ z).drop 5 = z := fun z => rfl
    have hfield : ((hexLower (rivrHmacSha256 (pskInit gate.pskHex) covered) ++ 32 :: more).takeWhile
        fun b => !isFieldEnd b).length = 64 := by
      rw [List.takeWhile_append_of_pos fun b hb => ?_, List.takeWhile_cons_of_neg (by decide),
        List.append_nil, length_hexLower, hmac]
      obtain ⟨n, hn, rfl⟩ := mem_hexLower hb
      simp [(hexChar_spec n hn).2.1]
    have hdecode := decodeMac_hexLower (rivrHmacSha256 (pskInit gate.pskHex) covered) (32 :: more)
    rw [hmac] at hdecode
    rw [rivrVerifyParamsSig, hcstr, signedThen, hfind]
    simp only [hfive, hfield, hdecode, List.length_append, Nat.add_sub_cancel, List.take_left]
    simp

/-! ### Keys after the signature -/

/-- A key that the covered bytes do not hold is found where it was appended. -/
theorem strstr_appended {key covered v : List UInt8} (hne : key ≠ []) (hblank : (32 : UInt8) ∉ key)
    {c : UInt8} (hc : c ∈ key) (hsig : c ∉ ascii "sig=0123456789abcdef")
    (h : strstr key covered = none) :
    strstr key (signedThen gate covered (key ++ v)) = some (key ++ v) := by
  have hmark : ascii " sig=" = 32 :: ascii "sig=" := by decide
  have hnone : strstr key (ascii "sig=" ++ hexLower (rivrHmacSha256 (pskInit gate.pskHex) covered)) =
      none := by
    refine strstr_eq_none_of_notMem hc fun hmem => ?_
    have hall : ascii "sig=0123456789abcdef" = ascii "sig=" ++ ascii "0123456789abcdef" := by decide
    rw [hall, List.mem_append, not_or] at hsig
    rcases List.mem_append.mp hmem with hmem | hmem
    · exact hsig.1 hmem
    · obtain ⟨n, hn, rfl⟩ := mem_hexLower hmem
      exact hsig.2 (hexChar_spec n hn).2.2.2.2
  rw [signedThen, hmark, List.cons_append, strstr_append_sep hne hblank, h, ← List.append_assoc]
  dsimp only
  rw [strstr_append_sep hne hblank, hnone]
  exact strstr_of_prefix hne (List.prefix_append key v)

/-- A parameter by its id. -/
def PolicyParams.get (p : PolicyParams) : RivrParamId → UInt32
  | .beaconInterval => p.beaconIntervalMs
  | .beaconJitter => p.beaconJitterMs
  | .chatThrottle => p.chatThrottleMs
  | .dataThrottle => p.dataThrottleMs
  | .dutyPercent => p.dutyPercent.toUInt32
  | .role => p.role.toUInt32

/-- Setting a parameter leaves the others. -/
theorem get_setParam_of_ne {id id' : RivrParamId} (h : id ≠ id') (p : PolicyParams) (v : UInt32) :
    (rivrPolicySetParam p id v).get id' = p.get id' := by
  cases id <;> simp only [rivrPolicySetParam] <;> split_ifs <;> cases id' <;>
    first | rfl | exact absurd rfl h

theorem get_applyParam_of_ne {key : String} {id id' : RivrParamId} (h : id ≠ id')
    (prog : List UInt8) (p : PolicyParams) : (applyParam key id prog p).get id' = p.get id' := by
  rw [applyParam]
  split
  · exact get_setParam_of_ne h p _
  · rfl

theorem get_applyRole_of_ne {id : RivrParamId} (h : .role ≠ id) (prog : List UInt8)
    (p : PolicyParams) : (applyRole prog p).get id = p.get id := by
  rw [applyRole]
  split
  · exact get_setParam_of_ne h p _
  · rfl

theorem applyParam_of_scan {key : String} {id : RivrParamId} {prog : List UInt8} {v : UInt32}
    (h : scanParam (ascii key) prog = some v) (p : PolicyParams) :
    applyParam key id prog p = rivrPolicySetParam p id v := by
  rw [applyParam, h]

/-- The number that is read for a key is set, if it is in range. -/
theorem get_applyParams {key : String} {id : RivrParamId} (hkey : (key, id) ∈ paramKeys)
    (hid : id ≠ .role) {prog : List UInt8} {n : UInt32} (hscan : scanParam (ascii key) prog = some n)
    (hn : ∀ p, (rivrPolicySetParam p id n).get id = n) (p : PolicyParams) :
    (applyParams prog p).get id = n := by
  rw [applyParams, get_applyRole_of_ne (Ne.symm hid)]
  simp only [paramKeys, List.mem_cons, Prod.mk.injEq, List.not_mem_nil, or_false] at hkey
  rcases hkey with ⟨rfl, rfl⟩ | ⟨rfl, rfl⟩ | ⟨rfl, rfl⟩ | ⟨rfl, rfl⟩ | ⟨-, rfl⟩
  · rw [get_applyParam_of_ne (by decide), get_applyParam_of_ne (by decide),
      get_applyParam_of_ne (by decide), applyParam_of_scan hscan, hn]
  · rw [get_applyParam_of_ne (by decide), get_applyParam_of_ne (by decide),
      applyParam_of_scan hscan, hn]
  · rw [get_applyParam_of_ne (by decide), applyParam_of_scan hscan, hn]
  · rw [applyParam_of_scan hscan, hn]
  · exact absurd rfl hid

/-- A number appended after the signature is the one that is read. -/
theorem scanParam_appended {key : String × RivrParamId} {covered v : List UInt8} {n : UInt32}
    (hkey : key ∈ paramKeys) {c : UInt8} (hc : c ∈ ascii key.1)
    (hsig : c ∉ ascii "sig=0123456789abcdef") (h : strstr (ascii key.1) covered = none)
    (hv : scanUlong v = some n) :
    scanParam (ascii key.1) (signedThen gate covered (ascii key.1 ++ v)) = some n := by
  rw [scanParam, strstr_appended (ne_nil_of_paramKeys key hkey) (notMem_blank_of_paramKeys key hkey)
    hc hsig h, Option.bind_some, List.drop_left, hv]

/-- Two numbers that are appended are both set. -/
theorem get_ne_of_appended {key : String × RivrParamId} {covered v w : List UInt8} {n m : UInt32}
    (hkey : key ∈ paramKeys) (hid : key.2 ≠ .role) {c : UInt8} (hc : c ∈ ascii key.1)
    (hsig : c ∉ ascii "sig=0123456789abcdef") (h : strstr (ascii key.1) covered = none)
    (hv : scanUlong v = some n) (hw : scanUlong w = some m)
    (hn : ∀ p, (rivrPolicySetParam p key.2 n).get key.2 = n)
    (hm : ∀ p, (rivrPolicySetParam p key.2 m).get key.2 = m) (hne : n ≠ m) (p : PolicyParams) :
    (applyParams (signedThen gate covered (ascii key.1 ++ v)) p).get key.2 ≠
      (applyParams (signedThen gate covered (ascii key.1 ++ w)) p).get key.2 := by
  rw [get_applyParams hkey hid (scanParam_appended hkey hc hsig h hv) hn,
    get_applyParams hkey hid (scanParam_appended hkey hc hsig h hw) hm]
  exact hne

/-- The role that is appended is set. -/
theorem get_role_appended {covered v : List UInt8} {n : UInt8}
    (h : strstr (ascii "role=") covered = none)
    (hv : rivrPolicyRoleFromStr (roleToken v) = n)
    (hn : ∀ p, (rivrPolicySetParam p .role n.toUInt32).get .role = n.toUInt32) (p : PolicyParams) :
    (applyParams (signedThen gate covered (ascii "role=" ++ v)) p).get .role = n.toUInt32 := by
  have hfind : strstr (ascii "role=") (signedThen gate covered (ascii "role=" ++ v)) =
      some (ascii "role=" ++ v) :=
    strstr_appended (c := 114) (by decide) (by decide) (by decide) (by decide) h
  have hdrop : (ascii "role=" ++ v).drop 5 = v := rfl
  simp only [applyParams, applyRole, hfind, hdrop, hv]
  exact hn _

/-- Two texts to append set the parameter of the key to different values. -/
theorem update_appended {covered : List UInt8} {key : String × RivrParamId} (hkey : key ∈ paramKeys)
    (h : strstr (ascii key.1) covered = none) :
    ∃ v w, NulFree (ascii key.1 ++ v) ∧ NulFree (ascii key.1 ++ w) ∧ ∀ p,
      (applyParams (signedThen gate covered (ascii key.1 ++ v)) p).get key.2 ≠
        (applyParams (signedThen gate covered (ascii key.1 ++ w)) p).get key.2 := by
  have hkey' := hkey
  unfold NulFree
  simp only [paramKeys, List.mem_cons, List.not_mem_nil, or_false] at hkey
  rcases hkey with rfl | rfl | rfl | rfl | rfl
  · exact ⟨ascii "60000", ascii "60001", by decide, by decide,
      get_ne_of_appended (n := 60000) (m := 60001) (c := 111) hkey' (by decide) (by decide)
        (by decide) h (by decide) (by decide) (fun _ => rfl) (fun _ => rfl) (by decide)⟩
  · exact ⟨ascii "100", ascii "101", by decide, by decide,
      get_ne_of_appended (n := 100) (m := 101) (c := 104) hkey' (by decide) (by decide)
        (by decide) h (by decide) (by decide) (fun _ => rfl) (fun _ => rfl) (by decide)⟩
  · exact ⟨ascii "100", ascii "101", by decide, by decide,
      get_ne_of_appended (n := 100) (m := 101) (c := 116) hkey' (by decide) (by decide)
        (by decide) h (by decide) (by decide) (fun _ => rfl) (fun _ => rfl) (by decide)⟩
  · exact ⟨ascii "1", ascii "2", by decide, by decide,
      get_ne_of_appended (n := 1) (m := 2) (c := 117) hkey' (by decide) (by decide)
        (by decide) h (by decide) (by decide) (fun _ => rfl) (fun _ => rfl) (by decide)⟩
  · refine ⟨ascii "2", ascii "3", by decide, by decide, fun p => ?_⟩
    rw [get_role_appended (n := 2) h (by decide) (fun _ => rfl),
      get_role_appended (n := 3) h (by decide) (fun _ => rfl)]
    decide

/-! ### The law -/

/-- With signatures required, what an accepted update applies is determined by its covered bytes
exactly when they hold every key. -/
theorem params_authentic_iff (gate : ParamsGate) (hsigned : gate.signedParams = true)
    (hunsigned : gate.allowUnsigned = false) (payload : List UInt8)
    (h : ParamsAccepted gate payload) :
    AppliesCovered gate payload ↔ ∀ key ∈ paramKeys, ascii key.1 <:+: coveredBytes payload := by
  obtain ⟨rest, htext, hfind⟩ := cstr_of_accepted hsigned hunsigned h.2
  have hmark : ∀ z, ascii " sig=" ++ z = 32 :: 115 :: (ascii "ig=" ++ z) := fun _ => rfl
  constructor
  · intro happlies key hkey
    by_contra hmissing
    have hnone : strstr (ascii key.1) (coveredBytes payload) = none := by
      rw [Option.eq_none_iff_forall_not_mem]
      intro r hr
      obtain ⟨p, hp, t, rfl⟩ := eq_append_of_strstr hr
      exact hmissing ⟨p, t, by rw [hp, List.append_assoc]⟩
    have hcov : NulFree (coveredBytes payload) := fun b hb => by
      refine nulFree_cstr payload b ?_
      rw [htext]
      exact List.mem_append_left _ hb
    have hparams : (ascii "@PARAMS").isPrefixOf (coveredBytes payload) = true := by
      have hpush := h.1
      rw [isParamsPush, Bool.and_eq_true] at hpush
      rw [← hpush.2, htext, hmark, isPrefixOf_append_sep (by decide)]
    rw [htext] at hfind
    -- both texts are accepted for the same covered bytes
    obtain ⟨v, w, hv, hw, hne⟩ := @update_appended gate _ _ hkey hnone
    have heq : ∀ {more}, NulFree more → ∀ p, applyParams
        (signedThen gate (coveredBytes payload) more) p = applyParams (cstr payload) p := by
      intro more hmore p
      rw [← happlies _ (accepted_signedThen hcov hmore hparams hfind)
        (coveredBytes_signedThen hcov hmore hfind) p,
        cstr_of_nulFree (nulFree_signedThen hcov hmore)]
    refine hne (rivrPolicyInit .client) ?_
    rw [heq hv, heq hw]
  · intro hkeys payload' h' hsame p
    obtain ⟨rest', htext', -⟩ := cstr_of_accepted hsigned hunsigned h'.2
    rw [htext, htext', hsame, hmark, hmark]
    exact applyParams_covered hkeys _ _ p

/-- A gate that requires signatures, with the key `01…01`. -/
def strictGate : ParamsGate where
  signedParams := true
  allowUnsigned := false
  pskHex := ascii "0101010101010101010101010101010101010101010101010101010101010101"

/-- An update that holds every key. -/
def fullUpdate : List UInt8 :=
  ascii "@PARAMS beacon=60000 chat=2000 data=2000 duty=5 role=client" ++ ascii " sig=" ++
    ascii "a89eb109a39c8b1e24e7cea3d4cb2d30e8b7688d90425138dbc25d9353209ffb"

/-- The law at an update that holds every key. -/
theorem params_authentic_fullUpdate : AppliesCovered strictGate fullUpdate :=
  (params_authentic_iff strictGate rfl rfl fullUpdate
    ⟨by decide +kernel, by decide +kernel⟩).mpr (by decide +kernel)

/-- A duty cycle that is appended to a signed throttle is applied. -/
theorem not_params_authentic : ¬∀ (gate : ParamsGate) (payload : List UInt8),
    gate.signedParams = true → gate.allowUnsigned = false → ParamsAccepted gate payload →
      AppliesCovered gate payload := by
  intro h
  have happlies := h strictGate
    (ascii "@PARAMS chat=2000" ++ ascii " sig=" ++
      ascii "ac4018459d218880594a03d069fb00aa91baa942cbcb3d2e1ba6ac661dc4ddee")
    rfl rfl ⟨by decide +kernel, by decide +kernel⟩
    (ascii "@PARAMS chat=2000" ++ ascii " sig=" ++
      ascii "ac4018459d218880594a03d069fb00aa91baa942cbcb3d2e1ba6ac661dc4ddee" ++ ascii " duty=1")
    ⟨by decide +kernel, by decide +kernel⟩ (by decide +kernel) (rivrPolicyInit .client)
  revert happlies
  decide +kernel

end Rivr
