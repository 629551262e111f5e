import Rivr.ForMathlib.EdwardsCoordinates
import Rivr.Firmware.Ed25519Points
import Rivr.Firmware.Ed25519Scalar
import Rivr.Firmware.Sha512

/-!
# Signatures

`ed25519_verify_detached` accepts the signatures that satisfy the equation of verification in the
group of the curve (`verify_iff`). With it, what is signed is accepted
(`verify_sign`); and as `s` is compared with `2 ^ 253` and not with the order of the base point, a
signature has a second form that is accepted as well (`verify_secondForm`).
-/

namespace Rivr

open LittleEndian TwistedEdwards

/-- `ed25519_verify_detached`, with the bytes that the stack holds. -/
def ed25519VerifyDetached (stack sig msg pk : List UInt8) : Bool :=
  let s := (sig.drop 32).take 32
  if s.getD 31 0 &&& 0xe0 ≠ 0 then false
  else
    match unpackneg pk with
    | none => false
    | some A =>
      let h := scReduce (sha5123 stack (sig.take 32) pk msg)
      let nB := scalarbase s
      let R := scalarmult A h
      let nB := ptAdd nB R
      byteDiff (ptPack nB) (sig.take 32) == 0

/-! ### The order of the base point -/

/-- The base point in coordinates. -/
def baseCoordinates : Coordinates := ⟨baseX, baseY, 1, baseX * baseY⟩

theorem baseCoordinates_isFor : baseCoordinates.IsFor basePoint := by
  have h := basePoint.hasCoords
  have hx : basePoint.x = baseX := rfl
  have hy : basePoint.y = baseY := rfl
  rw [hx, hy] at h
  simpa only [Coordinates.IsFor, baseCoordinates, Int.cast_natCast, Int.cast_one, Int.cast_mul]
    using h

theorem groupOrder_nsmul : groupOrder • basePoint = 0 :=
  nsmul_eq_zero_of_coordinates (d := edwardsD) 253 rfl (Int.cast_natCast _).symm
    baseCoordinates_isFor (by decide +kernel) (by decide +kernel) (by decide +kernel)

/-- Multiples of the base point depend on the remainder only. -/
theorem mod_nsmul (n a : ℕ) : (n % groupOrder) • a • basePoint = n • a • basePoint := by
  have hzero : groupOrder • a • basePoint = 0 := by
    rw [nsmul_left_comm, groupOrder_nsmul, nsmul_zero]
  conv_rhs => rw [← Nat.mod_add_div n groupOrder, add_nsmul, mul_nsmul, hzero, nsmul_zero, add_zero]

/-! ### The equation of verification -/

/-- The check of the highest bits of `s`. -/
theorem and_e0_eq_zero_iff {s : List UInt8} (hs : s.length = 32) :
    s.getD 31 0 &&& 0xe0 = 0 ↔ natOfBytes s < 2 ^ 253 := by
  have hall : ∀ b : Fin 256, UInt8.ofNat b &&& 0xe0 = 0 ↔ (b : ℕ) < 32 := by decide +kernel
  have hbyte := getD_toNat s 31
  have hlt := natOfBytes_lt s
  have hb := hall ⟨_, (s.getD 31 0).toNat_lt⟩
  rw [UInt8.ofNat_toNat] at hb
  rw [hb]
  rw [hs] at hlt
  change (s.getD 31 0).toNat < 32 ↔ _
  omega

/-- The number of the hash in the equation. -/
def challenge (sig msg pk : List UInt8) : ℕ :=
  natOfBytes (scReduce (sha512 (sig.take 32 ++ pk ++ msg)))

/-- The equation `s B = R + h A`, of the bytes of the difference. -/
def VerifyEquation (sig msg pk : List UInt8) : Prop :=
  ∃ A : curve25519.Point, Decodes pk A ∧
    encodePoint (natOfBytes (sig.drop 32) • basePoint - challenge sig msg pk • A) = sig.take 32

section Verify

variable {stack sig msg pk : List UInt8}

/-- What is accepted. -/
theorem verify_iff (hstack : stack.length = 128) (hsig : sig.length = 64) (hpk : pk.length = 32)
    (hmsg : msg.length < 2 ^ 64) : ed25519VerifyDetached stack sig msg pk = true ↔
      natOfBytes (sig.drop 32) < 2 ^ 253 ∧ VerifyEquation sig msg pk := by
  have hs : (sig.drop 32).take 32 = sig.drop 32 :=
    List.take_of_length_le (by rw [List.length_drop, hsig])
  have hslen : (sig.drop 32).length = 32 := by rw [List.length_drop, hsig]
  have hR : (sig.take 32).length = 32 := by rw [List.length_take, hsig]; rfl
  have hhash := sha5123_eq hstack (a := sig.take 32) (b := pk) (by rw [hR]; norm_num)
    (by rw [hpk]; norm_num) hmsg
  unfold ed25519VerifyDetached
  simp only [hs, hhash]
  by_cases hhigh : (sig.drop 32).getD 31 0 &&& 0xe0 = 0
  · rw [if_neg (not_not.mpr hhigh)]
    have hlt := (and_e0_eq_zero_iff hslen).mp hhigh
    rcases unpackneg_cases hpk with ⟨hnone, hno⟩ | ⟨A, r, hA, hsome, hr⟩
    · rw [hnone]
      refine ⟨fun h => absurd h Bool.false_ne_true, ?_⟩
      rintro ⟨-, A, hA, -⟩
      exact absurd hA (hno A)
    · rw [hsome]
      have hsum := (scalarbase_rep hslen).ptAdd
        (scalarmult_rep hr (length_scReduce (sha512 (sig.take 32 ++ pk ++ msg))))
      rw [neg_nsmul, ← sub_eq_add_neg] at hsum
      have hpack (P : curve25519.Point) : (encodePoint P).length = (sig.take 32).length := by
        rw [hR, encodePoint, length_bytesOfNat]
      simp only
      rw [ptPack_eq hsum, beq_iff_eq, byteDiff_eq_zero_iff (hpack _)]
      refine ⟨fun h => ⟨hlt, A, hA, h⟩, ?_⟩
      rintro ⟨-, A', hA', h⟩
      rwa [hA'.unique hA] at h
  · rw [if_pos hhigh]
    refine ⟨fun h => absurd h Bool.false_ne_true, fun h => ?_⟩
    exact absurd ((and_e0_eq_zero_iff hslen).mpr h.1) hhigh

/-- **Verification.** A signature is accepted when `s` is below `2 ^ 253`, the key stands for a
point, and the equation of verification holds in the group. -/
theorem ed25519VerifyDetached_iff (hstack : stack.length = 128) (hsig : sig.length = 64)
    (hpk : pk.length = 32) (hmsg : msg.length < 2 ^ 64) :
    ed25519VerifyDetached stack sig msg pk = true ↔
      natOfBytes (sig.drop 32) < 2 ^ 253 ∧ ∃ A : curve25519.Point, Decodes pk A ∧
        encodePoint (natOfBytes (sig.drop 32) • basePoint -
          natOfBytes (scReduce (sha512 (sig.take 32 ++ pk ++ msg))) • A) = sig.take 32 :=
  verify_iff hstack hsig hpk hmsg

theorem ed25519VerifyDetached_iff_zeros :
    ed25519VerifyDetached (List.replicate 128 0) (List.replicate 64 0) [] (List.replicate 32 0) =
      true ↔ natOfBytes ((List.replicate 64 0).drop 32) < 2 ^ 253 ∧
        ∃ A : curve25519.Point, Decodes (List.replicate 32 0) A ∧
          encodePoint (natOfBytes ((List.replicate 64 0).drop 32) • basePoint -
            natOfBytes (scReduce (sha512 ((List.replicate 64 0).take 32 ++
              List.replicate 32 0 ++ []))) • A) = (List.replicate 64 0).take 32 :=
  ed25519VerifyDetached_iff List.length_replicate List.length_replicate List.length_replicate
    (by decide)

end Verify

/-! ### Two forms of one signature -/

/-- The other form of a signature: the order is added to its `s`. -/
def secondForm (sig : List UInt8) : List UInt8 :=
  sig.take 32 ++ bytesOfNat 32 (natOfBytes (sig.drop 32) + groupOrder)

section SecondForm

variable {stack sig msg pk : List UInt8}

theorem secondForm_fields (hsig : sig.length = 64)
    (hlt : natOfBytes (sig.drop 32) + groupOrder < 2 ^ 253) :
    (secondForm sig).length = 64 ∧ (secondForm sig).take 32 = sig.take 32 ∧
      natOfBytes ((secondForm sig).drop 32) = natOfBytes (sig.drop 32) + groupOrder := by
  have hR : (sig.take 32).length = 32 := by rw [List.length_take, hsig]; rfl
  have hpow : (256 : ℕ) ^ 32 = 2 ^ 256 := by norm_num
  refine ⟨by rw [secondForm, List.length_append, hR, length_bytesOfNat],
    by rw [secondForm, List.take_left' hR], ?_⟩
  rw [secondForm, List.drop_left' hR, natOfBytes_bytesOfNat, Nat.mod_eq_of_lt (by omega)]

theorem secondForm_ne (hsig : sig.length = 64)
    (hlt : natOfBytes (sig.drop 32) + groupOrder < 2 ^ 253) : secondForm sig ≠ sig := by
  have hdrop := (secondForm_fields hsig hlt).2.2
  have hpos : 0 < groupOrder := by norm_num [groupOrder]
  intro heq
  rw [heq] at hdrop
  omega

theorem verify_secondForm (hstack : stack.length = 128) (hsig : sig.length = 64)
    (hpk : pk.length = 32) (hmsg : msg.length < 2 ^ 64)
    (hlt : natOfBytes (sig.drop 32) + groupOrder < 2 ^ 253) :
    ed25519VerifyDetached stack (secondForm sig) msg pk =
      ed25519VerifyDetached stack sig msg pk := by
  obtain ⟨hsig', htake, hdrop⟩ := secondForm_fields hsig hlt
  rw [Bool.eq_iff_iff, verify_iff hstack hsig' hpk hmsg, verify_iff hstack hsig hpk hmsg,
    VerifyEquation, VerifyEquation, challenge, challenge, htake, hdrop, add_nsmul,
    groupOrder_nsmul, add_zero]
  exact and_congr_left fun _ => ⟨fun _ => by omega, fun _ => hlt⟩

/-- **Malleability.** `s` is compared with `2 ^ 253` and not with the order: where the sum with the
order is below that, a signature and its other form are accepted or refused together. -/
theorem ed25519VerifyDetached_secondForm (hstack : stack.length = 128) (hsig : sig.length = 64)
    (hpk : pk.length = 32) (hmsg : msg.length < 2 ^ 64)
    (hlt : natOfBytes (sig.drop 32) + groupOrder < 2 ^ 253) :
    secondForm sig ≠ sig ∧ ed25519VerifyDetached stack (secondForm sig) msg pk =
      ed25519VerifyDetached stack sig msg pk :=
  ⟨secondForm_ne hsig hlt, verify_secondForm hstack hsig hpk hmsg hlt⟩

theorem ed25519VerifyDetached_secondForm_zeros :
    ed25519VerifyDetached (List.replicate 128 0) (secondForm (List.replicate 64 0)) []
        (List.replicate 32 0) =
      ed25519VerifyDetached (List.replicate 128 0) (List.replicate 64 0) []
        (List.replicate 32 0) :=
  (ed25519VerifyDetached_secondForm List.length_replicate List.length_replicate
    List.length_replicate (by decide) (by decide)).2

end SecondForm

/-! ### Signing -/

/-- The number of the hash that a signature is made with. -/
def signedHash (a r : ℕ) (msg : List UInt8) : ℕ :=
  natOfBytes (sha512 (encodePoint (r • basePoint) ++ encodePoint (a • basePoint) ++ msg))

/-- A signature: for a secret `a` and a nonce `r`, the point `r B` and the number `r + h a` modulo
the order. -/
def sign (a r : ℕ) (msg : List UInt8) : List UInt8 :=
  encodePoint (r • basePoint) ++ bytesOfNat 32 ((r + signedHash a r msg * a) % groupOrder)

@[simp]
theorem length_encodePoint (P : curve25519.Point) : (encodePoint P).length = 32 :=
  length_bytesOfNat _ _

section Sign

variable {stack msg : List UInt8} {a r : ℕ}

theorem length_sign (a r : ℕ) (msg : List UInt8) : (sign a r msg).length = 64 := by
  rw [sign, List.length_append, length_encodePoint, length_bytesOfNat]

theorem take_sign (a r : ℕ) (msg : List UInt8) :
    (sign a r msg).take 32 = encodePoint (r • basePoint) := by
  rw [sign, List.take_left' (length_encodePoint _)]

theorem drop_sign (a r : ℕ) (msg : List UInt8) :
    natOfBytes ((sign a r msg).drop 32) = (r + signedHash a r msg * a) % groupOrder := by
  have hpow : (256 : ℕ) ^ 32 = 2 ^ 256 := by norm_num
  have horder : groupOrder < 2 ^ 253 := by norm_num [groupOrder]
  have hlt := Nat.mod_lt (r + signedHash a r msg * a) (y := groupOrder) (by norm_num [groupOrder])
  rw [sign, List.drop_left' (length_encodePoint _), natOfBytes_bytesOfNat,
    Nat.mod_eq_of_lt (by omega)]

/-- The hash comes out of `sc_reduce` as its remainder. -/
theorem challenge_sign (hlow : 2 ^ 130 ≤ signedHash a r msg % groupOrder)
    (hhigh : signedHash a r msg % groupOrder + 2 ^ 130 ≤ 2 ^ 252) :
    challenge (sign a r msg) msg (encodePoint (a • basePoint)) =
      signedHash a r msg % groupOrder := by
  have hpow : (256 : ℕ) ^ 32 = 2 ^ 256 := by norm_num
  rw [signedHash] at hlow hhigh ⊢
  rw [challenge, take_sign, scReduce_eq (length_sha512 _) hlow hhigh, natOfBytes_bytesOfNat,
    Nat.mod_eq_of_lt (by omega)]

/-- A signature satisfies the equation. -/
theorem verify_sign (hstack : stack.length = 128) (hmsg : msg.length < 2 ^ 64)
    (hchallenge : challenge (sign a r msg) msg (encodePoint (a • basePoint)) =
      signedHash a r msg % groupOrder) :
    ed25519VerifyDetached stack (sign a r msg) msg (encodePoint (a • basePoint)) = true := by
  have horder : groupOrder < 2 ^ 253 := by norm_num [groupOrder]
  have hlt := Nat.mod_lt (r + signedHash a r msg * a) (y := groupOrder) (by norm_num [groupOrder])
  have hone := mod_nsmul (r + signedHash a r msg * a) 1
  rw [one_nsmul] at hone
  rw [verify_iff hstack (length_sign a r msg) (length_encodePoint _) hmsg, VerifyEquation,
    hchallenge, take_sign, drop_sign]
  refine ⟨by omega, a • basePoint, decodes_encodePoint _, ?_⟩
  rw [hone, mod_nsmul, add_nsmul, mul_nsmul', add_sub_cancel_right]

/-- **What is signed is accepted**, unless the hash comes so near to the order or to zero that
`sc_reduce` fails. -/
theorem ed25519VerifyDetached_sign (hstack : stack.length = 128) (hmsg : msg.length < 2 ^ 64)
    (hlow : 2 ^ 130 ≤ signedHash a r msg % groupOrder)
    (hhigh : signedHash a r msg % groupOrder + 2 ^ 130 ≤ 2 ^ 252) :
    ed25519VerifyDetached stack (sign a r msg) msg (encodePoint (a • basePoint)) = true :=
  verify_sign hstack hmsg (challenge_sign hlow hhigh)

end Sign

theorem encodePoint_basePoint :
    encodePoint basePoint = bytesOfNat 32 (baseY + 2 ^ 255 * (baseX % 2)) := by
  have hx : basePoint.x.val = baseX := ZMod.val_natCast_of_lt (by norm_num [baseX, p25519])
  have hy : basePoint.y.val = baseY := ZMod.val_natCast_of_lt (by norm_num [baseY, p25519])
  rw [encodePoint, hx, hy]

theorem ed25519VerifyDetached_sign_one :
    ed25519VerifyDetached (List.replicate 128 0) (sign 1 1 []) []
      (encodePoint (1 • basePoint)) = true := by
  refine ed25519VerifyDetached_sign List.length_replicate (by decide) ?_ ?_
  · rw [signedHash, one_nsmul, encodePoint_basePoint, sha512_of_length_eq rfl]
    decide +kernel
  · rw [signedHash, one_nsmul, encodePoint_basePoint, sha512_of_length_eq rfl]
    decide +kernel

end Rivr
