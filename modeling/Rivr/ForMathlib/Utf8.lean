import Mathlib.Data.List.Basic
import Mathlib.Data.List.TakeWhile

/-!
# Texts and their bytes

The encoding `utf8 s` of a list of characters, read as a program that walks over bytes reads it: the
character at the head (`nextChar`), the boundaries between characters (`isCharBoundary`), spans of
bytes (`takeWhile_utf8`) and ASCII words (`utf8_isPrefixOf`).
-/

namespace Utf8

/-- The bytes of a text. -/
def utf8 (s : List Char) : List UInt8 := s.flatMap String.utf8EncodeChar

/-- The character is a single byte below `0x80`. -/
def IsAscii (c : Char) : Prop := c.toNat < 0x80

instance : DecidablePred IsAscii := fun c => inferInstanceAs (Decidable (c.toNat < 0x80))

/-- A property of the members of a list is decided on these alone: the instance for a finite type
would run through all characters. -/
instance (priority := high) decidableForallMem {α : Type} {P : α → Prop} [DecidablePred P]
    (l : List α) : Decidable (∀ a ∈ l, P a) :=
  List.decidableBAll P l

@[simp] theorem utf8_nil : utf8 [] = [] := rfl

theorem utf8_cons (c : Char) (s : List Char) :
    utf8 (c :: s) = String.utf8EncodeChar c ++ utf8 s := rfl

@[simp] theorem utf8_append (s t : List Char) : utf8 (s ++ t) = utf8 s ++ utf8 t :=
  List.flatMap_append

/-- The one byte of an ASCII character. -/
theorem utf8EncodeChar_of_isAscii {c : Char} (h : IsAscii c) :
    String.utf8EncodeChar c = [UInt8.ofNat c.toNat] := by
  have h' : c.val.toNat ≤ 0x7f := Nat.le_of_lt_succ h
  rw [String.utf8EncodeChar, if_pos h']
  rfl

theorem toNat_ofNat_of_isAscii {c : Char} (h : IsAscii c) :
    (UInt8.ofNat c.toNat).toNat = c.toNat :=
  UInt8.toNat_ofNat_of_lt' (Nat.lt_trans h (by decide))

/-- Another character is a first byte from `0xC0` on and continuation bytes. -/
theorem utf8EncodeChar_of_not_isAscii {c : Char} (h : ¬IsAscii c) :
    ∃ b x bs, String.utf8EncodeChar c = b :: x :: bs ∧ 0xC0 ≤ b.toNat ∧
      ∀ y ∈ x :: bs, 0x80 ≤ y.toNat ∧ y.toNat < 0xC0 := by
  have h' : ¬c.val.toNat ≤ 0x7f := fun hle => h (Nat.lt_succ_of_le hle)
  rw [String.utf8EncodeChar, if_neg h']
  have hcont : ∀ n, 0x80 ≤ (UInt8.ofNat (n % 0x40 + 0x80)).toNat ∧
      (UInt8.ofNat (n % 0x40 + 0x80)).toNat < 0xC0 := fun n => by
    rw [UInt8.toNat_ofNat_of_lt' (show n % 0x40 + 0x80 < 256 by omega)]
    omega
  have hfirst : ∀ n, 0xC0 ≤ n → n < 256 → 0xC0 ≤ (UInt8.ofNat n).toNat := fun n hle hlt => by
    rw [UInt8.toNat_ofNat_of_lt' hlt]
    exact hle
  split_ifs with h2 h3
  · refine ⟨_, _, _, rfl, hfirst _ (by omega) (by omega), ?_⟩
    simpa using hcont _
  · refine ⟨_, _, _, rfl, hfirst _ (by omega) (by omega), ?_⟩
    simpa using ⟨hcont _, hcont _⟩
  · refine ⟨_, _, _, rfl, hfirst _ (by omega) (by omega), ?_⟩
    simpa using ⟨hcont _, hcont _, hcont _⟩

theorem utf8EncodeChar_ne_nil (c : Char) : String.utf8EncodeChar c ≠ [] := by
  by_cases h : IsAscii c
  · simp [utf8EncodeChar_of_isAscii h]
  · obtain ⟨b, x, bs, heq, -⟩ := utf8EncodeChar_of_not_isAscii h
    simp [heq]

theorem utf8_ne_nil {s : List Char} (h : s ≠ []) : utf8 s ≠ [] := by
  obtain ⟨c, s, rfl⟩ := List.exists_cons_of_ne_nil h
  simp [utf8_cons]

/-- The character at the head of the bytes, NUL at the end of the text. -/
def nextChar (rest : List UInt8) : Char := (rest.toByteArray.utf8DecodeChar? 0).getD '\x00'

theorem nextChar_cons (c : Char) (s : List Char) : nextChar (utf8 (c :: s)) = c := by
  rw [nextChar, utf8_cons, List.toByteArray_append,
    ByteArray.utf8DecodeChar?_utf8EncodeChar_append]
  rfl

theorem nextChar_utf8 (s : List Char) : nextChar (utf8 s) = s.headD '\x00' := by
  match s with
  | [] => rfl
  | c :: s => exact nextChar_cons c s

theorem utf8_injective : Function.Injective utf8 := by
  intro s
  induction s with
  | nil =>
    intro t h
    by_contra hne
    exact utf8_ne_nil (Ne.symm hne) h.symm
  | cons c s ih =>
    intro t h
    match t with
    | [] => exact absurd h (utf8_ne_nil (List.cons_ne_nil _ _))
    | d :: t =>
      obtain rfl : c = d := by rw [← nextChar_cons c s, h, nextChar_cons]
      rw [ih (List.append_cancel_left h)]

/-- The characters of the bytes, when they are the encoding of some. -/
def decodeUtf8 (bytes : List UInt8) : Option (List Char) :=
  bytes.toByteArray.utf8Decode?.map Array.toList

theorem toByteArray_utf8 (s : List Char) : (utf8 s).toByteArray = s.utf8Encode := rfl

theorem decodeUtf8_eq_some_iff {bytes : List UInt8} {s : List Char} :
    decodeUtf8 bytes = some s ↔ bytes = utf8 s := by
  constructor
  · intro h
    obtain ⟨chars, hchars, rfl⟩ := Option.map_eq_some_iff.mp h
    have hencode := ByteArray.utf8Encode_get_utf8Decode? (b := bytes.toByteArray)
      (h := by rw [hchars]; rfl)
    simp only [hchars, Option.get_some] at hencode
    exact (List.toByteArray_inj.mp ((toByteArray_utf8 _).trans hencode)).symm
  · rintro rfl
    rw [decodeUtf8, toByteArray_utf8, List.utf8Decode?_utf8Encode]
    rfl

/-- The character of a byte below 128. -/
theorem toNat_charOfByte {b : UInt8} (h : b.toNat < 0x80) :
    (Char.ofNat b.toNat).toNat = b.toNat := by
  have hvalid : b.toNat.isValidChar := .inl (Nat.lt_trans h (by decide))
  rw [Char.ofNat, dif_pos hvalid]
  rfl

/-- Bytes below 128 are the encoding of the characters of their values. -/
theorem utf8_charOfByte {bytes : List UInt8} (h : ∀ b ∈ bytes, b.toNat < 0x80) :
    utf8 (bytes.map fun b => Char.ofNat b.toNat) = bytes := by
  induction bytes with
  | nil => rfl
  | cons b bytes ih =>
    have hb := h b List.mem_cons_self
    have hascii : IsAscii (Char.ofNat b.toNat) := by
      rw [IsAscii, toNat_charOfByte hb]
      exact hb
    rw [List.map_cons, utf8_cons, utf8EncodeChar_of_isAscii hascii, toNat_charOfByte hb,
      UInt8.ofNat_toNat, ih fun c hc => h c (List.mem_cons_of_mem _ hc)]
    rfl

/-- The position before the bytes is a boundary between characters: they do not start with a
continuation byte. -/
def isCharBoundary : List UInt8 → Bool
  | [] => true
  | b :: _ => !(0x80 ≤ b.toNat && b.toNat < 0xC0)

theorem isCharBoundary_utf8 (s : List Char) : isCharBoundary (utf8 s) = true := by
  match s with
  | [] => rfl
  | c :: s =>
    by_cases h : IsAscii c
    · have hlt : (UInt8.ofNat c.toNat).toNat < 0x80 := by rwa [toNat_ofNat_of_isAscii h]
      simp only [utf8_cons, utf8EncodeChar_of_isAscii h, List.cons_append, isCharBoundary]
      simp only [Bool.not_eq_true', Bool.and_eq_false_iff, decide_eq_false_iff_not]
      omega
    · obtain ⟨b, x, bs, heq, hb, -⟩ := utf8EncodeChar_of_not_isAscii h
      simp only [utf8_cons, heq, List.cons_append, isCharBoundary]
      simp only [Bool.not_eq_true', Bool.and_eq_false_iff, decide_eq_false_iff_not]
      omega

/-! ### Spans -/

/-- The predicate makes no difference between bytes outside ASCII. -/
def Uniform (P : UInt8 → Bool) : Prop := ∃ v, ∀ b : UInt8, 0x80 ≤ b.toNat → P b = v

/-- The predicate holds of every byte of the character. -/
def onChar (P : UInt8 → Bool) (c : Char) : Bool := (String.utf8EncodeChar c).all P

theorem utf8EncodeChar_span {P : UInt8 → Bool} (hP : Uniform P) (c : Char) (r : List UInt8)
    (h : onChar P c = false) : (String.utf8EncodeChar c ++ r).takeWhile P = [] := by
  obtain ⟨v, hv⟩ := hP
  by_cases hc : IsAscii c
  · simp_all [onChar, utf8EncodeChar_of_isAscii hc]
  · obtain ⟨b, x, bs, heq, hb, hbs⟩ := utf8EncodeChar_of_not_isAscii hc
    have hall : ∀ y ∈ b :: x :: bs, P y = v := fun y hy => by
      rcases List.mem_cons.mp hy with rfl | hy
      · exact hv y (by omega)
      · exact hv y (hbs y hy).1
    cases v with
    | false => simp [heq, hall b List.mem_cons_self]
    | true =>
      rw [onChar, heq, List.all_eq_false] at h
      obtain ⟨y, hy, hfalse⟩ := h
      exact absurd (hall y hy) hfalse

theorem takeWhile_utf8 {P : UInt8 → Bool} (hP : Uniform P) (s : List Char) :
    (utf8 s).takeWhile P = utf8 (s.takeWhile (onChar P)) := by
  induction s with
  | nil => rfl
  | cons c s ih =>
    rw [utf8_cons]
    by_cases h : onChar P c
    · rw [List.takeWhile_append_of_pos (by simpa [onChar] using h), ih,
        List.takeWhile_cons_of_pos h, utf8_cons]
    · rw [utf8EncodeChar_span hP c _ (by simpa using h), List.takeWhile_cons_of_neg h]
      rfl

theorem dropWhile_utf8 {P : UInt8 → Bool} (hP : Uniform P) (s : List Char) :
    (utf8 s).dropWhile P = utf8 (s.dropWhile (onChar P)) := by
  have h : utf8 (s.takeWhile (onChar P)) ++ (utf8 s).dropWhile P =
      utf8 (s.takeWhile (onChar P)) ++ utf8 (s.dropWhile (onChar P)) := by
    rw [← takeWhile_utf8 hP, List.takeWhile_append_dropWhile, takeWhile_utf8 hP, ← utf8_append,
      List.takeWhile_append_dropWhile]
  exact List.append_cancel_left h

/-- A text starts with an ASCII word if its bytes do. -/
theorem utf8_isPrefixOf {w s : List Char} (hw : ∀ c ∈ w, IsAscii c) :
    (utf8 w).isPrefixOf (utf8 s) = w.isPrefixOf s := by
  induction w generalizing s with
  | nil => simp
  | cons d w ih =>
    have hd := hw d List.mem_cons_self
    match s with
    | [] => simp [utf8_cons, utf8EncodeChar_of_isAscii hd, List.isPrefixOf]
    | c :: s =>
      by_cases hc : IsAscii c
      · have hiff : (UInt8.ofNat d.toNat == UInt8.ofNat c.toNat) = (d == c) := by
          rw [Bool.eq_iff_iff, beq_iff_eq, beq_iff_eq, ← UInt8.toNat_inj,
            toNat_ofNat_of_isAscii hd, toNat_ofNat_of_isAscii hc, Char.toNat_inj]
        simp only [utf8_cons, utf8EncodeChar_of_isAscii hd, utf8EncodeChar_of_isAscii hc,
          List.cons_append, List.nil_append, List.isPrefixOf, hiff,
          ih fun x hx => hw x (List.mem_cons_of_mem _ hx)]
      · obtain ⟨b, x, bs, heq, hb, -⟩ := utf8EncodeChar_of_not_isAscii hc
        have hlt : (UInt8.ofNat d.toNat).toNat < 0x80 := by rwa [toNat_ofNat_of_isAscii hd]
        have hne : (UInt8.ofNat d.toNat == b) = false := by
          rw [beq_eq_false_iff_ne]
          rintro rfl
          omega
        have hdc : (d == c) = false := by
          rw [beq_eq_false_iff_ne]
          rintro rfl
          exact hc hd
        simp [utf8_cons, utf8EncodeChar_of_isAscii hd, heq, List.isPrefixOf, hne, hdc]

end Utf8
