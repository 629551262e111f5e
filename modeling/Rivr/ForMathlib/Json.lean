import Mathlib.Algebra.Ring.Nat
import Mathlib.Data.List.Count
import Rivr.ForMathlib.Utf8

/-!
# JSON texts

The grammar of JSON over the bytes of a UTF-8 text. Of an object the names and the kinds of its
members are kept, so that `Object fields text` says which members the text has and not only that it
is well formed.

A scanner that knows only quotes and backslashes (`scan`) reads the strings of a text off
(`Members.scan_eq`). It takes every byte between two quotes of a text for a string when the
text has no more quotes than its members call for (`chars_of_object`).
-/

open Utf8

namespace Json

/-! ### The grammar -/

/-- A digit. -/
def IsDigit (b : UInt8) : Prop := 48 ≤ b.toNat ∧ b.toNat ≤ 57

instance : DecidablePred IsDigit := fun b =>
  inferInstanceAs (Decidable (48 ≤ b.toNat ∧ b.toNat ≤ 57))

/-- A hexadecimal digit. -/
def IsHexDigit (b : UInt8) : Prop :=
  IsDigit b ∨ (65 ≤ b.toNat ∧ b.toNat ≤ 70) ∨ (97 ≤ b.toNat ∧ b.toNat ≤ 102)

instance : DecidablePred IsHexDigit := fun b =>
  inferInstanceAs (Decidable (IsDigit b ∨ (65 ≤ b.toNat ∧ b.toNat ≤ 70) ∨
    (97 ≤ b.toNat ∧ b.toNat ≤ 102)))

/-- The characters after a backslash that make an escape of two characters. -/
def escapes : List UInt8 := [34, 92, 47, 98, 102, 110, 114, 116]

/-- What stands between the quotes of a string. -/
inductive Chars : List UInt8 → Prop
  | nil : Chars []
  | plain {c : Char} {w : List UInt8} (hc : 0x20 ≤ c.toNat) (hquote : c ≠ '"') (hback : c ≠ '\\')
      (h : Chars w) : Chars (String.utf8EncodeChar c ++ w)
  | escape {b : UInt8} {w : List UInt8} (hb : b ∈ escapes) (h : Chars w) : Chars (92 :: b :: w)
  | unicode {x y z t : UInt8} {w : List UInt8} (hx : IsHexDigit x) (hy : IsHexDigit y)
      (hz : IsHexDigit z) (ht : IsHexDigit t) (h : Chars w) : Chars (92 :: 117 :: x :: y :: z :: t :: w)

/-- The digits of a number before the point: no zero in front of others. -/
inductive IntPart : List UInt8 → Prop
  | zero : IntPart [48]
  | digits {d : UInt8} {ds : List UInt8} (hd : IsDigit d) (hne : d ≠ 48) (hds : ∀ b ∈ ds, IsDigit b) :
      IntPart (d :: ds)

/-- The point and what follows it, if it is there. -/
inductive FracPart : List UInt8 → Prop
  | none : FracPart []
  | digits {ds : List UInt8} (hne : ds ≠ []) (hds : ∀ b ∈ ds, IsDigit b) : FracPart (46 :: ds)

/-- The exponent, if it is there. -/
inductive ExpPart : List UInt8 → Prop
  | none : ExpPart []
  | digits {e : UInt8} {sign ds : List UInt8} (he : e = 69 ∨ e = 101)
      (hsign : sign = [] ∨ sign = [43] ∨ sign = [45]) (hne : ds ≠ []) (hds : ∀ b ∈ ds, IsDigit b) :
      ExpPart (e :: sign ++ ds)

/-- A number. -/
inductive Number : List UInt8 → Prop
  | mk {sign int frac exp : List UInt8} (hsign : sign = [] ∨ sign = [45]) (hint : IntPart int)
      (hfrac : FracPart frac) (hexp : ExpPart exp) : Number (sign ++ int ++ frac ++ exp)

/-- Whitespace between tokens. -/
def Blank (w : List UInt8) : Prop := ∀ b ∈ w, b = 32 ∨ b = 9 ∨ b = 10 ∨ b = 13

/-- The kinds of values. -/
inductive Kind where
  | null | boolean | number | string | array | object
  deriving DecidableEq, Repr

mutual

/-- A value of the kind. -/
inductive Value : Kind → List UInt8 → Prop
  | null : Value .null [110, 117, 108, 108]
  | tt : Value .boolean [116, 114, 117, 101]
  | ff : Value .boolean [102, 97, 108, 115, 101]
  | number {w : List UInt8} (h : Number w) : Value .number w
  | string {w : List UInt8} (h : Chars w) : Value .string (34 :: w ++ [34])
  | emptyArray {s : List UInt8} (hs : Blank s) : Value .array (91 :: s ++ [93])
  | array {w : List UInt8} (h : Elements w) : Value .array (91 :: w ++ [93])
  | emptyObject {s : List UInt8} (hs : Blank s) : Value .object (123 :: s ++ [125])
  | object {fields : List (List UInt8 × Kind)} {w : List UInt8} (h : Members fields w) :
      Value .object (123 :: w ++ [125])

/-- The elements of an array that has some. -/
inductive Elements : List UInt8 → Prop
  | single {kind : Kind} {s w s' : List UInt8} (hs : Blank s) (h : Value kind w) (hs' : Blank s') :
      Elements (s ++ w ++ s')
  | cons {kind : Kind} {s w s' r : List UInt8} (hs : Blank s) (h : Value kind w) (hs' : Blank s')
      (hr : Elements r) : Elements (s ++ w ++ s' ++ 44 :: r)

/-- The members of an object that has some: their names, as they are spelled, and kinds. -/
inductive Members : List (List UInt8 × Kind) → List UInt8 → Prop
  | single {key : List UInt8} {kind : Kind} {s s₁ s₂ w s₃ : List UInt8} (hs : Blank s)
      (hkey : Chars key) (hs₁ : Blank s₁) (hs₂ : Blank s₂) (h : Value kind w) (hs₃ : Blank s₃) :
      Members [(key, kind)] (s ++ (34 :: key ++ [34]) ++ s₁ ++ 58 :: s₂ ++ w ++ s₃)
  | cons {key : List UInt8} {kind : Kind} {fields : List (List UInt8 × Kind)}
      {s s₁ s₂ w s₃ r : List UInt8} (hs : Blank s) (hkey : Chars key) (hs₁ : Blank s₁)
      (hs₂ : Blank s₂) (h : Value kind w) (hs₃ : Blank s₃) (hr : Members fields r) :
      Members ((key, kind) :: fields)
        (s ++ (34 :: key ++ [34]) ++ s₁ ++ 58 :: s₂ ++ w ++ s₃ ++ 44 :: r)

end

/-- The text of an object with members of the given names and kinds, in this order. -/
def Object (fields : List (List UInt8 × Kind)) (text : List UInt8) : Prop :=
  ∃ w, text = 123 :: w ++ [125] ∧ Members fields w

theorem Object.value {fields : List (List UInt8 × Kind)} {text : List UInt8}
    (h : Object fields text) : Value .object text := by
  obtain ⟨w, rfl, hw⟩ := h
  exact .object hw

/-! ### Writing an object -/

/-- A member: its name, the kind of its value, and the text of its value. -/
abbrev Member := List UInt8 × Kind × List UInt8

/-- The members, separated by commas and without blanks. -/
def membersText : List Member → List UInt8
  | [] => []
  | [m] => 34 :: m.1 ++ [34] ++ 58 :: m.2.2
  | m :: ms => 34 :: m.1 ++ [34] ++ 58 :: m.2.2 ++ 44 :: membersText ms

theorem membersText_singleton (m : Member) :
    membersText [m] = 34 :: m.1 ++ [34] ++ 58 :: m.2.2 := rfl

theorem membersText_cons_cons (m m' : Member) (ms : List Member) :
    membersText (m :: m' :: ms) =
      34 :: m.1 ++ [34] ++ 58 :: m.2.2 ++ 44 :: membersText (m' :: ms) := rfl

theorem members_membersText {ms : List Member} (hne : ms ≠ [])
    (h : ∀ m ∈ ms, Chars m.1 ∧ Value m.2.1 m.2.2) :
    Members (ms.map fun m => (m.1, m.2.1)) (membersText ms) := by
  have hblank : Blank [] := fun b hb => absurd hb List.not_mem_nil
  induction ms with
  | nil => exact absurd rfl hne
  | cons m ms ih =>
    obtain ⟨hkey, hvalue⟩ := h m List.mem_cons_self
    match ms with
    | [] =>
      have hsingle := Members.single hblank hkey hblank hblank hvalue hblank
      simpa only [membersText_singleton, List.map_cons, List.map_nil, List.append_nil, List.nil_append,
        List.append_assoc, List.cons_append] using hsingle
    | m' :: ms =>
      have hrest := ih (List.cons_ne_nil _ _) fun x hx => h x (List.mem_cons_of_mem _ hx)
      have hcons := Members.cons hblank hkey hblank hblank hvalue hblank hrest
      simpa only [membersText_cons_cons, List.map_cons, List.append_nil, List.nil_append,
        List.append_assoc, List.cons_append] using hcons

/-- Members that are well formed make an object. -/
theorem object_membersText {ms : List Member} (hne : ms ≠ [])
    (h : ∀ m ∈ ms, Chars m.1 ∧ Value m.2.1 m.2.2) :
    Object (ms.map fun m => (m.1, m.2.1)) (123 :: membersText ms ++ [125]) :=
  ⟨_, rfl, members_membersText hne h⟩

/-- What holds of the bytes of the members and of the punctuation holds of the bytes of the text. -/
theorem forall_membersText {P : UInt8 → Prop} (hquote : P 34) (hcolon : P 58) (hcomma : P 44)
    {ms : List Member} (h : ∀ m ∈ ms, (∀ b ∈ m.1, P b) ∧ ∀ b ∈ m.2.2, P b) :
    ∀ b ∈ membersText ms, P b := by
  induction ms with
  | nil => exact fun b hb => absurd hb List.not_mem_nil
  | cons m ms ih =>
    obtain ⟨hkey, hvalue⟩ := h m List.mem_cons_self
    match ms with
    | [] =>
      simp only [membersText_singleton, List.forall_mem_append, List.forall_mem_cons]
      exact ⟨⟨⟨hquote, hkey⟩, hquote, by simp⟩, hcolon, hvalue⟩
    | m' :: ms =>
      have hrest := ih fun x hx => h x (List.mem_cons_of_mem _ hx)
      simp only [membersText_cons_cons, List.forall_mem_append, List.forall_mem_cons]
      exact ⟨⟨⟨⟨hquote, hkey⟩, hquote, by simp⟩, hcolon, hvalue⟩, hcomma, hrest⟩

/-- The quotes of members whose values have none are those around the names. -/
theorem count_membersText {ms : List Member}
    (h : ∀ m ∈ ms, (∀ b ∈ m.1, b ≠ 34) ∧ ∀ b ∈ m.2.2, b ≠ 34) :
    (membersText ms).count 34 = 2 * ms.length := by
  have hzero : ∀ {w : List UInt8}, (∀ b ∈ w, b ≠ 34) → w.count 34 = 0 := fun hw =>
    List.count_eq_zero.mpr fun hmem => hw _ hmem rfl
  induction ms with
  | nil => rfl
  | cons m ms ih =>
    obtain ⟨hkey, hvalue⟩ := h m List.mem_cons_self
    match ms with
    | [] =>
      simp [membersText_singleton, hzero hkey, hzero hvalue]
    | m' :: ms =>
      have hrest := ih fun x hx => h x (List.mem_cons_of_mem _ hx)
      rw [membersText_cons_cons, List.count_append, List.count_cons_of_ne (by decide), hrest]
      simp [hzero hkey, hzero hvalue]
      omega

/-! ### Strings -/

theorem Chars.append {w w' : List UInt8} (h : Chars w) (h' : Chars w') : Chars (w ++ w') := by
  induction h with
  | nil => exact h'
  | plain hc hquote hback _ ih =>
    rw [List.append_assoc]
    exact .plain hc hquote hback ih
  | escape hb _ ih => exact .escape hb ih
  | unicode hx hy hz ht _ ih => exact .unicode hx hy hz ht ih

/-- An ASCII character that needs no escape. -/
theorem chars_singleton {b : UInt8} (hle : 0x20 ≤ b.toNat) (hlt : b.toNat < 0x80) (hquote : b ≠ 34)
    (hback : b ≠ 92) : Chars [b] := by
  have hchar := toNat_charOfByte hlt
  have hascii : IsAscii (Char.ofNat b.toNat) := by rwa [IsAscii, hchar]
  have hencode := utf8EncodeChar_of_isAscii hascii
  rw [hchar, UInt8.ofNat_toNat] at hencode
  have hne : ∀ {d : Char} {x : UInt8}, x.toNat = d.toNat → b ≠ x → Char.ofNat b.toNat ≠ d := by
    rintro d x hx hbx rfl
    exact hbx (UInt8.toNat_inj.mp (hx.trans hchar).symm)
  rw [← List.append_nil [b], ← hencode]
  exact .plain (hle.trans_eq hchar.symm) (hne rfl hquote) (hne rfl hback) .nil

theorem chars_of_forall {w : List UInt8}
    (h : ∀ b ∈ w, 0x20 ≤ b.toNat ∧ b.toNat < 0x80 ∧ b ≠ 34 ∧ b ≠ 92) : Chars w := by
  induction w with
  | nil => exact .nil
  | cons b w ih =>
    obtain ⟨hle, hlt, hquote, hback⟩ := h b List.mem_cons_self
    exact (chars_singleton hle hlt hquote hback).append
      (ih fun c hc => h c (List.mem_cons_of_mem _ hc))

/-- The bytes of a character that is neither a quote nor a backslash are neither. -/
theorem mem_utf8EncodeChar {c : Char} (hc : 0x20 ≤ c.toNat) (hquote : c ≠ '"') (hback : c ≠ '\\')
    {b : UInt8} (hb : b ∈ String.utf8EncodeChar c) : 0x20 ≤ b.toNat ∧ b ≠ 34 ∧ b ≠ 92 := by
  by_cases hascii : IsAscii c
  · rw [utf8EncodeChar_of_isAscii hascii, List.mem_singleton] at hb
    have hnat : b.toNat = c.toNat := hb ▸ toNat_ofNat_of_isAscii hascii
    have hne : ∀ {d : Char} {x : UInt8}, x.toNat = d.toNat → c ≠ d → b ≠ x := by
      rintro d x hx hcd rfl
      exact hcd (Char.toNat_inj.mp (hnat.symm.trans hx))
    exact ⟨hc.trans_eq hnat.symm, hne rfl hquote, hne rfl hback⟩
  · obtain ⟨b₀, x, bs, heq, hfirst, hrest⟩ := utf8EncodeChar_of_not_isAscii hascii
    rw [heq] at hb
    have hge : 0x80 ≤ b.toNat := by
      rcases List.mem_cons.mp hb with rfl | hb
      · omega
      · exact (hrest b hb).1
    exact ⟨by omega, by rintro rfl; exact absurd hge (by decide),
      by rintro rfl; exact absurd hge (by decide)⟩

theorem IsHexDigit.le {b : UInt8} (h : IsHexDigit b) :
    48 ≤ b.toNat ∧ b.toNat ≤ 102 ∧ b ≠ 92 := by
  have hne : b.toNat ≠ 92 → b ≠ 92 := by
    rintro hnat rfl
    exact hnat rfl
  obtain h | h | h := h
  · exact ⟨h.1, by have := h.2; omega, hne (by have := h.2; omega)⟩
  · exact ⟨by omega, by omega, hne (by omega)⟩
  · exact ⟨by omega, by omega, hne (by omega)⟩

/-- A string has no control characters. -/
theorem Chars.le {w : List UInt8} (h : Chars w) : ∀ b ∈ w, 0x20 ≤ b.toNat := by
  induction h with
  | nil => exact fun b hb => absurd hb List.not_mem_nil
  | plain hc hquote hback _ ih =>
    intro b hb
    rcases List.mem_append.mp hb with hb | hb
    · exact (mem_utf8EncodeChar hc hquote hback hb).1
    · exact ih b hb
  | escape hb _ ih =>
    rintro b' (_ | ⟨_, _ | ⟨_, hb'⟩⟩)
    · decide
    · exact (by decide : ∀ b ∈ escapes, 0x20 ≤ b.toNat) _ hb
    · exact ih b' hb'
  | unicode hx hy hz ht _ ih =>
    rintro b (_ | ⟨_, _ | ⟨_, _ | ⟨_, _ | ⟨_, _ | ⟨_, _ | ⟨_, hb⟩⟩⟩⟩⟩⟩)
    · decide
    · decide
    · exact hx.le.1.trans' (by decide)
    · exact hy.le.1.trans' (by decide)
    · exact hz.le.1.trans' (by decide)
    · exact ht.le.1.trans' (by decide)
    · exact ih b hb

/-! ### Scanning for strings -/

/-- Where a scanner is: between strings, in one, or in one after a backslash. -/
inductive Mode where
  | outside | inside | escaped
  deriving DecidableEq, Repr

/-- A scanner, with the strings it has read and what it has of the one it is in. -/
@[ext]
structure Scan where
  mode : Mode
  strings : List (List UInt8)
  current : List UInt8

/-- One byte. -/
def Scan.step (s : Scan) (b : UInt8) : Scan :=
  match s.mode with
  | .outside => if b = 34 then ⟨.inside, s.strings, []⟩ else s
  | .inside =>
    if b = 34 then ⟨.outside, s.strings ++ [s.current], []⟩
    else ⟨if b = 92 then .escaped else .inside, s.strings, s.current ++ [b]⟩
  | .escaped => ⟨.inside, s.strings, s.current ++ [b]⟩

/-- The bytes of a text. -/
def Scan.run (s : Scan) (w : List UInt8) : Scan := w.foldl Scan.step s

/-- The scanner between strings. -/
def between (strings : List (List UInt8)) : Scan := ⟨.outside, strings, []⟩

@[simp] theorem Scan.run_nil (s : Scan) : s.run [] = s := rfl

@[simp] theorem Scan.run_cons (s : Scan) (b : UInt8) (w : List UInt8) :
    s.run (b :: w) = (s.step b).run w := rfl

@[simp] theorem Scan.run_append (s : Scan) (w w' : List UInt8) :
    s.run (w ++ w') = (s.run w).run w' := List.foldl_append

/-- Text without quotes is passed over between strings. -/
theorem run_between_of_forall {w : List UInt8} (h : ∀ b ∈ w, b ≠ 34) (strings : List (List UInt8)) :
    (between strings).run w = between strings := by
  induction w with
  | nil => rfl
  | cons b w ih =>
    have hstep : (between strings).step b = between strings :=
      if_neg (h b List.mem_cons_self)
    rw [Scan.run_cons, hstep, ih fun c hc => h c (List.mem_cons_of_mem _ hc)]

/-- Bytes that are neither quotes nor backslashes are taken into the string. -/
theorem run_inside_of_forall {w : List UInt8} (h : ∀ b ∈ w, b ≠ 34 ∧ b ≠ 92)
    (strings : List (List UInt8)) (current : List UInt8) :
    Scan.run ⟨.inside, strings, current⟩ w = ⟨.inside, strings, current ++ w⟩ := by
  induction w generalizing current with
  | nil => rw [List.append_nil, Scan.run_nil]
  | cons b w ih =>
    obtain ⟨hquote, hback⟩ := h b List.mem_cons_self
    have hstep : Scan.step ⟨.inside, strings, current⟩ b = ⟨.inside, strings, current ++ [b]⟩ := by
      simp only [Scan.step, if_neg hquote, if_neg hback]
    rw [Scan.run_cons, hstep, ih fun c hc => h c (List.mem_cons_of_mem _ hc), List.append_assoc,
      List.singleton_append]

/-- **Strings** are taken whole. -/
theorem Chars.run_inside {w : List UInt8} (h : Chars w) (strings : List (List UInt8))
    (current : List UInt8) :
    Scan.run ⟨.inside, strings, current⟩ w = ⟨.inside, strings, current ++ w⟩ := by
  have hescape : ∀ (b : UInt8) (w current : List UInt8),
      Scan.run ⟨.inside, strings, current⟩ (92 :: b :: w) =
        Scan.run ⟨.inside, strings, current ++ [92, b]⟩ w := by
    intro b w current
    have htwo : current ++ [92] ++ [b] = current ++ [92, b] := List.append_assoc _ _ _
    rw [Scan.run_cons, Scan.run_cons, ← htwo]
    rfl
  induction h generalizing current with
  | nil => rw [List.append_nil, Scan.run_nil]
  | plain hc hquote hback _ ih =>
    rw [Scan.run_append, run_inside_of_forall (fun b hb =>
      (mem_utf8EncodeChar hc hquote hback hb).2), ih, List.append_assoc]
  | escape hb _ ih => rw [hescape, ih, List.append_assoc]; rfl
  | @unicode x y z t w hx hy hz ht _ ih =>
    have hdigits : ∀ b ∈ [x, y, z, t], b ≠ 34 ∧ b ≠ 92 := by
      have hhex : ∀ {b : UInt8}, IsHexDigit b → b ≠ 34 ∧ b ≠ 92 := fun h =>
        ⟨by rintro rfl; exact absurd h.le.1 (by decide), h.le.2.2⟩
      simp only [List.mem_cons, List.not_mem_nil, or_false]
      rintro b (rfl | rfl | rfl | rfl)
      exacts [hhex hx, hhex hy, hhex hz, hhex ht]
    have hsplit : x :: y :: z :: t :: w = [x, y, z, t] ++ w := rfl
    rw [hescape, hsplit, Scan.run_append, run_inside_of_forall hdigits, ih]
    simp only [List.append_assoc, List.cons_append, List.nil_append]

/-- A string with its quotes. -/
theorem Chars.run_between {w : List UInt8} (h : Chars w) (strings : List (List UInt8)) :
    (between strings).run (34 :: w ++ [34]) = between (strings ++ [w]) := by
  have hopen : (between strings).step 34 = ⟨.inside, strings, []⟩ := rfl
  rw [List.cons_append, Scan.run_cons, hopen, Scan.run_append, h.run_inside]
  rfl

/-! ### The strings of an object -/

/-- A value without parts. -/
def Kind.isScalar : Kind → Bool
  | .array | .object => false
  | _ => true

/-- The strings of an object whose values have no parts: the names of the members, and the values
that are strings. -/
inductive Spelled : List (List UInt8 × Kind) → List (List UInt8) → Prop
  | nil : Spelled [] []
  | string {key b : List UInt8} {fields : List (List UInt8 × Kind)} {strings : List (List UInt8)}
      (hb : Chars b) (h : Spelled fields strings) :
      Spelled ((key, .string) :: fields) (key :: b :: strings)
  | other {key : List UInt8} {kind : Kind} {fields : List (List UInt8 × Kind)}
      {strings : List (List UInt8)} (hkind : kind ≠ .string) (h : Spelled fields strings) :
      Spelled ((key, kind) :: fields) (key :: strings)

/-- The values of two members in front that are strings. -/
theorem Spelled.chars {strings : List (List UInt8)} {fields : List (List UInt8 × Kind)}
    {key key' c : List UInt8}
    (h : Spelled ((key', .string) :: (key, .string) :: fields) strings)
    (hc : strings[3]? = some c) : Chars c := by
  cases h with
  | other hkind => exact absurd rfl hkind
  | string _ h =>
    cases h with
    | other hkind => exact absurd rfl hkind
    | string hb => exact Option.some.inj hc ▸ hb

/-- How many strings that are. -/
def stringCount (fields : List (List UInt8 × Kind)) : ℕ :=
  (fields.map fun f => if f.2 = .string then 2 else 1).sum

theorem Spelled.length {fields : List (List UInt8 × Kind)} {strings : List (List UInt8)}
    (h : Spelled fields strings) : strings.length = stringCount fields := by
  induction h with
  | nil => rfl
  | string _ _ ih =>
    rw [List.length_cons, List.length_cons, ih, stringCount, stringCount, List.map_cons,
      List.sum_cons, if_pos rfl]
    omega
  | other hkind _ ih =>
    rw [List.length_cons, ih, stringCount, stringCount, List.map_cons, List.sum_cons, if_neg hkind]
    omega

theorem stringCount_of_forall {fields : List (List UInt8 × Kind)} (h : ∀ f ∈ fields, f.2 ≠ .string) :
    stringCount fields = fields.length := by
  induction fields with
  | nil => rfl
  | cons f fields ih =>
    have hrest := ih fun f' hf' => h f' (List.mem_cons_of_mem _ hf')
    rw [stringCount] at hrest ⊢
    rw [List.map_cons, List.sum_cons, if_neg (h f List.mem_cons_self), hrest, List.length_cons,
      Nat.add_comm]

theorem IsDigit.ne {b : UInt8} (h : IsDigit b) : 0x20 ≤ b.toNat ∧ b ≠ 34 ∧ b ≠ 92 := by
  obtain ⟨hle, hlt⟩ := h
  exact ⟨by omega, by rintro rfl; exact absurd hle (by decide),
    by rintro rfl; exact absurd hlt (by decide)⟩

/-- A number is spelled without quotes, backslashes and control characters. -/
theorem Number.ne {w : List UInt8} (h : Number w) : ∀ b ∈ w, 0x20 ≤ b.toNat ∧ b ≠ 34 ∧ b ≠ 92 := by
  obtain ⟨hsign, hint, hfrac, hexp⟩ := h
  have hof : ∀ {c : UInt8}, c ∈ [43, 45, 46, 48, 69, 101] → 0x20 ≤ c.toNat ∧ c ≠ 34 ∧ c ≠ 92 :=
    fun hc => (by decide : ∀ c ∈ ([43, 45, 46, 48, 69, 101] : List UInt8),
      0x20 ≤ c.toNat ∧ c ≠ 34 ∧ c ≠ 92) _ hc
  intro b hb
  simp only [List.mem_append] at hb
  rcases hb with ((hb | hb) | hb) | hb
  · rcases hsign with rfl | rfl
    · exact absurd hb List.not_mem_nil
    · rw [List.mem_singleton.mp hb]
      exact hof (by decide)
  · cases hint with
    | zero =>
      rw [List.mem_singleton.mp hb]
      exact hof (by decide)
    | digits hd _ hds => exact (List.forall_mem_cons.mpr ⟨hd, hds⟩ b hb).ne
  · cases hfrac with
    | none => exact absurd hb List.not_mem_nil
    | digits _ hds =>
      rcases List.mem_cons.mp hb with rfl | hb
      · exact hof (by decide)
      · exact (hds b hb).ne
  · cases hexp with
    | none => exact absurd hb List.not_mem_nil
    | digits he hsign _ hds =>
      rcases List.mem_append.mp hb with hb | hb
      · rcases List.mem_cons.mp hb with rfl | hb
        · rcases he with rfl | rfl <;> exact hof (by decide)
        · rcases hsign with rfl | rfl | rfl
          · exact absurd hb List.not_mem_nil
          all_goals
            rw [List.mem_singleton.mp hb]
            exact hof (by decide)
      · exact (hds b hb).ne

/-- Of the values without parts only strings have quotes. -/
theorem Value.run_between {kind : Kind} {w : List UInt8} (h : Value kind w)
    (hscalar : kind.isScalar = true) :
    (kind = .string ∧ ∃ b, Chars b ∧ ∀ strings, (between strings).run w = between (strings ++ [b])) ∨
      (kind ≠ .string ∧ ∀ strings, (between strings).run w = between strings) := by
  cases h with
  | null => exact .inr ⟨by decide, run_between_of_forall (by decide)⟩
  | tt => exact .inr ⟨by decide, run_between_of_forall (by decide)⟩
  | ff => exact .inr ⟨by decide, run_between_of_forall (by decide)⟩
  | number h => exact .inr ⟨by decide, run_between_of_forall fun b hb => (h.ne b hb).2.1⟩
  | string h => exact .inl ⟨rfl, _, h, h.run_between⟩
  | emptyArray | array | emptyObject | object => exact absurd hscalar Bool.false_ne_true

theorem Blank.run_between {w : List UInt8} (h : Blank w) (strings : List (List UInt8)) :
    (between strings).run w = between strings := by
  refine run_between_of_forall (fun b hb => ?_) strings
  rcases h b hb with rfl | rfl | rfl | rfl <;> decide

/-- The strings of a member come after those before it. -/
theorem run_member {key : List UInt8} {kind : Kind} {fields : List (List UInt8 × Kind)}
    {s s₁ s₂ w s₃ r : List UInt8} (hs : Blank s) (hkey : Chars key) (hs₁ : Blank s₁) (hs₂ : Blank s₂)
    (h : Value kind w) (hs₃ : Blank s₃) (hscalar : kind.isScalar = true)
    (hr : ∃ strings, Spelled fields strings ∧
      ∀ before, (between before).run r = between (before ++ strings)) :
    ∃ strings, Spelled ((key, kind) :: fields) strings ∧ ∀ before, (between before).run
      (s ++ (34 :: key ++ [34]) ++ s₁ ++ 58 :: s₂ ++ w ++ s₃ ++ r) = between (before ++ strings) := by
  obtain ⟨strings, hspelled, hrun⟩ := hr
  have hbefore : ∀ before, (between before).run
      (s ++ (34 :: key ++ [34]) ++ s₁ ++ 58 :: s₂ ++ w ++ s₃ ++ r) =
        ((((between (before ++ [key])).run w).run s₃).run r) := by
    intro before
    have hcolon : (between (before ++ [key])).step 58 = between (before ++ [key]) := rfl
    rw [Scan.run_append, Scan.run_append, Scan.run_append, Scan.run_append, Scan.run_append,
      Scan.run_append, hs.run_between, hkey.run_between, hs₁.run_between, Scan.run_cons, hcolon,
      hs₂.run_between]
  rcases h.run_between hscalar with ⟨rfl, b, hb, hvalue⟩ | ⟨hne, hvalue⟩
  · refine ⟨key :: b :: strings, .string hb hspelled, fun before => ?_⟩
    rw [hbefore, hvalue, hs₃.run_between, hrun, List.append_assoc, List.append_assoc]
    rfl
  · refine ⟨key :: strings, .other hne hspelled, fun before => ?_⟩
    rw [hbefore, hvalue, hs₃.run_between, hrun, List.append_assoc]
    rfl

/-- **Members.** The scanner reads the strings of the members. -/
theorem Members.run_between {fields : List (List UInt8 × Kind)} {w : List UInt8}
    (h : Members fields w) (hscalar : ∀ f ∈ fields, f.2.isScalar = true) :
    ∃ strings, Spelled fields strings ∧
      ∀ before, (between before).run w = between (before ++ strings) := by
  induction fields generalizing w with
  | nil => exact nomatch h
  | cons field fields ih =>
    have hfirst := hscalar _ List.mem_cons_self
    cases h with
    | single hs hkey hs₁ hs₂ hvalue hs₃ =>
      have hmember := run_member (r := []) hs hkey hs₁ hs₂ hvalue hs₃ hfirst
        ⟨[], .nil, fun before => by rw [Scan.run_nil, List.append_nil]⟩
      simpa only [List.append_nil] using hmember
    | cons hs hkey hs₁ hs₂ hvalue hs₃ hr =>
      obtain ⟨strings, hspelled, hrun⟩ := ih hr fun f hf => hscalar f (List.mem_cons_of_mem _ hf)
      refine run_member hs hkey hs₁ hs₂ hvalue hs₃ hfirst ⟨strings, hspelled, fun before => ?_⟩
      have hcomma : (between before).step 44 = between before := rfl
      rw [Scan.run_cons, hcomma, hrun]

theorem Object.run_between {fields : List (List UInt8 × Kind)} {text : List UInt8}
    (h : Object fields text) (hscalar : ∀ f ∈ fields, f.2.isScalar = true) :
    ∃ strings, Spelled fields strings ∧ (between []).run text = between strings := by
  obtain ⟨w, rfl, hmembers⟩ := h
  obtain ⟨strings, hspelled, hrun⟩ := hmembers.run_between hscalar
  refine ⟨strings, hspelled, ?_⟩
  have hopen : (between []).step 123 = between [] := rfl
  rw [List.cons_append, Scan.run_cons, hopen, Scan.run_append, hrun]
  rfl

/-! ### Counting quotes -/

/-- The quotes around the strings that the scanner has seen. -/
def Scan.quotes (s : Scan) : ℕ := 2 * s.strings.length + if s.mode = .outside then 0 else 1

@[simp] theorem quotes_outside (strings : List (List UInt8)) (current : List UInt8) :
    Scan.quotes ⟨.outside, strings, current⟩ = 2 * strings.length := rfl

@[simp] theorem quotes_inside (strings : List (List UInt8)) (current : List UInt8) :
    Scan.quotes ⟨.inside, strings, current⟩ = 2 * strings.length + 1 := rfl

@[simp] theorem quotes_escaped (strings : List (List UInt8)) (current : List UInt8) :
    Scan.quotes ⟨.escaped, strings, current⟩ = 2 * strings.length + 1 := rfl

/-- Without backslashes, every quote counts. -/
theorem Scan.quotes_run {s : Scan} (hmode : s.mode ≠ .escaped) {w : List UInt8}
    (hback : ∀ b ∈ w, b ≠ 92) :
    (s.run w).quotes = s.quotes + w.count 34 ∧ (s.run w).mode ≠ .escaped := by
  induction w generalizing s with
  | nil => exact ⟨rfl, hmode⟩
  | cons b w ih =>
    have hstep : (s.step b).quotes = s.quotes + [b].count 34 ∧ (s.step b).mode ≠ .escaped := by
      obtain ⟨mode, strings, current⟩ := s
      have hb := hback b List.mem_cons_self
      match mode, hmode with
      | .outside, _ =>
        by_cases hquote : b = 34
        · subst hquote
          exact ⟨rfl, nofun⟩
        · rw [List.count_singleton, Scan.step]
          simp [hquote, Scan.quotes]
      | .inside, _ =>
        by_cases hquote : b = 34
        · subst hquote
          refine ⟨?_, nofun⟩
          simp [Scan.step, Scan.quotes]
          omega
        · rw [List.count_singleton, Scan.step]
          simp [hquote, hb, Scan.quotes]
    obtain ⟨hquotes, hmode'⟩ := ih hstep.2 fun c hc => hback c (List.mem_cons_of_mem _ hc)
    refine ⟨?_, hmode'⟩
    rw [Scan.run_cons, hquotes, hstep.1, Nat.add_assoc, ← List.count_append, List.singleton_append]

/-- The scanner forgets no string. -/
theorem Scan.prefix_strings_run (s : Scan) (w : List UInt8) : s.strings <+: (s.run w).strings := by
  induction w generalizing s with
  | nil => exact List.prefix_rfl
  | cons b w ih =>
    refine List.IsPrefix.trans ?_ (ih (s.step b))
    rw [Scan.step]
    split
    · split_ifs <;> exact List.prefix_rfl
    · split_ifs
      · exact List.prefix_append _ _
      · exact List.prefix_rfl
      · exact List.prefix_rfl
    · exact List.prefix_rfl

/-- The quotes that are seen become more. -/
theorem Scan.quotes_le_run (s : Scan) (w : List UInt8) : s.quotes ≤ (s.run w).quotes := by
  induction w generalizing s with
  | nil => exact le_rfl
  | cons b w ih =>
    refine le_trans ?_ (ih (s.step b))
    obtain ⟨mode, strings, current⟩ := s
    cases mode with
    | outside | inside =>
      simp only [Scan.step]
      have hmul : 2 * (strings.length + 1) = 2 * strings.length + 2 := Nat.mul_succ 2 _
      split_ifs <;> simp [Scan.quotes, hmul]
    | escaped => exact le_rfl

/-- In a string, the scanner comes to a quote that closes it, or takes the text into it. -/
theorem Scan.run_within {s : Scan} (hmode : s.mode ≠ .outside) (w : List UInt8) :
    s.quotes < (s.run w).quotes ∨
      ((s.run w).strings = s.strings ∧ (s.run w).current = s.current ++ w ∧
        (s.run w).mode ≠ .outside) := by
  induction w generalizing s with
  | nil => exact .inr ⟨rfl, (List.append_nil _).symm, hmode⟩
  | cons b w ih =>
    obtain ⟨mode, strings, current⟩ := s
    have hgoOn : ∀ mode', mode' ≠ .outside →
        Scan.step ⟨mode, strings, current⟩ b = ⟨mode', strings, current ++ [b]⟩ →
        Scan.quotes ⟨mode, strings, current⟩ < (Scan.run ⟨mode, strings, current⟩ (b :: w)).quotes ∨
          ((Scan.run ⟨mode, strings, current⟩ (b :: w)).strings = strings ∧
            (Scan.run ⟨mode, strings, current⟩ (b :: w)).current = current ++ b :: w ∧
            (Scan.run ⟨mode, strings, current⟩ (b :: w)).mode ≠ .outside) := by
      intro mode' hmode' hstep
      have hquotes : Scan.quotes ⟨mode, strings, current⟩ =
          Scan.quotes ⟨mode', strings, current ++ [b]⟩ := by
        simp only [Scan.quotes, if_neg hmode', if_neg hmode]
      rw [Scan.run_cons, hstep, hquotes]
      refine (ih hmode').imp id fun ⟨hstrings, hcurrent, hend⟩ => ⟨hstrings, ?_, hend⟩
      rw [hcurrent, List.append_assoc, List.singleton_append]
    match mode, hmode with
    | .escaped, _ => exact hgoOn .inside (by decide) rfl
    | .inside, _ =>
      by_cases hquote : b = 34
      · -- the quote closes the string
        left
        subst hquote
        refine lt_of_lt_of_le ?_ (Scan.quotes_le_run _ w)
        simp [Scan.step, Scan.quotes]
        omega
      · by_cases hback : b = 92
        · exact hgoOn .escaped (by decide) (by simp only [Scan.step, if_neg hquote, if_pos hback])
        · exact hgoOn .inside (by decide) (by simp only [Scan.step, if_neg hquote, if_neg hback])

/-- **What stands between two quotes is a string** when the text is an object with no more quotes
than its members call for, and the text around has no backslash. -/
theorem chars_of_object {fields : List (List UInt8 × Kind)} {front c back : List UInt8} {n : ℕ}
    (h : Object fields (front ++ 34 :: c ++ 34 :: back)) (hscalar : ∀ f ∈ fields, f.2.isScalar = true)
    (hfront : ∀ b ∈ front, b ≠ 92) (hback : ∀ b ∈ back, b ≠ 92) (heven : front.count 34 = 2 * n)
    (hcount : front.count 34 + 2 + back.count 34 = 2 * stringCount fields) :
    ∃ strings, Spelled fields strings ∧ strings[n]? = some c := by
  obtain ⟨strings, hspelled, hrun⟩ := h.run_between hscalar
  refine ⟨strings, hspelled, ?_⟩
  rw [Scan.run_append, Scan.run_append, Scan.run_cons, Scan.run_cons] at hrun
  have htotal : (between strings).quotes = front.count 34 + 2 + back.count 34 := by
    rw [hcount, ← hspelled.length]
    rfl
  obtain ⟨hquotes, hmode⟩ := Scan.quotes_run (s := between []) nofun hfront
  rcases h₁ : (between []).run front with ⟨mode, before, current⟩
  rw [h₁] at hrun hquotes hmode
  -- an even number of quotes, so the text in front ends between strings
  have hzero : (between []).quotes = 0 := rfl
  rw [hzero, heven] at hquotes
  obtain rfl : mode = .outside := by
    match mode, hmode with
    | .outside, _ => rfl
    | .inside, _ =>
      rw [quotes_inside] at hquotes
      omega
  have hlen : before.length = n := by
    rw [quotes_outside] at hquotes
    omega
  have hopen : Scan.step ⟨.outside, before, current⟩ 34 = ⟨.inside, before, []⟩ := rfl
  rw [hopen] at hrun
  have hwithin := Scan.run_within (s := ⟨.inside, before, []⟩) nofun c
  rcases h₂ : Scan.run ⟨.inside, before, []⟩ c with ⟨mode, after, current⟩
  rw [h₂] at hrun hwithin
  rw [quotes_inside, hlen] at hwithin
  match mode with
  | .escaped =>
    -- the quote after it is escaped, and the number of quotes is odd
    have hstep : Scan.step ⟨.escaped, after, current⟩ 34 = ⟨.inside, after, current ++ [34]⟩ := rfl
    have hend := (Scan.quotes_run (s := ⟨.inside, after, current ++ [34]⟩) nofun hback).1
    rw [← hstep, hrun, htotal, hstep, quotes_inside, heven] at hend
    omega
  | .outside =>
    have hstep : Scan.step ⟨.outside, after, current⟩ 34 = ⟨.inside, after, []⟩ := rfl
    have hend := (Scan.quotes_run (s := ⟨.inside, after, []⟩) nofun hback).1
    rw [← hstep, hrun, htotal, hstep, quotes_inside, heven] at hend
    omega
  | .inside =>
    have hstep : Scan.step ⟨.inside, after, current⟩ 34 = ⟨.outside, after ++ [current], []⟩ := rfl
    have hend := (Scan.quotes_run (s := ⟨.outside, after ++ [current], []⟩) nofun hback).1
    rw [← hstep, hrun, htotal, hstep, quotes_outside, heven, List.length_append,
      List.length_singleton] at hend
    rcases hwithin with hlt | ⟨hafter, hcurrent, -⟩
    · rw [quotes_inside] at hlt
      omega
    · obtain rfl : after = before := hafter
      obtain rfl : current = c := hcurrent
      obtain ⟨rest, hrest⟩ : after ++ [current] <+: strings := by
        have hprefix := Scan.prefix_strings_run ⟨.outside, after ++ [current], []⟩ back
        rwa [← hstep, hrun] at hprefix
      rw [← hrest, List.append_assoc, List.getElem?_append_right hlen.le, hlen, Nat.sub_self]
      rfl

end Json
