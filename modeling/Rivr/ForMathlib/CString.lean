import Mathlib.Algebra.Ring.Nat
import Mathlib.Data.List.Basic
import Mathlib.Data.List.Infix
import Mathlib.Data.List.TakeWhile
import Mathlib.Tactic.SplitIfs

/-!
# C strings and the functions that scan them

A C string is the list of its bytes up to the terminating NUL. `strstr`, the conversions `%lu` and
`%2x` of `sscanf`, and `strtoul`, where `unsigned long` has 32 bits.

Two facts say what a scan does not see: a separator that is no part of the word splits a search
(`strstr_append_sep`), and a number ends at a blank (`scanUlong_append_blank`).
-/

namespace CString

/-- The C string at the head of the memory. -/
def cstr (mem : List UInt8) : List UInt8 := mem.takeWhile fun b => b != 0

/-- `isspace` of the C locale. -/
def isSpace (b : UInt8) : Bool := b == 32 || (9 ≤ b && b ≤ 13)

/-- `isdigit`. -/
def isDigit (b : UInt8) : Bool := 48 ≤ b && b ≤ 57

/-! ### Searching -/

/-- `strstr`: the string from the first occurrence of the word on. -/
def strstr (w : List UInt8) : List UInt8 → Option (List UInt8)
  | [] => if w = [] then some [] else none
  | b :: s => if w.isPrefixOf (b :: s) then some (b :: s) else strstr w s

variable {w s t r : List UInt8}

/-- What the search finds starts with the word and ends the string. -/
theorem eq_append_of_strstr (h : strstr w s = some r) : ∃ p, s = p ++ r ∧ w <+: r := by
  induction s with
  | nil =>
    rw [strstr] at h
    split_ifs at h with hw
    obtain rfl := Option.some.inj h
    exact ⟨[], rfl, hw ▸ List.prefix_rfl⟩
  | cons b s ih =>
    rw [strstr] at h
    split_ifs at h with hpre
    · obtain rfl := Option.some.inj h
      exact ⟨[], rfl, List.isPrefixOf_iff_prefix.mp hpre⟩
    · obtain ⟨p, rfl, hr⟩ := ih h
      exact ⟨b :: p, rfl, hr⟩

/-- A word is found at the head of a string that starts with it. -/
theorem strstr_of_prefix (hw : w ≠ []) (h : w <+: s) : strstr w s = some s := by
  match s with
  | [] => exact absurd (List.prefix_nil.mp h) hw
  | b :: s => rw [strstr, if_pos (List.isPrefixOf_iff_prefix.mpr h)]

/-- A word that occurs is found. -/
theorem strstr_isSome (hw : w ≠ []) (h : w <:+: s) : (strstr w s).isSome := by
  obtain ⟨p, t, rfl⟩ := h
  induction p with
  | nil =>
    rw [List.nil_append, strstr_of_prefix hw (List.prefix_append w t)]
    rfl
  | cons b p ih =>
    rw [List.cons_append, List.cons_append, strstr]
    split_ifs
    · rfl
    · exact ih

/-- A byte of the word that is not in the string. -/
theorem strstr_eq_none_of_notMem {b : UInt8} (hb : b ∈ w) (hs : b ∉ s) : strstr w s = none := by
  rw [Option.eq_none_iff_forall_not_mem]
  intro r hr
  obtain ⟨p, rfl, hpre⟩ := eq_append_of_strstr hr
  exact hs (List.mem_append_right _ (hpre.subset hb))

/-- Whether a string starts with a word is settled within the length of the word. -/
theorem isPrefixOf_append (h : w.length ≤ s.length) (t : List UInt8) :
    w.isPrefixOf (s ++ t) = w.isPrefixOf s := by
  rw [Bool.eq_iff_iff, List.isPrefixOf_iff_prefix, List.isPrefixOf_iff_prefix]
  exact ⟨fun hpre => List.prefix_of_prefix_length_le hpre (List.prefix_append s t) h,
    fun hpre => hpre.trans (List.prefix_append s t)⟩

/-- Before a byte that is no part of it, a word starts the string only if it ends there. -/
theorem isPrefixOf_append_sep {c : UInt8} (hc : c ∉ w) (s t : List UInt8) :
    w.isPrefixOf (s ++ c :: t) = w.isPrefixOf s := by
  by_cases hlen : w.length ≤ s.length
  · exact isPrefixOf_append hlen _
  · rw [Bool.eq_iff_iff, List.isPrefixOf_iff_prefix, List.isPrefixOf_iff_prefix]
    refine ⟨fun hpre => ?_, fun hpre => absurd hpre.length_le hlen⟩
    have hshort : (s ++ [c]).length ≤ w.length := by
      simp only [List.length_append, List.length_singleton]
      omega
    have hstart : s ++ [c] <+: s ++ c :: t := ⟨t, by simp⟩
    have hmem : s ++ [c] <+: w := List.prefix_of_prefix_length_le hstart hpre hshort
    exact absurd (hmem.subset (List.mem_append_right s List.mem_cons_self)) hc

/-- A separator that is no part of the word splits the search. -/
theorem strstr_append_sep {c : UInt8} (hw : w ≠ []) (hc : c ∉ w) (s t : List UInt8) :
    strstr w (s ++ c :: t) =
      match strstr w s with
      | some r => some (r ++ c :: t)
      | none => strstr w t := by
  induction s with
  | nil =>
    have hpre := isPrefixOf_append_sep hc [] t
    have hnil : w.isPrefixOf [] = false := by
      rw [← Bool.not_eq_true, List.isPrefixOf_iff_prefix, List.prefix_nil]
      exact hw
    rw [hnil] at hpre
    simp only [List.nil_append] at hpre ⊢
    simp [strstr, hpre, hw]
  | cons b s ih =>
    have hpre := isPrefixOf_append_sep hc (b :: s) t
    rw [List.cons_append] at hpre ⊢
    rw [strstr, strstr, hpre]
    by_cases h : w.isPrefixOf (b :: s)
    · simp [h]
    · simp only [h, Bool.false_eq_true, if_false]
      exact ih

/-- The first occurrence of a word does not depend on what comes after it. -/
theorem strstr_append_self_of {x y : List UInt8} (h : strstr w (s ++ (w ++ x)) = some (w ++ x)) :
    strstr w (s ++ (w ++ y)) = some (w ++ y) := by
  induction s with
  | nil =>
    match w with
    | [] =>
      match y with
      | [] => rfl
      | _ :: _ => rfl
    | b :: w => exact strstr_of_prefix (List.cons_ne_nil _ _) (List.prefix_append _ _)
  | cons b s ih =>
    rw [List.cons_append, strstr] at h ⊢
    have hlen : w.length ≤ (b :: s ++ w).length := by
      simp only [List.length_append]
      omega
    have hsame : ∀ z, w.isPrefixOf (b :: (s ++ (w ++ z))) = w.isPrefixOf (b :: s ++ w) := fun z => by
      rw [← isPrefixOf_append hlen z]
      simp
    rw [hsame] at h ⊢
    split_ifs at h ⊢ with hpre
    · have := congrArg List.length (Option.some.inj h)
      simp only [List.length_cons, List.length_append] at this
      omega
    · exact ih h

/-! ### Numbers -/

/-- The value of decimal digits. -/
def decimal (digits : List UInt8) : ℕ := digits.foldl (fun n b => 10 * n + (b.toNat - 48)) 0

/-- The sign that may come before a number, and what follows it. -/
def scanSign : List UInt8 → Bool × List UInt8
  | b :: s => if b = 45 then (true, s) else if b = 43 then (false, s) else (false, b :: s)
  | [] => (false, [])

/-- The conversion `%lu`. -/
def scanUlong (s : List UInt8) : Option UInt32 :=
  let (neg, s) := scanSign (s.dropWhile isSpace)
  let digits := s.takeWhile isDigit
  if digits.isEmpty then none
  else if 2 ^ 32 ≤ decimal digits then some 0xFFFFFFFF
  else
    let v := UInt32.ofNat (decimal digits)
    some (if neg then 0 - v else v)

/-- `strtoul(s, NULL, 10)`. -/
def strtoul (s : List UInt8) : UInt32 := (scanUlong s).getD 0

/-- The value of a hexadecimal digit. -/
def hexDigit (b : UInt8) : Option ℕ :=
  if 48 ≤ b ∧ b ≤ 57 then some (b.toNat - 48)
  else if 97 ≤ b ∧ b ≤ 102 then some (b.toNat - 87)
  else if 65 ≤ b ∧ b ≤ 70 then some (b.toNat - 55)
  else none

/-- The conversion `%2x` once the blanks are skipped: two characters at most, of which the first may
be a sign; `0x` alone is no number. -/
def scanHexPair : List UInt8 → Option UInt32
  | [] => none
  | b :: s =>
    match hexDigit b, s.head?.bind hexDigit with
    | some hi, some lo => some (UInt32.ofNat (16 * hi + lo))
    | some hi, none =>
      if hi = 0 ∧ (s.head? = some 120 ∨ s.head? = some 88) then none else some (UInt32.ofNat hi)
    | none, some lo =>
      if b = 43 then some (UInt32.ofNat lo)
      else if b = 45 then some (0 - UInt32.ofNat lo)
      else none
    | none, none => none

/-- The conversion `%2x`. -/
def scanHex2 (s : List UInt8) : Option UInt32 := scanHexPair (s.dropWhile isSpace)

/-- Before a blank and a character that starts no number, a number does not see what comes after. -/
theorem scanUlong_append_blank {c : UInt8} (hspace : isSpace c = false) (hdigit : isDigit c = false)
    (hsign : c ≠ 45 ∧ c ≠ 43) (u x y : List UInt8) :
    scanUlong (u ++ 32 :: c :: x) = scanUlong (u ++ 32 :: c :: y) := by
  have hdigits : ∀ v z : List UInt8, (v ++ 32 :: c :: z).takeWhile isDigit = v.takeWhile isDigit := by
    intro v z
    induction v with
    | nil => rfl
    | cons b v ih => simp only [List.cons_append, List.takeWhile_cons, ih]
  rcases hdrop : u.dropWhile isSpace with _ | ⟨b, v⟩
  · have hnone : ∀ z, scanUlong (u ++ 32 :: c :: z) = none := by
      intro z
      have hall : ∀ a ∈ u, isSpace a = true := List.dropWhile_eq_nil_iff.mp hdrop
      have hskip : (u ++ 32 :: c :: z).dropWhile isSpace = c :: z := by
        rw [List.dropWhile_append_of_pos hall, List.dropWhile_cons_of_pos (by decide),
          List.dropWhile_cons_of_neg (by simp [hspace])]
      have hsign' : scanSign (c :: z) = (false, c :: z) := by simp [scanSign, hsign.1, hsign.2]
      simp [scanUlong, hskip, hsign', hdigit]
    rw [hnone, hnone]
  · have hskip : ∀ z, (u ++ 32 :: c :: z).dropWhile isSpace = b :: (v ++ 32 :: c :: z) := by
      intro z
      rw [List.dropWhile_append, hdrop]
      rfl
    have hsign' : ∀ z, scanSign (b :: (v ++ z)) =
        ((scanSign (b :: v)).1, (scanSign (b :: v)).2 ++ z) := by
      intro z
      simp only [scanSign]
      split_ifs <;> rfl
    simp only [scanUlong, hskip, hsign', hdigits]

end CString
