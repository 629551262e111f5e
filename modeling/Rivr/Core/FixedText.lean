import Rivr.ForMathlib.FittingPrefix
import Rivr.ForMathlib.Utf8

/-!
# Texts of a fixed capacity

`FixedText<N>` of `rivr_core/src/runtime/fixed.rs` is a text of at most `N` bytes on the stack.

`push_str` appends the longest prefix of a text that there is room for, and notes in `truncated`
that something was left out; a later text may still find room behind a cut one. So the content
starts with the longest prefix of all texts together that has at most `N` bytes, and it is that
prefix unless a text was appended behind a cut one (`pushStr_longestPrefix`).

`push_i64` collects the digits of an integer from the last one on and pushes them from the first one
on. For every `i64`, the least one too, this is its decimal text (`pushI64_toString`).
-/

open FittingPrefix Utf8

namespace Rivr.Core

/-- `FixedText<N>`. -/
structure FixedText (N : ℕ) where
  buf : List UInt8
  len : ℕ
  truncated : Bool
  length_buf : buf.length = N
  len_le : len ≤ N

namespace FixedText

variable {N : ℕ}

/-- `FixedText::new`. -/
def new (N : ℕ) : FixedText N where
  buf := List.replicate N 0
  len := 0
  truncated := false
  length_buf := List.length_replicate
  len_le := Nat.zero_le N

/-- The bytes that `as_str` views as a `&str`. -/
def asStr (t : FixedText N) : List UInt8 := t.buf.take t.len

/-- The bytes are written behind the text. -/
def append (t : FixedText N) (bytes : List UInt8) (h : t.len + bytes.length ≤ N) :
    FixedText N where
  buf := t.buf.take t.len ++ bytes ++ t.buf.drop (t.len + bytes.length)
  len := t.len + bytes.length
  truncated := t.truncated
  length_buf := by
    have hlen := t.length_buf
    simp only [List.length_append, List.length_take, List.length_drop]
    omega
  len_le := h

/-- Something was left out. -/
def cut (t : FixedText N) : FixedText N := { t with truncated := true }

/-- `FixedText::push_str`. -/
def pushStr (t : FixedText N) : List Char → FixedText N
  | [] => t
  | ch :: s =>
    if h : t.len + ch.utf8Size > N then t.cut  -- the rest of the text is not looked at
    else
      (t.append (String.utf8EncodeChar ch)
        (String.length_utf8EncodeChar ch ▸ Nat.not_lt.mp h)).pushStr s

/-- `FixedText::push_ascii`. -/
def pushAscii (t : FixedText N) (b : UInt8) : FixedText N :=
  if h : t.len < N then t.append [b] h else t.cut

/-! ### Appending -/

@[simp] theorem asStr_new (N : ℕ) : (new N).asStr = [] := List.take_zero

@[simp] theorem asStr_cut (t : FixedText N) : t.cut.asStr = t.asStr := rfl

@[simp] theorem len_append (t : FixedText N) (bytes : List UInt8) (h : t.len + bytes.length ≤ N) :
    (t.append bytes h).len = t.len + bytes.length := rfl

@[simp] theorem truncated_append (t : FixedText N) (bytes : List UInt8)
    (h : t.len + bytes.length ≤ N) : (t.append bytes h).truncated = t.truncated := rfl

theorem length_asStr (t : FixedText N) : t.asStr.length = t.len := by
  rw [asStr, List.length_take, t.length_buf, Nat.min_eq_left t.len_le]

@[simp] theorem asStr_append (t : FixedText N) (bytes : List UInt8)
    (h : t.len + bytes.length ≤ N) : (t.append bytes h).asStr = t.asStr ++ bytes := by
  have hlen : t.len + bytes.length = (t.asStr ++ bytes).length := by
    rw [List.length_append, length_asStr]
  change ((t.asStr ++ bytes) ++ _).take (t.len + bytes.length) = _
  rw [hlen, List.take_left]

theorem length_utf8 (s : List Char) : (utf8 s).length = weight Char.utf8Size s := by
  induction s with
  | nil => rfl
  | cons c s ih => rw [utf8_cons, List.length_append, String.length_utf8EncodeChar, ih, weight_cons]

/-- A text is appended as far as there is room. -/
theorem asStr_pushStr (t : FixedText N) (s : List Char) :
    (t.pushStr s).asStr = t.asStr ++ utf8 (fitting Char.utf8Size (N - t.len) s) := by
  induction s generalizing t with
  | nil => exact (List.append_nil _).symm
  | cons c s ih =>
    have hle := t.len_le
    rw [pushStr, fitting_cons]
    split_ifs with h hfits hfits
    · omega
    · rw [utf8_nil, List.append_nil, asStr_cut]
    · rw [ih, asStr_append, len_append, String.length_utf8EncodeChar, utf8_cons, List.append_assoc,
        Nat.sub_sub]
    · omega

/-- The rest is noted as left out. -/
theorem truncated_pushStr (t : FixedText N) (s : List Char) :
    (t.pushStr s).truncated =
      (t.truncated || decide (N - t.len < weight Char.utf8Size s)) := by
  induction s generalizing t with
  | nil => simp [pushStr]
  | cons c s ih =>
    have hle := t.len_le
    rw [pushStr, weight_cons]
    split_ifs with h
    · rw [cut, decide_eq_true (by omega), Bool.or_true]
    · rw [ih, truncated_append, len_append, String.length_utf8EncodeChar]
      congr 2
      apply propext
      omega

/-! ### Texts one after another -/

/-- The prefix of a text is the longest one of at most `n` bytes. It ends between two characters, as
a text does. -/
structure LongestPrefix (n : ℕ) (s p : List Char) : Prop where
  isPrefix : p <+: s
  length_le : (utf8 p).length ≤ n
  longest : ∀ q, q <+: s → (utf8 q).length ≤ n → q <+: p

theorem longestPrefix_fitting (n : ℕ) (s : List Char) :
    LongestPrefix n s (fitting Char.utf8Size n s) where
  isPrefix := fitting_isPrefix _ n s
  length_le := by
    rw [length_utf8]
    exact weight_fitting_le _ n s
  longest q hq hlen := prefix_fitting hq (length_utf8 q ▸ hlen)

/-- The texts are pushed to the empty one. -/
def pushStrs (N : ℕ) (ss : List (List Char)) : FixedText N := ss.foldl pushStr (new N)

/-- The content as characters. -/
theorem pushStrs_eq_pushAll (N : ℕ) (ss : List (List Char)) :
    (pushStrs N ss).asStr = utf8 (pushAll Char.utf8Size N ss).content ∧
      (pushStrs N ss).truncated = (pushAll Char.utf8Size N ss).cut := by
  induction ss using List.reverseRecOn with
  | nil => exact ⟨asStr_new N, rfl⟩
  | append_singleton ss s ih =>
    obtain ⟨hstr, htruncated⟩ := ih
    have hlen : (pushStrs N ss).len = weight Char.utf8Size (pushAll Char.utf8Size N ss).content := by
      rw [← length_asStr, hstr, length_utf8]
    have hpush : pushStrs N (ss ++ [s]) = (pushStrs N ss).pushStr s := by
      rw [pushStrs, List.foldl_append]
      rfl
    rw [hpush, pushAll_concat, asStr_pushStr, truncated_pushStr, hlen, hstr, htruncated,
      ← utf8_append]
    exact ⟨rfl, rfl⟩

/-- A text is appended up to the longest prefix that there is room for. The content starts with the
longest prefix of all texts together, and is this prefix exactly if nothing was appended once a text
was cut. -/
theorem pushStr_longestPrefix (N : ℕ) :
    (∀ (t : FixedText N) (s : List Char), ∃ p, LongestPrefix (N - t.len) s p ∧
      (t.pushStr s).asStr = t.asStr ++ utf8 p) ∧
    ∀ ss : List (List Char), ∃ p, LongestPrefix N ss.flatten p ∧
      utf8 p <+: (pushStrs N ss).asStr ∧
      ((pushStrs N ss).asStr = utf8 p ↔
        ∀ as, as <+: ss → (pushStrs N as).truncated →
          (pushStrs N ss).asStr = (pushStrs N as).asStr) := by
  refine ⟨fun t s => ⟨_, longestPrefix_fitting _ s, asStr_pushStr t s⟩, fun ss => ?_⟩
  refine ⟨_, longestPrefix_fitting N ss.flatten, ?_, ?_⟩
  · obtain ⟨rest, hrest⟩ := fitting_flatten_isPrefix Char.utf8Size N ss
    rw [(pushStrs_eq_pushAll N ss).1, ← hrest, utf8_append]
    exact List.prefix_append _ _
  · simp only [pushStrs_eq_pushAll, utf8_injective.eq_iff]
    exact content_eq_fitting_iff _ N ss

/-- After `aé` in two bytes there is room for `b`. -/
theorem not_pushStr_longestPrefix :
    ¬∀ (N : ℕ) (ss : List (List Char)), ∃ p, LongestPrefix N ss.flatten p ∧
      (pushStrs N ss).asStr = utf8 p := by
  intro h
  obtain ⟨p, hp, heq⟩ := h 2 ["aé".toList, "b".toList]
  have hab : (pushStrs 2 ["aé".toList, "b".toList]).asStr = utf8 ['a', 'b'] := by decide
  rw [utf8_injective (heq.symm.trans hab)] at hp
  exact absurd hp.isPrefix (by decide)

/-! ### Integers -/

/-- `b'0' + d`, if this does not overflow. -/
def digitByte (d : UInt8) : Option UInt8 := if 48 + d.toNat < 256 then some (48 + d) else none

/-- The loop of `push_i64` for a negative number. It fills `digits`, which has some places left; it
panics if none is left or if the negation overflows. -/
def negativeDigits : ℕ → Int64 → Option (List UInt8)
  | 0, _ => none
  | places + 1, n =>
    let digit := 48 + UInt8.ofNat (n % -10).toInt.natAbs
    -- the quotient is positive, and becomes negative again for the next turn
    let n := n / -10
    if n = 0 then some [digit]
    else if n = Int64.minValue then none
    else (negativeDigits places (-n)).map (digit :: ·)

/-- The loop of `push_i64` for a number that is not negative. -/
def positiveDigits : ℕ → Int64 → Option (List UInt8)
  | 0, _ => none
  | places + 1, n => do
    let digit ← digitByte (n % 10).toUInt64.toUInt8
    let n := n / 10
    if n = 0 then some [digit] else (positiveDigits places n).map (digit :: ·)

/-- `FixedText::push_i64`; `none` is a panic. -/
def pushI64 (t : FixedText N) (n : Int64) : Option (FixedText N) :=
  if n < 0 then
    (negativeDigits 20 n).map fun digits => digits.reverse.foldl pushAscii (t.pushAscii 45)
  else (positiveDigits 20 n).map fun digits => digits.reverse.foldl pushAscii t

/-- `FixedText::from_i64`. -/
def fromI64 (N : ℕ) (n : Int64) : Option (FixedText N) := (new N).pushI64 n

/-! ### Their digits -/

/-- The loop of `push_i64` on a natural number. -/
def lastDigits : ℕ → ℕ → Option (List UInt8)
  | 0, _ => none
  | places + 1, m =>
    if m / 10 = 0 then some [48 + UInt8.ofNat (m % 10)]
    else (lastDigits places (m / 10)).map ((48 + UInt8.ofNat (m % 10)) :: ·)

/-- The decimal digits of a number, with the last one apart. -/
theorem utf8_toDigits (m : ℕ) :
    utf8 (Nat.toDigits 10 m) = (if m / 10 = 0 then [] else utf8 (Nat.toDigits 10 (m / 10))) ++
      [48 + UInt8.ofNat (m % 10)] := by
  have hdigit : ∀ d < 10, utf8 [d.digitChar] = [48 + UInt8.ofNat d] := by decide
  rw [Nat.toDigits_eq_if (by decide)]
  by_cases h : m < 10
  · rw [if_pos h, if_pos (Nat.div_eq_of_lt h), hdigit m h, Nat.mod_eq_of_lt h]
    rfl
  · have hdiv : m / 10 ≠ 0 := by omega
    rw [if_neg h, if_neg hdiv, utf8_append, hdigit _ (Nat.mod_lt m (by decide))]

/-- With enough places the loop finds all digits. -/
theorem lastDigits_eq {places m : ℕ} (hplaces : places ≠ 0) (hlt : m < 10 ^ places) :
    ∃ digits, lastDigits places m = some digits ∧ digits.length ≤ places ∧
      digits.reverse = utf8 (Nat.toDigits 10 m) := by
  induction places generalizing m with
  | zero => exact absurd rfl hplaces
  | succ places ih =>
    rw [utf8_toDigits, lastDigits]
    split_ifs with hm
    · exact ⟨_, rfl, Nat.succ_le_succ (Nat.zero_le places), rfl⟩
    · have hplaces : places ≠ 0 := by
        rintro rfl
        omega
      have hdiv : m / 10 < 10 ^ places := by omega
      obtain ⟨digits, hdigits, hlen, hreverse⟩ := ih hplaces hdiv
      rw [hdigits]
      exact ⟨_, rfl, Nat.succ_le_succ hlen, by rw [List.reverse_cons, hreverse]⟩

section

variable {n : Int64}

theorem natAbs_toInt_lt (n : Int64) : n.toInt.natAbs < 10 ^ 19 := by
  have hge := n.le_toInt
  have hlt := n.toInt_lt
  omega

theorem toInt_div_neg_ten (hn : n < 0) : (n / -10).toInt = (n.toInt.natAbs / 10 : ℕ) := by
  have hneg : n.toInt < 0 := Int64.lt_iff_toInt_lt.mp hn
  have hnonneg : 0 ≤ n.toInt.tdiv (-10) :=
    Int.tdiv_nonneg_of_nonpos_of_nonpos (Int.le_of_lt hneg) (by decide)
  rw [Int64.toInt_div_of_ne_right _ _ (by decide)]
  exact (Int.natAbs_of_nonneg hnonneg).symm.trans (congrArg _ (Int.natAbs_tdiv _ _))

theorem natAbs_toInt_mod_neg_ten (n : Int64) :
    (n % -10).toInt.natAbs = n.toInt.natAbs % 10 := by
  rw [Int64.toInt_mod, Int.natAbs_tmod]
  rfl

/-- The negation of the quotient does not overflow. -/
theorem toInt_neg_div_neg_ten (hn : n < 0) :
    (-(n / -10)).toInt = -(n.toInt.natAbs / 10 : ℕ) := by
  have hge := n.le_toInt
  have hlt := n.toInt_lt
  rw [Int64.toInt_neg, toInt_div_neg_ten hn]
  exact Int.bmod_eq_of_le (by omega) (by omega)

theorem negativeDigits_eq (places : ℕ) (hn : n < 0) :
    negativeDigits places n = lastDigits places n.toInt.natAbs := by
  induction places generalizing n with
  | zero => rfl
  | succ places ih =>
    have hdiv := toInt_div_neg_ten hn
    have hneg := toInt_neg_div_neg_ten hn
    rw [negativeDigits, lastDigits, natAbs_toInt_mod_neg_ten]
    by_cases hm : n.toInt.natAbs / 10 = 0
    · have hzero : n / -10 = 0 := by
        rw [← Int64.toInt_inj, hdiv, hm]
        rfl
      rw [if_pos hm, if_pos hzero]
    · have hzero : n / -10 ≠ 0 := fun h => by
        rw [h, Int64.toInt_zero] at hdiv
        omega
      have hmin : n / -10 ≠ Int64.minValue := fun h => by
        rw [h, Int64.toInt_minValue] at hdiv
        omega
      have hlt : -(n / -10) < 0 := by
        rw [Int64.lt_iff_toInt_lt, hneg, Int64.toInt_zero]
        omega
      rw [if_neg hm, if_neg hzero, if_neg hmin, ih hlt, hneg, Int.natAbs_neg, Int.natAbs_natCast]

theorem toInt_nonneg (hn : ¬n < 0) : 0 ≤ n.toInt := by
  rw [← Int64.toInt_zero, ← Int64.le_iff_toInt_le]
  exact Int64.not_lt.mp hn

theorem toInt_div_ten (hn : ¬n < 0) : (n / 10).toInt = (n.toInt.natAbs / 10 : ℕ) := by
  have hnonneg : 0 ≤ n.toInt.tdiv 10 := Int.tdiv_nonneg (toInt_nonneg hn) (by decide)
  rw [Int64.toInt_div_of_ne_right _ _ (by decide)]
  exact (Int.natAbs_of_nonneg hnonneg).symm.trans (congrArg _ (Int.natAbs_tdiv _ _))

theorem toInt_mod_ten (hn : ¬n < 0) : (n % 10).toInt = (n.toInt.natAbs % 10 : ℕ) := by
  have hnonneg : 0 ≤ n.toInt.tmod 10 := Int.tmod_nonneg 10 (toInt_nonneg hn)
  rw [Int64.toInt_mod]
  exact (Int.natAbs_of_nonneg hnonneg).symm.trans (congrArg _ (Int.natAbs_tmod _ _))

/-- The digit of a number that is not negative does not overflow. -/
theorem digitByte_mod_ten (hn : ¬n < 0) :
    digitByte (n % 10).toUInt64.toUInt8 = some (48 + UInt8.ofNat (n.toInt.natAbs % 10)) := by
  have hle : 0 ≤ n % 10 := by
    rw [Int64.le_iff_toInt_le, toInt_mod_ten hn, Int64.toInt_zero]
    exact Int.natCast_nonneg _
  have hdigit : (n % 10).toUInt64.toUInt8 = UInt8.ofNat (n.toInt.natAbs % 10) := by
    rw [← UInt8.toNat_inj, UInt64.toNat_toUInt8, Int64.toNat_toUInt64_of_le hle,
      UInt8.toNat_ofNat', ← Int64.toNat_toInt, toInt_mod_ten hn, Int.toNat_natCast]
  have hlt : n.toInt.natAbs % 10 < 256 := Nat.lt_trans (Nat.mod_lt _ (by decide)) (by decide)
  rw [hdigit, digitByte, UInt8.toNat_ofNat_of_lt' hlt]
  exact if_pos (by omega)

theorem positiveDigits_eq (places : ℕ) (hn : ¬n < 0) :
    positiveDigits places n = lastDigits places n.toInt.natAbs := by
  induction places generalizing n with
  | zero => rfl
  | succ places ih =>
    have hdiv := toInt_div_ten hn
    rw [positiveDigits, lastDigits, digitByte_mod_ten hn, Option.bind_eq_bind, Option.bind_some]
    by_cases hm : n.toInt.natAbs / 10 = 0
    · have hzero : n / 10 = 0 := by
        rw [← Int64.toInt_inj, hdiv, hm]
        rfl
      rw [if_pos hm, if_pos hzero]
    · have hzero : n / 10 ≠ 0 := fun h => by
        rw [h, Int64.toInt_zero] at hdiv
        omega
      have hnonneg : ¬n / 10 < 0 := by
        rw [Int64.lt_iff_toInt_lt, hdiv, Int64.toInt_zero]
        omega
      rw [if_neg hm, if_neg hzero, ih hnonneg, hdiv, Int.natAbs_natCast]

end

/-- Bytes that there is room for are appended. -/
theorem foldl_pushAscii (bytes : List UInt8) {t : FixedText N} (h : t.len + bytes.length ≤ N) :
    (bytes.foldl pushAscii t).asStr = t.asStr ++ bytes ∧
      (bytes.foldl pushAscii t).truncated = t.truncated := by
  induction bytes generalizing t with
  | nil => exact ⟨(List.append_nil _).symm, rfl⟩
  | cons b bytes ih =>
    rw [List.length_cons] at h
    have hlt : t.len < N := by omega
    rw [List.foldl_cons, pushAscii, dif_pos hlt]
    obtain ⟨hstr, htruncated⟩ := ih (t := t.append [b] hlt) (by
      rw [len_append, List.length_singleton]
      omega)
    rw [hstr, htruncated, asStr_append, List.append_assoc]
    exact ⟨rfl, rfl⟩

/-- The decimal text of an integer: the digits, behind a sign if it is negative. -/
theorem utf8_toString (i : ℤ) :
    utf8 (toString i).toList =
      (if i < 0 then [45] else []) ++ utf8 (Nat.toDigits 10 i.natAbs) := by
  rw [Int.toString_eq_repr, Int.repr_eq_if]
  by_cases hi : 0 ≤ i
  · have hnat : i.toNat = i.natAbs := by omega
    rw [if_pos hi, if_neg (Int.not_lt.mpr hi), Nat.toList_repr, hnat]
    rfl
  · have hnat : (-i).toNat = i.natAbs := by omega
    rw [if_neg hi, if_pos (Int.not_le.mp hi), String.toList_append, utf8_append, Nat.toList_repr,
      hnat]
    rfl

theorem length_utf8_toString_le (n : Int64) : (utf8 (toString n.toInt).toList).length ≤ 20 := by
  obtain ⟨digits, -, hlen, hreverse⟩ := lastDigits_eq (by decide) (natAbs_toInt_lt n)
  rw [utf8_toString, ← hreverse, List.length_append, List.length_reverse]
  split_ifs
  · exact Nat.add_le_add_left hlen 1
  · exact Nat.le_trans (Nat.le_of_eq (Nat.zero_add _)) (Nat.le_succ_of_le hlen)

/-- The bytes that are pushed one after another are the decimal text. -/
theorem pushI64_eq (t : FixedText N) (n : Int64) :
    t.pushI64 n = some ((utf8 (toString n.toInt).toList).foldl pushAscii t) := by
  have hlt : n.toInt.natAbs < 10 ^ 20 := Nat.lt_trans (natAbs_toInt_lt n) (by decide)
  have hiff : n < 0 ↔ n.toInt < 0 := Int64.lt_iff_toInt_lt
  obtain ⟨digits, hdigits, -, hreverse⟩ := lastDigits_eq (by decide) hlt
  rw [pushI64, utf8_toString]
  split_ifs with hn hneg hneg
  · rw [negativeDigits_eq 20 hn, hdigits, ← hreverse]
    rfl
  · exact absurd (hiff.mp hn) hneg
  · exact absurd (hiff.mpr hneg) hn
  · rw [positiveDigits_eq 20 hn, hdigits, ← hreverse]
    rfl

/-- With room for 20 bytes an integer is appended as its decimal text, without a panic. -/
theorem pushI64_toString (t : FixedText N) (n : Int64) (h : t.len + 20 ≤ N) :
    (∃ t', t.pushI64 n = some t' ∧ t'.asStr = t.asStr ++ utf8 (toString n.toInt).toList ∧
      t'.truncated = t.truncated) ∧
    ∃ t', fromI64 N n = some t' ∧ t'.asStr = utf8 (toString n.toInt).toList ∧
      t'.truncated = false := by
  have hroom : ∀ t : FixedText N, t.len + 20 ≤ N → ∃ t', t.pushI64 n = some t' ∧
      t'.asStr = t.asStr ++ utf8 (toString n.toInt).toList ∧ t'.truncated = t.truncated :=
    fun t ht => ⟨_, pushI64_eq t n, foldl_pushAscii _
      (Nat.le_trans (Nat.add_le_add_left (length_utf8_toString_le n) _) ht)⟩
  refine ⟨hroom t h, ?_⟩
  have hnew := hroom (new N) (Nat.le_trans (Nat.add_le_add_right (Nat.zero_le _) 20) h)
  rwa [asStr_new, List.nil_append] at hnew

/-- The least integer needs all 20 bytes. -/
theorem pushI64_minValue :
    (∃ t', (new 20).pushI64 Int64.minValue = some t' ∧
      t'.asStr = (new 20).asStr ++ utf8 (toString Int64.minValue.toInt).toList ∧
      t'.truncated = (new 20).truncated) ∧
    ∃ t', fromI64 20 Int64.minValue = some t' ∧
      t'.asStr = utf8 (toString Int64.minValue.toInt).toList ∧ t'.truncated = false :=
  pushI64_toString (new 20) Int64.minValue (by decide)

end FixedText

end Rivr.Core
