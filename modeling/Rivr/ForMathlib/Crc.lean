import Mathlib.Data.List.GetD
import Mathlib.Tactic.SplitIfs

/-!
# Cyclic redundancy checks

A register of `w` bits takes in a message from its left end, bit by bit: each bit is added to the
leftmost bit of the register, which then moves to the left, and the polynomial is added when a one
leaves it. All of this is linear for exclusive or (`feed_xor`), so two messages of one length leave
different registers exactly when their difference, taken in by an empty register, does not leave
it empty.

When the polynomial has a constant term, moving the register loses nothing (`shift_eq_zero_iff`);
and a difference of at most `w` bits is still in the register when its last bit has come in
(`feed_eq_shifts_load`). So no burst of at most `w` bits goes unnoticed (`feed_ne_of_burst`).
-/

namespace Crc

variable {w : ℕ}

/-- One move of the register to the left; a one that leaves it adds the polynomial. -/
def shift (g r : BitVec w) : BitVec w := (r <<< 1) ^^^ (if r.msb then g else 0#w)

/-- Moves of the register. -/
def shifts (g : BitVec w) : ℕ → BitVec w → BitVec w
  | 0, r => r
  | n + 1, r => shifts g n (shift g r)

/-- A bit at the left end of the register. -/
def top (b : Bool) : BitVec w := if b then BitVec.twoPow w (w - 1) else 0#w

/-- The register after the bits of a message. -/
def feed (g : BitVec w) : BitVec w → List Bool → BitVec w
  | r, [] => r
  | r, b :: bits => feed g (shift g (r ^^^ top b)) bits

/-- A message that fits the register, from its left end. -/
def load : List Bool → BitVec w
  | [] => 0#w
  | b :: bits => top b ^^^ (load bits >>> 1)

variable {g r r' : BitVec w} {bits bits' : List Bool}

/-! ### Linearity -/

theorem shift_xor (g r r' : BitVec w) : shift g (r ^^^ r') = shift g r ^^^ shift g r' := by
  rw [shift, shift, shift, BitVec.shiftLeft_xor_distrib, BitVec.msb_xor]
  cases r.msb <;> cases r'.msb
  · simp
  · simp [BitVec.xor_assoc]
  · simp [BitVec.xor_assoc, BitVec.xor_comm g]
  · have hcancel : g ^^^ (r' <<< 1 ^^^ g) = r' <<< 1 := by
      rw [BitVec.xor_comm (r' <<< 1), ← BitVec.xor_assoc, BitVec.xor_self, BitVec.zero_xor]
    simp [BitVec.xor_assoc, hcancel]

@[simp]
theorem shift_zero (g : BitVec w) : shift g 0#w = 0#w := by simp [shift]

theorem shifts_xor (g : BitVec w) (n : ℕ) (r r' : BitVec w) :
    shifts g n (r ^^^ r') = shifts g n r ^^^ shifts g n r' := by
  induction n generalizing r r' with
  | zero => rfl
  | succ n ih => rw [shifts, shift_xor, ih]; rfl

theorem top_xor (b b' : Bool) : (top (b ^^ b') : BitVec w) = top b ^^^ top b' := by
  cases b <;> cases b' <;> simp [top]

/-- **Linearity.** The register is linear in what it holds and what comes in. -/
theorem feed_xor (g r r' : BitVec w) (h : bits.length = bits'.length) :
    feed g (r ^^^ r') (List.zipWith xor bits bits') = feed g r bits ^^^ feed g r' bits' := by
  induction bits generalizing bits' r r' with
  | nil =>
    obtain rfl := List.length_eq_zero_iff.mp h.symm
    rfl
  | cons b bits ih =>
    obtain ⟨b', bits', rfl⟩ := List.exists_cons_of_length_eq_add_one h.symm
    have hmove : r ^^^ r' ^^^ top (b ^^ b') = (r ^^^ top b) ^^^ (r' ^^^ top b') := by
      rw [top_xor]
      ac_rfl
    rw [List.zipWith_cons_cons, feed, hmove, shift_xor, ih _ _ (Nat.succ.inj h)]
    rfl

theorem feed_append (g r : BitVec w) (bits bits' : List Bool) :
    feed g r (bits ++ bits') = feed g (feed g r bits) bits' := by
  induction bits generalizing r with
  | nil => rfl
  | cons b bits ih => exact ih _

/-! ### Nothing is lost -/

theorem shift_eq_zero_iff (hg : g.getLsbD 0 = true) : shift g r = 0#w ↔ r = 0#w := by
  constructor
  · intro h
    cases hmsb : r.msb with
    | false =>
      rw [shift, hmsb] at h
      have hleft : r <<< 1 = 0#w := by simpa using h
      apply BitVec.eq_of_getLsbD_eq
      intro i hi
      by_cases hlast : i + 1 < w
      · have hbit := congrArg (fun x : BitVec w => x.getLsbD (i + 1)) hleft
        simpa [BitVec.getLsbD_shiftLeft, hlast, BitVec.getLsbD_eq_getElem hi] using hbit
      · obtain rfl : i = w - 1 := by omega
        rw [BitVec.msb_eq_getLsbD_last] at hmsb
        simpa using hmsb
    | true =>
      -- the constant term of the polynomial stays in the register
      rw [shift, hmsb] at h
      have hbit := congrArg (fun x : BitVec w => x.getLsbD 0) h
      simp [BitVec.getLsbD_shiftLeft, hg] at hbit
  · rintro rfl
    exact shift_zero g

theorem shifts_eq_zero_iff (hg : g.getLsbD 0 = true) (n : ℕ) : shifts g n r = 0#w ↔ r = 0#w := by
  induction n generalizing r with
  | zero => rfl
  | succ n ih => rw [shifts, ih, shift_eq_zero_iff hg]

theorem feed_replicate_false (g r : BitVec w) (n : ℕ) :
    feed g r (List.replicate n false) = shifts g n r := by
  induction n generalizing r with
  | zero => rfl
  | succ n ih => simp [List.replicate_succ, feed, top, shifts, ih]

/-! ### Messages that fit the register -/

theorem getLsbD_load {i : ℕ} (hi : i < w) (bits : List Bool) :
    (load bits : BitVec w).getLsbD i = bits.getD (w - 1 - i) false := by
  induction bits generalizing i with
  | nil => simp [load]
  | cons b bits ih =>
    rw [load, BitVec.getLsbD_xor, BitVec.getLsbD_ushiftRight]
    by_cases hlast : i + 1 < w
    · have hsub : w - 1 - i = w - 1 - (1 + i) + 1 := by omega
      rw [ih (by omega), hsub, List.getD_cons_succ]
      have htop : (top b : BitVec w).getLsbD i = false := by
        cases b
        · simp [top]
        · simp [top, BitVec.getLsbD_twoPow]
          omega
      rw [htop, Bool.false_xor]
    · obtain rfl : i = w - 1 := by omega
      have hout : (load bits : BitVec w).getLsbD (1 + (w - 1)) = false :=
        BitVec.getLsbD_of_ge _ _ (by omega)
      rw [hout, Nat.sub_self, List.getD_cons_zero, Bool.xor_false]
      cases b
      · simp [top]
      · simp [top, BitVec.getLsbD_twoPow]
        omega

/-- A message that fits is empty in the register only if it has no ones. -/
theorem load_eq_zero_iff (h : bits.length ≤ w) :
    (load bits : BitVec w) = 0#w ↔ true ∉ bits := by
  constructor
  · intro hzero hmem
    obtain ⟨i, hi, hbit⟩ := List.getElem_of_mem hmem
    have hload := getLsbD_load (w := w) (i := w - 1 - i) (by omega) bits
    have hsub : w - 1 - (w - 1 - i) = i := by omega
    rw [hzero, hsub, List.getD_eq_getElem _ _ hi, hbit] at hload
    simp at hload
  · intro hnone
    apply BitVec.eq_of_getLsbD_eq
    intro i hi
    rw [getLsbD_load hi, BitVec.getLsbD_zero]
    by_cases hlt : w - 1 - i < bits.length
    · rw [List.getD_eq_getElem _ _ hlt]
      exact Bool.eq_false_iff.mpr fun htrue => hnone (htrue ▸ List.getElem_mem hlt)
    · exact List.getD_eq_default _ _ (Nat.not_lt.mp hlt)

/-- What a move to the right leaves, a move to the left brings back. -/
theorem shift_ushiftRight {x : BitVec w} (h : x.getLsbD 0 = false) : shift g (x >>> 1) = x := by
  have hmsb : (x >>> 1).msb = false := by
    rw [BitVec.msb_eq_getLsbD_last, BitVec.getLsbD_ushiftRight]
    exact BitVec.getLsbD_of_ge _ _ (by omega)
  rw [shift, hmsb]
  apply BitVec.eq_of_getLsbD_eq
  intro i hi
  rcases i with _ | i
  · simp [BitVec.getLsbD_shiftLeft, h]
  · simp [hi, Nat.add_comm 1 i]

/-- **Messages that fit.** Taking in a message bit by bit is adding it at once, and then moving. -/
theorem feed_eq_shifts_load (h : bits.length ≤ w) :
    feed g r bits = shifts g bits.length (r ^^^ load bits) := by
  induction bits generalizing r with
  | nil => simp [feed, shifts, load]
  | cons b bits ih =>
    rw [List.length_cons] at h
    have hlast : (load bits : BitVec w).getLsbD 0 = false := by
      rw [getLsbD_load (by omega)]
      exact List.getD_eq_default _ _ (by omega)
    rw [feed, ih (by omega), List.length_cons, shifts, load, ← BitVec.xor_assoc,
      shift_xor g (r ^^^ top b), shift_ushiftRight hlast]

/-! ### Bursts -/

/-- The ones of the message lie within `w` places. -/
def Burst (w : ℕ) (bits : List Bool) : Prop :=
  ∃ s, ∀ i, bits.getD i false = true → s ≤ i ∧ i < s + w

/-- A part without ones. -/
private theorem eq_replicate_false {l : List Bool} (h : ∀ i, l.getD i false = true → False) :
    l = List.replicate l.length false := by
  refine List.eq_replicate_iff.mpr ⟨rfl, fun b hb => ?_⟩
  obtain ⟨i, hi, rfl⟩ := List.getElem_of_mem hb
  refine Bool.eq_false_iff.mpr fun htrue => h i ?_
  rw [List.getD_eq_getElem _ _ hi, htrue]

/-- A burst does not leave an empty register empty. -/
theorem feed_ne_zero_of_burst (hg : g.getLsbD 0 = true) (hburst : Burst w bits)
    (hone : true ∈ bits) : feed g 0#w bits ≠ 0#w := by
  obtain ⟨s, hs⟩ := hburst
  have hbefore : bits.take s = List.replicate (bits.take s).length false := by
    refine eq_replicate_false fun i hi => ?_
    rw [List.getD_eq_getElem?_getD, List.getElem?_take] at hi
    split_ifs at hi with hlt
    · rw [← List.getD_eq_getElem?_getD] at hi
      exact absurd (hs i hi).1 (Nat.not_le.mpr hlt)
    · cases hi
  have hafter : (bits.drop s).drop w = List.replicate ((bits.drop s).drop w).length false := by
    refine eq_replicate_false fun i hi => ?_
    rw [List.getD_eq_getElem?_getD, List.drop_drop, List.getElem?_drop,
      ← List.getD_eq_getElem?_getD] at hi
    have hlt := (hs _ hi).2
    omega
  have hsplit : bits = bits.take s ++ ((bits.drop s).take w ++ (bits.drop s).drop w) := by
    rw [List.take_append_drop, List.take_append_drop]
  -- the ones are all in the middle
  have hmiddle : true ∈ (bits.drop s).take w := by
    rw [hsplit, List.mem_append, List.mem_append, hbefore, hafter, List.mem_replicate,
      List.mem_replicate] at hone
    rcases hone with ⟨-, h⟩ | h | ⟨-, h⟩
    · cases h
    · exact h
    · cases h
  have hlen : ((bits.drop s).take w).length ≤ w := List.length_take_le _ _
  have hstart : feed g 0#w (bits.take s) = 0#w := by
    rw [hbefore, feed_replicate_false, shifts_eq_zero_iff hg]
  rw [hsplit, feed_append, feed_append, hstart, hafter, feed_replicate_false, Ne,
    shifts_eq_zero_iff hg, feed_eq_shifts_load hlen, shifts_eq_zero_iff hg, BitVec.zero_xor,
    load_eq_zero_iff hlen]
  exact fun hnone => hnone hmiddle

/-- **Burst detection.** A message that differs from another in a burst leaves another register. -/
theorem feed_ne_of_burst (hg : g.getLsbD 0 = true) (hlen : bits.length = bits'.length)
    (hburst : Burst w bits') (hone : true ∈ bits') (r : BitVec w) :
    feed g r (List.zipWith xor bits bits') ≠ feed g r bits := by
  have hlinear := feed_xor g r 0#w hlen
  rw [BitVec.xor_zero] at hlinear
  rw [hlinear]
  intro heq
  have hzero : feed g 0#w bits' = 0#w := by
    have h := congrArg (feed g r bits ^^^ ·) heq
    simpa [← BitVec.xor_assoc] using h
  exact feed_ne_zero_of_burst hg hburst hone hzero

end Crc
