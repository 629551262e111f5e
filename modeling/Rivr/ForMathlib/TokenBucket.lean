import Mathlib.Algebra.BigOperators.Group.List.Basic
import Mathlib.Algebra.Order.Group.Nat
import Mathlib.Algebra.Ring.Nat

/-!
# Token buckets

A bucket of at most `cap` tokens which gains at most `rate` tokens per unit of time, and from which
amounts are spent. What is spent in any interval is at most the capacity and what the interval
gains. Each time the bucket is filled out of turn (a reset) inside the interval gives another
capacity.

`Spends` is the invariant of a bucket and the log of what was spent, newest first; its rules are one
for each thing that can happen to the bucket (`Spends.refill`, `Spends.spend`, `Spends.reset`), and
its field `law` is the bound.
-/

namespace TokenBucket

/-- What the log spends in the interval `[t₁, t₂]`. -/
def spentIn (t₁ t₂ : ℕ) (log : List (ℕ × ℕ)) : ℕ :=
  ((log.filter fun x => t₁ ≤ x.1 ∧ x.1 ≤ t₂).map Prod.snd).sum

/-- How many of the times lie in the interval `[t₁, t₂]`. -/
def countIn (t₁ t₂ : ℕ) (times : List ℕ) : ℕ := times.countP fun t => t₁ ≤ t ∧ t ≤ t₂

@[simp] theorem countIn_nil (t₁ t₂ : ℕ) : countIn t₁ t₂ [] = 0 := rfl

variable {t₁ t₂ now now' : ℕ} {log : List (ℕ × ℕ)} {times : List ℕ}

theorem spentIn_cons (x : ℕ × ℕ) (log : List (ℕ × ℕ)) :
    spentIn t₁ t₂ (x :: log) =
      (if t₁ ≤ x.1 ∧ x.1 ≤ t₂ then x.2 else 0) + spentIn t₁ t₂ log := by
  rw [spentIn, List.filter_cons]
  split_ifs with h h' h' <;> simp_all [spentIn]

theorem countIn_cons (t : ℕ) (times : List ℕ) :
    countIn t₁ t₂ (t :: times) = countIn t₁ t₂ times + if t₁ ≤ t ∧ t ≤ t₂ then 1 else 0 := by
  rw [countIn, List.countP_cons]
  simp only [decide_eq_true_eq, countIn]

/-- An interval that ends after the log does not see where it ends. -/
theorem spentIn_end (hlog : ∀ x ∈ log, x.1 ≤ now) (h : now ≤ now') :
    spentIn t₁ now' log = spentIn t₁ now log := by
  rw [spentIn, spentIn]
  congr 2
  refine List.filter_congr fun x hx => ?_
  have hx' := hlog x hx
  rw [decide_eq_decide]
  exact and_congr_right fun _ => ⟨fun _ => hx', fun _ => hx'.trans h⟩

theorem countIn_end (htimes : ∀ t ∈ times, t ≤ now) (h : now ≤ now') :
    countIn t₁ now' times = countIn t₁ now times := by
  refine List.countP_congr fun t ht => ?_
  have ht' := htimes t ht
  simp only [decide_eq_true_eq]
  exact and_congr_right fun _ => ⟨fun _ => ht', fun _ => ht'.trans h⟩

/-- An interval that starts after the log sees nothing of it. -/
theorem spentIn_eq_zero (hlog : ∀ x ∈ log, x.1 ≤ now) (h : now < t₁) : spentIn t₁ t₂ log = 0 := by
  have hnil : (log.filter fun x => t₁ ≤ x.1 ∧ x.1 ≤ t₂) = [] := by
    rw [List.filter_eq_nil_iff]
    intro x hx hin
    have hx' := hlog x hx
    rw [decide_eq_true_eq] at hin
    omega
  rw [spentIn, hnil]
  rfl

/-- The bucket holds `level` tokens at the time `now`, after the amounts of the log. -/
structure Spends (cap rate level now : ℕ) (log : List (ℕ × ℕ)) (resets : List ℕ) : Prop where
  level_le : level ≤ cap
  log_le : ∀ x ∈ log, x.1 ≤ now
  resets_le : ∀ t ∈ resets, t ≤ now
  potential : ∀ t, spentIn t now log + level ≤ cap * (countIn t now resets + 1) + rate * (now - t)
  law : ∀ t₁ t₂, t₁ ≤ t₂ →
    spentIn t₁ t₂ log ≤ cap * (countIn t₁ t₂ resets + 1) + rate * (t₂ - t₁)

variable {cap rate level level' : ℕ} {resets : List ℕ}

theorem spends_init (h : level ≤ cap) : Spends cap rate level now [] [] where
  level_le := h
  log_le := by simp
  resets_le := by simp
  potential t := by simpa [spentIn] using h.trans (Nat.le_add_right _ _)
  law t₁ t₂ _ := by simp [spentIn]

/-- Time passes, and the bucket gains. -/
theorem Spends.refill (h : Spends cap rate level now log resets) (hnow : now ≤ now')
    (hcap : level' ≤ cap) (hadd : level' ≤ level + rate * (now' - now)) :
    Spends cap rate level' now' log resets where
  level_le := hcap
  log_le := fun x hx => (h.log_le x hx).trans hnow
  resets_le := fun t ht => (h.resets_le t ht).trans hnow
  potential := by
    intro t
    rw [spentIn_end h.log_le hnow, countIn_end h.resets_le hnow]
    rcases Nat.lt_or_ge now t with ht | ht
    · -- nothing of the log is in the interval
      rw [spentIn_eq_zero h.log_le ht, Nat.mul_add, Nat.mul_one]
      omega
    · have hpot := h.potential t
      have hsplit : rate * (now' - t) = rate * (now - t) + rate * (now' - now) := by
        rw [← Nat.mul_add]
        congr 1
        omega
      omega
  law := h.law

/-- An amount is spent that the bucket holds. -/
theorem Spends.spend (h : Spends cap rate level now log resets) {amount : ℕ}
    (hamount : amount ≤ level) :
    Spends cap rate (level - amount) now ((now, amount) :: log) resets where
  level_le := (Nat.sub_le _ _).trans h.level_le
  log_le := by
    intro x hx
    rcases List.mem_cons.mp hx with rfl | hx
    · exact le_rfl
    · exact h.log_le x hx
  resets_le := h.resets_le
  potential := by
    intro t
    have hpot := h.potential t
    rw [spentIn_cons]
    split_ifs <;> omega
  law := by
    intro t₁ t₂ ht
    have hlaw := h.law t₁ t₂ ht
    rw [spentIn_cons]
    split_ifs with hin
    · -- the interval ends after the log, so the potential bounds what it spends
      obtain ⟨h₁, h₂⟩ := hin
      have hpot := h.potential t₁
      rw [spentIn_end h.log_le h₂, countIn_end h.resets_le h₂]
      have hmono : rate * (now - t₁) ≤ rate * (t₂ - t₁) :=
        Nat.mul_le_mul le_rfl (Nat.sub_le_sub_right h₂ _)
      omega
    · rwa [Nat.zero_add]

/-- The bucket is filled out of turn. -/
theorem Spends.reset (h : Spends cap rate level now log resets) (hnow : now ≤ now') :
    Spends cap rate cap now' log (now' :: resets) where
  level_le := le_rfl
  log_le := fun x hx => (h.log_le x hx).trans hnow
  resets_le := by
    intro t ht
    rcases List.mem_cons.mp ht with rfl | ht
    · exact le_rfl
    · exact (h.resets_le t ht).trans hnow
  potential := by
    intro t
    rw [spentIn_end h.log_le hnow, countIn_cons, countIn_end h.resets_le hnow]
    rcases Nat.lt_or_ge now' t with ht | ht
    · rw [spentIn_eq_zero h.log_le (hnow.trans_lt ht), Nat.mul_add, Nat.mul_one]
      omega
    · have hpot := h.potential t
      rw [if_pos ⟨ht, le_rfl⟩, Nat.mul_add, Nat.mul_one]
      have hmono : rate * (now - t) ≤ rate * (now' - t) :=
        Nat.mul_le_mul le_rfl (Nat.sub_le_sub_right hnow _)
      omega
  law := by
    intro t₁ t₂ ht
    have hlaw := h.law t₁ t₂ ht
    rw [countIn_cons]
    have hmono : cap * (countIn t₁ t₂ resets + 1) ≤
        cap * (countIn t₁ t₂ resets + (if t₁ ≤ now' ∧ now' ≤ t₂ then 1 else 0) + 1) :=
      Nat.mul_le_mul le_rfl (by omega)
    omega

end TokenBucket
