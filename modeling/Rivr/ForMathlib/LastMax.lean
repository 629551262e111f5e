import Mathlib.Data.List.Induction
import Mathlib.Order.Lattice
import Mathlib.Order.Nat

/-!
# The last of the greatest

A scan of a table keeps the greatest entry it has seen of those it is looking for, and of equal ones
the later. `lastMax_eq_some_iff` says where in the table that entry stands.
-/

namespace LastMax

variable {α β : Type*} [LinearOrder β] (p : α → Prop) (key : α → β)

/-- One step of the scan. -/
def better [DecidablePred p] (best : Option α) (x : α) : Option α :=
  if p x then
    match best with
    | none => some x
    | some b => if key x ≥ key b then some x else best
  else best

/-- The scan. -/
def lastMax [DecidablePred p] (l : List α) : Option α := l.foldl (better p key) none

/-- The entry at the place is one of those looked for; none of these is greater, and no later one is
as great. -/
structure IsLastMax (l : List α) (k : ℕ) (x : α) : Prop where
  get : l[k]? = some x
  wanted : p x
  le : ∀ (j : ℕ) (y : α), l[j]? = some y → p y → key y ≤ key x
  lt : ∀ (j : ℕ) (y : α), l[j]? = some y → p y → k < j → key y < key x

variable {p key} {l : List α} {k : ℕ} {x : α}

/-- There is one such place. -/
theorem IsLastMax.unique {k' : ℕ} {x' : α} (h : IsLastMax p key l k x)
    (h' : IsLastMax p key l k' x') : k = k' ∧ x = x' := by
  have hk : k = k' := by
    rcases lt_trichotomy k k' with hlt | heq | hlt
    · exact absurd (h'.le k x h.get h.wanted) (not_le.mpr (h.lt k' x' h'.get h'.wanted hlt))
    · exact heq
    · exact absurd (h.le k' x' h'.get h'.wanted) (not_le.mpr (h'.lt k x h.get h.wanted hlt))
  subst hk
  exact ⟨rfl, Option.some.inj (h.get.symm.trans h'.get)⟩

/-- A new last entry that is not looked for, or not as great, changes nothing. -/
theorem IsLastMax.snoc (h : IsLastMax p key l k x) {y : α} (hy : p y → key y < key x) :
    IsLastMax p key (l ++ [y]) k x := by
  have hk : k < l.length := (List.getElem?_eq_some_iff.mp h.get).1
  have hlast : ∀ (j : ℕ) (z : α), (l ++ [y])[j]? = some z → l[j]? = some z ∨ z = y := by
    intro j z hz
    rcases Nat.lt_or_ge j l.length with hj | hj
    · rw [List.getElem?_append_left hj] at hz
      exact Or.inl hz
    · rw [List.getElem?_append_right hj] at hz
      exact Or.inr (List.mem_singleton.mp (List.mem_of_getElem? hz))
  constructor
  · rw [List.getElem?_append_left hk]
    exact h.get
  · exact h.wanted
  · intro j z hz hp
    rcases hlast j z hz with hz | rfl
    · exact h.le j z hz hp
    · exact (hy hp).le
  · intro j z hz hp hj
    rcases hlast j z hz with hz | rfl
    · exact h.lt j z hz hp hj
    · exact hy hp

/-- A new last entry that is as great as all the others is it. -/
theorem isLastMax_snoc {y : α} (hp : p y) (hle : ∀ z ∈ l, p z → key z ≤ key y) :
    IsLastMax p key (l ++ [y]) l.length y := by
  have hall : ∀ z ∈ l ++ [y], p z → key z ≤ key y := by
    intro z hz hpz
    rcases List.mem_append.mp hz with hz | hz
    · exact hle z hz hpz
    · exact (congrArg key (List.mem_singleton.mp hz)).le
  constructor
  · rw [List.getElem?_append_right le_rfl, Nat.sub_self]
    rfl
  · exact hp
  · exact fun j z hz => hall z (List.mem_of_getElem? hz)
  · intro j z hz _ hj
    have hlt := (List.getElem?_eq_some_iff.mp hz).1
    rw [List.length_append, List.length_singleton] at hlt
    omega

variable [DecidablePred p]

variable (p key) in
/-- What the scan finds: nothing when nothing is looked for, and else the last of the greatest. By
induction from the end of the table. -/
theorem lastMax_spec (l : List α) :
    (lastMax p key l = none ∧ ∀ z ∈ l, ¬p z) ∨
      ∃ k x, lastMax p key l = some x ∧ IsLastMax p key l k x := by
  induction l using List.reverseRecOn with
  | nil => exact Or.inl ⟨rfl, fun z hz => absurd hz List.not_mem_nil⟩
  | append_singleton l y ih =>
    have hscan : lastMax p key (l ++ [y]) = better p key (lastMax p key l) y := by
      rw [lastMax, List.foldl_append]
      rfl
    rw [hscan]
    by_cases hp : p y
    · right
      rcases ih with ⟨hnone, hno⟩ | ⟨k, x, hsome, hmax⟩
      · refine ⟨l.length, y, ?_, isLastMax_snoc hp fun z hz hpz => absurd hpz (hno z hz)⟩
        rw [hnone, better, if_pos hp]
      · have hbetter : better p key (some x) y = if key y ≥ key x then some y else some x := if_pos hp
        rw [hsome, hbetter]
        by_cases hge : key y ≥ key x
        · refine ⟨l.length, y, if_pos hge, isLastMax_snoc hp fun z hz hpz => ?_⟩
          obtain ⟨j, hj⟩ := List.mem_iff_getElem?.mp hz
          exact (hmax.le j z hj hpz).trans hge
        · exact ⟨k, x, if_neg hge, hmax.snoc fun _ => not_le.mp hge⟩
    · have hskip : better p key (lastMax p key l) y = lastMax p key l := if_neg hp
      rw [hskip]
      rcases ih with ⟨hnone, hno⟩ | ⟨k, x, hsome, hmax⟩
      · refine Or.inl ⟨hnone, fun z hz => ?_⟩
        rcases List.mem_append.mp hz with hz | hz
        · exact hno z hz
        · rwa [List.mem_singleton.mp hz]
      · exact Or.inr ⟨k, x, hsome, hmax.snoc fun h => absurd h hp⟩

/-- **The scan** finds an entry if and only if it is the last of the greatest. -/
theorem lastMax_eq_some_iff : lastMax p key l = some x ↔ ∃ k, IsLastMax p key l k x := by
  constructor
  · intro h
    rcases lastMax_spec p key l with ⟨hnone, -⟩ | ⟨k, x', hsome, hmax⟩
    · rw [hnone] at h
      exact nomatch h
    · rw [hsome] at h
      obtain rfl := Option.some.inj h
      exact ⟨k, hmax⟩
  · rintro ⟨k, hmax⟩
    rcases lastMax_spec p key l with ⟨-, hno⟩ | ⟨k', x', hsome, hmax'⟩
    · exact absurd hmax.wanted (hno x (List.mem_of_getElem? hmax.get))
    · rw [hsome, (hmax'.unique hmax).2]

end LastMax
