import Mathlib.Data.List.Basic
import Mathlib.Data.List.Nodup

/-!
# Tables of slots

A table of a fixed number of slots, some of which are valid. Two ways of changing one cover
most code: `Shrinks`, where slots are cleared and nothing else is written, and `Writes`, where
one slot is written and others may be cleared. Both are described at each index, so that they
compose, and so that "at most one valid slot for each key" (`OneEach`) is kept by the first and,
when no other valid slot has the new key, by the second.

Where the valid slots come first, their keys are distinct as a list. Writing an entry of the same
key, and writing or adding one of a new key, keep them so.
-/

namespace SlotTable

variable {α κ : Type*} {valid : α → Prop} {key : α → κ} {es es' es'' : List α}

/-! ### Clearing slots -/

/-- Every valid slot of the second table is the same slot of the first. -/
def Shrinks (valid : α → Prop) (es es' : List α) : Prop :=
  ∀ ⦃i : ℕ⦄ ⦃x⦄, es'[i]? = some x → valid x → es[i]? = some x

theorem Shrinks.refl (es : List α) : Shrinks valid es es := fun _ _ h _ => h

theorem Shrinks.trans (h : Shrinks valid es es') (h' : Shrinks valid es' es'') :
    Shrinks valid es es'' := fun _ _ hx hv => h (h' hx hv) hv

theorem Shrinks.mem (h : Shrinks valid es es') {x : α} (hx : x ∈ es') (hv : valid x) : x ∈ es := by
  obtain ⟨i, hi⟩ := List.mem_iff_getElem?.mp hx
  exact List.mem_of_getElem? (h hi hv)

theorem Shrinks.cons {x x' : α} (hx : valid x' → x' = x) (h : Shrinks valid es es') :
    Shrinks valid (x :: es) (x' :: es') := by
  rintro (_ | i) y hy hv
  · obtain rfl : x' = y := by simpa using hy
    simp [hx hv]
  · have hy' : es'[i]? = some y := by simpa using hy
    simpa using h hy' hv

theorem shrinks_map {f : α → α} (hf : ∀ x, valid (f x) → f x = x) (es : List α) :
    Shrinks valid es (es.map f) := by
  induction es with
  | nil => exact Shrinks.refl _
  | cons x es ih => exact ih.cons (hf x)

theorem shrinks_set {x : α} (hx : ¬valid x) (es : List α) (k : ℕ) :
    Shrinks valid es (es.set k x) := by
  intro i y hy hv
  rw [List.getElem?_set] at hy
  split_ifs at hy with hik hlt
  · obtain rfl : x = y := by simpa using hy
    exact absurd hv hx
  · exact hy

/-! ### Writing a slot -/

/-- Slot `k` of the second table holds `x`; every other valid slot is the same slot of the
first. -/
structure Writes (valid : α → Prop) (es es' : List α) (k : ℕ) (x : α) : Prop where
  self : es'[k]? = some x
  others : ∀ ⦃i : ℕ⦄ ⦃y⦄, i ≠ k → es'[i]? = some y → valid y → es[i]? = some y

theorem writes_set {x : α} {k : ℕ} (hk : k < es.length) : Writes valid es (es.set k x) k x := by
  refine ⟨List.getElem?_set_self hk, fun i y hik hy _ => ?_⟩
  rwa [List.getElem?_set_ne (Ne.symm hik)] at hy

theorem Shrinks.writes (h : Shrinks valid es es') {k : ℕ} {x : α}
    (h' : Writes valid es' es'' k x) : Writes valid es es'' k x :=
  ⟨h'.self, fun _ _ hik hy hv => h (h'.others hik hy hv) hv⟩

theorem Writes.cons {x x' y : α} {k : ℕ} (hx : valid x' → x' = x)
    (h : Writes valid es es' k y) : Writes valid (x :: es) (x' :: es') (k + 1) y := by
  refine ⟨by simpa using h.self, ?_⟩
  rintro (_ | i) z hik hz hv
  · obtain rfl : x' = z := by simpa using hz
    simp [hx hv]
  · have hz' : es'[i]? = some z := by simpa using hz
    have hne : i ≠ k := fun heq => hik (congrArg (· + 1) heq)
    simpa using h.others hne hz' hv

theorem writes_head (x x' : α) (es : List α) : Writes valid (x :: es) (x' :: es) 0 x' := by
  refine ⟨rfl, ?_⟩
  rintro (_ | i) z hik hz -
  · exact absurd rfl hik
  · simpa using hz

/-- A slot of the table after a write is the one written, or was there before. -/
theorem Writes.mem {k : ℕ} {x : α} (h : Writes valid es es' k x) {y : α} (hy : y ∈ es')
    (hv : valid y) : y = x ∨ y ∈ es := by
  obtain ⟨i, hi⟩ := List.mem_iff_getElem?.mp hy
  by_cases hik : i = k
  · rw [hik, h.self] at hi
    exact Or.inl (Option.some.inj hi).symm
  · exact Or.inr (List.mem_of_getElem? (h.others hik hi hv))

/-! ### At most one valid slot for each key -/

/-- No two valid slots have the same key. -/
def OneEach (valid : α → Prop) (key : α → κ) (es : List α) : Prop :=
  ∀ ⦃i j : ℕ⦄ ⦃x y⦄, es[i]? = some x → es[j]? = some y → valid x → valid y → key x = key y → i = j

theorem OneEach.eq (h : OneEach valid key es) {x y : α} (hx : x ∈ es) (hy : y ∈ es)
    (hvx : valid x) (hvy : valid y) (hkey : key x = key y) : x = y := by
  obtain ⟨i, hi⟩ := List.mem_iff_getElem?.mp hx
  obtain ⟨j, hj⟩ := List.mem_iff_getElem?.mp hy
  rw [h hi hj hvx hvy hkey, hj] at hi
  exact (Option.some.inj hi).symm

/-- The first slot holds another key than the valid ones after it. -/
theorem oneEach_cons {x : α} :
    OneEach valid key (x :: es) ↔
      OneEach valid key es ∧ (valid x → ∀ y ∈ es, valid y → key y ≠ key x) := by
  constructor
  · intro h
    refine ⟨fun i j y z hy hz hvy hvz hkey => ?_, fun hvx y hy hvy hkey => ?_⟩
    · exact Nat.succ.inj (h (i := i + 1) (j := j + 1) hy hz hvy hvz hkey)
    · obtain ⟨i, hi⟩ := List.mem_iff_getElem?.mp hy
      exact nomatch h (i := i + 1) (j := 0) hi rfl hvy hvx hkey
  · rintro ⟨hrest, hhead⟩
    rintro (_ | i) (_ | j) y z hy hz hvy hvz hkey
    · rfl
    · obtain rfl : x = y := Option.some.inj hy
      exact absurd hkey.symm (hhead hvy z (List.mem_of_getElem? hz) hvz)
    · obtain rfl : x = z := Option.some.inj hz
      exact absurd hkey (hhead hvz y (List.mem_of_getElem? hy) hvy)
    · exact congrArg (· + 1) (hrest hy hz hvy hvz hkey)

theorem Shrinks.oneEach (h : Shrinks valid es es') (hone : OneEach valid key es) :
    OneEach valid key es' :=
  fun _ _ _ _ hx hy hvx hvy => hone (h hx hvx) (h hy hvy) hvx hvy

theorem Writes.oneEach {k : ℕ} {x : α} (h : Writes valid es es' k x)
    (hone : OneEach valid key es)
    (hnew : ∀ ⦃i : ℕ⦄ ⦃y⦄, i ≠ k → es'[i]? = some y → valid y → key y ≠ key x) :
    OneEach valid key es' := by
  intro i j y z hy hz hvy hvz hkey
  by_cases hik : i = k
  · by_contra hij
    have hjk : j ≠ k := fun hjk => hij (hik.trans hjk.symm)
    rw [hik, h.self] at hy
    obtain rfl : x = y := Option.some.inj hy
    exact hnew hjk hz hvz hkey.symm
  by_cases hjk : j = k
  · rw [hjk, h.self] at hz
    obtain rfl : x = z := Option.some.inj hz
    exact absurd hkey (hnew hik hy hvy)
  · exact hone (h.others hik hy hvy) (h.others hjk hz hvz) hvy hvz hkey

/-! ### The map of a table -/

/-- The first valid slot with the key. -/
def lookup (valid : α → Prop) [DecidablePred valid] (key : α → κ) [DecidableEq κ] (k : κ)
    (es : List α) : Option α :=
  es.find? fun x => valid x ∧ key x = k

section Lookup

variable [DecidablePred valid] [DecidableEq κ] {k : κ} {x : α} {lost : α → Prop}

theorem lookup_cons_of_pos (hv : valid x) (hk : key x = k) (es : List α) :
    lookup valid key k (x :: es) = some x :=
  List.find?_cons_of_pos (by simp [hv, hk])

theorem lookup_cons_of_neg (h : ¬(valid x ∧ key x = k)) (es : List α) :
    lookup valid key k (x :: es) = lookup valid key k es :=
  List.find?_cons_of_neg (by simpa using h)

theorem mem_of_lookup (h : lookup valid key k es = some x) : x ∈ es ∧ valid x ∧ key x = k :=
  ⟨List.mem_of_find?_eq_some h, by simpa using List.find?_some h⟩

/-- With at most one valid slot for each key, the table is a map. -/
theorem OneEach.lookup_eq_some_iff (h : OneEach valid key es) :
    lookup valid key k es = some x ↔ x ∈ es ∧ valid x ∧ key x = k := by
  refine ⟨mem_of_lookup, fun ⟨hmem, hv, hk⟩ => ?_⟩
  cases hfind : lookup valid key k es with
  | none =>
    have hnone := List.find?_eq_none.mp hfind x hmem
    exact absurd (by simp [hv, hk]) hnone
  | some y =>
    obtain ⟨hmem', hv', hk'⟩ := mem_of_lookup hfind
    exact congrArg some (h.eq hmem' hmem hv' hv (hk'.trans hk.symm))

theorem lookup_eq_none_iff : lookup valid key k es = none ↔
    ∀ x ∈ es, valid x → key x ≠ k := by
  rw [lookup, List.find?_eq_none]
  refine forall₂_congr fun x _ => ?_
  simp

/-- A key of which nothing is added keeps its entry, or loses it. -/
theorem OneEach.lookup_cases (h : OneEach valid key es)
    (hold : ∀ x ∈ es', valid x → key x = k → x ∈ es)
    (hkeep : ∀ x ∈ es, valid x → key x = k → x ∈ es' ∨ lost x) :
    lookup valid key k es' = lookup valid key k es ∨
      lookup valid key k es' = none ∧ ∃ x, lookup valid key k es = some x ∧ lost x := by
  cases hfind : lookup valid key k es with
  | none =>
    refine .inl (lookup_eq_none_iff.mpr fun x hx hv hk => ?_)
    exact lookup_eq_none_iff.mp hfind x (hold x hx hv hk) hv hk
  | some x =>
    obtain ⟨hmem, hv, hk⟩ := mem_of_lookup hfind
    cases hfind' : lookup valid key k es' with
    | none =>
      refine .inr ⟨rfl, x, rfl, (hkeep x hmem hv hk).resolve_left fun hmem' => ?_⟩
      exact lookup_eq_none_iff.mp hfind' x hmem' hv hk
    | some y =>
      obtain ⟨hmem', hv', hk'⟩ := mem_of_lookup hfind'
      exact .inl (congrArg some (h.eq (hold y hmem' hv' hk') hmem hv' hv (hk'.trans hk.symm)))

end Lookup

/-! ### Distinct keys -/

theorem map_key_set {x y : α} {k : ℕ} (hx : es[k]? = some x) (hkey : key y = key x) :
    (es.set k y).map key = es.map key := by
  have hself : (es.map key)[k]? = some (key x) := by
    rw [List.getElem?_map, hx]
    rfl
  obtain ⟨hk, hvalue⟩ := List.getElem?_eq_some_iff.mp hself
  rw [List.map_set, hkey, ← hvalue, List.set_getElem_self]

theorem nodup_map_concat {y : α} (h : (es.map key).Nodup) (hnew : ∀ x ∈ es, key x ≠ key y) :
    ((es ++ [y]).map key).Nodup := by
  rw [List.map_append, List.map_singleton, ← List.concat_eq_append]
  refine h.concat fun hmem => ?_
  obtain ⟨x, hx, hkey⟩ := List.mem_map.mp hmem
  exact hnew x hx hkey

theorem nodup_map_set {y : α} (h : (es.map key).Nodup) (hnew : ∀ x ∈ es, key x ≠ key y) (k : ℕ) :
    ((es.set k y).map key).Nodup := by
  rw [List.map_set]
  refine h.set fun hmem => ?_
  obtain ⟨x, hx, hkey⟩ := List.mem_map.mp hmem
  exact hnew x hx hkey

end SlotTable
