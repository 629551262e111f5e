import Mathlib.Data.List.DropRight
import Mathlib.Data.List.SplitBy

/-!
# Batches of a sequence in groups

A sequence is cut into groups, its runs of one key (`groups`), and every group into batches by a
rule `clip`, such as its last items, its first ones, or consecutive pieces. An accumulator does this
in one pass, with a buffer for the batch that is still open: what it does to a group's buffer is
`push`, and the two fit when `push` keeps `Filled`, the relation between a group, its closed batches
and its buffer.

`Batched` is the invariant of the pass, with one rule for an item of the same group and one for the
first item of the next (`Batched.same`, `Batched.next`); at its end the closed batches and the
buffer are those of the groups (`Batched.finish`).
-/

namespace Batches

variable {α κ : Type*}

/-! ### Pieces of a list -/

section Pieces

variable {c : ℕ}

/-- Filling pieces one item at a time: the pieces before the last, the last one, and what one more
item does. -/
private theorem toChunks_go (xs : List α) (acc : Array α) (accs : Array (List α)) (hacc : 0 < acc.size)
    (hle : acc.size ≤ c) : ∃ early b, List.toChunks.go c xs acc accs = early ++ [b] ∧ b ≠ [] ∧
      b.length ≤ c ∧ ∀ x, List.toChunks.go c (xs ++ [x]) acc accs =
        if b.length = c then early ++ [b, [x]] else early ++ [b ++ [x]] := by
  induction xs generalizing acc accs with
  | nil =>
    refine ⟨accs.toList, acc.toList, by simp [List.toChunks.go], ?_, by simpa using hle, fun x => ?_⟩
    · rw [← List.length_pos_iff]
      simpa using hacc
    · simp only [List.nil_append, List.toChunks.go, beq_iff_eq, Array.length_toList]
      split_ifs <;> simp
  | cons y ys ih =>
    simp only [List.cons_append, List.toChunks.go, beq_iff_eq]
    split_ifs with hfull
    · exact ih _ _ (by simp) (by simp; omega)
    · exact ih _ _ (by simp) (by simp; omega)

/-- One more item after some: it starts a new piece when the last one is full. -/
theorem toChunks_append_singleton {l : List α} (hl : l ≠ []) (hc : 0 < c) :
    ∃ early b, l.toChunks c = early ++ [b] ∧ b ≠ [] ∧ b.length ≤ c ∧ ∀ x, (l ++ [x]).toChunks c =
      if b.length = c then early ++ [b, [x]] else early ++ [b ++ [x]] := by
  obtain ⟨y, ys, rfl⟩ := List.exists_cons_of_ne_nil hl
  obtain ⟨n, rfl⟩ := Nat.exists_eq_succ_of_ne_zero hc.ne'
  exact toChunks_go ys #[y] #[] (by simp) (by simp)

theorem toChunks_singleton (hc : 0 < c) (x : α) : [x].toChunks c = [[x]] := by
  obtain ⟨n, rfl⟩ := Nat.exists_eq_succ_of_ne_zero hc.ne'
  rfl

/-- The pieces are the list, in its order, and none is too long. -/
theorem toChunks_spec (hc : 0 < c) (l : List α) :
    (l.toChunks c).flatten = l ∧ ∀ b ∈ l.toChunks c, b.length ≤ c := by
  have hone : 1 ≤ c := hc
  induction l using List.reverseRecOn with
  | nil => simp [List.toChunks]
  | append_singleton l x ih =>
    rcases eq_or_ne l [] with rfl | hl
    · rw [List.nil_append, toChunks_singleton hc]
      simpa using hone
    · obtain ⟨early, b, hb, -, hlen, hnext⟩ := toChunks_append_singleton hl hc
      obtain ⟨hflat, hle⟩ := ih
      rw [hb] at hflat hle
      have hearly : ∀ b ∈ early, b.length ≤ c := fun b hb => hle b (List.mem_append_left _ hb)
      rw [hnext, ← hflat]
      split_ifs with hfull
      · refine ⟨by simp, fun b' hb' => ?_⟩
        simp only [List.mem_append, List.mem_cons, List.not_mem_nil, or_false] at hb'
        obtain hb' | rfl | rfl := hb'
        · exact hearly b' hb'
        · exact hlen
        · simpa using hone
      · refine ⟨by simp, fun b' hb' => ?_⟩
        simp only [List.mem_append, List.mem_singleton] at hb'
        obtain hb' | rfl := hb'
        · exact hearly b' hb'
        · rw [List.length_append, List.length_singleton]
          omega

/-- The last items of a list and one more: the first of them goes when they are enough. -/
theorem rtake_append_singleton (hc : 0 < c) (l : List α) (x : α) :
    (l ++ [x]).rtake c =
      if c ≤ (l.rtake c).length then (l.rtake c).tail ++ [x] else l.rtake c ++ [x] := by
  obtain ⟨n, rfl⟩ : ∃ n, c = n + 1 := ⟨c - 1, by omega⟩
  rw [List.rtake_concat_succ]
  have hlen : (l.rtake (n + 1)).length = min (n + 1) l.length := by
    rw [List.rtake, List.length_drop]
    omega
  split_ifs with hfull
  · congr 1
    rw [List.rtake, List.rtake, List.tail_drop]
    congr 1
    omega
  · congr 1
    rw [List.rtake, List.rtake]
    congr 1
    omega

/-- The first items of a list and one more: it is kept while they are too few. -/
theorem take_append_singleton (l : List α) (x : α) :
    (l ++ [x]).take c = if c ≤ (l.take c).length then l.take c else l.take c ++ [x] := by
  rw [List.length_take]
  split_ifs with hfull
  · rw [List.take_append_of_le_length (by omega)]
  · rw [List.take_of_length_le (by simp; omega), List.take_of_length_le (by omega)]

end Pieces

/-! ### Groups -/

section Groups

variable [DecidableEq κ] {key : α → κ} {clip : List α → List (List α)}
  {push : List α → α → List (List α) × List α}

/-- The runs of one key. -/
def groups (key : α → κ) (l : List α) : List (List α) := l.splitBy fun a b => key a == key b

/-- The batches of a group that are closed, and the buffer that holds the last one. -/
def Filled (clip : List α → List (List α)) (group : List α) (closed : List (List α))
    (buffer : List α) : Prop :=
  (group = [] ∧ closed = [] ∧ buffer = []) ∨
    (group ≠ [] ∧ buffer ≠ [] ∧ clip group = closed ++ [buffer])

/-- When a group is one batch, the buffer holds it. -/
theorem filled_singleton_iff {f : List α → List α} (hnil : f [] = []) (hne : ∀ l ≠ [], f l ≠ [])
    {group : List α} {closed : List (List α)} {buffer : List α} :
    Filled (fun l => [f l]) group closed buffer ↔ closed = [] ∧ buffer = f group := by
  constructor
  · rintro (⟨rfl, rfl, rfl⟩ | ⟨-, -, hclip⟩)
    · exact ⟨rfl, hnil.symm⟩
    · rcases List.append_eq_singleton_iff.mp hclip.symm with ⟨rfl, hbuffer⟩ | ⟨-, hbuffer⟩
      · exact ⟨rfl, List.singleton_inj.mp hbuffer⟩
      · exact absurd hbuffer (List.cons_ne_nil _ _)
  · rintro ⟨rfl, rfl⟩
    rcases eq_or_ne group [] with rfl | hgroup
    · exact Or.inl ⟨rfl, rfl, hnil⟩
    · exact Or.inr ⟨hgroup, hne group hgroup, rfl⟩

/-- A buffer as a batch: nothing when it is empty. -/
def batchOf (buffer : List α) : List (List α) := if buffer = [] then [] else [buffer]

/-- The invariant of the pass over the items `done`: the closed batches, the key of the open group
and its buffer. -/
def Batched (key : α → κ) (clip : List α → List (List α)) (done : List α) (closed : List (List α))
    (k : κ) (buffer : List α) : Prop :=
  ∃ before group closedBefore, done = before ++ group ∧ (∀ x ∈ group, key x = k) ∧
    (∀ x ∈ before.getLast?, key x ≠ k) ∧ (group = [] → before = []) ∧
    closed = (groups key before).flatMap clip ++ closedBefore ∧ Filled clip group closedBefore buffer

theorem batched_init (k : κ) : Batched key clip [] [] k [] :=
  ⟨[], [], [], rfl, by simp, by simp, fun _ => rfl, rfl, Or.inl ⟨rfl, rfl, rfl⟩⟩

/-- A group after others. -/
theorem groups_append {before group : List α} {k : κ} (hgroup : ∀ x ∈ group, key x = k)
    (hbefore : ∀ x ∈ before.getLast?, key x ≠ k) (hne : group ≠ []) :
    groups key (before ++ group) = groups key before ++ [group] := by
  have hchain : group.IsChain fun x y => (key x == key y) = true := by
    refine List.Pairwise.isChain (List.pairwise_iff_forall_sublist.mpr fun {x y} hsub => ?_)
    rw [beq_iff_eq, hgroup x (hsub.subset (by simp)), hgroup y (hsub.subset (by simp))]
  rw [groups, groups, List.splitBy_append, List.splitBy_of_isChain hne hchain]
  intro x hx y hy
  rw [beq_eq_false_iff_ne, hgroup y (List.mem_of_mem_head? hy)]
  exact hbefore x hx

variable {done : List α} {closed : List (List α)} {k k' : κ} {buffer : List α} {x : α}

/-- **The end of the pass.** The closed batches and the buffer are those of the groups. -/
theorem Batched.finish (h : Batched key clip done closed k buffer) :
    closed ++ batchOf buffer = (groups key done).flatMap clip := by
  obtain ⟨before, group, closedBefore, rfl, hgroup, hbefore, hempty, rfl, hfilled⟩ := h
  rcases hfilled with ⟨rfl, rfl, rfl⟩ | ⟨hne, hbuffer, hclip⟩
  · rw [hempty rfl]
    rfl
  · rw [groups_append hgroup hbefore hne, List.flatMap_append, List.flatMap_singleton, hclip, batchOf,
      if_neg hbuffer, List.append_assoc]

variable (hpush : ∀ group closed buffer x, Filled clip group closed buffer →
  Filled clip (group ++ [x]) (closed ++ (push buffer x).1) (push buffer x).2)

include hpush

/-- An item of the open group. -/
theorem Batched.same (h : Batched key clip done closed k buffer) (hx : key x = k) :
    Batched key clip (done ++ [x]) (closed ++ (push buffer x).1) k (push buffer x).2 := by
  obtain ⟨before, group, closedBefore, rfl, hgroup, hbefore, -, rfl, hfilled⟩ := h
  refine ⟨before, group ++ [x], closedBefore ++ (push buffer x).1, by simp, ?_, hbefore, by simp,
    by simp, hpush _ _ _ x hfilled⟩
  intro y hy
  rcases List.mem_append.mp hy with hy | hy
  · exact hgroup y hy
  · rw [List.mem_singleton.mp hy, hx]

/-- The first item of the next group: the open batch is closed. -/
theorem Batched.next (h : Batched key clip done closed k buffer) (hx : key x = k') (hk : k' ≠ k) :
    Batched key clip (done ++ [x]) (closed ++ batchOf buffer ++ (push [] x).1) k' (push [] x).2 := by
  have hclosed := h.finish
  obtain ⟨before, group, closedBefore, rfl, hgroup, hbefore, hempty, -, -⟩ := h
  refine ⟨before ++ group, [x], (push [] x).1, rfl, by simpa using hx, ?_, by simp, by rw [hclosed],
    ?_⟩
  · intro y hy
    rcases eq_or_ne group [] with rfl | hne
    · rw [hempty rfl] at hy
      exact absurd hy (by simp)
    · rw [List.getLast?_append_of_ne_nil _ hne] at hy
      rw [hgroup y (List.mem_of_mem_getLast? hy)]
      exact hk.symm
  · exact hpush [] [] [] x (Or.inl ⟨rfl, rfl, rfl⟩)

end Groups

end Batches
