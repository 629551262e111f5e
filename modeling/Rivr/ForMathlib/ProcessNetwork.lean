import Mathlib.Algebra.Order.Group.Multiset
import Mathlib.Data.List.Flatten
import Mathlib.Data.Multiset.Basic
import Rivr.ForMathlib.Interleave

/-!
# Traces of process networks

A network has nodes that fire: a node takes an item that waits for it and sends items on, each of
them along every edge to a successor. A trace lists what came in from outside and what fired, in
its order. `received` is what a node was given in all, `fired` what it took, `sent` what it sent.

A list is a *shuffle* of others when it is made of them, each in its own order. What a node receives
is a shuffle of what came in from outside and of what each of its edges carries
(`shuffles_received`), and what the nodes answer along a trace is a shuffle of what each of them
answers (`shuffles_answer`).
-/

namespace ProcessNetwork

open Interleave

variable {α β : Type*}

/-! ### Shuffles -/

/-- `l` is made of the lists `ls`, each of them in its own order. -/
def Shuffles (ls : List (List α)) (l : List α) : Prop :=
  ∃ tagged : List (ℕ × α), tagged.map Prod.snd = l ∧ ∀ i, proj i tagged = ls.getD i []

@[simp] theorem proj_nil (i : ℕ) : proj i ([] : List (ℕ × α)) = [] := rfl

@[simp]
theorem proj_append (i : ℕ) (l l' : List (ℕ × α)) : proj i (l ++ l') = proj i l ++ proj i l' := by
  rw [proj, List.filter_append, List.map_append]
  rfl

theorem proj_map_self (i : ℕ) (l : List α) : proj i (l.map (Prod.mk i)) = l := by
  induction l with
  | nil => rfl
  | cons x l ih => rw [List.map_cons, proj_cons_self, ih]

theorem proj_map_of_ne {i j : ℕ} (h : j ≠ i) (l : List α) : proj i (l.map (Prod.mk j)) = [] := by
  induction l with
  | nil => rfl
  | cons x l ih => rw [List.map_cons, proj_cons_of_ne h, ih]

/-- A shuffle of one list is that list. -/
theorem shuffles_singleton_iff {l l' : List α} : Shuffles [l] l' ↔ l' = l := by
  constructor
  · rintro ⟨tagged, rfl, hproj⟩
    have hzero : ∀ p ∈ tagged, p.1 = 0 := by
      rintro ⟨i, x⟩ hp
      by_contra hi
      have hmem : x ∈ proj i tagged :=
        List.mem_map.mpr ⟨(i, x), List.mem_filter.mpr ⟨hp, by simp⟩, rfl⟩
      rw [hproj i] at hmem
      obtain ⟨j, rfl⟩ := Nat.exists_eq_succ_of_ne_zero hi
      exact absurd hmem (by simp)
    have hfilter : tagged.filter (fun p => p.1 = 0) = tagged :=
      List.filter_eq_self.mpr fun p hp => by simpa using hzero p hp
    have h := hproj 0
    rwa [proj, hfilter] at h
  · rintro rfl
    refine ⟨l'.map (Prod.mk 0), by rw [List.map_map]; exact List.map_id l', fun i => ?_⟩
    rcases Nat.eq_zero_or_pos i with rfl | hi
    · exact proj_map_self 0 l'
    · rw [proj_map_of_ne hi.ne]
      obtain ⟨j, rfl⟩ := Nat.exists_eq_succ_of_ne_zero hi.ne'
      rfl

/-- An image of a shuffle is a shuffle of the images. -/
theorem Shuffles.map {ls : List (List α)} {l : List α} (h : Shuffles ls l) (f : α → β) :
    Shuffles (ls.map (List.map f)) (l.map f) := by
  obtain ⟨tagged, rfl, hproj⟩ := h
  refine ⟨tagged.map (Prod.map id f), by simp [Function.comp_def], fun i => ?_⟩
  have hmap : proj i (tagged.map (Prod.map id f)) = (proj i tagged).map f := by
    rw [proj, proj, List.filter_map, List.map_map, List.map_map]
    rfl
  rw [hmap, hproj i, List.getD_eq_getElem?_getD, List.getD_eq_getElem?_getD, List.getElem?_map]
  cases ls[i]? <;> rfl

theorem Shuffles.mem {ls : List (List α)} {l : List α} (h : Shuffles ls l) {x : α} (hx : x ∈ l) :
    ∃ l' ∈ ls, x ∈ l' := by
  obtain ⟨tagged, rfl, hproj⟩ := h
  obtain ⟨⟨i, x⟩, hp, rfl⟩ := List.mem_map.mp hx
  have hmem : x ∈ proj i tagged := List.mem_map.mpr ⟨(i, x), List.mem_filter.mpr ⟨hp, by simp⟩, rfl⟩
  rw [hproj i, List.getD_eq_getElem?_getD] at hmem
  cases hi : ls[i]? with
  | none => simp [hi] at hmem
  | some l' => exact ⟨l', List.mem_of_getElem? hi, by simpa [hi] using hmem⟩

/-- A list that holds nothing adds nothing to a shuffle. -/
theorem shuffles_nil_cons_iff {ls : List (List α)} {l : List α} :
    Shuffles ([] :: ls) l ↔ Shuffles ls l := by
  have hshift : ∀ (f : ℕ → ℕ) (i j : ℕ) (tagged : List (ℕ × α)),
      (∀ p ∈ tagged, f p.1 = i ↔ p.1 = j) →
      proj i (tagged.map (Prod.map f id)) = proj j tagged := by
    intro f i j tagged hf
    rw [proj, proj, List.filter_map, List.map_map]
    refine congrArg _ (List.filter_congr fun p hp => ?_)
    simpa using hf p hp
  constructor
  · rintro ⟨tagged, rfl, hproj⟩
    have hpos : ∀ p ∈ tagged, 0 < p.1 := by
      rintro ⟨i, x⟩ hp
      refine Nat.pos_of_ne_zero fun hi => ?_
      have hmem : x ∈ proj 0 tagged :=
        List.mem_map.mpr ⟨(i, x), List.mem_filter.mpr ⟨hp, by simpa using hi⟩, rfl⟩
      rw [hproj 0] at hmem
      exact absurd hmem List.not_mem_nil
    refine ⟨tagged.map (Prod.map Nat.pred id), by simp [Function.comp_def], fun i => ?_⟩
    rw [hshift Nat.pred i (i + 1) tagged fun p hp => ?_, hproj (i + 1)]
    · rfl
    · have := hpos p hp
      rw [Nat.pred_eq_sub_one]
      omega
  · rintro ⟨tagged, rfl, hproj⟩
    refine ⟨tagged.map (Prod.map Nat.succ id), by simp [Function.comp_def], fun i => ?_⟩
    cases i with
    | zero =>
      refine List.map_eq_nil_iff.mpr (List.filter_eq_nil_iff.mpr fun p hp => ?_)
      obtain ⟨q, -, rfl⟩ := List.mem_map.mp hp
      simp
    | succ i =>
      rw [hshift Nat.succ (i + 1) i tagged fun p _ => Nat.succ_inj, hproj i]
      rfl

/-! ### Traces -/

/-- Something comes in from outside, or a node fires. -/
inductive Act (α : Type*) where
  | input (v : ℕ) (x : α)
  | fire (v : ℕ) (x : α) (out : List α)

/-- What comes in at a node. -/
def Act.inputs (v : ℕ) : Act α → List α
  | .input u x => if u = v then [x] else []
  | .fire _ _ _ => []

/-- What a node takes. -/
def Act.fired (v : ℕ) : Act α → List α
  | .input _ _ => []
  | .fire u x _ => if u = v then [x] else []

/-- What a node sends. -/
def Act.sent (v : ℕ) : Act α → List α
  | .input _ _ => []
  | .fire u _ out => if u = v then out else []

/-- What comes in from outside. -/
def Act.injected : Act α → List α
  | .input _ x => [x]
  | .fire _ _ _ => []

/-- What is put into the network. -/
def Act.issued : Act α → List α
  | .input _ x => [x]
  | .fire _ _ out => out

/-- What a node is given. -/
def Act.received (succ : ℕ → List ℕ) (v : ℕ) : Act α → List α
  | .input u x => if u = v then [x] else []
  | .fire u _ out => out.flatMap (List.replicate ((succ u).count v))

/-- What came in at a node. -/
def inputs (v : ℕ) (tr : List (Act α)) : List α := tr.flatMap (Act.inputs v)

/-- What a node took. -/
def fired (v : ℕ) (tr : List (Act α)) : List α := tr.flatMap (Act.fired v)

/-- What a node sent. -/
def sent (v : ℕ) (tr : List (Act α)) : List α := tr.flatMap (Act.sent v)

/-- What came in from outside. -/
def injected (tr : List (Act α)) : List α := tr.flatMap Act.injected

/-- What was put into the network. -/
def issued (tr : List (Act α)) : List α := tr.flatMap Act.issued

/-- What a node was given. -/
def received (succ : ℕ → List ℕ) (v : ℕ) (tr : List (Act α)) : List α :=
  tr.flatMap (Act.received succ v)

section Append

variable (succ : ℕ → List ℕ) (v : ℕ) (tr tr' : List (Act α)) (act : Act α)

@[simp] theorem inputs_append : inputs v (tr ++ tr') = inputs v tr ++ inputs v tr' :=
  List.flatMap_append

@[simp] theorem fired_append : fired v (tr ++ tr') = fired v tr ++ fired v tr' :=
  List.flatMap_append

@[simp] theorem sent_append : sent v (tr ++ tr') = sent v tr ++ sent v tr' :=
  List.flatMap_append

@[simp] theorem injected_append : injected (tr ++ tr') = injected tr ++ injected tr' :=
  List.flatMap_append

@[simp] theorem issued_append : issued (tr ++ tr') = issued tr ++ issued tr' :=
  List.flatMap_append

@[simp]
theorem received_append : received succ v (tr ++ tr') = received succ v tr ++ received succ v tr' :=
  List.flatMap_append

@[simp] theorem inputs_singleton : inputs v [act] = act.inputs v := List.flatMap_singleton _ _

@[simp] theorem fired_singleton : fired v [act] = act.fired v := List.flatMap_singleton _ _

@[simp] theorem sent_singleton : sent v [act] = act.sent v := List.flatMap_singleton _ _

@[simp] theorem injected_singleton : injected [act] = act.injected := List.flatMap_singleton _ _

@[simp] theorem issued_singleton : issued [act] = act.issued := List.flatMap_singleton _ _

@[simp]
theorem received_singleton : received succ v [act] = act.received succ v :=
  List.flatMap_singleton _ _

end Append

variable {succ : ℕ → List ℕ} {v : ℕ} {tr : List (Act α)}

theorem Act.mem_issued {act : Act α} {x : α} (h : x ∈ act.received succ v) : x ∈ act.issued := by
  cases act with
  | input u y =>
    rw [Act.received] at h
    split_ifs at h
    · exact h
    · exact absurd h List.not_mem_nil
  | fire u y out =>
    obtain ⟨o, ho, hx⟩ := List.mem_flatMap.mp h
    rw [List.eq_of_mem_replicate hx]
    exact ho

theorem mem_issued_of_mem_received {x : α} (h : x ∈ received succ v tr) : x ∈ issued tr := by
  obtain ⟨act, hact, hx⟩ := List.mem_flatMap.mp h
  exact List.mem_flatMap.mpr ⟨act, hact, act.mem_issued hx⟩

/-- What comes in at a node comes in, in its order. -/
theorem inputs_sublist_injected (v : ℕ) (tr : List (Act α)) :
    (inputs v tr).Sublist (injected tr) := by
  induction tr with
  | nil => exact List.Sublist.refl _
  | cons act tr ih =>
    refine List.Sublist.append ?_ ih
    cases act with
    | input u x =>
      rw [Act.inputs]
      split_ifs
      · exact List.Sublist.refl _
      · exact List.nil_sublist _
    | fire u x out => exact List.Sublist.refl _

/-- What holds of all pairs that are put into the network, the earlier one first, holds of all pairs
that a node receives. -/
theorem pairwise_received {R R' : α → α → Prop} (hR : ∀ a b, R a b → R' a b)
    (hrefl : ∀ a, R' a a) (succ : ℕ → List ℕ) (v : ℕ) (h : (issued tr).Pairwise R) :
    (received succ v tr).Pairwise R' := by
  have hout : ∀ {out : List α} (k : ℕ), out.Pairwise R →
      (out.flatMap (List.replicate k)).Pairwise R' := by
    intro out k hpair
    induction out with
    | nil => exact List.Pairwise.nil
    | cons o out ih =>
      obtain ⟨hle, hrest⟩ := List.pairwise_cons.mp hpair
      refine List.pairwise_append.mpr ⟨?_, ih hrest, fun a ha b hb => ?_⟩
      · exact List.pairwise_replicate.mpr (Or.inr (hrefl o))
      · obtain ⟨o', ho', hb⟩ := List.mem_flatMap.mp hb
        rw [List.eq_of_mem_replicate ha, List.eq_of_mem_replicate hb]
        exact hR _ _ (hle o' ho')
  induction tr with
  | nil => exact List.Pairwise.nil
  | cons act tr ih =>
    have hsplit : issued (act :: tr) = act.issued ++ issued tr := rfl
    rw [hsplit] at h
    obtain ⟨hact, hrest, hcross⟩ := List.pairwise_append.mp h
    refine List.pairwise_append.mpr ⟨?_, ih hrest, fun a ha b hb => ?_⟩
    · cases act with
      | input u x =>
        rw [Act.received]
        split_ifs
        · exact List.pairwise_singleton _ _
        · exact List.Pairwise.nil
      | fire u x out => exact hout _ hact
    · exact hR _ _ (hcross a (Act.mem_issued ha) b (mem_issued_of_mem_received hb))

/-! ### What a node receives -/

/-- What an act gives to a node whose edges come from `ups`, with a tag for the edge it comes along,
and tag `0` for what comes from outside. -/
def Act.tagged (ups : List ℕ) (v : ℕ) : Act α → List (ℕ × α)
  | .input u x => if u = v then [(0, x)] else []
  | .fire u _ out => out.flatMap fun o =>
      (ups.zipIdx 1).filterMap fun e => if e.1 = u then some (e.2, o) else none

private theorem map_snd_edges (ups : List ℕ) (k u : ℕ) (o : α) :
    ((ups.zipIdx k).filterMap fun e => if e.1 = u then some (e.2, o) else none).map Prod.snd =
      List.replicate (ups.count u) o := by
  induction ups generalizing k with
  | nil => rfl
  | cons w ups ih =>
    rw [List.zipIdx_cons, List.filterMap_cons, List.count_cons]
    by_cases hw : w = u
    · simp only [hw, ↓reduceIte, List.map_cons, beq_self_eq_true, List.replicate_succ, ih]
    · have hbeq : (w == u) = false := beq_false_of_ne hw
      simp only [hw, hbeq, ↓reduceIte, Bool.false_eq_true, Nat.add_zero, ih]

private theorem proj_edges_of_lt {ups : List ℕ} {k u i : ℕ} (o : α) (h : i < k) :
    proj i ((ups.zipIdx k).filterMap fun e => if e.1 = u then some (e.2, o) else none) = [] := by
  refine List.map_eq_nil_iff.mpr (List.filter_eq_nil_iff.mpr fun p hp => ?_)
  obtain ⟨e, he, heq⟩ := List.mem_filterMap.mp hp
  split_ifs at heq
  obtain rfl := Option.some.inj heq
  have hle := List.le_snd_of_mem_zipIdx he
  simp only [decide_eq_true_eq]
  omega

private theorem proj_edges (ups : List ℕ) (k u i : ℕ) (o : α) :
    proj (k + i) ((ups.zipIdx k).filterMap fun e => if e.1 = u then some (e.2, o) else none) =
      if ups[i]? = some u then [o] else [] := by
  induction ups generalizing k i with
  | nil => rfl
  | cons w ups ih =>
    rw [List.zipIdx_cons, List.filterMap_cons]
    cases i with
    | zero =>
      have hrest := @proj_edges_of_lt _ ups _ u _ o (Nat.lt_succ_self k)
      rw [List.getElem?_cons_zero, Nat.add_zero]
      by_cases hw : w = u
      · simp only [hw, ↓reduceIte, proj_cons_self, hrest]
      · simp only [hw, ↓reduceIte, hrest, Option.some.injEq]
    | succ i =>
      have hrest := ih (k + 1) i
      rw [Nat.succ_add_eq_add_succ] at hrest
      rw [List.getElem?_cons_succ]
      by_cases hw : w = u
      · simp only [hw, ↓reduceIte]
        rw [proj_cons_of_ne (by omega), hrest]
      · simp only [hw, ↓reduceIte]
        exact hrest

private theorem flatMap_singleton_eq (out : List α) (c : Prop) [Decidable c] :
    (out.flatMap fun o => if c then [o] else []) = if c then out else [] := by
  split_ifs
  · simp
  · simp

theorem proj_flatMap (i : ℕ) (f : β → List (ℕ × α)) (l : List β) :
    proj i (l.flatMap f) = l.flatMap fun b => proj i (f b) := by
  induction l with
  | nil => rfl
  | cons b l ih => rw [List.flatMap_cons, proj_append, ih, List.flatMap_cons]

/-- **What a node receives** is a shuffle of what comes in at it and of what each of its edges
carries. -/
theorem shuffles_received {ups : List ℕ} (h : ∀ u, (succ u).count v = ups.count u)
    (tr : List (Act α)) :
    Shuffles (inputs v tr :: ups.map fun u => sent u tr) (received succ v tr) := by
  refine ⟨tr.flatMap (Act.tagged ups v), ?_, fun i => ?_⟩
  · rw [received, List.map_flatMap]
    refine List.flatMap_congr fun act _ => ?_
    cases act with
    | input u x =>
      rw [Act.tagged, Act.received]
      split_ifs <;> rfl
    | fire u x out =>
      rw [Act.tagged, Act.received, List.map_flatMap, h]
      exact List.flatMap_congr fun o _ => map_snd_edges ups 1 u o
  · rw [proj_flatMap]
    cases i with
    | zero =>
      rw [List.getD_cons_zero]
      refine List.flatMap_congr fun act _ => ?_
      cases act with
      | input u x =>
        rw [Act.tagged, Act.inputs]
        split_ifs <;> rfl
      | fire u x out =>
        rw [Act.tagged, Act.inputs, proj_flatMap]
        refine List.flatMap_eq_nil_iff.mpr fun o _ => ?_
        exact proj_edges_of_lt o Nat.zero_lt_one
    | succ i =>
      rw [List.getD_cons_succ, List.getD_eq_getElem?_getD, List.getElem?_map]
      have hact : ∀ act ∈ tr, proj (i + 1) (Act.tagged ups v act) =
          (ups[i]?.map fun u => act.sent u).getD [] := by
        intro act _
        cases act with
        | input u x =>
          have hnil : (ups[i]?.map fun w => (Act.input u x).sent w).getD [] = [] := by
            cases ups[i]? <;> rfl
          rw [Act.tagged, hnil]
          split_ifs <;> rfl
        | fire u x out =>
          rw [Act.tagged, proj_flatMap]
          simp only [Nat.add_comm i 1, proj_edges, flatMap_singleton_eq]
          cases ups[i]? with
          | none => rfl
          | some w =>
            simp only [Option.some.injEq, Option.map_some, Option.getD_some, Act.sent, eq_comm]
      rw [List.flatMap_congr hact]
      cases ups[i]? with
      | none => exact List.flatMap_eq_nil_iff.mpr fun _ _ => rfl
      | some w => rfl

/-! ### What the nodes answer -/

/-- What an act is answered with, when a node answers what it takes by `f`. -/
def Act.answer (f : ℕ → α → List β) : Act α → List β
  | .input _ _ => []
  | .fire v x _ => f v x

/-- When only the nodes `ids` answer, the answers along a trace are a shuffle of what each of them
answers to what it took. -/
theorem shuffles_answer {ids : List ℕ} (hids : ids.Nodup) {f : ℕ → α → List β}
    (hf : ∀ v x, v ∉ ids → f v x = []) (tr : List (Act α)) :
    Shuffles (ids.map fun v => (fired v tr).flatMap (f v)) (tr.flatMap (Act.answer f)) := by
  refine ⟨tr.flatMap (Act.answer fun v x => (f v x).map (Prod.mk (ids.idxOf v))), ?_, fun i => ?_⟩
  · rw [List.map_flatMap]
    refine List.flatMap_congr fun act _ => ?_
    cases act with
    | input v x => rfl
    | fire v x out => exact (List.map_map ..).trans (List.map_id _)
  · rw [proj_flatMap, List.getD_eq_getElem?_getD, List.getElem?_map]
    cases hi : ids[i]? with
    | none =>
      refine List.flatMap_eq_nil_iff.mpr fun act _ => ?_
      cases act with
      | input v x => rfl
      | fire v x out =>
        rw [Act.answer]
        by_cases hv : v ∈ ids
        · refine proj_map_of_ne (fun heq => ?_) _
          rw [← heq, List.getElem?_eq_getElem (List.idxOf_lt_length_of_mem hv)] at hi
          cases hi
        · rw [hf v x hv]
          rfl
    | some w =>
      obtain ⟨hlt, hw⟩ := List.getElem?_eq_some_iff.mp hi
      rw [Option.map_some, Option.getD_some, fired, List.flatMap_assoc]
      refine List.flatMap_congr fun act _ => ?_
      cases act with
      | input v x => rfl
      | fire v x out =>
        rw [Act.answer, Act.fired]
        by_cases hv : v = w
        · have hidx : ids.idxOf v = i := by rw [hv, ← hw, hids.idxOf_getElem i hlt]
          rw [if_pos hv, List.flatMap_singleton, hidx, proj_map_self, hv]
        · rw [if_neg hv]
          by_cases hmem : v ∈ ids
          · refine proj_map_of_ne (fun heq => hv ?_) _
            subst heq
            rw [← hw, List.getElem_idxOf]
          · rw [hf v x hmem]
            rfl

end ProcessNetwork
