import Rivr.Firmware.FwdSet
import Rivr.ForMathlib.BestFew

/-!
# What the forward set says

`fwdset_build` goes through the neighbour table once. Its candidates are the first three of the live
neighbours when these are sorted by their link scores, with the one in the earlier slot first of two
equals, and its other fields are the highest score of a direct neighbour and two counts, over the
whole table (`fwdsetBuild_describes`).
-/

open BestFew

namespace Rivr

variable {airtimeRouting : Bool} {nowMs : UInt32} {n : RivrNeighbor} {ns : List RivrNeighbor}

/-- The neighbour is not stale. -/
def RivrNeighbor.Live (n : RivrNeighbor) (nowMs : UInt32) : Prop :=
  n.neighborId ≠ 0 ∧ nowMs - n.lastSeenMs ≤ ntableStaleMs

instance (n : RivrNeighbor) (nowMs : UInt32) : Decidable (n.Live nowMs) :=
  inferInstanceAs (Decidable (_ ∧ _))

/-- The neighbour was heard without a hop. -/
def RivrNeighbor.Direct (n : RivrNeighbor) : Prop := n.flags &&& ntableFlagDirect ≠ 0

instance (n : RivrNeighbor) : Decidable n.Direct := inferInstanceAs (Decidable (_ ≠ _))

/-- The neighbour as a candidate. -/
def RivrNeighbor.candidate (airtimeRouting : Bool) (nowMs : UInt32) (n : RivrNeighbor) :
    FwdCandidate :=
  ⟨n.neighborId, neighborLinkScoreFull airtimeRouting n nowMs⟩

/-- The score of a candidate, as a number. -/
def FwdCandidate.points (c : FwdCandidate) : ℕ := c.score.toNat

/-- The fields of the forward set have the values that they are for, over the live neighbours. -/
structure FwdSet.Describes (fs : FwdSet) (airtimeRouting : Bool) (nowMs : UInt32)
    (live : List RivrNeighbor) : Prop where
  /-- The candidates are the first live neighbours by score, and by slot among equals. -/
  candidates_eq : fs.candidates =
    (ranking FwdCandidate.points (live.map (·.candidate airtimeRouting nowMs))).take fwdsetMax
  length_eq : fs.candidates.length = min fwdsetMax live.length
  descending : fs.candidates.Pairwise fun c d => d.score ≤ c.score
  /-- No live neighbour outside scores higher than one inside. -/
  topScoring : ∃ others, (fs.candidates ++ others).Perm
      (live.map (·.candidate airtimeRouting nowMs)) ∧
    ∀ c ∈ fs.candidates, ∀ d ∈ others, d.score ≤ c.score
  le_bestDirect : ∀ n ∈ live, n.Direct →
    neighborLinkScoreFull airtimeRouting n nowMs ≤ fs.bestDirectScore
  bestDirect_eq : fs.bestDirectScore = 0 ∨ ∃ n ∈ live, n.Direct ∧
    neighborLinkScoreFull airtimeRouting n nowMs = fs.bestDirectScore
  directCount_eq : fs.directCount.toNat = live.countP (·.Direct)
  viableCount_eq : fs.viableCount.toNat = live.countP fun n =>
    neighborLinkScoreFull airtimeRouting n nowMs ≥ fwdsetMinRelayScore

/-! ### The candidates -/

theorem points_lt_iff {c d : FwdCandidate} : c.points < d.points ↔ d.score > c.score :=
  UInt8.lt_iff_toNat_lt.symm

theorem bubbleUp_eq (x : FwdCandidate) (cs : List FwdCandidate) :
    bubbleUp x cs = cs.orderedInsert (NoBetter FwdCandidate.points) x := by
  induction cs with
  | nil => rfl
  | cons c cs ih =>
    rw [bubbleUp, ih]
    by_cases hgt : x.score > c.score
    · have hnot : ¬NoBetter FwdCandidate.points x c :=
        Nat.not_le.mpr (points_lt_iff.mpr hgt)
      rw [if_pos hgt, List.orderedInsert_of_not_le _ _ hnot]
    · have hle : NoBetter FwdCandidate.points x c :=
        Nat.not_lt.mp fun hlt => hgt (points_lt_iff.mp hlt)
      rw [if_neg hgt, List.orderedInsert_cons_of_le _ _ hle]

theorem insertCandidate_eq (cs : List FwdCandidate) (x : FwdCandidate) :
    (insertCandidate cs x).reverse = keep FwdCandidate.points fwdsetMax cs.reverse x := by
  rw [insertCandidate, keep, List.length_reverse]
  split_ifs with hroom
  · rw [List.reverse_reverse, bubbleUp_eq]
  · cases hcs : cs.reverse with
    | nil => exact hcs
    | cons weakest rest =>
      dsimp only
      rw [displace]
      by_cases hgt : x.score > weakest.score
      · rw [if_pos hgt, if_pos (points_lt_iff.mpr hgt), List.reverse_reverse, bubbleUp_eq]
      · rw [if_neg hgt, if_neg fun hlt => hgt (points_lt_iff.mp hlt), hcs]

/-! ### One neighbour -/

theorem consider_of_not_live (h : ¬n.Live nowMs) (fs : FwdSet) :
    fs.consider airtimeRouting nowMs n = fs := by
  rw [FwdSet.consider]
  by_cases hid : n.neighborId = 0
  · rw [if_pos hid]
  · rw [if_neg hid, if_pos (UInt32.not_le.mp fun hle => h ⟨hid, hle⟩)]

theorem consider_of_live (h : n.Live nowMs) (fs : FwdSet) :
    fs.consider airtimeRouting nowMs n =
      { candidates := insertCandidate fs.candidates (n.candidate airtimeRouting nowMs)
        bestDirectScore :=
          if n.Direct ∧ neighborLinkScoreFull airtimeRouting n nowMs > fs.bestDirectScore then
            neighborLinkScoreFull airtimeRouting n nowMs
          else fs.bestDirectScore
        directCount := if n.Direct then fs.directCount + 1 else fs.directCount
        viableCount :=
          if neighborLinkScoreFull airtimeRouting n nowMs ≥ fwdsetMinRelayScore then
            fs.viableCount + 1
          else fs.viableCount } := by
  rw [FwdSet.consider, if_neg h.1, if_neg (UInt32.not_lt.mpr h.2)]
  dsimp only
  by_cases hdirect : n.Direct
  · have hflag : (n.flags &&& ntableFlagDirect ≠ 0) = True := eq_true hdirect
    simp only [hflag, hdirect, if_true, true_and]
    split_ifs <;> rfl
  · have hflag : (n.flags &&& ntableFlagDirect ≠ 0) = False := eq_false hdirect
    simp only [hflag, hdirect, if_false, false_and]
    split_ifs <;> rfl

/-! ### All neighbours -/

/-- The fields after the live ones of some neighbours. -/
structure FwdSet.Counts (fs : FwdSet) (airtimeRouting : Bool) (nowMs : UInt32)
    (live : List RivrNeighbor) : Prop where
  candidates_eq : fs.candidates.reverse =
    (live.map (·.candidate airtimeRouting nowMs)).foldl (keep FwdCandidate.points fwdsetMax) []
  le_bestDirect : ∀ n ∈ live, n.Direct →
    neighborLinkScoreFull airtimeRouting n nowMs ≤ fs.bestDirectScore
  bestDirect_eq : fs.bestDirectScore = 0 ∨ ∃ n ∈ live, n.Direct ∧
    neighborLinkScoreFull airtimeRouting n nowMs = fs.bestDirectScore
  directCount_eq : fs.directCount.toNat = live.countP (·.Direct)
  viableCount_eq : fs.viableCount.toNat = live.countP fun n =>
    neighborLinkScoreFull airtimeRouting n nowMs ≥ fwdsetMinRelayScore

/-- A counter that goes up for some entries, and does not wrap. -/
theorem toNat_count_succ {count : UInt8} {p : RivrNeighbor → Prop} [DecidablePred p]
    {live : List RivrNeighbor} (h : count.toNat = live.countP fun n => p n)
    (hlen : live.length < 255) (n : RivrNeighbor) :
    (if p n then count + 1 else count).toNat = (live ++ [n]).countP fun n => p n := by
  have hle := List.countP_le_length (p := fun n => decide (p n)) (l := live)
  rw [List.countP_append, List.countP_singleton, ← h]
  split_ifs with hp hp' hp'
  · rw [UInt8.toNat_add]
    change (count.toNat + 1) % 2 ^ 8 = _
    omega
  · exact absurd (decide_eq_true hp) hp'
  · exact absurd (of_decide_eq_true hp') hp
  · rfl

/-- One live neighbour more. -/
theorem FwdSet.Counts.consider {fs : FwdSet} {live : List RivrNeighbor}
    (h : fs.Counts airtimeRouting nowMs live) (hlen : live.length < 255) (hn : n.Live nowMs) :
    (fs.consider airtimeRouting nowMs n).Counts airtimeRouting nowMs (live ++ [n]) := by
  rw [consider_of_live hn]
  refine ⟨?_, fun m hm hdirect => ?_, ?_, toNat_count_succ h.directCount_eq hlen n,
    toNat_count_succ h.viableCount_eq hlen n⟩
  · dsimp only
    rw [insertCandidate_eq, h.candidates_eq, List.map_append, List.map_singleton, List.foldl_concat]
  · dsimp only
    rcases List.mem_append.mp hm with hm | hm
    · have hle := h.le_bestDirect m hm hdirect
      split_ifs with hbetter
      · exact UInt8.le_trans hle (UInt8.le_of_lt hbetter.2)
      · exact hle
    · obtain rfl := List.mem_singleton.mp hm
      split_ifs with hbetter
      · exact UInt8.le_refl _
      · exact UInt8.not_lt.mp fun hgt => hbetter ⟨hdirect, hgt⟩
  · dsimp only
    split_ifs with hbetter
    · exact .inr ⟨n, List.mem_append_right live List.mem_cons_self, hbetter.1, rfl⟩
    · refine h.bestDirect_eq.imp_right ?_
      rintro ⟨m, hm, hdirect, hscore⟩
      exact ⟨m, List.mem_append_left [n] hm, hdirect, hscore⟩

theorem counts_foldl_consider (hlen : ns.length ≤ 255) :
    (ns.foldl (FwdSet.consider airtimeRouting nowMs) .empty).Counts airtimeRouting nowMs
      (ns.filter (·.Live nowMs)) := by
  induction ns using List.reverseRecOn with
  | nil =>
    exact ⟨rfl, fun n hn => absurd hn List.not_mem_nil, .inl rfl, rfl, rfl⟩
  | append_singleton ns n ih =>
    rw [List.length_append, List.length_singleton] at hlen
    have hcounts := ih (by omega)
    rw [List.foldl_concat, List.filter_append]
    by_cases hn : n.Live nowMs
    · have hlive : (ns.filter (·.Live nowMs)).length < 255 :=
        (List.length_filter_le _ ns).trans_lt (by omega)
      have hkeep : [n].filter (·.Live nowMs) = [n] := by simp [hn]
      rw [hkeep]
      exact hcounts.consider hlive hn
    · have hskip : [n].filter (·.Live nowMs) = [] := by simp [hn]
      rw [hskip, List.append_nil, consider_of_not_live hn]
      exact hcounts

/-- Of the neighbours with one score, those in the first slots are candidates. -/
theorem FwdSet.Describes.filter_points_isPrefix {fs : FwdSet} {live : List RivrNeighbor}
    (h : fs.Describes airtimeRouting nowMs live) (s : ℕ) :
    fs.candidates.filter (·.points = s) <+:
      (live.map (·.candidate airtimeRouting nowMs)).filter (·.points = s) := by
  have hstable := filter_ranking FwdCandidate.points s (live.map (·.candidate airtimeRouting nowMs))
  rw [h.candidates_eq, ← hstable]
  exact (List.take_prefix _ _).filter _

/-- **The forward set** of a neighbour table, whatever is in it, and a relay without viable
neighbours is not suppressed. -/
theorem fwdsetBuild_describes (airtimeRouting : Bool) (ntbl : RivrNeighborTable) (nowMs : UInt32) :
    (fwdsetBuild airtimeRouting ntbl nowMs).Describes airtimeRouting nowMs
        (ntbl.entries.filter (·.Live nowMs)) ∧
      ∀ fs : FwdSet, fs.viableCount = 0 → fwdsetSuppressRelay fs = false := by
  refine ⟨?_, fun fs hviable => if_pos hviable⟩
  have hcounts : (fwdsetBuild airtimeRouting ntbl nowMs).Counts airtimeRouting nowMs
      (ntbl.entries.filter (·.Live nowMs)) :=
    counts_foldl_consider (ntbl.length_entries.trans_le (by decide))
  generalize ntbl.entries.filter (·.Live nowMs) = live at hcounts ⊢
  have hcandidates := congrArg List.reverse hcounts.candidates_eq
  rw [List.reverse_reverse, foldl_keep] at hcandidates
  have hperm := ranking_perm FwdCandidate.points (live.map (·.candidate airtimeRouting nowMs))
  refine ⟨hcandidates, ?_, ?_, ⟨(ranking FwdCandidate.points
    (live.map (·.candidate airtimeRouting nowMs))).drop fwdsetMax, ?_, fun c hc d hd => ?_⟩,
    hcounts.le_bestDirect,
    hcounts.bestDirect_eq, hcounts.directCount_eq, hcounts.viableCount_eq⟩
  · rw [hcandidates, List.length_take, hperm.length_eq, List.length_map]
  · rw [hcandidates]
    refine ((pairwise_ranking FwdCandidate.points _).sublist (List.take_sublist _ _)).imp ?_
    exact fun hle => UInt8.le_iff_toNat_le.mpr hle
  · rw [hcandidates, List.take_append_drop]
    exact hperm
  · rw [hcandidates] at hc
    have hle : d.points ≤ c.points := le_of_mem_drop_ranking hc hd
    exact UInt8.le_iff_toNat_le.mpr hle

end Rivr
