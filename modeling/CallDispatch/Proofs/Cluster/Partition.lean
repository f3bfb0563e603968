import CallDispatch.Cluster
import Mathlib.Algebra.BigOperators.Group.List.Basic
import Mathlib.Algebra.Order.Ring.Nat
import Mathlib.Data.List.Nodup
import Mathlib.Data.List.Sort

/-!
# Sharing out a job

A pod works out its calls from its own run of processors: a first wave, and then one round after
another until its share is used up. What comes out is the ascending list of the calls that fall on
its processors, and the share is the length of that list. Runs that tile a cluster share out every
call of a job once.

Here numbers are taken as they are; what machine words make of them is another matter.
-/

namespace CallDispatch

/-! ## Rounds -/

theorem roundCalls_range' (base total start count remaining : Nat) :
    roundCalls base total id (List.range' start count) remaining =
      let taken := min (min count (total - (base + start))) remaining
      ((List.range' start taken).map (base + ·), remaining - taken) := by
  induction count generalizing start remaining with
  | zero => simp [roundCalls]
  | succ count ih =>
    rw [List.range'_succ, roundCalls]
    by_cases stops : remaining = 0 ∨ total ≤ base + start
    · have none : min (min (count + 1) (total - (base + start))) remaining = 0 := by omega
      simp only [id_eq, if_pos stops, none, List.range'_zero, List.map_nil, Nat.sub_zero]
    · have some : min (min (count + 1) (total - (base + start))) remaining =
          min (min count (total - (base + (start + 1)))) (remaining - 1) + 1 := by omega
      simp only [id_eq, if_neg stops, ih, some, List.range'_succ, List.map_cons, Prod.mk.injEq,
        true_and]
      omega

/-- The calls a job has in one round on the processors of a run. -/
def roundOf (cluster : Nat) (r : ProcessorRun) (total round : Nat) : List Nat :=
  (List.range (min r.size (total - (cluster * round + r.first)))).map
    (cluster * round + r.first + ·)

theorem roundOf_length (cluster : Nat) (r : ProcessorRun) (total round : Nat) :
    (roundOf cluster r total round).length =
      min r.size (total - (cluster * round + r.first)) := by
  simp [roundOf]

theorem mem_roundOf {cluster total round i : Nat} {r : ProcessorRun} :
    i ∈ roundOf cluster r total round ↔
      cluster * round + r.first ≤ i ∧ i < cluster * round + r.first + r.size ∧ i < total := by
  simp only [roundOf, List.mem_map, List.mem_range]
  constructor
  · rintro ⟨slot, bound, rfl⟩
    omega
  · intro h
    exact ⟨i - (cluster * round + r.first), by omega, by omega⟩

/-- A share that covers a round is used up by as many calls as the round has. Slots from `total`
on are left out of no round that has a call for them. -/
theorem roundCalls_eq_roundOf {cluster total round remaining : Nat} {r : ProcessorRun}
    (enough : (roundOf cluster r total round).length ≤ remaining) :
    roundCalls (cluster * round + r.first) total id (List.range (min r.size total)) remaining =
      (roundOf cluster r total round, remaining - (roundOf cluster r total round).length) := by
  rw [roundOf_length] at enough
  have taken : min (min (min r.size total) (total - (cluster * round + r.first + 0))) remaining =
      min r.size (total - (cluster * round + r.first)) := by omega
  rw [List.range_eq_range', roundCalls_range', taken, roundOf_length, roundOf,
    List.range_eq_range']

theorem roundsFrom_eq_flatMap {cluster total : Nat} {r : ProcessorRun} (rounds round : Nat)
    {remaining : Nat}
    (enough : ((List.range' round rounds).flatMap (roundOf cluster r total)).length ≤ remaining) :
    roundsFrom cluster r total id rounds round remaining =
      (List.range' round rounds).flatMap (roundOf cluster r total) := by
  induction rounds generalizing round remaining with
  | zero => rfl
  | succ rounds ih =>
    rw [roundsFrom]
    by_cases left : remaining = 0
    · rw [if_pos left]
      exact (List.eq_nil_of_length_eq_zero (by omega)).symm
    · rw [List.range'_succ, List.flatMap_cons, List.length_append] at enough
      have first : (roundOf cluster r total round).length ≤ remaining := by omega
      rw [if_neg left, id_eq, roundCalls_eq_roundOf first, List.range'_succ, List.flatMap_cons]
      exact congrArg (_ ++ ·) (ih (round + 1) (by omega))

/-! ## Shares and launches -/

/-- The remainder goes to the processors below it, however the run lies. -/
theorem extra_eq (r : ProcessorRun) (ordered : r.first ≤ r.last) (remainder : Nat) :
    (if r.first ≤ remainder ∧ remainder ≤ r.last then remainder - r.first
      else if r.first < remainder then r.size else 0) = min r.size (remainder - r.first) := by
  unfold ProcessorRun.size
  split
  · omega
  · split <;> omega

/-- The calls of all rounds up to the last one that can have any. -/
theorem rounds_length {cluster total : Nat} {r : ProcessorRun} (inside : r.last < cluster)
    (ordered : r.first ≤ r.last) :
    ((List.range (total / cluster + 1)).flatMap (roundOf cluster r total)).length =
      r.size * (total / cluster) + min r.size (total % cluster - r.first) := by
  have split := Nat.div_add_mod total cluster
  have full : ∀ round ∈ List.range (total / cluster),
      (roundOf cluster r total round).length = r.size := by
    intro round below
    have next : cluster * (round + 1) ≤ cluster * (total / cluster) :=
      Nat.mul_le_mul_left _ (List.mem_range.mp below)
    rw [Nat.mul_succ] at next
    rw [roundOf_length]
    unfold ProcessorRun.size
    omega
  have last : (roundOf cluster r total (total / cluster)).length =
      min r.size (total % cluster - r.first) := by
    rw [roundOf_length]
    congr 1
    omega
  rw [List.range_succ, List.flatMap_append, List.length_append, List.length_flatMap,
    List.map_congr_left full, List.map_const', List.sum_replicate, List.flatMap_singleton, last]
  simp [Nat.mul_comm]

theorem flatMap_roundOf_eq_filter {cluster total : Nat} {r : ProcessorRun}
    (inside : r.last < cluster) (ordered : r.first ≤ r.last) :
    (List.range (total / cluster + 1)).flatMap (roundOf cluster r total) =
      (List.range total).filter fun i => r.contains (i % cluster) := by
  have size : r.size = r.last - r.first + 1 := rfl
  apply List.Pairwise.eq_of_mem_iff (r := (· < ·))
  · rw [List.pairwise_flatMap]
    refine ⟨fun round _ => ?_, List.pairwise_lt_range.imp ?_⟩
    · exact List.pairwise_lt_range.map _ fun a b lt => by omega
    · intro round later lt i hi j hj
      have next : cluster * (round + 1) ≤ cluster * later := Nat.mul_le_mul_left _ lt
      rw [Nat.mul_succ] at next
      rw [mem_roundOf] at hi hj
      omega
  · exact List.pairwise_lt_range.filter _
  · intro i
    simp only [List.mem_flatMap, List.mem_range, mem_roundOf, List.mem_filter,
      ProcessorRun.contains, Bool.and_eq_true, decide_eq_true_eq]
    constructor
    · rintro ⟨round, -, low, high, bound⟩
      have remainder : i % cluster = i - cluster * round := by
        have : i = i - cluster * round + cluster * round := by omega
        rw [this, Nat.add_mul_mod_self_left, Nat.mod_eq_of_lt (by omega)]
        omega
      omega
    · rintro ⟨bound, low, high⟩
      have split := Nat.div_add_mod i cluster
      have round : i / cluster < total / cluster + 1 :=
        Nat.lt_succ_of_le (Nat.div_le_div_right (Nat.le_of_lt bound))
      exact ⟨i / cluster, round, by omega, by omega, bound⟩

theorem podShare_id {cluster : Nat} {r : ProcessorRun} (inside : r.last < cluster)
    (ordered : r.first ≤ r.last) (total : Nat) :
    podShare cluster r.size r total id = .ok
      { calls := ((List.range total).filter fun i => r.contains (i % cluster)).length
        callsPerProcessor := total / cluster } := by
  have positive : cluster ≠ 0 := by omega
  rw [← flatMap_roundOf_eq_filter inside ordered, rounds_length inside ordered,
    ← extra_eq r ordered, podShare, if_neg positive]
  rfl

theorem roundOf_past (cluster total : Nat) (r : ProcessorRun) (positive : 0 < cluster) :
    roundOf cluster r total (total / cluster + 1) = [] := by
  have := Nat.lt_mul_div_succ total positive
  apply List.eq_nil_of_length_eq_zero
  rw [roundOf_length]
  omega

theorem reachedProcessors_of_lt {total : Nat} {r : ProcessorRun} (ordered : r.first ≤ r.last)
    (reached : r.first < total) :
    reachedProcessors r total = some (min r.size (total - r.first)) := by
  unfold reachedProcessors ProcessorRun.size
  rw [if_neg (by omega)]
  split <;> exact congrArg some (by omega)

/-- The calls of a pod are those of the first wave and those of the rounds after it. -/
theorem filter_eq_rounds {cluster : Nat} {r : ProcessorRun} (inside : r.last < cluster)
    (ordered : r.first ≤ r.last) (total : Nat) :
    (List.range total).filter (fun i => r.contains (i % cluster)) =
      (List.range (min r.size (total - r.first))).map (r.first + ·) ++
        (List.range' 1 (total / cluster + 1)).flatMap (roundOf cluster r total) := by
  have first : roundOf cluster r total 0 =
      (List.range (min r.size (total - r.first))).map (r.first + ·) := by simp [roundOf]
  rw [← first]
  calc
    _ = (List.range (total / cluster + 1)).flatMap (roundOf cluster r total) :=
      (flatMap_roundOf_eq_filter inside ordered).symm
    _ = (List.range (total / cluster + 1 + 1)).flatMap (roundOf cluster r total) := by
      simp [List.range_succ (n := total / cluster + 1),
        roundOf_past cluster total r (by omega)]
    _ = _ := by rw [List.range_eq_range', List.range'_succ, List.flatMap_cons]

/-- A first wave takes all the processors that are reached, and leaves to the rounds what is theirs.
-/
theorem firstWave_eq {cluster : Nat} {r : ProcessorRun} (inside : r.last < cluster)
    (ordered : r.first ≤ r.last) (total : Nat) :
    min (min (min r.size (total - r.first)) r.size)
        ((List.range total).filter fun i => r.contains (i % cluster)).length =
      min r.size (total - r.first) ∧
    ((List.range total).filter fun i => r.contains (i % cluster)).length -
        min r.size (total - r.first) =
      ((List.range' 1 (total / cluster + 1)).flatMap (roundOf cluster r total)).length := by
  have share := congrArg List.length (filter_eq_rounds inside ordered total)
  rw [List.length_append, List.length_map, List.length_range] at share
  omega

/-- A pod launches the calls on its own processors, in ascending order. -/
theorem launches_id {cluster : Nat} {r : ProcessorRun} (inside : r.last < cluster)
    (ordered : r.first ≤ r.last) (total : Nat) :
    launches cluster r total id =
      .ok ((List.range total).filter fun i => r.contains (i % cluster)) := by
  by_cases reached : r.first < total
  · obtain ⟨wave, left⟩ := firstWave_eq inside ordered total
    rw [launches, reachedProcessors_of_lt ordered reached]
    simp only [id_eq, podShare_id inside ordered total, bind, Except.bind, pure, Except.pure, wave,
      left]
    rw [roundsFrom_eq_flatMap _ _ (Nat.le_refl _), ← filter_eq_rounds inside ordered total]
  · have none : (List.range total).filter (fun i => r.contains (i % cluster)) = [] := by
      rw [List.filter_eq_nil_iff]
      intro i below
      rw [List.mem_range] at below
      have := Nat.mod_le i cluster
      simp [ProcessorRun.contains]
      omega
    rw [launches, reachedProcessors, if_pos (by omega), none]

/-! ## Clusters -/

namespace ProcessorRun

/-- The processors of a run. -/
def processors (r : ProcessorRun) : List Nat := List.range' r.first r.size

theorem mem_processors {r : ProcessorRun} (ordered : r.first ≤ r.last) {cpu : Nat} :
    cpu ∈ r.processors ↔ r.contains cpu = true := by
  simp only [processors, List.mem_range'_1, contains, Bool.and_eq_true, decide_eq_true_eq, size]
  omega

theorem count_processors {r : ProcessorRun} (ordered : r.first ≤ r.last) (cpu : Nat) :
    r.processors.count cpu = if r.contains cpu then 1 else 0 := by
  have nodup : r.processors.Nodup := List.nodup_range'
  rw [nodup.count]
  exact if_congr (mem_processors ordered) rfl rfl

end ProcessorRun

/-- Runs that share out the processors of a cluster among themselves. -/
structure Tiling (cluster : Nat) (runs : List ProcessorRun) : Prop where
  ordered : ∀ r ∈ runs, r.first ≤ r.last
  covers : (runs.flatMap ProcessorRun.processors).Perm (List.range cluster)

namespace Tiling

variable {cluster : Nat} {runs : List ProcessorRun}

theorem inside (tiling : Tiling cluster runs) {r : ProcessorRun} (member : r ∈ runs) :
    r.last < cluster := by
  have ordered := tiling.ordered r member
  have last : r.last ∈ r.processors := by simp [ProcessorRun.mem_processors ordered,
    ProcessorRun.contains, ordered]
  exact List.mem_range.mp (tiling.covers.mem_iff.mp (List.mem_flatMap.mpr ⟨r, member, last⟩))

/-- Every processor belongs to one run only. -/
theorem unique (tiling : Tiling cluster runs) {cpu j k : Nat} {r s : ProcessorRun}
    (atJ : runs[j]? = some r) (atK : runs[k]? = some s) (inR : r.contains cpu = true)
    (inS : s.contains cpu = true) : j = k := by
  have nodup : (runs.flatMap ProcessorRun.processors).Nodup :=
    tiling.covers.nodup_iff.mpr List.nodup_range
  have apart := List.pairwise_iff_getElem.mp (List.nodup_flatMap.mp nodup).2
  obtain ⟨hj, rfl⟩ := List.getElem?_eq_some_iff.mp atJ
  obtain ⟨hk, rfl⟩ := List.getElem?_eq_some_iff.mp atK
  have memR := (ProcessorRun.mem_processors (tiling.ordered _ (List.getElem_mem hj))).mpr inR
  have memS := (ProcessorRun.mem_processors (tiling.ordered _ (List.getElem_mem hk))).mpr inS
  rcases Nat.lt_trichotomy j k with lt | eq | gt
  · exact absurd memS (apart j k hj hk lt memR)
  · exact eq
  · exact absurd memR (apart k j hk hj gt memS)

/-- Every call runs on the processors of one run. -/
theorem calls_perm (tiling : Tiling cluster runs) (positive : 0 < cluster) (total : Nat) :
    (runs.flatMap fun r => (List.range total).filter fun i => r.contains (i % cluster)).Perm
      (List.range total) := by
  rw [List.perm_iff_count]
  intro i
  rw [List.count_flatMap, List.nodup_range.count]
  by_cases below : i < total
  · have cpu := tiling.covers.count_eq (i % cluster)
    rw [List.count_flatMap, List.nodup_range.count,
      if_pos (List.mem_range.mpr (Nat.mod_lt i positive))] at cpu
    rw [if_pos (List.mem_range.mpr below), ← cpu]
    refine congrArg List.sum (List.map_congr_left fun r member => ?_)
    have nodup := (List.nodup_range (n := total)).filter fun i => r.contains (i % cluster)
    rw [Function.comp_apply, Function.comp_apply, nodup.count,
      ProcessorRun.count_processors (tiling.ordered r member)]
    simp [below]
  · rw [if_neg (by simpa using below)]
    refine List.sum_eq_zero fun n member => ?_
    obtain ⟨r, -, rfl⟩ := List.mem_map.mp member
    exact List.count_eq_zero.mpr fun h => below (List.mem_range.mp (List.mem_filter.mp h).1)

end Tiling

end CallDispatch
