import CallDispatch.Proofs.Cluster.Partition

/-!
# Sharing out a job in machine words

The numbers of a pod are machine words, whose sums and products wrap around. Whatever becomes of a
number on the way, a pod launches no more calls than its share has, and only calls of the job.

A pod of a cluster meets a sum that is too large in one case only. Every call it computes a position
of while some of its share is left comes before the end of the job, and no share is larger than the
job. The one number that can leave the machine words is that of the rounds, one more than the calls
of each processor: it does for the largest job there is, on a single processor. Of that job just the
first wave is launched.
-/

namespace CallDispatch

open Text.Decimal (wordBound)

/-! ## Whatever becomes of numbers -/

section Anyhow

variable {cluster total : Nat} {r : ProcessorRun} {keep : Nat → Nat}

/-- A round launches some of what is left of the share, all of it calls of the job. -/
theorem roundCalls_some (start total : Nat) (keep : Nat → Nat) (slots : List Nat)
    (remaining : Nat) :
    (roundCalls start total keep slots remaining).1.length +
        (roundCalls start total keep slots remaining).2 = remaining ∧
      ∀ i ∈ (roundCalls start total keep slots remaining).1, i < total := by
  induction slots generalizing remaining with
  | nil => exact ⟨Nat.zero_add _, List.forall_mem_nil _⟩
  | cons slot rest ih =>
    rw [roundCalls]
    by_cases stops : remaining = 0 ∨ total ≤ keep (start + slot)
    · simp only [if_pos stops]
      exact ⟨Nat.zero_add _, List.forall_mem_nil _⟩
    · obtain ⟨length, below⟩ := ih (remaining - 1)
      simp only [if_neg stops, List.length_cons, List.forall_mem_cons]
      exact ⟨by omega, by omega, below⟩

theorem roundsFrom_some (cluster : Nat) (r : ProcessorRun) (total : Nat) (keep : Nat → Nat)
    (rounds round remaining : Nat) :
    (roundsFrom cluster r total keep rounds round remaining).length ≤ remaining ∧
      ∀ i ∈ roundsFrom cluster r total keep rounds round remaining, i < total := by
  induction rounds generalizing round remaining with
  | zero => exact ⟨Nat.zero_le _, List.forall_mem_nil _⟩
  | succ rounds ih =>
    rw [roundsFrom]
    split
    · exact ⟨Nat.zero_le _, List.forall_mem_nil _⟩
    · obtain ⟨length, below⟩ := roundCalls_some (cluster * round + r.first) total keep
        (List.range (min (keep r.size) total)) remaining
      obtain ⟨shorter, below'⟩ := ih (round + 1) (roundCalls (cluster * round + r.first) total keep
        (List.range (min (keep r.size) total)) remaining).2
      rw [List.length_append]
      exact ⟨by omega, List.forall_mem_append.mpr ⟨below, below'⟩⟩

/-- Processors that are reached have a call of the job each. -/
theorem lt_of_reachedProcessors {requested : Nat}
    (reached : reachedProcessors r total = some requested) {slot : Nat} (below : slot < requested) :
    r.first + slot < total := by
  rw [reachedProcessors] at reached
  unfold ProcessorRun.size at reached
  split at reached
  · cases reached
  · split at reached <;> cases reached <;> omega

/-- A pod of a cluster that has processors has a share of every job, and a list of calls to launch
that is no longer than its share and has only calls of the job. -/
theorem launches_some (positive : 0 < cluster) (r : ProcessorRun) (total : Nat)
    (keep : Nat → Nat) :
    ∃ share calls, podShare cluster (keep r.size) r total keep = .ok share ∧
      launches cluster r total keep = .ok calls ∧ calls.length ≤ share.calls ∧
      (∀ i ∈ calls, i < total) ∧ (total ≤ r.first → calls = []) := by
  obtain ⟨share, planned⟩ : ∃ share, podShare cluster (keep r.size) r total keep = .ok share :=
    ⟨_, if_neg (Nat.ne_of_gt positive)⟩
  rw [launches]
  cases reached : reachedProcessors r total with
  | none =>
    exact ⟨share, [], planned, rfl, Nat.zero_le _, List.forall_mem_nil _, fun _ => rfl⟩
  | some requested =>
    obtain ⟨later, below⟩ := roundsFrom_some cluster r total keep
      (keep (share.callsPerProcessor + 1)) 1
      (share.calls - min (min requested (keep r.size)) share.calls)
    refine ⟨share, _, planned, by simp only [planned]; rfl, ?_,
      List.forall_mem_append.mpr ⟨fun i listed => ?_, below⟩, fun past => ?_⟩
    · rw [List.length_append, List.length_map, List.length_range]
      omega
    · obtain ⟨slot, inside, rfl⟩ := List.mem_map.mp listed
      exact lt_of_reachedProcessors reached (by have := List.mem_range.mp inside; omega)
    · rw [reachedProcessors, if_pos past] at reached
      cases reached

end Anyhow

/-! ## Numbers that are wrapped -/

section Wrapped

variable {cluster total : Nat} {r : ProcessorRun}

theorem wrapped_of_lt {n : Nat} (word : n < wordBound) : wrapped n = n := Nat.mod_eq_of_lt word

/-- To a share it makes no difference whether the number of processors is wrapped before. -/
theorem podShare_wrapped (cluster processors : Nat) (r : ProcessorRun) (total : Nat) :
    podShare cluster (wrapped processors) r total = podShare cluster processors r total := by
  have product (base extra : Nat) :
      wrapped (wrapped processors * base + extra) = wrapped (processors * base + extra) := by
    simp [wrapped, Nat.add_mod, Nat.mul_mod]
  have whole (base : Nat) : wrapped (wrapped processors * base + wrapped processors) =
      wrapped (processors * base + processors) := by
    simp [wrapped, Nat.add_mod, Nat.mul_mod]
  simp only [podShare]
  split
  · rfl
  · split
    · rw [product]
    · split
      · rw [whole]
      · rw [product]

theorem exists_launches (positive : 0 < cluster) (r : ProcessorRun) (total : Nat) :
    ∃ share calls, podShare cluster r.size r total = .ok share ∧
      launches cluster r total = .ok calls ∧ calls.length ≤ share.calls ∧
      (∀ i ∈ calls, i < total) ∧ (total ≤ r.first → calls = []) := by
  have some := launches_some positive r total wrapped
  rwa [podShare_wrapped] at some

end Wrapped

/-! ## Jobs and clusters of machine words -/

/-- Whoever keeps machine words as they are, whatever he does with larger numbers. -/
def Faithful (keep : Nat → Nat) : Prop := ∀ n < wordBound, keep n = n

theorem faithful_wrapped : Faithful wrapped := fun _ => wrapped_of_lt

/-- A cluster and a job whose sizes are machine words, and so is what is computed of them: the job
is not the largest there is, or the cluster has more than one processor. -/
structure FitsWords (cluster total : Nat) : Prop where
  cluster_lt : cluster < wordBound
  total_lt : total < wordBound
  succ_lt : cluster = 1 → total + 1 < wordBound

section Fitting

variable {cluster total : Nat} {r : ProcessorRun} {keep : Nat → Nat}

/-- A round that begins before the end of a job comes to that end before a number is too large. -/
theorem roundCalls_keep (faithful : Faithful keep) (word : total < wordBound)
    (start slot count remaining : Nat) (inside : start + slot ≤ total) :
    roundCalls start total keep (List.range' slot count) remaining =
      roundCalls start total id (List.range' slot count) remaining := by
  induction count generalizing slot remaining with
  | zero => rfl
  | succ count ih =>
    rw [List.range'_succ, roundCalls, roundCalls, faithful _ (by omega), id_eq]
    by_cases stops : remaining = 0 ∨ total ≤ start + slot
    · simp only [if_pos stops]
    · simp only [if_neg stops, ih (slot + 1) (remaining - 1) (by omega)]

/-- Rounds that have all that is left of the share compute no number that is too large. -/
theorem roundsFrom_keep (faithful : Faithful keep) (word : total < wordBound)
    (size : r.size < wordBound) (rounds round : Nat) {remaining : Nat}
    (has : remaining ≤ ((List.range' round rounds).flatMap (roundOf cluster r total)).length) :
    roundsFrom cluster r total keep rounds round remaining =
      roundsFrom cluster r total id rounds round remaining := by
  induction rounds generalizing round remaining with
  | zero => rfl
  | succ rounds ih =>
    rw [roundsFrom, roundsFrom]
    by_cases left : remaining = 0
    · rw [if_pos left, if_pos left]
    · -- Some round from here on has a call, so this one begins before the end of the job.
      have begins : cluster * round + r.first < total := by
        obtain ⟨i, listed⟩ := List.exists_mem_of_length_pos (Nat.lt_of_lt_of_le
          (Nat.pos_of_ne_zero left) has)
        obtain ⟨later, among, inside⟩ := List.mem_flatMap.mp listed
        have onward : cluster * round ≤ cluster * later :=
          Nat.mul_le_mul_left _ (List.mem_range'_1.mp among).1
        have := mem_roundOf.mp inside
        omega
      have same := roundCalls_keep faithful word (cluster * round + r.first) 0
        (min r.size total) remaining (Nat.le_of_lt begins)
      rw [if_neg left, if_neg left, faithful _ size, id_eq, List.range_eq_range', same]
      refine congrArg (_ ++ ·) (ih (round + 1) ?_)
      rw [List.range'_succ, List.flatMap_cons, List.length_append, roundOf_length] at has
      rw [roundCalls_range']
      dsimp only
      omega

/-- A pod's share of a job is no larger than the job. -/
theorem podShare_eq (faithful : Faithful keep) (word : total < wordBound)
    (inside : r.last < cluster) (ordered : r.first ≤ r.last) :
    podShare cluster r.size r total keep = .ok
      { calls := ((List.range total).filter fun i => r.contains (i % cluster)).length
        callsPerProcessor := total / cluster } := by
  have exact_ := podShare_id inside ordered total
  have positive : cluster ≠ 0 := by omega
  have small : ((List.range total).filter fun i => r.contains (i % cluster)).length ≤ total :=
    (List.length_filter_le _ _).trans (Nat.le_of_eq List.length_range)
  rw [podShare, if_neg positive] at exact_ ⊢
  injection exact_ with shares
  injection shares with calls
  rw [id_eq] at calls
  simp only [calls, faithful _ (Nat.lt_of_le_of_lt small word)]

theorem FitsWords.rounds_lt (fits : FitsWords cluster total) (positive : 0 < cluster) :
    total / cluster + 1 < wordBound := by
  have word := fits.total_lt
  rcases Nat.lt_or_ge 1 cluster with many | one
  · have half : total / cluster ≤ total / 2 := Nat.div_le_div_left many (by decide)
    have : wordBound = 2 ^ 64 := rfl
    omega
  · have single : cluster = 1 := by omega
    rw [single, Nat.div_one]
    exact fits.succ_lt single

/-- A pod launches the calls on its own processors, in ascending order. -/
theorem launches_eq_filter (faithful : Faithful keep) (fits : FitsWords cluster total)
    (inside : r.last < cluster) (ordered : r.first ≤ r.last) :
    launches cluster r total keep =
      .ok ((List.range total).filter fun i => r.contains (i % cluster)) := by
  have size : r.size < wordBound := by
    have := fits.cluster_lt
    unfold ProcessorRun.size
    omega
  have rounds := fits.rounds_lt (by omega)
  rw [← launches_id inside ordered total]
  by_cases reached : r.first < total
  · obtain ⟨wave, left⟩ := firstWave_eq inside ordered total
    rw [launches, launches, reachedProcessors_of_lt ordered reached]
    simp only [faithful _ size, id_eq, podShare_eq faithful fits.total_lt inside ordered,
      podShare_id inside ordered total, bind, Except.bind, pure, Except.pure, faithful _ rounds,
      wave, left]
    rw [roundsFrom_keep faithful fits.total_lt size _ _ (Nat.le_refl _)]
  · rw [launches, launches, reachedProcessors, if_pos (by omega)]

end Fitting

/-- Of the largest job there is, a pod with the only processor of its cluster launches the first
call: the number of the rounds after it wraps around to none. -/
theorem launches_largest : launches 1 ⟨0, 0⟩ (wordBound - 1) = .ok [0] := by decide +kernel

end CallDispatch
