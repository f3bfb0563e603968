import CallDispatch.Proofs.Cluster.Words
import CallDispatch.Proofs.Fanout.Stopping

/-!
# Pods out of place

Nothing makes sure that a pod's run goes forwards, that it ends inside the cluster, or that no other
pod has the same processors. Such a pod may launch calls that are others' to launch, or leave calls
out. It never launches a call that the job does not have: what it launches in a round is among the
calls the job has there, whatever the round before has left of the share.

The sums behind a share and a schedule hold differences of natural numbers, and a difference below
zero would go unnoticed as zero. Here they are done once more with every difference checked, on
numbers as they are. In machine words the same comes out wherever no number is too large, and
elsewhere, too, only calls of the job.
-/

namespace CallDispatch

open Text.Decimal (wordBound)

/-! ## Differences -/

namespace Checked

/-- A difference, unless it falls below zero. -/
def minus (a b : Nat) : Option Nat := if b ≤ a then some (a - b) else none

theorem minus_of_le {a b : Nat} (le : b ≤ a) : minus a b = some (a - b) := if_pos le

/-- A pod's share, every difference checked. -/
def podShare (cluster processors : Nat) (r : ProcessorRun) (total : Nat) :
    Option (Outcome Share) :=
  if cluster = 0 then some (.error (.invalidArgument .emptyCluster))
  else do
    let base := total / cluster
    let remainder := total % cluster
    let extra ←
      if r.first ≤ remainder ∧ remainder ≤ r.last then minus remainder r.first
      else if r.first < remainder then some processors
      else some 0
    some (.ok { calls := processors * base + extra, callsPerProcessor := base })

/-- The processors that the first calls of a job reach, every difference checked. -/
def reachedProcessors (r : ProcessorRun) (total : Nat) : Option (Option Nat) :=
  if total ≤ r.first then some none
  else do
    let last ← minus total 1
    if last < r.last then (minus total r.first).map some else some (some r.size)

/-- The calls of one round, slot by slot, and what is left of the share, every difference
checked. -/
def roundCalls (base total : Nat) : (slots : List Nat) → (remaining : Nat) →
    Option (List Nat × Nat)
  | [], remaining => some ([], remaining)
  | slot :: rest, remaining =>
    if remaining = 0 ∨ total ≤ base + slot then some ([], remaining)
    else do
      let remaining ← minus remaining 1
      let (calls, left) ← roundCalls base total rest remaining
      some ((base + slot) :: calls, left)

/-- The calls of so many rounds from one on, every difference checked. A round goes through all
slots of the run. -/
def roundsFrom (cluster : Nat) (r : ProcessorRun) (total : Nat) :
    (rounds round remaining : Nat) → Option (List Nat)
  | 0, _, _ => some []
  | rounds + 1, round, remaining =>
    if remaining = 0 then some []
    else do
      let (calls, left) ←
        roundCalls (cluster * round + r.first) total (List.range r.size) remaining
      let later ← roundsFrom cluster r total rounds (round + 1) left
      some (calls ++ later)

/-- The positions of the calls a pod launches, every difference checked. -/
def launches (cluster : Nat) (r : ProcessorRun) (total : Nat) : Option (Outcome (List Nat)) := do
  match ← reachedProcessors r total with
  | none => some (.ok [])
  | some requested =>
    match ← podShare cluster r.size r total with
    | .error e => some (.error e)
    | .ok share =>
      let firstWave := min (min requested r.size) share.calls
      let remaining ← minus share.calls firstWave
      let later ← roundsFrom cluster r total (share.callsPerProcessor + 1) 1 remaining
      some (.ok ((List.range firstWave).map (r.first + ·) ++ later))

/-- The remainder is only diminished by the first processor where it lies in the run. -/
theorem podShare_eq (cluster processors : Nat) (r : ProcessorRun) (total : Nat) :
    podShare cluster processors r total =
      some (CallDispatch.podShare cluster processors r total id) := by
  rw [podShare, CallDispatch.podShare]
  by_cases empty : cluster = 0
  · rw [if_pos empty, if_pos empty]
  · rw [if_neg empty, if_neg empty]
    by_cases within : r.first ≤ total % cluster ∧ total % cluster ≤ r.last
    · simp only [if_pos within, minus_of_le within.1, Option.bind_eq_bind, Option.bind_some, id_eq]
    · by_cases below : r.first < total % cluster <;>
        simp only [if_neg within, below, if_true, if_false, Option.bind_eq_bind, Option.bind_some,
          id_eq]

/-- Where a run is reached, the job has a call, and more calls than the run has processors below
it. -/
theorem reachedProcessors_eq (r : ProcessorRun) (total : Nat) :
    reachedProcessors r total = some (CallDispatch.reachedProcessors r total) := by
  rw [reachedProcessors, CallDispatch.reachedProcessors]
  by_cases past : total ≤ r.first
  · rw [if_pos past, if_pos past]
  · have last := minus_of_le (a := total) (b := 1) (by omega)
    have first := minus_of_le (a := total) (b := r.first) (by omega)
    rw [if_neg past, if_neg past, last, first]
    exact (apply_ite some _ _ _).symm

/-- What is left of a share is diminished only where some is left. -/
theorem roundCalls_eq (base total : Nat) (slots : List Nat) (remaining : Nat) :
    roundCalls base total slots remaining =
      some (CallDispatch.roundCalls base total id slots remaining) := by
  induction slots generalizing remaining with
  | nil => rfl
  | cons slot rest ih =>
    rw [roundCalls, CallDispatch.roundCalls]
    by_cases stops : remaining = 0 ∨ total ≤ base + slot
    · simp only [id_eq, if_pos stops]
    · simp only [id_eq, if_neg stops, minus_of_le (show 1 ≤ remaining by omega),
        Option.bind_eq_bind, Option.bind_some, ih]

/-- Slots that lie past the last call are never come to. -/
theorem roundCalls_size (base total : Nat) (r : ProcessorRun) (remaining : Nat) :
    CallDispatch.roundCalls base total id (List.range r.size) remaining =
      CallDispatch.roundCalls base total id (List.range (min r.size total)) remaining := by
  have taken : min (min r.size (total - (base + 0))) remaining =
      min (min (min r.size total) (total - (base + 0))) remaining := by omega
  simp only [List.range_eq_range', roundCalls_range', taken]

theorem roundsFrom_eq (cluster : Nat) (r : ProcessorRun) (total rounds round remaining : Nat) :
    roundsFrom cluster r total rounds round remaining =
      some (CallDispatch.roundsFrom cluster r total id rounds round remaining) := by
  induction rounds generalizing round remaining with
  | zero => rfl
  | succ rounds ih =>
    rw [roundsFrom, CallDispatch.roundsFrom, roundCalls_eq, roundCalls_size]
    split
    · rfl
    · simp only [id_eq, Option.bind_eq_bind, Option.bind_some, ih]

/-- The first wave takes no more than the share. -/
theorem launches_eq (cluster : Nat) (r : ProcessorRun) (total : Nat) :
    launches cluster r total = some (CallDispatch.launches cluster r total id) := by
  rw [launches, CallDispatch.launches, reachedProcessors_eq, Option.bind_eq_bind,
    Option.bind_some]
  cases CallDispatch.reachedProcessors r total with
  | none => rfl
  | some requested =>
    simp only [podShare_eq, id_eq]
    cases CallDispatch.podShare cluster r.size r total id with
    | error e => rfl
    | ok share =>
      have wave := minus_of_le (Nat.min_le_right (min requested r.size) share.calls)
      simp only [Option.bind_eq_bind, Option.bind_some, wave, roundsFrom_eq]
      rfl

end Checked

/-! ## Schedules of runs that lie anyhow -/

section Schedules

variable {cluster total : Nat} {r : ProcessorRun}

/-- Whatever is left of the share, a round launches some of the calls the job has in it. -/
theorem roundCalls_sublist (cluster total round remaining : Nat) (r : ProcessorRun) :
    (roundCalls (cluster * round + r.first) total id (List.range (min r.size total))
      remaining).1.Sublist (roundOf cluster r total round) := by
  rw [List.range_eq_range', roundCalls_range', roundOf, List.range_eq_range']
  exact (List.range'_sublist_right.mpr (by omega)).map _

theorem roundsFrom_sublist (cluster total : Nat) (r : ProcessorRun)
    (rounds round remaining : Nat) : (roundsFrom cluster r total id rounds round remaining).Sublist
      ((List.range' round rounds).flatMap (roundOf cluster r total)) := by
  induction rounds generalizing round remaining with
  | zero => exact List.nil_sublist _
  | succ rounds ih =>
    rw [roundsFrom]
    split
    · exact List.nil_sublist _
    · rw [List.range'_succ, List.flatMap_cons]
      exact (roundCalls_sublist cluster total round remaining r).append (ih _ _)

/-- A run that is reached is reached on no more processors than the job has calls from its first
one on. -/
theorem reachedProcessors_le {requested : Nat}
    (reached : reachedProcessors r total = some requested) :
    min requested r.size ≤ min r.size (total - r.first) := by
  rw [reachedProcessors] at reached
  unfold ProcessorRun.size at reached ⊢
  split at reached
  · cases reached
  · split at reached <;> cases reached <;> omega

/-- What a pod launches is among the calls that the job has on its run in the first rounds, in the
order of the rounds. -/
theorem launches_sublist {calls : List Nat} (laid : launches cluster r total id = .ok calls) :
    calls.Sublist ((List.range (total / cluster + 1 + 1)).flatMap (roundOf cluster r total)) := by
  rw [launches] at laid
  cases reached : reachedProcessors r total with
  | none =>
    rw [reached] at laid
    cases laid
    exact List.nil_sublist _
  | some requested =>
    simp only [reached] at laid
    obtain ⟨share, planned, laid⟩ := of_bind_eq_ok laid
    cases laid
    have base : share.callsPerProcessor = total / cluster := by
      rw [podShare] at planned
      split at planned <;> cases planned
      rfl
    rw [base, List.range_eq_range' (n := total / cluster + 1 + 1), List.range'_succ,
      List.flatMap_cons]
    refine List.Sublist.append ?_ (roundsFrom_sublist _ _ _ _ _ _)
    have wave := reachedProcessors_le reached
    rw [roundOf, Nat.mul_zero, Nat.zero_add, List.range_eq_range', List.range_eq_range']
    exact (List.range'_sublist_right.mpr (by rw [id_eq]; omega)).map _

/-- In a cluster that has a number for each processor of the run, rounds follow one another. -/
theorem flatMap_roundOf_pairwise (fits : r.size ≤ cluster) (rounds : Nat) :
    ((List.range rounds).flatMap (roundOf cluster r total)).Pairwise (· < ·) := by
  rw [List.pairwise_flatMap]
  refine ⟨fun round _ => ?_, List.pairwise_lt_range.imp ?_⟩
  · exact List.pairwise_lt_range.map _ fun a b lt => by omega
  · intro round later lt i hi j hj
    have next : cluster * (round + 1) ≤ cluster * later := Nat.mul_le_mul_left _ lt
    rw [Nat.mul_succ] at next
    rw [mem_roundOf] at hi hj
    omega

theorem nodup_of_launches {calls : List Nat} (laid : launches cluster r total id = .ok calls)
    (inside : r.last < cluster) : calls.Nodup := by
  have fits : r.size ≤ cluster := by
    unfold ProcessorRun.size
    omega
  exact ((flatMap_roundOf_pairwise fits _).sublist (launches_sublist laid)).imp Nat.ne_of_lt

end Schedules

/-! ## Messages to pods that lie anyhow -/

/-- A payload that has an identifier for each call and reads no data lacks no call. -/
theorem Payload.not_lacks {p : Payload} (named : p.callIds.length = p.totalCalls)
    (plain : p.byteRanges = []) {index : Nat} (below : index < p.totalCalls) :
    ¬ p.Lacks index := by
  rintro (past | ⟨ranged, -⟩)
  · omega
  · exact ranged plain

/-- Numbers of a pod that leave room for all that is computed of them: its share and the positions
of all slots in all rounds are machine words. -/
structure LeavesRoom (cluster : Nat) (r : ProcessorRun) (total : Nat) : Prop where
  share : r.size * (total / cluster + 1) < wordBound
  rounds : cluster * (total / cluster + 1) + r.first + r.size ≤ wordBound

/-- Slots whose positions are machine words have those positions whatever becomes of larger
numbers. -/
theorem roundCalls_of_room {keep : Nat → Nat} (faithful : Faithful keep)
    (start total slot count remaining : Nat) (room : start + slot + count ≤ wordBound) :
    roundCalls start total keep (List.range' slot count) remaining =
      roundCalls start total id (List.range' slot count) remaining := by
  induction count generalizing slot remaining with
  | zero => rfl
  | succ count ih =>
    rw [List.range'_succ, roundCalls, roundCalls, faithful _ (by omega), id_eq,
      ih (slot + 1) (remaining - 1) (by omega)]

theorem roundsFrom_of_room {keep : Nat → Nat} (faithful : Faithful keep) {cluster total : Nat}
    {r : ProcessorRun} (size : r.size < wordBound) (rounds round remaining : Nat)
    (room : cluster * (round + rounds - 1) + r.first + r.size ≤ wordBound) :
    roundsFrom cluster r total keep rounds round remaining =
      roundsFrom cluster r total id rounds round remaining := by
  induction rounds generalizing round remaining with
  | zero => rfl
  | succ rounds ih =>
    have begins : cluster * round ≤ cluster * (round + (rounds + 1) - 1) :=
      Nat.mul_le_mul_left _ (by omega)
    have same := roundCalls_of_room faithful (cluster * round + r.first) total 0
      (min r.size total) remaining (by omega)
    rw [roundsFrom, roundsFrom, faithful _ size, id_eq, List.range_eq_range', same]
    dsimp only
    rw [ih (round + 1) _ (by rwa [show round + 1 + rounds - 1 = round + (rounds + 1) - 1 by omega])]

/-- Where there is room, a pod that has its numbers wrapped has the share and the schedule that the
numbers as they are give. -/
theorem LeavesRoom.launches_eq {keep : Nat → Nat} (faithful : Faithful keep) {cluster total : Nat}
    {r : ProcessorRun} (room : LeavesRoom cluster r total) (positive : 0 < cluster) :
    podShare cluster r.size r total keep = podShare cluster r.size r total id ∧
      launches cluster r total keep = launches cluster r total id := by
  obtain ⟨share, rounds⟩ := room
  have one : 0 < r.size := Nat.succ_pos _
  have size : r.size < wordBound :=
    Nat.lt_of_le_of_lt (Nat.le_mul_of_pos_right _ (Nat.succ_pos _)) share
  have count : total / cluster + 1 < wordBound := by
    have := Nat.le_mul_of_pos_left (total / cluster + 1) positive
    omega
  have within (extra : Nat) (small : extra ≤ r.size) :
      r.size * (total / cluster) + extra < wordBound := by
    rw [Nat.mul_succ] at share
    omega
  have shares : podShare cluster r.size r total keep = podShare cluster r.size r total id := by
    rw [podShare, podShare, if_neg (Nat.ne_of_gt positive), if_neg (Nat.ne_of_gt positive)]
    have extra : (if r.first ≤ total % cluster ∧ total % cluster ≤ r.last
        then total % cluster - r.first
        else if r.first < total % cluster then r.size else 0) ≤ r.size := by
      unfold ProcessorRun.size
      split
      · omega
      · split <;> omega
    simp only [faithful _ (within _ extra), id_eq]
  refine ⟨shares, ?_⟩
  rw [launches, launches, faithful _ size, id_eq]
  cases reachedProcessors r total with
  | none => rfl
  | some requested =>
    simp only [shares]
    cases planned : podShare cluster r.size r total id with
    | error e => rfl
    | ok share =>
      have base : share.callsPerProcessor = total / cluster := by
        rw [podShare, if_neg (Nat.ne_of_gt positive)] at planned
        cases planned
        rfl
      simp only [bind, Except.bind, base, faithful _ count, id_eq]
      rw [roundsFrom_of_room faithful size]
      rwa [Nat.add_sub_cancel_left]

/-- However a pod's run lies in a cluster that has processors, the pod has a schedule for every job.
All positions in it are those of calls of the job, there are no more of them than the pod's share,
and no position comes twice if the run ends inside the cluster. None of the differences taken on the
way falls below zero. In machine words the schedule is the same where there is room for it; where
there is not, it has other positions, but only those of calls and no more than the share. So if a
message names every call of its job and reads no data, its handling never ends for want of a call:
it ends with the whole schedule launched, with no call for the pod, or with its token cancelled. -/
theorem misplaced_pods_launch_only_calls {cluster : Nat} (positive : 0 < cluster)
    (r : ProcessorRun) (total : Nat) :
    (∃ share calls, podShare cluster r.size r total id = .ok share ∧
      launches cluster r total id = .ok calls ∧
      (∀ i ∈ calls, i < total) ∧ calls.length ≤ share.calls ∧
      (r.last < cluster → calls.Nodup) ∧
      (∀ processors, Checked.podShare cluster processors r total =
        some (podShare cluster processors r total id)) ∧
      Checked.reachedProcessors r total = some (reachedProcessors r total) ∧
      Checked.launches cluster r total = some (.ok calls) ∧
      (LeavesRoom cluster r total → podShare cluster r.size r total = .ok share ∧
        launches cluster r total = .ok calls)) ∧
    ∃ share calls, podShare cluster r.size r total = .ok share ∧
      launches cluster r total = .ok calls ∧
      (∀ i ∈ calls, i < total) ∧ calls.length ≤ share.calls ∧
      ∀ {ids : Nat → String} {events : List SchedulerEvent} {s : Scheduler} {i : Nat}
        {body : List UInt8} {p : Payload},
        (Scheduler.idle cluster r ids).run events = some s →
        (events.filterMap SchedulerEvent.body?)[i]? = some body →
        Payload.ofBytes body = .ok p → p.totalCalls = total → p.callIds.length = total →
        p.byteRanges = [] → ∃ h, s.handlings[i]? = some h ∧
          ∀ result, h.stage = .closed (some result) →
            (∀ fault, result ≠ .error (.payload fault)) ∧
            (result = .ok .skipped ∨ result = .ok (.launched calls.length share.calls) ∨
              (result = .error .shutdown ∧ h.told = true)) := by
  constructor
  · obtain ⟨share, calls, planned, laid, fits, below, -⟩ := launches_some positive r total id
    refine ⟨share, calls, planned, laid, below, fits, nodup_of_launches laid,
      fun processors => Checked.podShare_eq cluster processors r total,
      Checked.reachedProcessors_eq r total, laid ▸ Checked.launches_eq cluster r total,
      fun room => ?_⟩
    obtain ⟨planned', laid'⟩ := room.launches_eq faithful_wrapped positive
    exact ⟨planned'.trans planned, laid'.trans laid⟩
  obtain ⟨share, calls, planned, laid, fits, below, none⟩ := exists_launches positive r total
  refine ⟨share, calls, planned, laid, below, fits, ?_⟩
  intro ids events s i body p runs received read ofTotal named plain
  subst ofTotal
  have heard := (Scheduler.Heard.idle cluster r ids).run runs
  rw [List.nil_append] at heard
  obtain ⟨h, found, handled⟩ := heard.handled received
  refine ⟨h, found, fun result closed => ?_⟩
  suffices ways : result = .ok .skipped ∨ result = .ok (.launched calls.length share.calls) ∨
      (result = .error .shutdown ∧ h.told = true) by
    refine ⟨fun fault same => ?_, ways⟩
    rcases ways with rfl | rfl | ⟨rfl, -⟩ <;> cases same
  rw [Dispatch.ofBody_eq read planned laid] at handled
  by_cases past : p.totalCalls ≤ r.first
  · rw [if_pos past] at handled
    have ended := Handling.standing_eq_ended_iff.mp handled.2
    rw [closed] at ended
    cases ended
    exact .inl rfl
  · rw [if_neg past] at handled
    rcases handled.result_cases closed with ⟨-, rfl⟩ | ⟨index, next, ⟨lacks, -⟩ | ⟨-, told, rfl⟩⟩
    · rw [Nat.zero_add]
      exact .inr (.inl rfl)
    · exact absurd lacks
        (Payload.not_lacks named plain (below index (List.mem_of_getElem? next)))
    · exact .inr (.inr ⟨rfl, told⟩)

/-- A message comes, and its handling goes on four times. -/
def fourTurns (body : List UInt8) : List SchedulerEvent :=
  .receive body :: List.replicate 4 (.handling 0 .proceed)

theorem Handling.stage_of_result? {h : Handling} {result : Outcome Dispatched}
    (ended : h.result? = some result) : h.stage = .closed (some result) := by
  rw [result?] at ended
  split at ended
  · next stage => rw [stage, ended]
  · cases ended

theorem misplaced_pods_launch_only_calls_past_the_end : ∃ body s h p,
    0 < 1 ∧ launches 1 ⟨0, 4⟩ 2 = .ok [0, 1, 1] ∧ podShare 1 5 ⟨0, 4⟩ 2 = .ok ⟨10, 2⟩ ∧
    LeavesRoom 1 ⟨0, 4⟩ 2 ∧
    Checked.launches 1 ⟨0, 4⟩ 2 = some (.ok [0, 1, 1]) ∧
    (Scheduler.idle 1 ⟨0, 4⟩ Activation.id).run (fourTurns body) = some s ∧
    ((fourTurns body).filterMap SchedulerEvent.body?)[0]? = some body ∧
    Payload.ofBytes body = .ok p ∧ p.totalCalls = 2 ∧ p.callIds.length = 2 ∧ p.byteRanges = [] ∧
    s.handlings[0]? = some h ∧ h.stage = .closed (some (.ok (.launched 3 10))) := by
  generalize bytes : Text.Utf8.encode Scheduler.twoCalls.json.render = body
  have readable : ∃ p, Payload.ofBytes body = .ok p ∧
      (p.totalCalls = 2 ∧ p.callIds.length = 2 ∧ p.byteRanges.isEmpty = true) := by
    have checked : (Payload.ofBytes body).toOption.any (fun p =>
        p.totalCalls = 2 ∧ p.callIds.length = 2 ∧ p.byteRanges.isEmpty = true) = true := by
      subst bytes
      decide +kernel
    cases read : Payload.ofBytes body with
    | ok p => exact ⟨p, rfl, by simpa [read, Except.toOption] using checked⟩
    | error e => simp [read, Except.toOption] at checked
  have handledAll : ((Scheduler.idle 1 ⟨0, 4⟩ Activation.id).run (fourTurns body)).any (fun s =>
      s.handlings[0]?.any fun h =>
        h.result?.any fun result => result.toOption = some (.launched 3 10)) = true := by
    subst bytes
    decide +kernel
  obtain ⟨p, read, total, callIds, byteRanges⟩ := readable
  obtain ⟨s, runs, at_⟩ := (Option.any_eq_true _ _).mp handledAll
  obtain ⟨⟨_, _, planned', laid', -, -, -, -, -, checked, -⟩, share, calls, planned, laid, -, -,
    handled⟩ := misplaced_pods_launch_only_calls (Nat.succ_pos 0) ⟨0, 4⟩ 2
  cases planned'
  cases laid'
  cases planned
  cases laid
  obtain ⟨h, found, ends⟩ := handled runs (i := 0) rfl read total callIds
    (List.isEmpty_iff.mp byteRanges)
  rw [found, Option.any_some] at at_
  obtain ⟨result, ended, launched⟩ := (Option.any_eq_true _ _).mp at_
  have closed := Handling.stage_of_result? ended
  refine ⟨body, s, h, p, by decide, rfl, rfl, ⟨by decide, by decide⟩, checked, runs, rfl, read,
    total, callIds, List.isEmpty_iff.mp byteRanges, found, ?_⟩
  rcases (ends result closed).2 with rfl | rfl | ⟨rfl, -⟩
  · cases of_decide_eq_true launched
  · exact closed
  · cases of_decide_eq_true launched

end CallDispatch
