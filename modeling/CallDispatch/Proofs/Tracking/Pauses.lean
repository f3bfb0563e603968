import CallDispatch.Proofs.Tracking.Guarding
import CallDispatch.Proofs.Tracking.Runs

/-!
# Waits that are blocked

Where nothing is laid out along a wait, all that happens while it is blocked is that monitors look
and the clock goes on. No moment goes by without the clock moving on or the wait coming to what it
is blocked on, so sleep comes to its end, and fetches, whatever time they take, are all answered.
-/

namespace CallDispatch

namespace ListingMonitor

variable {m : ListingMonitor}

/-- Once the tasks that are due have looked, none is due until later. -/
theorem lt_dueTimes_runDue (keyed : m.Keyed) (interval : 0 < m.interval) (sur : Surroundings)
    (now : Nat) : ∀ due ∈ (m.runDue sur now).dueTimes, now < due := by
  intro due listed
  obtain ⟨key, task, alive, rfl⟩ := (mem_dueTimes (keyed_runDue keyed sur now).1).mp listed
  rw [watched_runDue keyed] at alive
  unfold JobWatch.tick at alive
  split at alive
  · next task' alive' =>
    split at alive
    · unfold CallDispatch.ListingMonitor.JobWatch.look at alive
      split at alive
      · dsimp only at alive
        split at alive
        · cases alive
        · cases alive
          dsimp only
          omega
      · cases alive
        dsimp only
        omega
    · rw [alive'] at alive
      cases alive
      omega
  · next none =>
    rw [none] at alive
    cases alive

end ListingMonitor

theorem Calm.dueTimes {stores : Stores} {units : List WaitUnit} {m : ListingMonitor}
    (calm : Calm stores units m) : m.dueTimes = [] := by
  refine List.eq_nil_iff_forall_not_mem.mpr fun due listed => ?_
  obtain ⟨key, task, alive, -⟩ := (ListingMonitor.mem_dueTimes calm.guards.keyed).mp listed
  rw [calm.asleep key] at alive
  cases alive

namespace WaitRun

variable {sur : Surroundings} {units : List WaitUnit} {m : ListingMonitor} {r : WaitRun}

/-- A run with nothing laid out along it, and beside it a monitor that looks only so often. -/
structure Undisturbed (sur : Surroundings) (r : WaitRun) : Prop where
  sur_eq : r.sur = sur
  timeline : r.timeline = []
  deadline : r.deadline = none
  keyed : r.beside.Keyed
  interval : 0 < r.beside.interval

/-- A run at a later time, with its monitors gone on. -/
def later (r : WaitRun) (now : Nat) (m beside : ListingMonitor) : WaitRun :=
  { r with
    now, beside
    wait := { r.wait with state := { r.wait.state with monitor := .storage m } } }

/-- When what the wait itself is blocked on is due. -/
def ownDue (r : WaitRun) : List Nat :=
  match r.wait.phase with
  | .sleeping => [r.wakeAt]
  | _ => (r.pool.map fun p => p.pending.map (·.due)).getD []

theorem later_self (monitor : r.wait.state.monitor = .storage m) :
    r.later r.now m r.beside = r := by
  unfold later
  rw [← monitor]

/-- Some time later, the monitors have seen all there is. -/
structure Passes (sur : Surroundings) (units : List WaitUnit) (r : WaitRun) (now : Nat)
    (m beside : ListingMonitor) : Prop where
  calm : Calm sur.stores units m
  undisturbed : (r.later now m beside).Undisturbed sur

theorem runDue_of_undisturbed (undisturbed : r.Undisturbed sur)
    (monitor : r.wait.state.monitor = .storage m) :
    r.runDue = r.later r.now (m.runDue sur r.now) (r.beside.runDue sur r.now) := by
  unfold runDue later
  simp only [undisturbed.timeline, undisturbed.sur_eq, monitor, List.takeWhile_nil, List.drop_nil,
    List.foldl_nil]
  rfl

theorem Undisturbed.later (undisturbed : r.Undisturbed sur) (now : Nat) (m : ListingMonitor)
    {beside : ListingMonitor} (keyed : beside.Keyed) (interval : 0 < beside.interval) :
    (r.later now m beside).Undisturbed sur :=
  ⟨undisturbed.sur_eq, undisturbed.timeline, undisturbed.deadline, keyed, interval⟩

theorem Undisturbed.turned (undisturbed : r.Undisturbed sur) (wait : Wait SessionMonitor)
    (pool : Option FetchPool) (wakeAt : Nat) (log : FetchLog) :
    ({ r with wait, pool, wakeAt, log } : WaitRun).Undisturbed sur :=
  ⟨undisturbed.sur_eq, undisturbed.timeline, undisturbed.deadline, undisturbed.keyed,
    undisturbed.interval⟩

theorem isFinished_eq_false (running : r.wait.IsRunning) : r.isFinished = false := by
  unfold isFinished
  split
  · next result finished => exact absurd finished (running result)
  · rfl

theorem dueTimes_of_undisturbed (undisturbed : r.Undisturbed sur)
    (monitor : r.wait.state.monitor = .storage m) (none : m.dueTimes = []) :
    r.dueTimes = r.ownDue ++ r.beside.dueTimes := by
  unfold dueTimes
  rw [undisturbed.timeline, undisturbed.deadline, monitor]
  show r.ownDue ++ [] ++ [] ++ m.dueTimes ++ r.beside.dueTimes = _
  rw [none, List.append_nil, List.append_nil, List.append_nil]

/-- The next moment of a wait that is not finished at it. -/
theorem moment_eq_some {r : WaitRun} {next : Nat} (notOver : r.checkDeadline = r)
    (running : r.wait.IsRunning) (looked : r.runDue.wait.IsRunning)
    (isNext : r.runDue.dueTimes.min? = some next)
    (moved : ({ r.runDue with now := max r.runDue.now next } : WaitRun).runDue.wait.IsRunning) :
    r.moment =
      some ({ r.runDue with now := max r.runDue.now next } : WaitRun).runDue.resume := by
  have going {r : WaitRun} (running : r.wait.IsRunning) : ¬ r.isFinished = true := by
    rw [isFinished_eq_false running]
    nofun
  unfold moment
  rw [notOver]
  dsimp only
  rw [if_neg (going running), if_neg (going looked), isNext]
  dsimp only
  rw [if_neg (going moved)]

variable (available : ∀ u ∈ units, (sur.stores.store u.backend).unavailable = false)
include available

/-- The next moment of a blocked wait: time goes on, or what the wait is blocked on is due. -/
theorem moment_of_undisturbed (undisturbed : r.Undisturbed sur)
    (monitor : r.wait.state.monitor = .storage m) (guards : Guards sur.stores units m)
    (running : r.wait.IsRunning) {due : Nat} (own : due ∈ r.ownDue)
    (first : ∀ other ∈ r.ownDue, due ≤ other) :
    ∃ now m' beside, r.moment = some (r.later now m' beside).resume ∧ r.now ≤ now ∧
      (due ≤ now ∨ r.now < now) ∧ Passes sur units r now m' beside := by
  have notOver : r.checkDeadline = r := by
    unfold checkDeadline
    rw [undisturbed.deadline]
  have looked := runDue_of_undisturbed undisturbed monitor
  have calm := guards.runDue available (show sur.stores = sur.stores from rfl) r.now
  obtain ⟨keyed, interval⟩ := ListingMonitor.keyed_runDue undisturbed.keyed sur r.now
  have awaits := ListingMonitor.lt_dueTimes_runDue undisturbed.keyed undisturbed.interval sur r.now
  have undisturbed' := undisturbed.later r.now (m.runDue sur r.now) keyed
    (interval ▸ undisturbed.interval)
  have dues : r.runDue.dueTimes = r.ownDue ++ (r.beside.runDue sur r.now).dueTimes := by
    rw [looked]
    exact dueTimes_of_undisturbed undisturbed' rfl calm.dueTimes
  obtain ⟨next, isNext⟩ : ∃ next, r.runDue.dueTimes.min? = some next := by
    rw [← Option.isSome_iff_exists, List.isSome_min?_iff, dues]
    exact List.ne_nil_of_mem (List.mem_append_left _ own)
  obtain ⟨listed, least⟩ := List.min?_eq_some_iff.mp isNext
  rw [dues] at listed least
  let middle : WaitRun := r.later (max r.now next) (m.runDue sur r.now) (r.beside.runDue sur r.now)
  have undisturbed'' : middle.Undisturbed sur := undisturbed'.later _ _ keyed
    (interval ▸ undisturbed.interval)
  have looked' : middle.runDue = r.later (max r.now next)
      ((m.runDue sur r.now).runDue sur (max r.now next))
      ((r.beside.runDue sur r.now).runDue sur (max r.now next)) :=
    runDue_of_undisturbed undisturbed'' rfl
  obtain ⟨keyed', interval'⟩ := ListingMonitor.keyed_runDue keyed sur (max r.now next)
  refine ⟨max r.now next, _, _, ?_, Nat.le_max_left _ _, ?_,
    calm.guards.runDue available rfl (max r.now next),
    undisturbed.later _ _ keyed' (interval' ▸ interval ▸ undisturbed.interval)⟩
  · have running₁ : r.runDue.wait.IsRunning := by
      rw [looked]
      exact running
    have there : ({ r.runDue with now := max r.runDue.now next } : WaitRun) = middle := by
      rw [looked]
      rfl
    have running₃ :
        ({ r.runDue with now := max r.runDue.now next } : WaitRun).runDue.wait.IsRunning := by
      rw [there, looked']
      exact running
    rw [moment_eq_some notOver running running₁ isNext running₃, there, looked']
  · rcases List.mem_append.mp listed with mine | others
    · exact Or.inl ((first next mine).trans (Nat.le_max_right _ _))
    · exact Or.inr (Nat.lt_of_lt_of_le (awaits next others) (Nat.le_max_right _ _))

omit available in
theorem turn_later_eq_none (blocked : r.turn = none) (now : Nat) (m beside : ListingMonitor) :
    (r.later now m beside).turn = none :=
  turn_eq_none_of_same (r := r) rfl rfl blocked

/-- A blocked wait is led to when the first of what it is blocked on is due. -/
theorem leads_to_due {r : WaitRun} {m : ListingMonitor} (undisturbed : r.Undisturbed sur)
    (monitor : r.wait.state.monitor = .storage m) (guards : Guards sur.stores units m)
    (running : r.wait.IsRunning) (blocked : r.turn = none) {due : Nat} (own : due ∈ r.ownDue)
    (first : ∀ other ∈ r.ownDue, due ≤ other)
    (still : ∀ now m' beside, now < due →
      (r.later now m' beside).resume = r.later now m' beside) :
    ∃ now m' beside, Leads r (r.later now m' beside).resume ∧ due ≤ now ∧
      Passes sur units r now m' beside := by
  obtain ⟨now, m', beside, moves, goesOn, comes, passes⟩ :=
    moment_of_undisturbed available undisturbed monitor guards running own first
  by_cases isDue : due ≤ now
  · exact ⟨now, m', beside, .moment blocked moves (.stays _), isDue, passes⟩
  · have sooner : r.now < now := comes.resolve_left isDue
    obtain ⟨now', m'', beside', leads, isDue', passes'⟩ :=
      leads_to_due passes.undisturbed rfl passes.calm.guards running
        (turn_later_eq_none blocked now m' beside) own first still
    rw [still now m' beside (by omega)] at moves
    exact ⟨now', m'', beside', .moment blocked moves leads, isDue', passes'.calm,
      passes'.undisturbed⟩
termination_by due - r.now
decreasing_by
  show due - now < due - r.now
  omega

/-- Sleep comes to its end. -/
theorem slept (undisturbed : r.Undisturbed sur) (monitor : r.wait.state.monitor = .storage m)
    (guards : Guards sur.stores units m) (phase : r.wait.phase = .sleeping) :
    ∃ now m' beside, Leads r { r.later now m' beside with
        wait := (r.later now m' beside).wait.wake sur.cancelled } ∧
      Passes sur units r now m' beside := by
  have running : r.wait.IsRunning := .of_sleeping phase
  have blocked : r.turn = none := by
    unfold turn
    rw [phase]
  have own : r.ownDue = [r.wakeAt] := by
    unfold ownDue
    rw [phase]
  have resumes (now : Nat) (m' beside : ListingMonitor) : (r.later now m' beside).resume =
      if r.wakeAt ≤ now then { r.later now m' beside with
        wait := (r.later now m' beside).wait.wake r.sur.cancelled }
      else r.later now m' beside := by
    unfold resume
    have phase' : (r.later now m' beside).wait.phase = .sleeping := phase
    rw [phase']
    rfl
  obtain ⟨now, m', beside, leads, isDue, passes⟩ := leads_to_due available undisturbed monitor
    guards running blocked (own ▸ List.mem_singleton_self _) (by simp [own])
    (fun now m' beside early => by rw [resumes, if_neg (by omega)])
  rw [resumes, if_pos isDue, undisturbed.sur_eq] at leads
  exact ⟨now, m', beside, leads, passes⟩

/-- While fetches of a unit are on their way, the answer to one comes in, and there is less left to
wait for. -/
theorem some_answered {replies : Replies} {targets : List Target} {i : Nat} {r : WaitRun}
    {m : ListingMonitor} {p : FetchPool} (within : sur.Within replies)
    (undisturbed : r.Undisturbed sur)
    (monitor : r.wait.state.monitor = .storage m) (guards : Guards sur.stores units m)
    (phase : r.wait.phase = .fetching i targets) (isPool : r.pool = some p)
    (serving : p.Serving replies targets []) (room : 0 < p.capacity)
    (full : p.waiting = [] ∨ p.capacity ≤ p.pending.length)
    (left : ¬ p.isDone = true) :
    ∃ now m' beside q log, Leads r { r.later now m' beside with pool := some q, log } ∧
      q.effort < p.effort ∧ q.Serving replies targets [] ∧ p.SameKind q ∧
      (q.waiting = [] ∨ q.capacity ≤ q.pending.length) ∧ Passes sur units r now m' beside := by
  have pending : p.pending ≠ [] :=
    FetchPool.pending_ne_nil room full (Bool.eq_false_iff.mpr left)
  have running : r.wait.IsRunning := .of_fetching phase
  have blocked : r.turn = none := by
    unfold turn
    rw [phase, isPool]
    exact if_neg left
  have own : r.ownDue = p.pending.map (·.due) := by
    unfold ownDue
    rw [phase, isPool]
    rfl
  obtain ⟨due, isDue⟩ : ∃ due, r.ownDue.min? = some due := by
    rw [← Option.isSome_iff_exists, List.isSome_min?_iff, own]
    simpa using pending
  obtain ⟨listed, first⟩ := List.min?_eq_some_iff.mp isDue
  have resumes (now : Nat) (m' beside : ListingMonitor) : (r.later now m' beside).resume =
      { r.later now m' beside with
        pool := some (p.wake sur now r.log).1, log := (p.wake sur now r.log).2 } := by
    unfold resume
    have phase' : (r.later now m' beside).wait.phase = .fetching i targets := phase
    have isPool' : (r.later now m' beside).pool = some p := isPool
    rw [phase', isPool', ← undisturbed.sur_eq]
    rfl
  have still : ∀ now m' beside, now < due →
      (r.later now m' beside).resume = r.later now m' beside := by
    intro now m' beside early
    have none : ∀ g ∈ p.pending, now < g.due := fun g member =>
      Nat.lt_of_lt_of_le early (first g.due (own ▸ List.mem_map_of_mem member))
    rw [resumes, FetchPool.wake_of_none_due none full, ← isPool]
    rfl
  obtain ⟨now, m', beside, leads, comes, passes⟩ :=
    leads_to_due available undisturbed monitor guards running blocked listed first still
  rw [resumes] at leads
  have driven := FetchPool.wake_driven within now serving r.log
  obtain ⟨g, member, same⟩ := List.mem_map.mp (own ▸ listed)
  have less : (p.wake sur now r.log).1.effort < p.effort :=
    serving.effort_wake_lt within member (same ▸ comes) r.log
  exact ⟨now, m', beside, _, _, leads, less, driven.serving, driven.kind,
    driven.kind.capacity ▸ driven.full, passes⟩

/-- The fetches of a unit are all answered, whatever time they take. -/
theorem fetched {replies : Replies} {targets : List Target} {i : Nat} {r : WaitRun}
    {m : ListingMonitor} {p : FetchPool} (within : sur.Within replies)
    (undisturbed : r.Undisturbed sur)
    (monitor : r.wait.state.monitor = .storage m) (guards : Guards sur.stores units m)
    (phase : r.wait.phase = .fetching i targets) (isPool : r.pool = some p)
    (serving : p.Serving replies targets []) (room : 0 < p.capacity)
    (full : p.waiting = [] ∨ p.capacity ≤ p.pending.length) :
    ∃ now m' beside q log, Leads r { r.later now m' beside with pool := some q, log } ∧
      q.isDone = true ∧ q.Serving replies targets [] ∧ p.SameKind q ∧
      Guards sur.stores units m' ∧ (r.later now m' beside).Undisturbed sur ∧
      ∀ u ∈ units, (m.watched u.jobKey).Sees sur.stores u →
        (m'.watched u.jobKey).Sees sur.stores u := by
  induction size : p.effort using Nat.strong_induction_on generalizing r m p with
  | _ n ih =>
    by_cases done : p.isDone = true
    · have same : { r.later r.now m r.beside with pool := some p, log := r.log } = r := by
        rw [later_self monitor, ← isPool]
      exact ⟨r.now, m, r.beside, p, r.log, same.symm ▸ .stays r, done, serving, ⟨rfl, rfl, rfl⟩,
        guards, (later_self monitor).symm ▸ undisturbed, fun u _ sees => sees⟩
    · obtain ⟨now, m', beside, q, log, leads, less, serving', kind, full', passes⟩ :=
        some_answered available within undisturbed monitor guards phase isPool serving room full
          done
      obtain ⟨now', m'', beside', q', log', leads', done', serving'', kind', guards',
        undisturbed', sees⟩ :=
        ih q.effort (size ▸ less) (r := { r.later now m' beside with pool := some q, log })
          (passes.undisturbed.turned _ _ _ _) rfl passes.calm.guards phase rfl serving'
          (kind.capacity ▸ room) full' rfl
      exact ⟨now', m'', beside', q', log', leads.trans leads', done', serving'',
        kind.trans kind', guards', undisturbed'.turned _ r.pool _ r.log,
        fun u unit _ => sees u unit (passes.calm.sees u unit)⟩

end WaitRun

end CallDispatch
