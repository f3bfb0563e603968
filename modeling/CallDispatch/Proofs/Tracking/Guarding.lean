import CallDispatch.Proofs.Tracking.Graphs

/-!
# Monitors that keep up

Where every call of a unit has left its status, a monitor keeps up with the units: of each it has
seen all calls, or has a task that is about to look. A look at any moment then sees all there is,
and ends all tasks.
-/

namespace CallDispatch

open ListingMonitor

variable {stores : Stores} {units : List WaitUnit} {u : WaitUnit} {w : JobWatch}

/-- All calls that the store of a unit lists as finished have been seen. -/
def JobWatch.Sees (stores : Stores) (u : WaitUnit) (w : JobWatch) : Prop :=
  ∀ id ∈ u.finishedCalls stores, id ∈ w.observed

/-- What is waited for has finished, and a task is about to look into the store of the unit. -/
structure JobWatch.Minds (stores : Stores) (u : WaitUnit) (w : JobWatch) : Prop where
  wanted : ∀ id ∈ w.wanted, id ∈ u.finishedCalls stores
  task : ∀ task, w.task = some task →
    task = { executorId := u.executorId, jobId := u.jobId, backend := u.backend }

theorem JobWatch.minds_empty (stores : Stores) (u : WaitUnit) : JobWatch.Minds stores u {} :=
  ⟨nofun, nofun⟩

theorem WaitUnit.finishedCalls_of_heading {v : WaitUnit} (same : v.heading = u.heading) :
    v.finishedCalls stores = u.finishedCalls stores := by
  injection same with executor rest
  injection rest with job backend
  rw [finishedCalls, finishedCalls, executor, job, backend]

theorem JobWatch.Sees.of_heading {v : WaitUnit} (sees : w.Sees stores v)
    (same : v.heading = u.heading) : w.Sees stores u := by
  unfold JobWatch.Sees at sees ⊢
  rwa [← WaitUnit.finishedCalls_of_heading same]

theorem JobWatch.Minds.of_heading {v : WaitUnit} (minds : w.Minds stores v)
    (same : v.heading = u.heading) : w.Minds stores u := by
  refine ⟨?_, ?_⟩
  · rw [← WaitUnit.finishedCalls_of_heading same]
    exact minds.wanted
  · intro task alive
    have own := minds.task task alive
    injection same with executor rest
    injection rest with job backend
    rwa [executor, job, backend] at own

/-- Being watched again, a unit has a task that is about to look. -/
theorem JobWatch.Minds.started (minds : w.Minds stores u) {futures : List Future}
    (finished : ∀ id ∈ (u.watchedJob futures).callIds, id ∈ u.finishedCalls stores) :
    (JobWatch.started (u.watchedJob futures) u.backend w).Minds stores u ∧
      (JobWatch.started (u.watchedJob futures) u.backend w).task ≠ none := by
  refine ⟨⟨?_, ?_⟩, ?_⟩
  · intro id wanted
    rcases mem_extend.mp wanted with old | new
    · exact minds.wanted id old
    · exact finished id new
  · intro task alive
    unfold ListingMonitor.JobWatch.started at alive
    cases old : w.task with
    | none =>
      rw [old] at alive
      cases alive
      rfl
    | some task' =>
      rw [old] at alive
      cases alive
      exact minds.task task old
  · unfold ListingMonitor.JobWatch.started
    cases w.task <;> simp

/-- A look sees all there is and ends the task. -/
theorem JobWatch.Minds.tick (minds : w.Minds stores u)
    (available : (stores.store u.backend).unavailable = false)
    (awake : w.Sees stores u ∨ w.task ≠ none) (now again : Nat) :
    (JobWatch.tick now again stores.finishedCalls w).Minds stores u ∧
      (JobWatch.tick now again stores.finishedCalls w).Sees stores u ∧
      (JobWatch.tick now again stores.finishedCalls w).task = none := by
  unfold ListingMonitor.JobWatch.tick
  cases alive : w.task with
  | none =>
    refine ⟨minds, ?_, alive⟩
    rcases awake with sees | some_
    · exact sees
    · exact absurd alive some_
  | some task =>
    obtain rfl := minds.task task alive
    dsimp only
    rw [if_pos (Nat.zero_le now), Stores.finishedCalls_ok available]
    have sees : ∀ id ∈ u.finishedCalls stores,
        id ∈ extend w.observed (u.finishedCalls stores) :=
      fun id listed => mem_extend.mpr (Or.inr listed)
    have all : ({ w with observed := extend w.observed (u.finishedCalls stores) } :
        JobWatch).sawAll = true := by
      unfold JobWatch.sawAll
      rw [List.all_eq_true]
      intro id wanted
      simpa using sees id (minds.wanted id wanted)
    unfold JobWatch.look
    dsimp only
    rw [if_pos all]
    exact ⟨⟨minds.wanted, nofun⟩, sees, rfl⟩

/-- A monitor that keeps up with units. -/
structure Guards (stores : Stores) (units : List WaitUnit) (m : ListingMonitor) : Prop where
  keyed : m.Keyed
  minds : ∀ u ∈ units, (m.watched u.jobKey).Minds stores u
  awake : ∀ u ∈ units, (m.watched u.jobKey).Sees stores u ∨ (m.watched u.jobKey).task ≠ none
  idle : ∀ key, (∀ u ∈ units, u.jobKey ≠ key) → m.watched key = {}

/-- All units have been seen, and no task is alive. -/
structure Calm (stores : Stores) (units : List WaitUnit) (m : ListingMonitor) : Prop where
  guards : Guards stores units m
  sees : ∀ u ∈ units, (m.watched u.jobKey).Sees stores u
  asleep : ∀ key, (m.watched key).task = none

namespace Guards

variable {m : ListingMonitor}

/-- Units that have been swept and watched are guarded, and all is seen. -/
theorem of_started {futures : List Future} (keyed : m.Keyed)
    (watched : ∀ u ∈ units, m.watched u.jobKey = JobWatch.started (u.watchedJob futures) u.backend
      { observed := extend [] (u.finishedCalls stores) })
    (idle : ∀ key, (∀ u ∈ units, u.jobKey ≠ key) → m.watched key = {})
    (finished : ∀ u ∈ units, ∀ id ∈ (u.watchedJob futures).callIds, id ∈ u.finishedCalls stores) :
    Guards stores units m ∧ ∀ u ∈ units, (m.watched u.jobKey).Sees stores u := by
  have sees : ∀ u ∈ units, (m.watched u.jobKey).Sees stores u := by
    intro u unit id listed
    rw [watched u unit]
    exact mem_extend.mpr (Or.inr listed)
  refine ⟨⟨keyed, ?_, fun u unit => Or.inl (sees u unit), idle⟩, sees⟩
  intro u unit
  have swept : JobWatch.Minds stores u { observed := extend [] (u.finishedCalls stores) } :=
    ⟨nofun, nofun⟩
  rw [watched u unit]
  exact (swept.started (finished u unit)).1

/-- After a look at any moment, all is seen. -/
theorem runDue (guards : Guards stores units m)
    (available : ∀ u ∈ units, (stores.store u.backend).unavailable = false) {sur : Surroundings}
    (same : sur.stores = stores) (now : Nat) : Calm stores units (m.runDue sur now) := by
  have each (u : WaitUnit) (unit : u ∈ units) :=
    (guards.minds u unit).tick (available u unit) (guards.awake u unit) now (now + m.interval)
  have ticks (key : String) : (m.runDue sur now).watched key =
      JobWatch.tick now (now + m.interval) stores.finishedCalls (m.watched key) := by
    rw [watched_runDue guards.keyed, same]
  have idle (key : String) (none : ∀ u ∈ units, u.jobKey ≠ key) :
      (m.runDue sur now).watched key = {} := by
    rw [ticks, guards.idle key none]
    rfl
  refine ⟨⟨(keyed_runDue guards.keyed sur now).1, ?_, ?_, idle⟩, ?_, ?_⟩
  · intro u unit
    rw [ticks]
    exact (each u unit).1
  · intro u unit
    rw [ticks]
    exact Or.inl (each u unit).2.1
  · intro u unit
    rw [ticks]
    exact (each u unit).2.1
  · intro key
    by_cases known : ∃ u ∈ units, u.jobKey = key
    · obtain ⟨u, unit, rfl⟩ := known
      rw [ticks]
      exact (each u unit).2.2
    · rw [idle key fun u unit same => known ⟨u, unit, same⟩]

/-- Watching units again, of which all that are not awake are among those watched. -/
theorem of_restarted {futures : List Future} {grown : List String}
    (distinct : (units.map WaitUnit.jobKey).Nodup)
    (finished : ∀ u ∈ units, ∀ id ∈ (u.watchedJob futures).callIds, id ∈ u.finishedCalls stores)
    (keyed : m.Keyed) (minds : ∀ u ∈ units, (m.watched u.jobKey).Minds stores u)
    (awake : ∀ u ∈ units, u.jobKey ∈ grown ∨
      (m.watched u.jobKey).Sees stores u ∨ (m.watched u.jobKey).task ≠ none)
    (idle : ∀ key, (∀ u ∈ units, u.jobKey ≠ key) → m.watched key = {}) :
    ∃ m', CallDispatch.restarted units futures grown (SessionMonitor.storage m) = .storage m' ∧
      Guards stores units m' ∧ ∀ key, (m'.watched key).observed = (m.watched key).observed := by
  induction grown generalizing m with
  | nil =>
    refine ⟨m, rfl, ⟨keyed, minds, ?_, idle⟩, fun _ => rfl⟩
    intro u unit
    exact (awake u unit).resolve_left List.not_mem_nil
  | cons key rest ih =>
    cases found : units.find? (·.jobKey = key) with
    | none =>
      have absent : ∀ u ∈ units, u.jobKey ≠ key := by simpa using found
      have same : CallDispatch.restarted units futures (key :: rest) (SessionMonitor.storage m) =
          CallDispatch.restarted units futures rest (.storage m) := by
        unfold CallDispatch.restarted
        rw [List.foldl_cons, found]
      rw [same]
      refine ih keyed minds ?_ idle
      intro u unit
      rcases awake u unit with grew | still
      · rcases List.mem_cons.mp grew with here | later
        · exact absurd here (absent u unit)
        · exact Or.inl later
      · exact Or.inr still
    | some v =>
      have unit' := List.mem_of_find?_eq_some found
      have own : v.jobKey = key := by simpa using List.find?_some found
      have same : CallDispatch.restarted units futures (key :: rest) (SessionMonitor.storage m) =
          CallDispatch.restarted units futures rest
            (.storage (m.start (v.watchedJob futures) v.backend)) := by
        unfold CallDispatch.restarted
        rw [List.foldl_cons, found]
        rfl
      have starts (key' : String) : (m.start (v.watchedJob futures) v.backend).watched key' =
          if key' = v.jobKey then
            JobWatch.started (v.watchedJob futures) v.backend (m.watched key')
          else m.watched key' := watched_start m _ _ key'
      have again := (minds v unit').started (finished v unit')
      obtain ⟨m', isMonitor, guards, observed⟩ :=
        ih (m := m.start (v.watchedJob futures) v.backend) (keyed.update _ _)
          (by
            intro u unit
            rw [starts]
            by_cases here : u.jobKey = v.jobKey
            · obtain rfl := List.inj_on_of_nodup_map distinct unit unit' here
              rw [if_pos rfl]
              exact again.1
            · rw [if_neg here]
              exact minds u unit)
          (by
            intro u unit
            rw [starts]
            by_cases here : u.jobKey = v.jobKey
            · obtain rfl := List.inj_on_of_nodup_map distinct unit unit' here
              rw [if_pos rfl]
              exact Or.inr (Or.inr again.2)
            · rw [if_neg here]
              rcases awake u unit with grew | still
              · rcases List.mem_cons.mp grew with first | later
                · exact absurd (first.trans own.symm) here
                · exact Or.inl later
              · exact Or.inr still)
          (by
            intro key' absent
            rw [starts, if_neg (Ne.symm (absent v unit'))]
            exact idle key' absent)
      refine ⟨m', same ▸ isMonitor, guards, ?_⟩
      intro key'
      rw [observed, starts]
      split <;> rfl

/-- Once a wait set has grown, its units are watched again. -/
theorem restarted (guards : Guards stores units m) {units' : List WaitUnit} {futures : List Future}
    {grown : List String} (distinct : (units'.map WaitUnit.jobKey).Nodup)
    (stays : ∀ v ∈ units, ∃ u ∈ units', v.heading = u.heading)
    (grew : ∀ u ∈ units', u.jobKey ∈ grown ∨ ∃ v ∈ units, v.jobKey = u.jobKey)
    (finished : ∀ u ∈ units', ∀ id ∈ (u.watchedJob futures).callIds, id ∈ u.finishedCalls stores) :
    ∃ m', CallDispatch.restarted units' futures grown (SessionMonitor.storage m) = .storage m' ∧
      Guards stores units' m' ∧ ∀ key, (m'.watched key).observed = (m.watched key).observed := by
  have old (u : WaitUnit) (unit : u ∈ units') {v : WaitUnit} (unit' : v ∈ units)
      (sameKey : v.jobKey = u.jobKey) : v.heading = u.heading := by
    obtain ⟨u', inside, same⟩ := stays v unit'
    have key : u'.jobKey = u.jobKey := (WaitUnit.jobKey_of_heading same).symm.trans sameKey
    rw [same, List.inj_on_of_nodup_map distinct inside unit key]
  refine of_restarted distinct finished guards.keyed ?_ ?_ ?_
  · intro u unit
    by_cases known : ∃ v ∈ units, v.jobKey = u.jobKey
    · obtain ⟨v, unit', sameKey⟩ := known
      exact sameKey ▸ (guards.minds v unit').of_heading (old u unit unit' sameKey)
    · rw [guards.idle u.jobKey fun v unit' same => known ⟨v, unit', same⟩]
      exact JobWatch.minds_empty stores u
  · intro u unit
    rcases grew u unit with new | ⟨v, unit', sameKey⟩
    · exact Or.inl new
    · refine Or.inr ?_
      rcases guards.awake v unit' with sees | alive
      · exact Or.inl (sameKey ▸ sees.of_heading (old u unit unit' sameKey))
      · exact Or.inr (sameKey ▸ alive)
  · intro key absent
    refine guards.idle key fun v unit' same => ?_
    obtain ⟨u, unit, heading⟩ := stays v unit'
    exact absent u unit ((WaitUnit.jobKey_of_heading heading).symm.trans same)

end Guards

end CallDispatch
