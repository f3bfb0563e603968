import CallDispatch.Tracking.Session

/-!
# What monitors see

A listing monitor has an entry for each joined job key. What an operation does to the entry of one
key does not depend on the others, so a look of all tasks that are due is, key by key, a look of the
task of that key.
-/

namespace CallDispatch

theorem mem_extend {known new : List String} {id : String} :
    id ∈ extend known new ↔ id ∈ known ∨ id ∈ new := by
  unfold extend
  induction new generalizing known with
  | nil => simp
  | cons first rest ih =>
    rw [List.foldl_cons, ih, List.mem_cons]
    by_cases listed : known.contains first = true
    · rw [if_pos listed]
      have member : first ∈ known := by simpa using listed
      constructor
      · rintro (old | later)
        · exact Or.inl old
        · exact Or.inr (Or.inr later)
      · rintro (old | rfl | later)
        · exact Or.inl old
        · exact Or.inl member
        · exact Or.inr later
    · rw [if_neg listed, List.mem_append, List.mem_singleton, or_assoc]

namespace ListingMonitor

theorem find_modify (key key' : String) (f : JobWatch → JobWatch)
    (jobs : List (String × JobWatch)) :
    find key' (modify key f jobs) = if key' = key then f (find key jobs) else find key' jobs := by
  induction jobs with
  | nil =>
    simp only [modify, find]
    by_cases same : key' = key
    · rw [if_pos same, if_pos same.symm]
    · rw [if_neg same, if_neg (Ne.symm same)]
  | cons entry rest ih =>
    obtain ⟨own, w⟩ := entry
    rw [modify]
    by_cases here : own = key
    · subst here
      rw [if_pos rfl]
      by_cases same : key' = own
      · subst same
        simp [find]
      · simp [find, same, Ne.symm same]
    · rw [if_neg here]
      by_cases there : own = key'
      · subst there
        simp [find, here]
      · simp only [find, if_neg here, if_neg there]
        exact ih

theorem watched_update (m : ListingMonitor) (key key' : String) (f : JobWatch → JobWatch) :
    (m.update key f).watched key' = if key' = key then f (m.watched key) else m.watched key' :=
  find_modify key key' f m.jobs

theorem keys_modify (key : String) (f : JobWatch → JobWatch) (jobs : List (String × JobWatch)) :
    (modify key f jobs).map (·.1) =
      if key ∈ jobs.map (·.1) then jobs.map (·.1) else jobs.map (·.1) ++ [key] := by
  induction jobs with
  | nil => rfl
  | cons entry rest ih =>
    obtain ⟨own, w⟩ := entry
    rw [modify]
    by_cases here : own = key
    · subst here
      simp
    · rw [if_neg here, List.map_cons, ih]
      by_cases listed : key ∈ rest.map (·.1)
      · simp [listed]
      · simp [listed, Ne.symm here]

/-- A monitor with one entry for each job it knows of. -/
def Keyed (m : ListingMonitor) : Prop := (m.jobs.map (·.1)).Nodup

theorem Keyed.update {m : ListingMonitor} (keyed : m.Keyed) (key : String)
    (f : JobWatch → JobWatch) : (m.update key f).Keyed := by
  unfold Keyed ListingMonitor.update
  rw [keys_modify]
  split
  · exact keyed
  · next absent =>
    refine List.nodup_append.mpr ⟨keyed, by simp, ?_⟩
    intro other listed last isLast
    rw [List.mem_singleton.mp isLast]
    rintro rfl
    exact absent listed

theorem find_of_mem {jobs : List (String × JobWatch)} (keyed : (jobs.map (·.1)).Nodup)
    {key : String} {w : JobWatch} (member : (key, w) ∈ jobs) : find key jobs = w := by
  induction jobs with
  | nil => cases member
  | cons first rest ih =>
    obtain ⟨own, v⟩ := first
    rw [List.map_cons, List.nodup_cons] at keyed
    rw [find]
    rcases List.mem_cons.mp member with same | listed
    · cases same
      exact if_pos rfl
    · have known : key ∈ rest.map (·.1) := List.mem_map_of_mem listed
      have ne : own ≠ key := by
        rintro rfl
        exact keyed.1 known
      rw [if_neg ne]
      exact ih keyed.2 listed

theorem mem_of_find {jobs : List (String × JobWatch)} {key : String} {task : PollTask}
    (alive : (find key jobs).task = some task) : (key, find key jobs) ∈ jobs := by
  induction jobs with
  | nil => cases alive
  | cons first rest ih =>
    rw [find] at alive ⊢
    by_cases here : first.1 = key
    · rw [if_pos here, ← here]
      exact List.mem_cons_self
    · rw [if_neg here] at alive ⊢
      exact List.mem_cons_of_mem first (ih alive)

variable {m : ListingMonitor}

theorem mem_dueTimes (keyed : m.Keyed) {due : Nat} :
    due ∈ m.dueTimes ↔ ∃ key task, (m.watched key).task = some task ∧ task.due = due := by
  unfold dueTimes
  rw [List.mem_filterMap]
  constructor
  · rintro ⟨entry, member, found⟩
    obtain ⟨task, alive, rfl⟩ := Option.map_eq_some_iff.mp found
    exact ⟨entry.1, task, by rw [watched, find_of_mem keyed member, alive], rfl⟩
  · rintro ⟨key, task, alive, rfl⟩
    refine ⟨_, mem_of_find alive, ?_⟩
    show (m.watched key).task.map (·.due) = _
    rw [alive]
    rfl

theorem mem_dueJobs (keyed : m.Keyed) {now : Nat} {key : String} :
    key ∈ m.dueJobs now ↔ ∃ task, (m.watched key).task = some task ∧ task.due ≤ now := by
  unfold dueJobs
  rw [List.mem_filterMap]
  constructor
  · rintro ⟨entry, member, found⟩
    dsimp only at found
    split at found
    · next task alive =>
      split at found
      · next due =>
        cases found
        exact ⟨task, by rw [watched, find_of_mem keyed member, alive], due⟩
      · cases found
    · cases found
  · rintro ⟨task, alive, due⟩
    refine ⟨_, mem_of_find alive, ?_⟩
    have alive' : (find key m.jobs).task = some task := alive
    simp only [alive', if_pos due]

theorem nodup_dueJobs (keyed : m.Keyed) (now : Nat) : (m.dueJobs now).Nodup := by
  unfold dueJobs
  refine List.Nodup.sublist ?_ keyed
  induction m.jobs with
  | nil => exact .slnil
  | cons entry rest ih =>
    rw [List.filterMap_cons, List.map_cons]
    dsimp only
    split
    · exact ih.cons entry.1
    · next key found =>
      have own : key = entry.1 := by
        split at found
        · split at found
          · cases found
            rfl
          · cases found
        · cases found
      rw [own]
      exact ih.cons_cons entry.1

/-- What a look at a moment makes of the entry of a job. -/
def JobWatch.tick (now again : Nat) (ask : String → String → String → Outcome (List String))
    (w : JobWatch) : JobWatch :=
  match w.task with
  | some task =>
    if task.due ≤ now then JobWatch.look w task again (ask task.backend task.executorId task.jobId)
    else w
  | none => w

/-- What polling some jobs makes of each entry. -/
theorem watched_polls {now : Nat} {ask : String → String → String → Outcome (List String)}
    {keys : List String} (distinct : keys.Nodup) (m : ListingMonitor) (key : String) :
    (keys.foldl (fun m key => m.poll key now ask) m).watched key =
        (if key ∈ keys then
          match (m.watched key).task with
          | some task => JobWatch.look (m.watched key) task (now + m.interval)
              (ask task.backend task.executorId task.jobId)
          | none => m.watched key
        else m.watched key) := by
  induction keys generalizing m with
  | nil => simp
  | cons first rest ih =>
    obtain ⟨absent, later⟩ := List.nodup_cons.mp distinct
    have interval : (m.poll first now ask).interval = m.interval := rfl
    rw [List.foldl_cons, ih later, interval, poll, watched_update]
    by_cases here : key = first
    · subst here
      exact (if_neg absent).trans ((if_pos rfl).trans (if_pos List.mem_cons_self).symm)
    · rw [if_neg here]
      simp [here]

/-- A look of the tasks that are due is one of each entry's own. -/
theorem watched_runDue (keyed : m.Keyed) (sur : Surroundings) (now : Nat) (key : String) :
    (m.runDue sur now).watched key =
      JobWatch.tick now (now + m.interval) sur.stores.finishedCalls (m.watched key) := by
  unfold runDue JobWatch.tick
  rw [watched_polls (nodup_dueJobs keyed now)]
  by_cases due : key ∈ m.dueJobs now
  · rw [if_pos due]
    obtain ⟨task, alive, onTime⟩ := (mem_dueJobs keyed).mp due
    rw [alive]
    exact (if_pos onTime).symm
  · rw [if_neg due]
    split
    · next task alive =>
      rw [if_neg fun onTime => due ((mem_dueJobs keyed).mpr ⟨task, alive, onTime⟩)]
    · rfl

theorem keyed_runDue (keyed : m.Keyed) (sur : Surroundings) (now : Nat) :
    (m.runDue sur now).Keyed ∧ (m.runDue sur now).interval = m.interval := by
  unfold runDue
  generalize m.dueJobs now = keys
  induction keys generalizing m with
  | nil => exact ⟨keyed, rfl⟩
  | cons first rest ih =>
    rw [List.foldl_cons]
    have step := ih (m := m.poll first now sur.stores.finishedCalls) (keyed.update _ _)
    exact ⟨step.1, step.2⟩

/-- What watching a job makes of its entry. -/
def JobWatch.started (job : WatchedJob) (backend : String) (w : JobWatch) : JobWatch where
  wanted := extend w.wanted job.callIds
  observed := w.observed
  task := w.task.or (some { executorId := job.executorId, jobId := job.jobId, backend })

theorem watched_start (m : ListingMonitor) (job : WatchedJob) (backend key : String) :
    (m.start job backend).watched key =
      if key = job.jobKey then JobWatch.started job backend (m.watched key) else m.watched key := by
  rw [start, watched_update]
  by_cases here : key = job.jobKey
  · subst here
    rw [if_pos rfl, if_pos rfl]
    unfold JobWatch.started
    cases (m.watched job.jobKey).task <;> rfl
  · rw [if_neg here, if_neg here]

theorem watched_sweep (m : ListingMonitor) (job : WatchedJob) (ids : List String) :
    ∃ m', m.sweep job (.ok ids) = .ok m' ∧ (m.Keyed → m'.Keyed) ∧ m'.interval = m.interval ∧
      ∀ key, m'.watched key =
        if key = job.jobKey then
          { m.watched key with observed := extend (m.watched key).observed ids }
        else m.watched key := by
  refine ⟨_, rfl, fun keyed => keyed.update _ _, rfl, ?_⟩
  intro key
  rw [watched_update]
  by_cases here : key = job.jobKey
  · subst here
    rfl
  · rw [if_neg here, if_neg here]

end ListingMonitor

/-! ## What stores list -/

theorem Store.mem_of_lookup {key : CallName} {a : α} {entries : List (CallName × α)}
    (found : lookup key entries = some a) : (key, a) ∈ entries := by
  induction entries with
  | nil => cases found
  | cons entry rest ih =>
    rw [lookup] at found
    by_cases here : entry.1 = key
    · rw [if_pos here] at found
      cases found
      rw [← here]
      exact List.mem_cons_self
    · rw [if_neg here] at found
      exact List.mem_cons_of_mem entry (ih found)

theorem Store.lookup_eq_some {key : CallName} {entries : List (CallName × α)} :
    (∃ a, lookup key entries = some a) ↔ key ∈ entries.map (·.1) := by
  induction entries with
  | nil => simp [lookup]
  | cons entry rest ih =>
    rw [lookup, List.map_cons, List.mem_cons]
    by_cases here : entry.1 = key
    · simp [here]
    · rw [if_neg here, ih]
      simp [Ne.symm here]

/-- A store lists as finished the calls that it has a status of. -/
theorem Store.mem_finishedCalls {store : Store} {executorId jobId id : String} :
    id ∈ store.finishedCalls executorId jobId ↔
      ∃ s, lookup ⟨executorId, jobId, id⟩ store.statuses = some s := by
  rw [lookup_eq_some]
  unfold finishedCalls
  constructor
  · intro listed
    obtain ⟨entry, member, rfl⟩ := List.mem_map.mp listed
    obtain ⟨inside, own⟩ := List.mem_filter.mp member
    obtain ⟨rfl, rfl⟩ := of_decide_eq_true own
    exact List.mem_map_of_mem inside
  · intro known
    obtain ⟨entry, member, key⟩ := List.mem_map.mp known
    refine List.mem_map.mpr ⟨entry, List.mem_filter.mpr ⟨member, ?_⟩, ?_⟩
    · rw [key]
      simp
    · rw [key]

theorem Stores.status?_ok {stores : Stores} {backend : String}
    (available : (stores.store backend).unavailable = false) (key : CallName) :
    stores.status? backend key = .ok (Store.lookup key (stores.store backend).statuses) := by
  unfold Stores.status? Store.check
  rw [available]
  rfl

theorem Stores.available_of_status {stores : Stores} {backend : String} {key : CallName}
    {found : Option StatusRecord} (replied : stores.status? backend key = .ok found) :
    (stores.store backend).unavailable = false ∧
      Store.lookup key (stores.store backend).statuses = found := by
  cases unavailable : (stores.store backend).unavailable with
  | true =>
    unfold Stores.status? Store.check at replied
    rw [unavailable] at replied
    cases replied
  | false =>
    rw [Stores.status?_ok unavailable] at replied
    exact ⟨rfl, Except.ok.inj replied⟩

/-- The calls of a unit's job that have a status in its store. -/
def WaitUnit.finishedCalls (stores : Stores) (u : WaitUnit) : List String :=
  (stores.store u.backend).finishedCalls u.executorId u.jobId

theorem Stores.finishedCalls_ok {stores : Stores} {u : WaitUnit}
    (available : (stores.store u.backend).unavailable = false) :
    stores.finishedCalls u.backend u.executorId u.jobId = .ok (u.finishedCalls stores) := by
  unfold Stores.finishedCalls Store.check
  rw [available]
  rfl

open ListingMonitor in
/-- Sweeping and watching units whose stores are available: each sees what its store has. -/
theorem Wait.watchUnits_ok {stores : Stores} (futures : List Future) {units : List WaitUnit}
    (available : ∀ u ∈ units, (stores.store u.backend).unavailable = false)
    (distinct : (units.map WaitUnit.jobKey).Nodup) {m : ListingMonitor} (keyed : m.Keyed) :
    ∃ m', Wait.watchUnits stores.finishedCalls futures units m = (m', none) ∧ m'.Keyed ∧
      m'.interval = m.interval ∧
      (∀ u ∈ units, m'.watched u.jobKey = JobWatch.started (u.watchedJob futures) u.backend
        { m.watched u.jobKey with
          observed := extend (m.watched u.jobKey).observed (u.finishedCalls stores) }) ∧
      ∀ key, (∀ u ∈ units, u.jobKey ≠ key) → m'.watched key = m.watched key := by
  induction units generalizing m with
  | nil => exact ⟨m, rfl, keyed, rfl, nofun, fun _ _ => rfl⟩
  | cons u rest ih =>
    rw [List.map_cons, List.nodup_cons] at distinct
    have others (v : WaitUnit) (member : v ∈ rest) : v.jobKey ≠ u.jobKey := fun same =>
      distinct.1 (same ▸ List.mem_map_of_mem member)
    have own : (u.watchedJob futures).jobKey = u.jobKey := rfl
    obtain ⟨swept, sweeps, keyed', interval, sees⟩ :=
      watched_sweep m (u.watchedJob futures) (u.finishedCalls stores)
    obtain ⟨m', watches, keyed'', interval', each, none⟩ :=
      ih (fun v member => available v (List.mem_cons_of_mem u member)) distinct.2
        (m := swept.start (u.watchedJob futures) u.backend) ((keyed' keyed).update _ _)
    refine ⟨m', ?_, keyed'', interval'.trans interval, ?_, ?_⟩
    · rw [Wait.watchUnits, Stores.finishedCalls_ok (available u List.mem_cons_self), sweeps]
      exact watches
    · intro v member
      rcases List.mem_cons.mp member with rfl | later
      · rw [none v.jobKey others, watched_start, own, if_pos rfl, sees, own, if_pos rfl]
      · have ne := others v later
        rw [each v later, watched_start, own, if_neg ne, sees, own, if_neg ne]
    · intro key absent
      have ne : key ≠ u.jobKey := Ne.symm (absent u List.mem_cons_self)
      rw [none key fun v member => absent v (List.mem_cons_of_mem u member), watched_start, own,
        if_neg ne, sees, own, if_neg ne]

end CallDispatch
