import CallDispatch.Proofs.Tracking.Watchtower

/-!
# One task until all is seen

The entries of a watchtower are those of a listing monitor: where a lookout hears an answer, the
monitor polls or is swept with it. The other way round, a monitor whose tasks and sweeps ask and
record at once is one of the monitors of a watchtower. So what holds of tasks and sweeps in any
order, that one task of a key is alive until all that is wanted has been seen, holds of the monitors
that waits are given.
-/

namespace CallDispatch

/-- Where a task looks: the backend, the executor and the job. -/
def PollTask.place (task : PollTask) : String × String × String :=
  (task.backend, task.executorId, task.jobId)

namespace Lookout

/-- Where a lookout looks. -/
def place (l : Lookout) : String × String × String :=
  (l.backend, l.job.executorId, l.job.jobId)

/-- What a listing monitor makes of an answer that a lookout hears: its task polls, or it is swept.
-/
def report (l : Lookout) (answer : Outcome (List String)) (m : ListingMonitor) : ListingMonitor :=
  if l.polls then m.poll l.job.jobKey 0 fun _ _ _ => answer
  else
    match m.sweep l.job answer with
    | .ok m' => m'
    | .error _ => m

end Lookout

namespace Watchtower

variable {t t' : Watchtower} {m : ListingMonitor}

/-- What an occurrence makes of a listing monitor that goes along with a watchtower. -/
def mirror (t : Watchtower) (m : ListingMonitor) : Occurrence → ListingMonitor
  | .start job backend => m.start job backend
  | .moves n .proceeds =>
    match t.lookouts[n]? with
    | some l =>
      match l.hears t.sur.stores with
      | some answer => l.report answer m
      | none => m
    | none => m
  | .changed _ | .sweep .. | .moves .. => m

/-- A new watchtower after a history, with a new listing monitor that went along. -/
def along (sur : Surroundings) (interval : Nat) (history : List Occurrence) :
    Watchtower × ListingMonitor :=
  history.foldl (fun s o => (s.1.step o, s.1.mirror s.2 o)) ({ sur }, { interval })

/-- A listing monitor that knows of every joined key what a watchtower does, with a task alive for
it that looks into the same place. -/
structure Mirrors (t : Watchtower) (m : ListingMonitor) : Prop where
  wanted : ∀ key, (m.watched key).wanted = (t.posts key).wanted
  observed : ∀ key, (m.watched key).observed = (t.posts key).observed
  task : ∀ key, (m.watched key).task.map PollTask.place = (t.taskOf key).map Lookout.place

theorem Mirrors.of_same {m' : ListingMonitor} (mirrors : t.Mirrors m)
    (same : ∀ key, m'.watched key = m.watched key) : t.Mirrors m' where
  wanted key := same key ▸ mirrors.wanted key
  observed key := same key ▸ mirrors.observed key
  task key := same key ▸ mirrors.task key

theorem Mirrors.isAlive (mirrors : t.Mirrors m) (key : String) :
    m.isAlive key = t.isAlive key := by
  have same := congrArg Option.isSome (mirrors.task key)
  rwa [Option.isSome_map, Option.isSome_map] at same

theorem Mirrors.sawAll (mirrors : t.Mirrors m) (key : String) :
    (m.watched key).sawAll = (t.posts key).sawAll := by
  unfold JobWatch.sawAll Post.sawAll
  rw [mirrors.wanted, mirrors.observed]

/-! ### Tasks after an operation -/

theorem taskOf_put {n : Nat} {l : Lookout} (found : t.lookouts[n]? = some l) (inquiry : Inquiry)
    (key : String) : (t.put n l inquiry).taskOf key =
      if (t.posts key).task = some n then
        if inquiry.hasEnded then none else some { l with inquiry }
      else t.taskOf key := by
  have at_ := getElem?_put found inquiry
  show ((t.posts key).task.bind fun m => ((t.put n l inquiry).lookouts[m]?).filter _) = _
  unfold taskOf
  cases task : (t.posts key).task with
  | none => rfl
  | some m =>
    rw [Option.bind_some, at_]
    by_cases same : n = m
    · subst same
      rw [if_pos rfl, if_pos rfl]
      cases ending : inquiry.hasEnded <;> simp [ending]
    · rw [if_neg same, if_neg (by simpa using Ne.symm same), Option.bind_some]

/-- A lookout that is not brought to its end leaves a task alive where there was one. -/
theorem place_put {n : Nat} {l : Lookout} {inquiry : Inquiry} (found : t.lookouts[n]? = some l)
    (awake : l.inquiry.hasEnded = false) {key : String}
    (goes : (t.posts key).task = some n → inquiry.hasEnded = false) :
    ((t.put n l inquiry).taskOf key).map Lookout.place = (t.taskOf key).map Lookout.place := by
  rw [taskOf_put found]
  split
  · next own =>
    have before : t.taskOf key = some l := taskOf_eq_some.mpr ⟨n, own, found, awake⟩
    rw [before, goes own]
    rfl
  · rfl

theorem taskOf_send (manned : t.Manned) (sent : Lookout) (key : String) :
    (t.send sent).taskOf key = t.taskOf key := by
  show ((t.posts key).task.bind fun n => ((t.send sent).lookouts[n]?).filter _) = _
  unfold taskOf
  cases task : (t.posts key).task with
  | none => rfl
  | some n =>
    obtain ⟨l, found, -⟩ := manned.post key n task
    rw [Option.bind_some, Option.bind_some, getElem?_send_of_some found, found]

theorem taskOf_see (key key' : String) (ids : List String) :
    (t.see key ids).taskOf key' = t.taskOf key' := by
  unfold taskOf
  rw [posts_see]
  split
  · next own =>
    rw [own]
    rfl
  · rfl

theorem taskOf_launch (manned : t.Manned) (job : WatchedJob) (backend key : String) :
    ((t.want job).launch job backend).taskOf key =
      if key = job.jobKey then some { job, backend, polls := true } else t.taskOf key := by
  split
  · next own =>
    apply taskOf_eq_some.mpr
    rw [posts_launch, if_pos own]
    exact ⟨_, rfl, List.getElem?_concat_length, rfl⟩
  · next other =>
    rw [← taskOf_send manned { job, backend, polls := true } key]
    unfold taskOf
    rw [posts_launch, if_neg other, posts_want, if_neg other]
    rfl

/-! ### Step for step -/

/-- A sweep is not the task of any key. -/
theorem Manned.task_ne (manned : t.Manned) {n : Nat} {l : Lookout}
    (found : t.lookouts[n]? = some l) (sweeps : l.polls = false) (key : String) :
    (t.posts key).task ≠ some n := by
  intro task
  obtain ⟨l', found', polls, -⟩ := manned.post key n task
  obtain rfl := Option.some.inj (found.symm.trans found')
  cases sweeps.symm.trans polls

theorem Mirrors.put (mirrors : t.Mirrors m) (manned : t.Manned) {n : Nat} {l : Lookout}
    {inquiry : Inquiry} (found : t.lookouts[n]? = some l) (awake : l.inquiry.hasEnded = false)
    (ends : inquiry.hasEnded = true → l.polls = false) : (t.put n l inquiry).Mirrors m := by
  refine ⟨mirrors.wanted, mirrors.observed, fun key => (mirrors.task key).trans ?_⟩
  refine (place_put found awake fun own => ?_).symm
  cases ending : inquiry.hasEnded with
  | false => rfl
  | true => exact absurd own (manned.task_ne found (ends ending) key)

theorem Mirrors.wanted_start (mirrors : t.Mirrors m) (job : WatchedJob) (backend key : String) :
    ((m.start job backend).watched key).wanted = ((t.want job).posts key).wanted := by
  rw [ListingMonitor.watched_start, posts_want]
  split
  · next own => rw [own, ListingMonitor.JobWatch.started, mirrors.wanted]
  · exact mirrors.wanted key

theorem Mirrors.observed_start (mirrors : t.Mirrors m) (job : WatchedJob) (backend key : String) :
    ((m.start job backend).watched key).observed = (t.posts key).observed := by
  rw [ListingMonitor.watched_start]
  split <;> exact mirrors.observed key

/-- A task that is alive goes on with what more is wanted. -/
theorem Mirrors.want (mirrors : t.Mirrors m) {job : WatchedJob} (backend : String)
    (alive : t.isAlive job.jobKey = true) : (t.want job).Mirrors (m.start job backend) := by
  refine ⟨mirrors.wanted_start job backend, ?_, ?_⟩
  · intro key
    rw [observed_want, mirrors.observed_start]
  · intro key
    rw [ListingMonitor.watched_start, taskOf_want, ← mirrors.task]
    split
    · next own =>
      subst own
      rw [← mirrors.isAlive] at alive
      obtain ⟨task, begun⟩ := Option.isSome_iff_exists.mp alive
      rw [ListingMonitor.JobWatch.started, begun]
      rfl
    · rfl

/-- A task is begun in both where none is alive. -/
theorem Mirrors.launch (mirrors : t.Mirrors m) (manned : t.Manned) {job : WatchedJob}
    (backend : String) (ended : t.isAlive job.jobKey = false) :
    ((t.want job).launch job backend).Mirrors (m.start job backend) := by
  refine ⟨?_, ?_, ?_⟩
  · intro key
    rw [wanted_launch, mirrors.wanted_start]
  · intro key
    rw [observed_launch, observed_want, mirrors.observed_start]
  · intro key
    rw [ListingMonitor.watched_start, taskOf_launch manned]
    split
    · next own =>
      subst own
      rw [← mirrors.isAlive] at ended
      have without : (m.watched job.jobKey).task = none :=
        Option.isNone_iff_eq_none.mp (Option.isSome_eq_false_iff.mp ended)
      rw [ListingMonitor.JobWatch.started, without]
      rfl
    · exact mirrors.task key

theorem Mirrors.start (mirrors : t.Mirrors m) (manned : t.Manned) (job : WatchedJob)
    (backend : String) : (t.step (.start job backend)).Mirrors (m.start job backend) := by
  have steps := step_steps t (.start job backend)
  generalize t.step (.start job backend) = t' at steps ⊢
  cases steps with
  | wanted alive => exact mirrors.want backend alive
  | launched ended => exact mirrors.launch manned backend ended

/-- What a watchtower sees is recorded by its monitor. -/
theorem Mirrors.see (mirrors : t.Mirrors m) (key : String) (ids : List String) :
    (t.see key ids).Mirrors
      (m.update key fun w => { w with observed := extend w.observed ids }) := by
  refine ⟨?_, ?_, ?_⟩
  · intro key'
    rw [ListingMonitor.watched_update, posts_see]
    split
    · exact mirrors.wanted key
    · exact mirrors.wanted key'
  · intro key'
    rw [ListingMonitor.watched_update, posts_see]
    split
    · rw [mirrors.observed]
    · exact mirrors.observed key'
  · intro key'
    rw [ListingMonitor.watched_update, taskOf_see, ← mirrors.task]
    split
    · next own => rw [own]
    · rfl

/-- The task of a key goes on or ends, in the watchtower and in its monitor. -/
theorem Mirrors.turn (mirrors : t.Mirrors m) (manned : t.Manned) {n : Nat} {l : Lookout}
    {key : String} (found : t.lookouts[n]? = some l) (polls : l.Polls key) {inquiry : Inquiry}
    (task : PollTask) (place : task.place = l.place) {m' : ListingMonitor}
    (watched : ∀ key', m'.watched key' = if key' = key then
      { m.watched key with task := if inquiry.hasEnded then none else some task }
      else m.watched key') : (t.put n l inquiry).Mirrors m' := by
  refine ⟨?_, ?_, ?_⟩
  · intro key'
    rw [watched]
    split
    · next own => exact own ▸ mirrors.wanted key
    · exact mirrors.wanted key'
  · intro key'
    rw [watched]
    split
    · next own => exact own ▸ mirrors.observed key
    · exact mirrors.observed key'
  · intro key'
    rw [watched, taskOf_put found]
    by_cases own : key' = key
    · rw [if_pos own, own, if_pos (manned.last key n ⟨l, found, polls⟩)]
      cases inquiry.hasEnded with
      | true => rfl
      | false => exact congrArg some place
    · rw [if_neg own, if_neg, mirrors.task]
      intro task'
      obtain ⟨l', found', -, own'⟩ := manned.post key' n task'
      obtain rfl := Option.some.inj (found.symm.trans found')
      exact own (own'.symm.trans polls.2.1)

/-- A task hears an answer that its monitor polls. -/
theorem Mirrors.poll (mirrors : t.Mirrors m) (manned : t.Manned) {n : Nat} {l : Lookout}
    {key : String} (found : t.lookouts[n]? = some l) (polls : l.Polls key) (now : Nat)
    (ask : String → String → String → Outcome (List String)) {answer : Outcome (List String)}
    (asked : ask l.backend l.job.executorId l.job.jobId = answer) :
    (t.hear n l answer).Mirrors (m.poll key now ask) := by
  have own := manned.taskOf_iff.mpr ⟨n, found, polls⟩
  obtain ⟨task, begun, place⟩ : ∃ task, (m.watched key).task = some task ∧
      task.place = l.place := by
    have same := mirrors.task key
    rw [own] at same
    exact Option.map_eq_some_iff.mp same
  have asked' : ask task.backend task.executorId task.jobId = answer := by
    obtain ⟨backend, executorId, jobId⟩ : task.backend = l.backend ∧
        task.executorId = l.job.executorId ∧ task.jobId = l.job.jobId := by
      simpa [PollTask.place, Lookout.place] using place
    rw [backend, executorId, jobId, asked]
  have watched (key' : String) : (m.poll key now ask).watched key' =
      if key' = key then
        ListingMonitor.JobWatch.look (m.watched key) task (now + m.interval) answer
      else m.watched key' := by
    rw [ListingMonitor.poll, ListingMonitor.watched_update, begun]
    dsimp only
    rw [asked']
  cases answer with
  | ok ids =>
    obtain ⟨isTask, rfl, awake⟩ := polls
    have seen := mirrors.see l.job.jobKey ids
    have all := seen.sawAll l.job.jobKey
    rw [ListingMonitor.watched_update, if_pos rfl] at all
    refine seen.turn (manned.see _ ids) found ⟨isTask, rfl, awake⟩
      { task with due := now + m.interval } place fun key' => ?_
    rw [watched, ListingMonitor.watched_update, ListingMonitor.watched_update]
    by_cases same : key' = l.job.jobKey
    · rw [if_pos same, if_pos same, if_pos rfl, ListingMonitor.JobWatch.look]
      dsimp only
      rw [all, isTask]
      cases ((t.see l.job.jobKey ids).posts l.job.jobKey).sawAll <;> rfl
    · rw [if_neg same, if_neg same, if_neg same]
  | error e =>
    refine mirrors.turn manned found polls { task with due := now + m.interval } place
      fun key' => ?_
    rw [watched, polls.1]
    rfl

/-- A sweep hears an answer that its monitor is swept with. -/
theorem Mirrors.sweep (mirrors : t.Mirrors m) (manned : t.Manned) {n : Nat} {l : Lookout}
    (found : t.lookouts[n]? = some l) (awake : l.inquiry.hasEnded = false)
    (sweeps : l.polls = false) {answer : Outcome (List String)} {m' : ListingMonitor}
    (swept : m.sweep l.job answer = .ok m') : (t.hear n l answer).Mirrors m' := by
  cases answer with
  | ok ids =>
    cases swept
    have seen := mirrors.see l.job.jobKey ids
    exact seen.put (manned.see _ _) found awake fun _ => sweeps
  | error e => cases swept

theorem Mirrors.report (mirrors : t.Mirrors m) (manned : t.Manned) {n : Nat} {l : Lookout}
    (found : t.lookouts[n]? = some l) (awake : l.inquiry.hasEnded = false)
    (answer : Outcome (List String)) : (t.hear n l answer).Mirrors (l.report answer m) := by
  unfold Lookout.report
  cases isTask : l.polls with
  | true =>
    rw [if_pos rfl]
    exact mirrors.poll manned found ⟨isTask, rfl, awake⟩ 0 (fun _ _ _ => answer) rfl
  | false =>
    rw [if_neg Bool.false_ne_true]
    split
    · next swept => exact mirrors.sweep manned found awake isTask swept
    · next e failed =>
      cases answer with
      | ok ids => cases failed
      | error e' => exact mirrors.put manned found awake fun _ => isTask

/-- Occurrence by occurrence, a monitor that goes along with a watchtower knows what it does. -/
theorem Mirrors.step (mirrors : t.Mirrors m) (manned : t.Manned) (o : Occurrence) :
    (t.step o).Mirrors (t.mirror m o) := by
  cases o with
  | start job backend => exact mirrors.start manned job backend
  | changed c => exact ⟨mirrors.wanted, mirrors.observed, mirrors.task⟩
  | sweep job backend =>
    refine ⟨mirrors.wanted, mirrors.observed, fun key => ?_⟩
    exact (mirrors.task key).trans (congrArg _ (taskOf_send manned _ key).symm)
  | moves n move =>
    have steps := step_steps t (.moves n move)
    generalize t.step (.moves n move) = t' at steps ⊢
    cases steps with
    | stayed quiet =>
      have same : t.mirror m (.moves n move) = m := by
        cases move with
        | replied | failed | abandoned => rfl
        | proceeds =>
          rw [mirror]
          split
          · next l found => rw [quiet rfl l found]
          · rfl
      rw [same]
      exact mirrors
    | @turned _ l _ inquiry found awake ends _ quiet =>
      have same : t.mirror m (.moves n move) = m := by
        cases move with
        | replied | failed | abandoned => rfl
        | proceeds =>
          rw [mirror, found]
          dsimp only
          rw [quiet rfl]
      rw [same]
      exact mirrors.put manned found awake ends
    | @heard _ l answer found hears =>
      have same : t.mirror m (.moves n .proceeds) = l.report answer m := by
        rw [mirror, found]
        dsimp only
        rw [hears]
      rw [same]
      exact mirrors.report manned found (Lookout.awake_of_hears hears) answer

theorem mirrors_new (sur : Surroundings) (interval : Nat) :
    Mirrors { sur } ({ interval } : ListingMonitor) where
  wanted _ := rfl
  observed _ := rfl
  task _ := rfl

theorem along_concat (sur : Surroundings) (interval : Nat) (history : List Occurrence)
    (o : Occurrence) : along sur interval (history ++ [o]) =
      ((along sur interval history).1.step o,
        (along sur interval history).1.mirror (along sur interval history).2 o) := by
  simp [along]

/-- After every history, the entries are those of a listing monitor that went along with it. -/
theorem along_mirrors (sur : Surroundings) (interval : Nat) (history : List Occurrence) :
    (along sur interval history).1 = after sur history ∧
      (after sur history).Mirrors (along sur interval history).2 := by
  induction history using List.reverseRecOn with
  | nil => exact ⟨rfl, mirrors_new sur interval⟩
  | append_singleton before o ih =>
    rw [along_concat, after_concat, ih.1]
    exact ⟨rfl, ih.2.step (manned_after sur before) o⟩

/-! ### Looks at once -/

theorem put_put (n : Nat) (l : Lookout) (inquiry inquiry' : Inquiry) :
    (t.put n l inquiry).put n { l with inquiry } inquiry' = t.put n l inquiry' := by
  simp [put]

theorem hear_put (n : Nat) (l : Lookout) (inquiry : Inquiry) (answer : Outcome (List String)) :
    (t.put n l inquiry).hear n { l with inquiry } answer = t.hear n l answer := by
  cases answer with
  | ok ids => simp [hear, put, see, note]
  | error e => exact put_put n l inquiry _

theorem getElem?_put_self {n : Nat} {l : Lookout} (found : t.lookouts[n]? = some l)
    (inquiry : Inquiry) : (t.put n l inquiry).lookouts[n]? = some { l with inquiry } :=
  (getElem?_put found inquiry n).trans (if_pos rfl)

theorem step_moves {n : Nat} {l : Lookout} (found : t.lookouts[n]? = some l)
    (move : LookoutMove) : t.step (.moves n move) = t.move n l move := by
  rw [step, found]

theorem step_asks {n : Nat} {l : Lookout} (found : t.lookouts[n]? = some l)
    (idle : l.inquiry = .idle)
    (available : (t.sur.stores.store l.backend).check l.backend = .ok ()) :
    t.step (.moves n .proceeds) = t.put n l .asking := by
  rw [step_moves found]
  simp only [move, Lookout.hears, idle, available]

theorem step_fails {n : Nat} {l : Lookout} (found : t.lookouts[n]? = some l)
    (idle : l.inquiry = .idle) {e : DispatchError}
    (unavailable : (t.sur.stores.store l.backend).check l.backend = .error e) :
    t.step (.moves n .proceeds) = t.hear n l (.error e) := by
  rw [step_moves found]
  simp only [move, Lookout.hears, idle, unavailable]

/-- A lookout asks, is replied to and records the answer, with nothing in between. -/
def looks (n : Nat) : List Occurrence :=
  [.moves n .proceeds, .moves n .replied, .moves n .proceeds]

/-- A lookout that is about to ask has its answer at once if nothing comes between. -/
theorem foldl_looks {n : Nat} {l : Lookout} (found : t.lookouts[n]? = some l)
    (idle : l.inquiry = .idle) :
    (looks n).foldl step t = t.hear n l (l.answer t.sur.stores) := by
  have put_found := getElem?_put_self found
  show ((t.step (.moves n .proceeds)).step (.moves n .replied)).step (.moves n .proceeds) = _
  unfold Lookout.answer Stores.finishedCalls
  cases checked : (t.sur.stores.store l.backend).check l.backend with
  | ok available =>
    let ids := (t.sur.stores.store l.backend).finishedCalls l.job.executorId l.job.jobId
    have told : (t.put n l .asking).step (.moves n .replied) = t.put n l (.told (.ok ids)) :=
      (step_moves (put_found .asking) .replied).trans (put_put n l .asking _)
    rw [step_asks found idle checked, told, step_moves (put_found _)]
    exact hear_put n l (.told (.ok ids)) (.ok ids)
  | error e =>
    rw [step_fails found idle checked]
    show _ = t.hear n l (.error e)
    -- A task is about to ask again, so it hears of the error twice. A sweep is at its end.
    cases isTask : l.polls with
    | true =>
      have hears : t.hear n l (.error e) = t.put n l .idle := by
        rw [hear, isTask]
        rfl
      have waits : (t.put n l .idle).step (.moves n .replied) = t.put n l .idle :=
        step_moves (put_found .idle) .replied
      rw [hears, waits, step_fails (put_found .idle) rfl checked, hear_put, hears]
    | false =>
      have hears : t.hear n l (.error e) = t.put n l .ended := by
        rw [hear, isTask]
        rfl
      have waits : (t.put n l .ended).step (.moves n .replied) = t.put n l .ended :=
        step_moves (put_found .ended) .replied
      have stays : (t.put n l .ended).step (.moves n .proceeds) = t.put n l .ended :=
        step_moves (put_found .ended) .proceeds
      rw [hears, waits, stays]

theorem after_looks {sur : Surroundings} {history : List Occurrence} {n : Nat} {l : Lookout}
    (found : (after sur history).lookouts[n]? = some l) (idle : l.inquiry = .idle) :
    after sur (history ++ looks n) =
      (after sur history).hear n l (l.answer (after sur history).sur.stores) := by
  have runs : after sur (history ++ looks n) = (looks n).foldl step (after sur history) :=
    List.foldl_append
  exact runs.trans (foldl_looks found idle)

theorem sur_hear (n : Nat) (l : Lookout) (answer : Outcome (List String)) :
    (t.hear n l answer).sur = t.sur := by
  cases answer <;> rfl

/-- A watchtower whose lookouts are all about to ask or at the end. -/
def Resting (t : Watchtower) : Prop :=
  ∀ l ∈ t.lookouts, l.inquiry.hasEnded = false → l.inquiry = .idle

theorem Resting.send (resting : t.Resting) {sent : Lookout} (idle : sent.inquiry = .idle) :
    (t.send sent).Resting := by
  intro l listed awake
  rcases List.mem_append.mp listed with old | new
  · exact resting l old awake
  · rw [List.mem_singleton.mp new, idle]

theorem Resting.hear (resting : t.Resting) (n : Nat) (l : Lookout)
    (answer : Outcome (List String)) : (t.hear n l answer).Resting := by
  intro l' listed awake
  have either (ends : Bool) (t : Watchtower) (resting : t.Resting)
      (listed : l' ∈ (t.put n l (if ends then .idle else .ended)).lookouts) :
      l'.inquiry = .idle := by
    rcases List.mem_or_eq_of_mem_set listed with old | rfl
    · exact resting l' old awake
    · cases ends with
      | true => rfl
      | false => cases awake
  cases answer with
  | ok ids => exact either _ (t.see l.job.jobKey ids) resting listed
  | error e => exact either _ t resting listed

/-- A monitor that has the entries of a watchtower after a history, when all its lookouts rest. -/
def Keeps (sur : Surroundings) (m : ListingMonitor) : Prop :=
  ∃ sur₀ history, (after sur₀ history).sur = sur ∧ (after sur₀ history).Mirrors m ∧
    (after sur₀ history).Resting

namespace Keeps

variable {sur : Surroundings}

theorem new (sur : Surroundings) (interval : Nat) : Keeps sur { interval } :=
  ⟨sur, [], rfl, mirrors_new sur interval, nofun⟩

theorem changed (keeps : Keeps sur m) (c : Change) : Keeps (sur.change c) m := by
  obtain ⟨sur₀, history, rfl, mirrors, resting⟩ := keeps
  refine ⟨sur₀, history ++ [.changed c], ?_⟩
  rw [after_concat]
  exact ⟨rfl, ⟨mirrors.wanted, mirrors.observed, mirrors.task⟩, resting⟩

theorem started (keeps : Keeps sur m) (job : WatchedJob) (backend : String) :
    Keeps sur (m.start job backend) := by
  obtain ⟨sur₀, history, rfl, mirrors, resting⟩ := keeps
  refine ⟨sur₀, history ++ [.start job backend], ?_⟩
  rw [after_concat]
  have started := mirrors.start (manned_after sur₀ history) job backend
  have steps := (after sur₀ history).step_steps (.start job backend)
  generalize (after sur₀ history).step (.start job backend) = t' at started steps ⊢
  cases steps with
  | wanted _ => exact ⟨rfl, started, resting⟩
  | launched _ =>
    have noted : (((after sur₀ history).want job).note job.jobKey
        ({ · with task := some (after sur₀ history).lookouts.length })).Resting := resting
    exact ⟨rfl, started, noted.send rfl⟩

theorem swept (keeps : Keeps sur m) {job : WatchedJob} {backend : String} {m' : ListingMonitor}
    (sweeps : m.sweep job (sur.stores.finishedCalls backend job.executorId job.jobId) = .ok m') :
    Keeps sur m' := by
  obtain ⟨sur₀, history, rfl, mirrors, resting⟩ := keeps
  let sent : Lookout := { job, backend, polls := false }
  let n := (after sur₀ history).lookouts.length
  have sends : after sur₀ (history ++ [.sweep job backend]) = (after sur₀ history).send sent :=
    after_concat _ _ _
  have found : (after sur₀ (history ++ [.sweep job backend])).lookouts[n]? = some sent := by
    rw [sends]
    exact List.getElem?_concat_length
  have manned := manned_after sur₀ history
  have mirrors' : ((after sur₀ history).send sent).Mirrors m :=
    mirrors.step manned (.sweep job backend)
  refine ⟨sur₀, history ++ [.sweep job backend] ++ looks n, ?_⟩
  rw [after_looks found rfl, sends, sur_hear]
  exact ⟨rfl, mirrors'.sweep (manned.send rfl) (sends ▸ found) rfl rfl sweeps,
    (resting.send rfl).hear n sent _⟩

theorem polled (keeps : Keeps sur m) (key : String) (now : Nat) :
    Keeps sur (m.poll key now sur.stores.finishedCalls) := by
  obtain ⟨sur₀, history, rfl, mirrors, resting⟩ := keeps
  have manned := manned_after sur₀ history
  cases task : (after sur₀ history).taskOf key with
  | none =>
    -- Without a task, nothing is polled.
    refine ⟨sur₀, history, rfl, mirrors.of_same fun key' => ?_, resting⟩
    have without := mirrors.task key
    rw [task] at without
    rw [ListingMonitor.poll, ListingMonitor.watched_update, Option.map_eq_none_iff.mp without]
    split
    · next own => rw [own]
    · rfl
  | some l =>
    obtain ⟨n, found, polls⟩ := manned.taskOf_iff.mp task
    have idle := resting l (List.mem_of_getElem? found) polls.2.2
    refine ⟨sur₀, history ++ looks n, ?_⟩
    rw [after_looks found idle, sur_hear]
    exact ⟨rfl, mirrors.poll manned found polls now _ rfl, resting.hear n l _⟩

end Keeps

end Watchtower

/-- The monitors and surroundings that come of operations which take the answers of stores at once,
as those of the monitors of waits do. -/
inductive ListingMonitor.Attends (interval : Nat) : Surroundings → ListingMonitor → Prop where
  | new (sur : Surroundings) : Attends interval sur { interval }
  | changed {sur : Surroundings} {m : ListingMonitor} (c : Change) : Attends interval sur m →
      Attends interval (sur.change c) m
  | started {sur : Surroundings} {m : ListingMonitor} (job : WatchedJob) (backend : String) :
      Attends interval sur m → Attends interval sur (m.start job backend)
  | swept {sur : Surroundings} {m m' : ListingMonitor} {job : WatchedJob} {backend : String} :
      Attends interval sur m →
      m.sweep job (sur.stores.finishedCalls backend job.executorId job.jobId) = .ok m' →
      Attends interval sur m'
  | polled {sur : Surroundings} {m : ListingMonitor} (key : String) (now : Nat) :
      Attends interval sur m → Attends interval sur (m.poll key now sur.stores.finishedCalls)

namespace ListingMonitor

variable {interval : Nat} {sur : Surroundings} {m : ListingMonitor}

theorem Attends.runDue (attends : Attends interval sur m) (now : Nat) :
    Attends interval sur (m.runDue sur now) := by
  unfold ListingMonitor.runDue
  induction m.dueJobs now generalizing m with
  | nil => exact attends
  | cons key rest ih => exact ih (.polled key now attends)

theorem Attends.watchUnits (attends : Attends interval sur m) (futures : List Future)
    (units : List WaitUnit) :
    Attends interval sur (Wait.watchUnits sur.stores.finishedCalls futures units m).1 := by
  induction units generalizing m with
  | nil => exact attends
  | cons u rest ih =>
    rw [Wait.watchUnits]
    split
    · exact attends
    · next m' swept => exact ih (.started _ _ (.swept attends swept))

/-- Such a monitor has the entries of a watchtower after a history. -/
theorem Attends.keeps (attends : Attends interval sur m) : Watchtower.Keeps sur m := by
  induction attends with
  | new sur => exact .new sur interval
  | changed c _ ih => exact ih.changed c
  | started job backend _ ih => exact ih.started job backend
  | swept _ sweeps ih => exact ih.swept sweeps
  | polled key now _ ih => exact ih.polled key now

/-- A call that such a monitor is to watch has been seen, or a task is alive for its key. -/
theorem Attends.seen_or_alive (attends : Attends interval sur m) {key id : String}
    (wanted : id ∈ (m.watched key).wanted) : id ∈ m.observed key ∨ m.isAlive key = true := by
  obtain ⟨sur₀, history, -, mirrors, -⟩ := attends.keeps
  have manned := Watchtower.manned_after sur₀ history
  rw [mirrors.isAlive, manned.isAlive_iff, ListingMonitor.observed, mirrors.observed]
  rw [mirrors.wanted] at wanted
  exact (manned.seen key).symm.imp_left fun all => Post.sawAll_iff.mp all id wanted

end ListingMonitor

/-! ## One task at a time -/

open Watchtower

/-- After every history of starts, sweeps, changes of the stores and moves of tasks and sweeps in
any order: no two tasks of a joined key are alive; one is, as the monitor says, while a call it is
to watch has not been seen; what is wanted and seen only grows; and every call seen was sighted, at
which point a store that a task or sweep for its key was to look into had a status of it. A listing
monitor that goes along knows the same of every key. -/
theorem one_task_until_all_seen (sur : Surroundings) (interval : Nat) (history : List Occurrence) :
    (∀ key n n', (after sur history).IsTask key n → (after sur history).IsTask key n' → n = n') ∧
    (∀ key, (after sur history).isAlive key = true ↔ ∃ n, (after sur history).IsTask key n) ∧
    (∀ key id, id ∈ ((after sur history).posts key).wanted →
      id ∉ ((after sur history).posts key).observed → (after sur history).isAlive key = true) ∧
    (∀ later key,
      ((after sur history).posts key).wanted ⊆ ((after sur (history ++ later)).posts key).wanted ∧
      ((after sur history).posts key).observed ⊆
        ((after sur (history ++ later)).posts key).observed) ∧
    (∀ key id, id ∈ ((after sur history).posts key).observed →
      ∃ before o later, history = before ++ o :: later ∧ Sighting sur before o key id) ∧
    (after sur history).Mirrors (along sur interval history).2 := by
  have manned := manned_after sur history
  refine ⟨?_, ?_, ?_, grows_after sur history, ?_, (along_mirrors sur interval history).2⟩
  · intro key n n' isTask isTask'
    exact Option.some.inj ((manned.last key n isTask).symm.trans (manned.last key n' isTask'))
  · intro key
    exact manned.isAlive_iff
  · intro key id wanted unseen
    apply manned.isAlive_iff.mpr
    refine (manned.seen key).resolve_right fun all => ?_
    exact unseen (Post.sawAll_iff.mp all id wanted)
  · intro key id seen
    exact sighted sur history seen

/-! ### Two jobs with one joined key -/

namespace SharedKey

def first : WatchedJob := ⟨"a-b", "c", ["0"]⟩

def second : WatchedJob := ⟨"a", "b-c", ["0", "1"]⟩

/-- The task of the first job sees its call and ends. A sweep for the second has asked when the
store becomes unavailable; the task that is begun then is failed, and the sweep sees nothing. -/
def history : List Occurrence :=
  [.start first "memory", .moves 0 .proceeds,
    .changed (.leaveStatus "memory" ⟨"a-b", "c", "0"⟩ .ok), .moves 0 .replied, .moves 0 .proceeds,
    .sweep second "memory", .moves 1 .proceeds, .changed (.unavailable "memory" true),
    .start second "memory", .moves 2 .proceeds, .moves 1 .replied, .moves 1 .proceeds]

/-- The second task goes on for the call that has not been seen. The other call it is to watch was
seen for the first job, under the key they share. -/
theorem one_task_until_all_seen_shared :
    (after {} history).lookouts.map (·.inquiry.hasEnded) = [true, true, false] ∧
    ((after {} history).posts "a-b-c").wanted = ["0", "1"] ∧
    ((after {} history).posts "a-b-c").observed = ["0"] ∧
    (after {} history).isAlive "a-b-c" = true ∧
    ∃ before o later, history = before ++ o :: later ∧ Sighting {} before o "a-b-c" "0" := by
  have wanted : ((after {} history).posts "a-b-c").wanted = ["0", "1"] := by decide +kernel
  have observed : ((after {} history).posts "a-b-c").observed = ["0"] := by decide +kernel
  obtain ⟨-, -, alive, -, sightings, -⟩ := one_task_until_all_seen {} 10 history
  refine ⟨by decide +kernel, wanted, observed, ?_, ?_⟩
  · apply alive "a-b-c" "1"
    · rw [wanted]
      decide
    · rw [observed]
      decide
  · apply sightings
    rw [observed]
    exact List.mem_cons_self

end SharedKey

end CallDispatch
