import CallDispatch.Proofs.Tracking.Pauses
import CallDispatch.Proofs.Tracking.WaysOut

/-!
# Waits that make headway

A wait that waits for answers is left alone by the changes that are laid out along it, and monitors
that look only so often put off their next look each time. So the clock moves on, at every moment,
until an answer is due, and every answer leaves less to ask. A wait that does not go to sleep is
therefore at its end after finitely many moments, however long its fetches take.
-/

namespace CallDispatch

/-! ## Monitors that look only so often -/

namespace SessionMonitor

/-- A monitor whose tasks let time pass between their looks. -/
def IsPaced : SessionMonitor → Prop
  | .storage m => m.Keyed ∧ 0 < m.interval
  | .manual _ => True

variable {m : SessionMonitor}

theorem IsPaced.start (paced : m.IsPaced) (job : WatchedJob) (backend : String) :
    (Watcher.start m job backend).IsPaced := by
  cases m with
  | storage m => exact ⟨paced.1.update _ _, paced.2⟩
  | manual m => trivial

theorem IsPaced.restarted (paced : m.IsPaced) (units : List WaitUnit) (futures : List Future)
    (jobKeys : List String) : (restarted units futures jobKeys m).IsPaced := by
  unfold CallDispatch.restarted
  induction jobKeys generalizing m with
  | nil => exact paced
  | cons key rest ih =>
    rw [List.foldl_cons]
    cases units.find? (·.jobKey = key) with
    | none => exact ih paced
    | some u => exact ih (paced.start _ _)

theorem IsPaced.hear (paced : m.IsPaced) (c : Change) : (m.hear c).IsPaced := by
  cases m with
  | storage m => exact paced
  | manual m => cases c <;> trivial

theorem IsPaced.runDue (paced : m.IsPaced) (sur : Surroundings) (now : Nat) :
    (m.runDue sur now).IsPaced := by
  cases m with
  | storage m =>
    obtain ⟨keyed, interval⟩ := ListingMonitor.keyed_runDue paced.1 sur now
    exact ⟨keyed, interval ▸ paced.2⟩
  | manual m => trivial

theorem IsPaced.lt_dueTimes (paced : m.IsPaced) (sur : Surroundings) (now : Nat) :
    ∀ due ∈ (m.runDue sur now).dueTimes, now < due := by
  cases m with
  | storage m => exact ListingMonitor.lt_dueTimes_runDue paced.1 paced.2 sur now
  | manual m => nofun

theorem IsPaced.watchUnits {m : ListingMonitor} (paced : (SessionMonitor.storage m).IsPaced)
    (finishedCalls : String → String → String → Outcome (List String)) (futures : List Future)
    (units : List WaitUnit) :
    (SessionMonitor.storage (Wait.watchUnits finishedCalls futures units m).1).IsPaced := by
  induction units generalizing m with
  | nil => exact paced
  | cons u rest ih =>
    rw [Wait.watchUnits]
    cases finishedCalls u.backend u.executorId u.jobId with
    | error e => exact paced
    | ok ids => exact ih ⟨(paced.1.update _ _).update _ _, paced.2⟩

end SessionMonitor

/-! ## Waits for answers -/

namespace WaitRun

variable {calls : List CallName} {terms : WaitTerms} {futures : List Future} {r r' : WaitRun}
  {i : Nat} {targets : List Target} {p : FetchPool}

/-- A run that waits for the same answers as another, at the same time. -/
structure Awaits (r r' : WaitRun) : Prop where
  phase : r'.wait.phase = r.wait.phase
  pool : r'.pool = r.pool
  now : r'.now = r.now
  deadline : r'.deadline = r.deadline

theorem awaits_change (phase : r.wait.phase = .fetching i targets) (c : Change) :
    r.Awaits (r.change c) := by
  have heard : (r.heard c).cancel = r.heard c := by
    unfold Wait.cancel
    have phase' : (r.heard c).phase = .fetching i targets := phase
    rw [phase']
  refine ⟨?_, rfl, rfl, rfl⟩
  rw [change_wait, heard]
  split <;> rfl

theorem awaits_changes (due : List (Nat × Change)) (phase : r.wait.phase = .fetching i targets) :
    r.Awaits (due.foldl (fun r e => r.change e.2) r) := by
  induction due generalizing r with
  | nil => exact ⟨rfl, rfl, rfl, rfl⟩
  | cons e rest ih =>
    have first := awaits_change phase e.2
    have later := ih (first.phase.trans phase)
    exact ⟨later.phase.trans first.phase, later.pool.trans first.pool, later.now.trans first.now,
      later.deadline.trans first.deadline⟩

/-- The run after the changes that are due. -/
def changed (r : WaitRun) : WaitRun :=
  let due := r.timeline.takeWhile fun e => e.1 ≤ r.now
  due.foldl (fun r e => r.change e.2) { r with timeline := r.timeline.drop due.length }

theorem runDue_eq_looked (r : WaitRun) : r.runDue = r.changed.looked := rfl

theorem visits_changed (r : WaitRun) : r.Visits r.changed :=
  visits_changes _ _ (List.prefix_iff_eq_append.mp (List.takeWhile_prefix _)).symm

theorem awaits_changed (phase : r.wait.phase = .fetching i targets) : r.Awaits r.changed := by
  obtain ⟨phase, pool, now, deadline⟩ :=
    awaits_changes (r := { r with timeline := r.timeline.drop _ }) _ phase
  exact ⟨phase, pool, now, deadline⟩

/-- The changes that are left come later. -/
theorem lt_of_changed (r : WaitRun) : ∀ e ∈ r.changed.timeline.take 1, r.now < e.1 := by
  have timeline (due : List (Nat × Change)) (r : WaitRun) :
      (due.foldl (fun r e => r.change e.2) r).timeline = r.timeline := by
    induction due generalizing r with
    | nil => rfl
    | cons e rest ih => exact ih (r.change e.2)
  have left (now : Nat) (l : List (Nat × Change)) :
      ∀ e ∈ (l.drop (l.takeWhile fun e => e.1 ≤ now).length).take 1, now < e.1 := by
    induction l with
    | nil => nofun
    | cons e rest ih =>
      by_cases due : e.1 ≤ now
      · simpa [List.takeWhile_cons, due] using ih
      · intro e' first
        obtain rfl : e' = e := by simpa [List.takeWhile_cons, due] using first
        omega
  rw [changed, timeline]
  exact left r.now r.timeline

theorem resume_of_fetching (phase : r.wait.phase = .fetching i targets) (isPool : r.pool = some p) :
    r.resume = { r with pool := some (p.wake r.sur r.now r.log).1,
                        log := (p.wake r.sur r.now r.log).2 } := by
  unfold resume
  rw [phase, isPool]

/-- The monitor is left to go on where more calls are to be watched. -/
theorem Contained.isPaced_answer (contained : r.Contained calls terms futures)
    (paced : r.wait.state.monitor.IsPaced) (phase : r.wait.phase = .fetching i targets)
    (isPool : r.pool = some p) (done : p.isDone = true)
    (running : (r.wait.answer p.answers).IsRunning) :
    (r.wait.answer p.answers).state.monitor.IsPaced := by
  have sound := contained.reached.sound.1
  obtain ⟨u, found, fetched⟩ := contained.answers phase isPool done
  obtain ⟨-, kept, absorbs⟩ := sound.answer phase found fetched
  rcases settled : r.wait.state.settle r.wait.provider r.wait.terms p.answers with
    ⟨state, none | e⟩
  · rw [Wait.answer_of_none phase settled]
    rcases WaitState.settle_cases r.wait.provider (sound.grouped (.of_fetching phase)) r.wait.terms
        absorbs.distinct with
      ⟨units, opened, progress, grown, settled', -, -, -⟩ | ⟨after, -, -, e, settled', -, -, -⟩
    · obtain ⟨rfl, -⟩ := Prod.mk.inj (settled.symm.trans settled')
      exact paced.restarted units _ grown
    · cases (Prod.mk.inj (settled.symm.trans settled')).2
  · rw [Wait.answer_of_some phase settled] at running
    exact absurd rfl (running (.error e))

/-- A run with monitors that let time pass between their looks, and an answer coming to what it
waits for. -/
structure Paced (r : WaitRun) : Prop where
  monitor : r.wait.IsRunning → r.wait.state.monitor.IsPaced
  beside : (SessionMonitor.storage r.beside).IsPaced
  pool : ∀ i targets, r.wait.phase = .fetching i targets → ∃ p, r.pool = some p ∧
    0 < p.capacity ∧ (p.waiting = [] ∨ p.capacity ≤ p.pending.length)
  deadline : r.deadline ≠ none → r.wait.terms.timeout ≠ none

theorem Happens.deadline (happens : r.Happens r') : r'.deadline = r.deadline := by
  cases happens with
  | turn turns => exact (turn_cases turns).1.deadline
  | overdue _ => exact r.beside_checkDeadline.deadline
  | changed _ => rfl
  | looked => rfl
  | clock now _ => rfl
  | resumed => exact r.beside_resume.deadline

/-- The pool of a wait for answers serves its targets and is as full as it can be. -/
theorem Paced.serving (paced : r.Paced) (contained : r.Contained calls terms futures)
    (phase : r.wait.phase = .fetching i targets) (isPool : r.pool = some p) :
    0 < p.capacity ∧ (p.waiting = [] ∨ p.capacity ≤ p.pending.length) ∧
      p.Serving (.listing calls) targets [] := by
  obtain ⟨p', isPool', room, full⟩ := paced.pool i targets phase
  obtain rfl : p = p' := Option.some.inj (isPool.symm.trans isPool')
  obtain ⟨p', u, isPool'', -, -, -, serving⟩ := contained.fits.pool i targets phase
  obtain rfl : p = p' := Option.some.inj (isPool.symm.trans isPool'')
  exact ⟨room, full, serving⟩

theorem Paced.turned (paced : r.Paced) (turns : r.wait.Turns r'.wait)
    (beside : r'.beside = r.beside) (pool : r'.pool = r.pool)
    (limited : r'.deadline ≠ none → r'.wait.terms.timeout ≠ none) :
    r'.Paced := by
  constructor
  · intro running
    rw [turns.state]
    exact paced.monitor (turns.running running)
  · exact beside ▸ paced.beside
  · intro i targets phase
    rw [pool]
    exact paced.pool i targets (turns.eq_of_fetching phase ▸ phase)
  · exact limited

/-- A turn starts fetches with as many pending as there is room for, or takes the answers in. -/
theorem Paced.turning (paced : r.Paced) (contained : r.Contained calls terms futures)
    (turns : r.turn = some r') (limited : r'.deadline ≠ none → r'.wait.terms.timeout ≠ none) :
    r'.Paced := by
  obtain ⟨-, ⟨i, phase, isWait⟩ | ⟨i, targets, p, phase, isPool, done, isWait⟩⟩ :=
    turn_cases turns
  · have polls : r' = r.poll := by
      unfold turn at turns
      rw [phase] at turns
      exact (Option.some.inj turns).symm
    subst polls
    refine ⟨fun _ => ?_, ?_, ?_, limited⟩
    · rw [isWait, Wait.state_pollNext]
      exact paced.monitor (.of_polling phase)
    · unfold poll
      dsimp only
      split <;> exact paced.beside
    · intro j targets' phase'
      have fetches := isWait ▸ phase'
      have driven := start_poolOf contained.fits.within r.now (r.wait.pollNext r.sur.cancelled) j
        targets' r.log
      have room : 0 < (poolOf (r.wait.pollNext r.sur.cancelled) j targets').capacity :=
        Nat.lt_of_lt_of_le Nat.zero_lt_one (Nat.le_max_right _ _)
      rw [poll_of_fetching fetches]
      exact ⟨_, rfl, driven.kind.capacity ▸ room, driven.kind.capacity ▸ driven.full⟩
  · have takes : r' = { r with wait := r.wait.answer p.answers, pool := none } :=
      Option.some.inj (turns.symm.trans (turn_of_fetched phase isPool done))
    subst takes
    refine ⟨fun running => ?_, paced.beside, fun j targets' phase' => ?_, limited⟩
    · exact contained.isPaced_answer (paced.monitor (.of_fetching phase)) phase isPool done
        running
    · exact absurd phase' (Wait.answer_not_fetching phase p.answers j targets')

theorem Paced.resumed (paced : r.Paced) (contained : r.Contained calls terms futures)
    (limited : r.resume.deadline ≠ none → r.resume.wait.terms.timeout ≠ none) :
    r.resume.Paced := by
  by_cases fetches : ∃ i targets, r.wait.phase = .fetching i targets
  · obtain ⟨i, targets, phase⟩ := fetches
    obtain ⟨p, isPool, -⟩ := paced.pool i targets phase
    obtain ⟨room, -, serving⟩ := paced.serving contained phase isPool
    have driven := FetchPool.wake_driven contained.fits.within r.now serving r.log
    rw [resume_of_fetching phase isPool]
    refine ⟨paced.monitor, paced.beside, fun _ _ _ => ⟨_, rfl, ?_, ?_⟩, paced.deadline⟩
    · exact driven.kind.capacity ▸ room
    · exact driven.kind.capacity ▸ driven.full
  · refine paced.turned r.resume_turns ?_ ?_ limited
    all_goals
      unfold resume
      split
      · split <;> rfl
      · next i targets phase => exact absurd ⟨i, targets, phase⟩ fetches
      · rfl

theorem Paced.happens (paced : r.Paced) (happens : r.Happens r')
    (contained : r.Contained calls terms futures) : r'.Paced := by
  have limited : r'.deadline ≠ none → r'.wait.terms.timeout ≠ none := by
    have terms_eq := (contained.happens happens).reached.sound.1.terms_eq
    rw [happens.deadline, terms_eq, ← contained.reached.sound.1.terms_eq]
    exact paced.deadline
  cases happens with
  | turn turns => exact paced.turning contained turns limited
  | overdue _ =>
    refine paced.turned r.checkDeadline_turns ?_ ?_ limited
    all_goals
      unfold checkDeadline
      split
      · split <;> rfl
      · rfl
  | @changed time c rest ahead =>
    let r₁ : WaitRun := { r with timeline := rest }
    have turns : (r₁.heard c).Turns (r₁.change c).wait := r₁.change_turns c
    constructor
    · intro running
      rw [turns.state]
      exact (paced.monitor (turns.running running)).hear c
    · exact paced.beside
    · intro i targets phase
      have same := turns.eq_of_fetching phase
      rw [same] at phase
      exact paced.pool i targets phase
    · exact limited
  | looked =>
    exact ⟨fun running => (paced.monitor running).runDue _ _,
      SessionMonitor.IsPaced.runDue paced.beside _ _, paced.pool, limited⟩
  | clock now _ => exact ⟨paced.monitor, paced.beside, paced.pool, limited⟩
  | resumed => exact paced.resumed contained limited

theorem Paced.visits (paced : r.Paced) (contained : r.Contained calls terms futures)
    (visits : r.Visits r') : r'.Paced := by
  induction visits with
  | refl => exact paced
  | tail visits happens ih => exact ih.happens happens (contained.visits visits)

/-- At a moment in which an answer is awaited, whatever else is due is due later. -/
theorem Paced.lt_dueTimes (paced : r.changed.Paced) (phase : r.wait.phase = .fetching i targets)
    (isPool : r.pool = some p) (early : ∀ deadline ∈ r.deadline, r.now < deadline) :
    ∀ due ∈ r.runDue.dueTimes, due ∈ p.pending.map (·.due) ∨ r.now < due := by
  intro due listed
  have awaits := r.awaits_changed phase
  have phase' : r.runDue.wait.phase = .fetching i targets := awaits.phase.trans phase
  have isPool' : r.runDue.pool = some p := awaits.pool.trans isPool
  have isDeadline : r.runDue.deadline = r.deadline := awaits.deadline
  have looks := (paced.monitor (.of_fetching (awaits.phase.trans phase))).lt_dueTimes
    r.changed.sur r.changed.now
  have beside := SessionMonitor.IsPaced.lt_dueTimes paced.beside r.changed.sur r.changed.now
  rw [awaits.now] at looks beside
  have monitor : r.runDue.wait.state.monitor =
      r.changed.wait.state.monitor.runDue r.changed.sur r.now := by
    rw [runDue_eq_looked, looked, awaits.now]
  have aside : r.runDue.beside = r.changed.beside.runDue r.changed.sur r.now := by
    rw [runDue_eq_looked, looked, awaits.now]
  unfold dueTimes at listed
  rw [phase', isPool', isDeadline, monitor, aside] at listed
  simp only [List.mem_append, Option.map_some, Option.getD_some, Option.mem_toList] at listed
  rcases listed with (((own | change) | deadline) | look) | look
  · exact Or.inl own
  · obtain ⟨e, first, rfl⟩ := List.mem_map.mp change
    exact Or.inr (r.lt_of_changed e first)
  · exact Or.inr (early due deadline)
  · exact Or.inr (looks due look)
  · exact Or.inr (beside due look)

theorem checkDeadline_of_early (early : ∀ deadline ∈ r.deadline, r.now < deadline) :
    r.checkDeadline = r := by
  unfold checkDeadline
  cases deadline : r.deadline with
  | none => rfl
  | some deadline => exact if_neg (Nat.not_le_of_lt (early _ deadline))

/-- In a moment of a wait for answers the clock moves on to what is due next, and with it the
fetches. -/
theorem moment_of_fetching (phase : r.wait.phase = .fetching i targets) (isPool : r.pool = some p)
    (early : ∀ deadline ∈ r.deadline, r.now < deadline) {next : Nat}
    (isNext : r.runDue.dueTimes.min? = some next) :
    ∃ there, r.moment = some there.resume ∧ r.Visits there ∧
      there.wait.phase = .fetching i targets ∧ there.pool = some p ∧
      there.now = max r.now next := by
  have awaits := r.awaits_changed phase
  let moved : WaitRun := { r.runDue with now := max r.runDue.now next }
  have phase₁ : moved.wait.phase = .fetching i targets := awaits.phase.trans phase
  have awaits' := moved.awaits_changed phase₁
  have phase₂ : moved.runDue.wait.phase = .fetching i targets := awaits'.phase.trans phase₁
  have isPool₂ : moved.runDue.pool = some p := awaits'.pool.trans (awaits.pool.trans isPool)
  have now₁ : r.runDue.now = r.now := awaits.now
  have now₂ : moved.runDue.now = max r.runDue.now next := awaits'.now
  have visits : r.Visits moved.runDue :=
    ((visits_runDue r).tail (.clock _ (Nat.le_max_left _ _))).trans (visits_runDue moved)
  have running : r.runDue.wait.IsRunning := .of_fetching phase₁
  exact ⟨moved.runDue, moment_eq_some (checkDeadline_of_early early) (.of_fetching phase) running
    isNext (.of_fetching phase₂), visits, phase₂, isPool₂, now₁ ▸ now₂⟩

/-- At the next moment of a wait for answers one of them comes in, or the clock has moved on towards
them all. -/
theorem Paced.moment (paced : r.Paced) (contained : r.Contained calls terms futures)
    (phase : r.wait.phase = .fetching i targets) (isPool : r.pool = some p)
    (left : p.isDone = false) (early : ∀ deadline ∈ r.deadline, r.now < deadline) :
    ∃ r' q, r.moment = some r' ∧ r.Visits r' ∧ r'.wait.phase = .fetching i targets ∧
      r'.pool = some q ∧
      (q.effort < p.effort ∨
        q = p ∧ r.now < r'.now ∧ ∃ f ∈ p.pending, r'.now < f.due) := by
  obtain ⟨room, full, serving⟩ := paced.serving contained phase isPool
  obtain ⟨f, pending⟩ := List.exists_mem_of_ne_nil _ (FetchPool.pending_ne_nil room full left)
  have paced' : r.changed.Paced := paced.visits contained r.visits_changed
  have dues := paced'.lt_dueTimes phase isPool early
  have own : f.due ∈ r.runDue.dueTimes := by
    have awaits := r.awaits_changed phase
    have phase' : r.runDue.wait.phase = .fetching i targets := awaits.phase.trans phase
    have isPool' : r.runDue.pool = some p := awaits.pool.trans isPool
    unfold dueTimes
    rw [phase', isPool']
    simp only [List.mem_append]
    exact Or.inl (Or.inl (Or.inl (Or.inl (List.mem_map_of_mem pending))))
  obtain ⟨next, isNext⟩ : ∃ next, r.runDue.dueTimes.min? = some next := by
    rw [← Option.isSome_iff_exists, List.isSome_min?_iff]
    exact List.ne_nil_of_mem own
  obtain ⟨there, moves, visits, phase', isPool', now⟩ :=
    moment_of_fetching phase isPool early isNext
  have resumes := resume_of_fetching phase' isPool'
  refine ⟨there.resume, _, moves, visits.tail .resumed, ?_, by rw [resumes], ?_⟩
  · rw [resumes]
    exact phase'
  · by_cases some_ : ∃ g ∈ p.pending, g.due ≤ max r.now next
    · obtain ⟨g, pending, due⟩ := some_
      exact Or.inl (serving.effort_wake_lt (contained.visits visits).fits.within pending
        (now ▸ due) _)
    · have later : ∀ g ∈ p.pending, max r.now next < g.due := fun g pending =>
        Nat.lt_of_not_le fun due => some_ ⟨g, pending, due⟩
      have sooner : r.now < next := by
        rcases dues next (List.min?_mem isNext) with mine | others
        · obtain ⟨g, pending, rfl⟩ := List.mem_map.mp mine
          have late := later g pending
          omega
        · exact others
      have now' : there.resume.now = max r.now next := by
        rw [resumes]
        exact now
      refine Or.inr ⟨?_, ?_, f, pending, ?_⟩
      · rw [now, FetchPool.wake_of_none_due later full]
      · omega
      · rw [now']
        exact later f pending

/-- Time is up for a wait that goes on past its deadline. -/
theorem Paced.early (paced : r.Paced) (running : ¬ r.checkDeadline.isFinished = true) :
    ∀ deadline ∈ r.deadline, r.now < deadline := by
  intro deadline isDeadline
  by_contra past
  have limited := paced.deadline (by rw [isDeadline]; nofun)
  refine running ?_
  unfold checkDeadline
  rw [isDeadline]
  dsimp only
  rw [if_pos (Nat.le_of_not_lt past)]
  unfold Wait.expire
  split
  · next finished => exact isFinished_of_finished finished
  · rfl
  · next unlimited _ => exact absurd unlimited limited

/-- A wait that takes no turn of its own, is awake and is not at its end waits for an answer. -/
theorem Paced.awaiting (paced : r.Paced) (blocked : r.turn = none) (running : r.wait.IsRunning)
    (awake : r.wait.phase ≠ .sleeping) :
    ∃ i targets p, r.wait.phase = .fetching i targets ∧ r.pool = some p ∧ p.isDone = false := by
  cases phase : r.wait.phase with
  | polling i =>
    unfold turn at blocked
    rw [phase] at blocked
    cases blocked
  | fetching i targets =>
    obtain ⟨p, isPool, -⟩ := paced.pool i targets phase
    refine ⟨i, targets, p, rfl, isPool, ?_⟩
    by_contra done
    rw [turn_of_fetched phase isPool (Bool.not_eq_false _ |>.mp done)] at blocked
    cases blocked
  | sleeping => exact absurd phase awake
  | finished result => exact absurd phase (running result)

/-- How much a pool may still have to wait for, and for how long. -/
def effort (r : WaitRun) : Nat := (r.pool.map FetchPool.effort).getD 0

def delay (r : WaitRun) : Nat := (r.pool.map fun p => (p.pending.map (·.due)).sum).getD 0 - r.now

theorem delay_lt (isPool : r.pool = some p) (isPool' : r'.pool = some p) {f : PendingFetch}
    (pending : f ∈ p.pending) (sooner : r.now < r'.now) (later : r'.now < f.due) :
    r'.delay < r.delay := by
  have inside : f.due ≤ (p.pending.map (·.due)).sum :=
    List.le_sum_of_mem (List.mem_map_of_mem pending)
  unfold delay
  rw [isPool, isPool']
  show (p.pending.map (·.due)).sum - r'.now < (p.pending.map (·.due)).sum - r.now
  omega

/-- A run that never sleeps comes to its end: each turn shortens what is left of its pass, each
answer leaves less to ask, and while there is none the clock moves on. -/
theorem Contained.ends {r : WaitRun} (contained : r.Contained calls terms futures)
    (known : ∀ f ∈ futures, f.Known calls) (goesOn : r.Prompt ∨ r.Paced)
    (awake : ∀ r', r.Visits r' → r'.wait.phase ≠ .sleeping) :
    ∃ enough, ∀ turns events fuel, enough ≤ turns → enough ≤ events → enough ≤ fuel →
      (fromBlocked turns events (r.untilBlocked fuel)).isFinished = true := by
  have visits {r' : WaitRun} (visits : r.Visits r') : r'.Prompt ∨ r'.Paced := by
    induction visits with
    | refl => exact goesOn
    | tail visits happens ih =>
      have contained' := contained.visits visits
      exact ih.imp (·.happens happens contained') (·.happens happens contained')
  cases turns : r.turn with
  | some r' =>
    have goes := Relation.ReflTransGen.single (WaitRun.Happens.turn turns)
    obtain ⟨enough, ends⟩ := (contained.visits goes).ends known (visits goes)
      fun r'' further => awake r'' (goes.trans further)
    refine ⟨enough + 1, fun turns' events fuel many some_ fits => ?_⟩
    obtain ⟨fuel, rfl⟩ : ∃ n, fuel = n + 1 := ⟨fuel - 1, by omega⟩
    rw [untilBlocked_succ, turns]
    exact ends turns' events fuel (by omega) (by omega) (by omega)
  | none =>
    by_cases ended : r.checkDeadline.isFinished = true
    · refine ⟨0, fun turns' events fuel _ _ _ => ?_⟩
      rw [untilBlocked_of_blocked turns]
      unfold fromBlocked
      dsimp only
      rw [if_pos ended]
      exact ended
    · have running : r.wait.IsRunning := by
        intro result finished
        rw [checkDeadline_of_finished finished, isFinished_of_finished finished] at ended
        exact ended rfl
      have paced : r.Paced := goesOn.resolve_left fun prompt =>
        awake r .refl (prompt.sleeping turns running)
      obtain ⟨i, targets, p, phase, isPool, left⟩ :=
        paced.awaiting turns running (awake r .refl)
      obtain ⟨r', q, moves, goes, phase', isPool', less⟩ :=
        paced.moment contained phase isPool left (paced.early ended)
      obtain ⟨enough, ends⟩ := (contained.visits goes).ends known (visits goes)
        fun r'' further => awake r'' (goes.trans further)
      refine ⟨enough + 1, fun turns' events fuel many some_ fits => ?_⟩
      obtain ⟨events, rfl⟩ : ∃ n, events = n + 1 := ⟨events - 1, by omega⟩
      rw [untilBlocked_of_blocked turns, fromBlocked_of_moment moves, run_succ]
      exact ends turns' events turns' (by omega) (by omega) (by omega)
termination_by (r.wait.phase.ahead calls.length, r.effort, r.delay)
decreasing_by
  · rw [phase, phase']
    refine Prod.Lex.right _ ?_
    rcases less with less | ⟨rfl, sooner, f, pending, later⟩
    · refine Prod.Lex.left _ _ ?_
      unfold effort
      rw [isPool, isPool']
      exact less
    · have same : r'.effort = r.effort := by
        unfold effort
        rw [isPool, isPool']
      rw [same]
      exact Prod.Lex.right _ (delay_lt isPool isPool' pending sooner later)
  · exact Prod.Lex.left _ _ (contained.ahead_lt known turns)

end WaitRun

/-! ## Sessions -/

namespace Session

variable {s : Session}

/-- A session whose monitors let time pass between their looks. -/
structure IsPaced (s : Session) : Prop where
  interval : 0 < s.monitorInterval
  storage : 0 < s.storage.interval
  keyed : s.storage.Keyed

/-- The monitor a wait of such a session enters with. -/
theorem IsPaced.enters (paced : s.IsPaced) {units : List WaitUnit} {m : SessionMonitor}
    (enters : s.Enters units m) : m.IsPaced := by
  have new : (SessionMonitor.storage { interval := s.monitorInterval }).IsPaced :=
    ⟨List.nodup_nil, paced.interval⟩
  unfold Enters at enters
  split at enters
  · rw [enters]
    exact ⟨paced.keyed, paced.storage⟩
  · rw [enters]
    trivial
  · obtain ⟨watching, rfl, watched⟩ := enters
    have watches := new.watchUnits s.sur.stores.finishedCalls s.futures units
    rwa [watched] at watches

theorem startRun_paced (paced : s.IsPaced) (terms : WaitTerms) (timeline : List (Nat × Change)) :
    (s.startRun terms timeline).Paced := by
  have contained := s.startRun_contained terms timeline
  have turns : (s.readied terms (s.sinkOf terms {})).Turns (s.startRun terms timeline).wait :=
    s.startRun_turns terms timeline {} none
  constructor
  · intro running
    rw [turns.state]
    rcases s.readied_cases terms (s.sinkOf terms {}) with ⟨-, m, placed, enters⟩ | ⟨-, foiled⟩
    · rw [placed.monitor]
      exact paced.enters enters
    · obtain ⟨detail, phase⟩ := foiled.phase
      exact absurd phase (turns.running running _)
  · show (SessionMonitor.storage (if _ then _ else _)).IsPaced
    split
    · exact ⟨List.nodup_nil, paced.interval⟩
    · exact ⟨paced.keyed, paced.storage⟩
  · intro i targets phase
    obtain ⟨p, u, isPool, -⟩ := contained.fits.pool i targets phase
    cases isPool
  · intro limited unlimited
    rw [contained.reached.sound.1.terms_eq] at unlimited
    refine limited ?_
    show terms.timeout.map _ = none
    rw [unlimited]
    rfl

end Session

end CallDispatch
