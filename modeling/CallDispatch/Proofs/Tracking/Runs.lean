import CallDispatch.Proofs.Tracking.Pools
import CallDispatch.Tracking.Session

/-!
# Waits in time

A session drives a wait through its fetches, its sleep and the changes laid out along it. Whatever
the surroundings do, the points it drives the wait to are points a wait can come to, so the wait
sets of a session are histories. A run is made of turns, in which the wait goes on, and of moments,
at which something is due; with enough of both allowed it goes where these lead.
-/

namespace CallDispatch

/-- Once the answers to the fetches of a unit have been taken, none is under way. -/
theorem Wait.answer_not_fetching {μ : Type} [Watcher μ] {w : Wait μ} {i : Nat}
    {targets : List Target} (phase : w.phase = .fetching i targets)
    (answers : List (Nat × Outcome FetchAnswer)) (j : Nat) (targets' : List Target) :
    (w.answer answers).phase ≠ .fetching j targets' := by
  rcases settled : w.state.settle w.provider w.terms answers with ⟨state, none | e⟩
  · rw [Wait.answer_of_none phase settled]
    nofun
  · rw [Wait.answer_of_some phase settled]
    nofun

/-- An opening that time may run out in ends within bounds. -/
def Cutting (replies : Replies) (cut : Option Cut) : Prop :=
  ∀ c, cut = some c → ∀ backend, replies.opening backend (.error (.timeout c.limit))

theorem Cutting.none {replies : Replies} : Cutting replies none := nofun

theorem Surroundings.Within.opens {replies : Replies} {sur : Surroundings} {cut : Option Cut}
    (within : sur.Within replies) (cutting : Cutting replies cut) (before : Nat)
    (backend : String) : replies.opening backend (sur.faults.opens cut before backend) := by
  unfold Faults.opens
  split
  · next c =>
    split
    · exact cutting c rfl backend
    · exact within.opening backend
  · exact within.opening backend

namespace WaitRun

/-! ## What a run keeps -/

/-- Changes that leave the surroundings within bounds. -/
def Allowed (replies : Replies) (timeline : List (Nat × Change)) : Prop :=
  ∀ e ∈ timeline, ∀ sur : Surroundings, sur.Within replies → (sur.change e.2).Within replies

/-- A wait under way in surroundings that reply within bounds, with the fetches of the unit being
polled in its pool. -/
structure Fits (replies : Replies) (terms : WaitTerms) (futures : List Future) (r : WaitRun) :
    Prop where
  reached : r.wait.Reached replies terms futures
  within : r.sur.Within replies
  cut : Cutting replies r.cut
  allowed : Allowed replies r.timeline
  pool : ∀ i targets, r.wait.phase = .fetching i targets →
    ∃ p u, r.pool = some p ∧ r.wait.state.units[i]? = some u ∧ p.backend = u.backend ∧
      p.download = terms.download ∧ p.Serving replies targets []

variable {replies : Replies} {terms : WaitTerms} {futures : List Future} {r : WaitRun}

/-- The pool for the fetches of a unit. -/
def poolOf (w : Wait SessionMonitor) (i : Nat) (targets : List Target) : FetchPool where
  backend := ((w.state.units[i]?).map (·.backend)).getD ""
  download := w.terms.download
  capacity := max w.terms.poolSize 1
  waiting := targets

theorem start_poolOf {sur : Surroundings} (within : sur.Within replies) (now : Nat)
    (w : Wait SessionMonitor) (i : Nat) (targets : List Target) (log : FetchLog) :
    FetchPool.Driven replies sur now targets (poolOf w i targets).effort (poolOf w i targets)
      ((poolOf w i targets).start sur now log).1 :=
  FetchPool.start_driven within now (FetchPool.serving_new replies _ _ _ targets) log

/-- The wait after its next unit has been polled, and the fetches started if there are any. -/
def poll (r : WaitRun) : WaitRun :=
  let wait := r.wait.pollNext r.sur.cancelled
  match wait.phase with
  | .fetching i targets =>
    let started := (poolOf wait i targets).start r.sur r.now r.log
    { r with wait, pool := some started.1, log := started.2 }
  | _ => { r with wait, wakeAt := r.now + wait.terms.pollInterval }

theorem poll_of_fetching {i : Nat} {targets : List Target}
    (phase : (r.wait.pollNext r.sur.cancelled).phase = .fetching i targets) :
    r.poll = { r with
      wait := r.wait.pollNext r.sur.cancelled
      pool := some
        ((poolOf (r.wait.pollNext r.sur.cancelled) i targets).start r.sur r.now r.log).1
      log :=
        ((poolOf (r.wait.pollNext r.sur.cancelled) i targets).start r.sur r.now r.log).2 } := by
  unfold poll
  simp only [phase]

theorem poll_of_not_fetching
    (none : ∀ i targets, (r.wait.pollNext r.sur.cancelled).phase ≠ .fetching i targets) :
    r.poll = { r with
      wait := r.wait.pollNext r.sur.cancelled
      wakeAt := r.now + (r.wait.pollNext r.sur.cancelled).terms.pollInterval } := by
  unfold poll
  dsimp only
  split
  · next i targets phase => exact absurd phase (none i targets)
  · rfl

/-- A wait goes on if it polls, or fetches with a pool that is done. -/
def turn (r : WaitRun) : Option WaitRun :=
  match r.wait.phase with
  | .finished _ => none
  | .sleeping => none
  | .polling _ => some r.poll
  | .fetching .. =>
    match r.pool with
    | some pool =>
      if pool.isDone then some { r with wait := r.wait.answer pool.answers, pool := none }
      else none
    | none => none

theorem untilBlocked_succ (fuel : Nat) (r : WaitRun) :
    untilBlocked (fuel + 1) r =
      match r.turn with
      | some r' => untilBlocked fuel r'
      | none => r := by
  rw [untilBlocked, turn]
  cases r.wait.phase with
  | finished result => rfl
  | sleeping => rfl
  | polling i =>
    simp only [poll]
    cases (r.wait.pollNext r.sur.cancelled).phase <;> rfl
  | fetching i targets =>
    cases r.pool with
    | none => rfl
    | some pool =>
      dsimp only
      by_cases done : pool.isDone = true
      · rw [if_pos done, if_pos done]
      · rw [if_neg done, if_neg done]

namespace Fits

theorem poll (fits : r.Fits replies terms futures) : r.poll.Fits replies terms futures := by
  have reached := fits.reached.polled r.sur.cancelled
  have sound := reached.sound.1
  by_cases fetches : ∃ i targets,
      (r.wait.pollNext r.sur.cancelled).phase = .fetching i targets
  · obtain ⟨i, targets, phase⟩ := fetches
    obtain ⟨u, found, -⟩ := sound.fetching i targets phase
    have driven :=
      start_poolOf fits.within r.now (r.wait.pollNext r.sur.cancelled) i targets r.log
    have backend : (poolOf (r.wait.pollNext r.sur.cancelled) i targets).backend = u.backend := by
      rw [poolOf, found]
      rfl
    rw [poll_of_fetching phase]
    refine ⟨reached, fits.within, fits.cut, fits.allowed, ?_⟩
    intro j targets' phase'
    have same : Phase.fetching i targets = .fetching j targets' := phase.symm.trans phase'
    cases same
    exact ⟨_, u, rfl, found, driven.kind.backend.trans backend,
      driven.kind.download.trans (congrArg WaitTerms.download sound.terms_eq), driven.serving⟩
  · rw [poll_of_not_fetching fun i targets phase => fetches ⟨i, targets, phase⟩]
    exact ⟨reached, fits.within, fits.cut, fits.allowed,
      fun i targets phase => absurd ⟨i, targets, phase⟩ fetches⟩

/-- What a pool that is done hands over are the answers to the fetches of a unit. -/
theorem answers (fits : r.Fits replies terms futures) {i : Nat} {targets : List Target}
    {p : FetchPool} (phase : r.wait.phase = .fetching i targets) (isPool : r.pool = some p)
    (done : p.isDone = true) : ∃ u, r.wait.state.units[i]? = some u ∧
      Answers replies u.backend terms.download targets p.answers := by
  obtain ⟨p', u, isPool', found, backend, download, serving⟩ := fits.pool i targets phase
  obtain rfl : p = p' := Option.some.inj (isPool.symm.trans isPool')
  exact ⟨u, found, download ▸ backend ▸ serving.done done⟩

theorem turn {r' : WaitRun} (fits : r.Fits replies terms futures) (turns : r.turn = some r') :
    r'.Fits replies terms futures := by
  unfold WaitRun.turn at turns
  split at turns
  · cases turns
  · cases turns
  · cases turns
    exact fits.poll
  · next i targets phase =>
    cases isPool : r.pool with
    | none =>
      rw [isPool] at turns
      cases turns
    | some p =>
      rw [isPool] at turns
      dsimp only at turns
      split at turns
      · next done =>
        cases turns
        obtain ⟨u, found, answers⟩ := fits.answers phase isPool done
        refine ⟨fits.reached.answered phase found answers, fits.within, fits.cut, fits.allowed, ?_⟩
        intro j targets' phase'
        exact absurd phase' (Wait.answer_not_fetching phase p.answers j targets')
      · cases turns

theorem untilBlocked (fits : r.Fits replies terms futures) (fuel : Nat) :
    (r.untilBlocked fuel).Fits replies terms futures := by
  induction fuel generalizing r with
  | zero => exact fits
  | succ fuel ih =>
    rw [untilBlocked_succ]
    cases turns : r.turn with
    | none => exact fits
    | some r' => exact ih (fits.turn turns)

/-- A run whose wait has taken a turn that starts no fetches. -/
theorem turned (fits : r.Fits replies terms futures) {wait : Wait SessionMonitor}
    (reached : wait.Reached replies terms futures) (turns : r.wait.Turns wait) :
    ({ r with wait } : WaitRun).Fits replies terms futures := by
  refine ⟨reached, fits.within, fits.cut, fits.allowed, ?_⟩
  intro i targets phase
  obtain rfl := turns.eq_of_fetching phase
  exact fits.pool i targets phase

theorem checkDeadline (fits : r.Fits replies terms futures) :
    r.checkDeadline.Fits replies terms futures := by
  unfold WaitRun.checkDeadline
  split
  · split
    · exact fits.turned fits.reached.expired r.wait.expire_turns
    · exact fits
  · exact fits

theorem change (fits : r.Fits replies terms futures) {c : Change}
    (within : (r.sur.change c).Within replies) : (r.change c).Fits replies terms futures := by
  let changed : Wait SessionMonitor := { r.wait with
    state := { r.wait.state with monitor := r.wait.state.monitor.hear c }
    provider := { r.wait.provider with openBackend := (r.sur.change c).faults.opens r.cut } }
  have reached : changed.Reached replies terms futures :=
    .provided (.watched (r.wait.state.monitor.hear c) fits.reached) (within.opens fits.cut)
  have heard : ({ r with sur := r.sur.change c, wait := changed } : WaitRun).Fits replies terms
      futures := ⟨reached, within, fits.cut, fits.allowed, fits.pool⟩
  have changes : r.change c = { r with sur := r.sur.change c
                                       wait := if (r.sur.change c).cancelled then changed.cancel
                                         else changed } := rfl
  rw [changes]
  split
  · exact heard.turned reached.cancelled changed.cancel_turns
  · exact heard

theorem changes (fits : r.Fits replies terms futures) {due : List (Nat × Change)}
    (allowed : Allowed replies due) :
    (due.foldl (fun r e => r.change e.2) r).Fits replies terms futures := by
  induction due generalizing r with
  | nil => exact fits
  | cons e rest ih =>
    have first := fits.change (allowed e List.mem_cons_self r.sur fits.within)
    exact ih first fun e' member => allowed e' (List.mem_cons_of_mem e member)

theorem runDue (fits : r.Fits replies terms futures) : r.runDue.Fits replies terms futures := by
  let due := r.timeline.takeWhile fun e => e.1 ≤ r.now
  have now : Allowed replies due := fun e member =>
    fits.allowed e ((List.takeWhile_prefix _).subset member)
  have later : Allowed replies (r.timeline.drop due.length) := fun e member =>
    fits.allowed e (List.mem_of_mem_drop member)
  have rest : ({ r with timeline := r.timeline.drop due.length } : WaitRun).Fits replies terms
      futures := ⟨fits.reached, fits.within, fits.cut, later, fits.pool⟩
  have after := rest.changes now
  exact ⟨.watched _ after.reached, after.within, after.cut, after.allowed, after.pool⟩

theorem resume (fits : r.Fits replies terms futures) : r.resume.Fits replies terms futures := by
  unfold WaitRun.resume
  split
  · split
    · exact fits.turned (fits.reached.woken _) (r.wait.wake_turns _)
    · exact fits
  · next i targets phase =>
    obtain ⟨p, u, isPool, found, backend, download, serving⟩ := fits.pool i targets phase
    rw [isPool]
    have driven := FetchPool.wake_driven fits.within r.now serving r.log
    refine ⟨fits.reached, fits.within, fits.cut, fits.allowed, ?_⟩
    intro j targets' phase'
    have same : Phase.fetching i targets = .fetching j targets' := phase.symm.trans phase'
    cases same
    exact ⟨_, u, rfl, found, driven.kind.backend.trans backend,
      driven.kind.download.trans download, driven.serving⟩
  · exact fits

/-- A run with its clock set fits as before. -/
theorem setClock (fits : r.Fits replies terms futures) (now : Nat) :
    ({ r with now } : WaitRun).Fits replies terms futures :=
  ⟨fits.reached, fits.within, fits.cut, fits.allowed, fits.pool⟩

theorem run (fits : r.Fits replies terms futures) (turns events : Nat) :
    (r.run turns events).Fits replies terms futures := by
  induction events generalizing r with
  | zero => exact fits
  | succ events ih =>
    have blocked := (fits.untilBlocked turns).checkDeadline
    rw [WaitRun.run]
    dsimp only
    split
    · exact blocked
    · split
      · exact blocked.runDue
      · split
        · exact blocked.runDue
        · next next _ =>
          have later := (blocked.runDue.setClock
            (max ((r.untilBlocked turns).checkDeadline.runDue).now next)).runDue
          split
          · exact later
          · exact ih later.resume

end Fits

/-- Polling a unit: it is passed over, or its fetches are started. -/
theorem turn_of_polling (reached : r.wait.Reached replies terms futures)
    (within : r.sur.Within replies) {i : Nat} {u : WaitUnit} (phase : r.wait.phase = .polling i)
    (found : r.wait.state.units[i]? = some u) :
    (r.wait.state.targets terms.download u = [] ∧
      ({ r.wait with phase := .polling (i + 1) } : Wait _).Reached replies terms futures ∧
      ∃ wakeAt,
        r.turn = some { r with wait := { r.wait with phase := .polling (i + 1) }, wakeAt }) ∨
    ∃ p q log, r.turn = some { r with
        wait := { r.wait with phase := .fetching i (r.wait.state.targets terms.download u) }
        pool := some q, log } ∧
      ({ r.wait with phase := .fetching i (r.wait.state.targets terms.download u) } :
        Wait _).Reached replies terms futures ∧
      p.backend = u.backend ∧ p.download = terms.download ∧ 0 < p.capacity ∧ p.pending = [] ∧
      FetchPool.Driven replies r.sur r.now (r.wait.state.targets terms.download u) p.effort p
        q := by
  have turns : r.turn = some r.poll := by
    unfold turn
    rw [phase]
  have isTerms := reached.sound.1.terms_eq
  have polled := reached.polled r.sur.cancelled
  rw [turns]
  cases targets : r.wait.state.targets terms.download u with
  | nil =>
    have skips : r.wait.pollNext r.sur.cancelled = { r.wait with phase := .polling (i + 1) } := by
      unfold Wait.pollNext
      simp only [phase, found, isTerms, targets]
    rw [poll_of_not_fetching (by rw [skips]; nofun), skips]
    exact Or.inl ⟨rfl, skips ▸ polled, _, rfl⟩
  | cons t rest =>
    have fetches : r.wait.pollNext r.sur.cancelled =
        { r.wait with phase := .fetching i (t :: rest) } := by
      unfold Wait.pollNext
      simp only [phase, found, isTerms, targets]
    have driven := start_poolOf within r.now r.wait i (t :: rest) r.log
    rw [poll_of_fetching (by rw [fetches]), fetches]
    refine Or.inr ⟨poolOf r.wait i (t :: rest), _, _, rfl, fetches ▸ polled, ?_,
      congrArg WaitTerms.download isTerms,
      Nat.lt_of_lt_of_le Nat.zero_lt_one (Nat.le_max_right _ _), rfl, driven⟩
    rw [poolOf, found]
    rfl

/-- Once all units have been polled, the pass is over. -/
theorem turn_of_passed {i : Nat} (phase : r.wait.phase = .polling i)
    (none : r.wait.state.units[i]? = none) :
    ∃ wakeAt, r.turn = some { r with wait := r.wait.passed r.sur.cancelled, wakeAt } := by
  have passes := Wait.pollNext_of_passed phase none r.sur.cancelled
  have still (j : Nat) (targets : List Target) :
      (r.wait.passed r.sur.cancelled).phase ≠ .fetching j targets := by
    unfold Wait.passed
    split
    · nofun
    · split <;> nofun
  unfold turn
  rw [phase]
  dsimp only
  rw [poll_of_not_fetching (by rw [passes]; exact still), passes]
  exact ⟨_, rfl⟩

/-- Once the fetches of a unit have been answered, the answers are taken. -/
theorem turn_of_fetched {i : Nat} {targets : List Target} {p : FetchPool}
    (phase : r.wait.phase = .fetching i targets) (isPool : r.pool = some p)
    (done : p.isDone = true) :
    r.turn = some { r with wait := r.wait.answer p.answers, pool := none } := by
  unfold turn
  rw [phase, isPool]
  exact if_pos done

/-! ## Enough turns and moments -/

/-- A blocked wait at the next moment at which something is due, if it goes on there. -/
def moment (r : WaitRun) : Option WaitRun :=
  let r := r.checkDeadline
  if r.isFinished then none
  else
    let r := r.runDue
    if r.isFinished then none
    else match r.dueTimes.min? with
      | none => none
      | some next =>
        let r := { r with now := max r.now next }.runDue
        if r.isFinished then none else some r.resume

/-- Where a run leads, turn by turn and moment by moment. -/
inductive Leads : WaitRun → WaitRun → Prop where
  | stays (r : WaitRun) : Leads r r
  | turn {r r' last : WaitRun} : r.turn = some r' → Leads r' last → Leads r last
  | moment {r r' last : WaitRun} : r.turn = none → r.moment = some r' → Leads r' last →
      Leads r last

theorem Leads.trans {r r' last : WaitRun} (first : Leads r r') (second : Leads r' last) :
    Leads r last := by
  induction first with
  | stays r => exact second
  | turn turns _ ih => exact .turn turns (ih second)
  | moment blocked passes _ ih => exact .moment blocked passes (ih second)

/-- What is left of a run once the wait is blocked. -/
def fromBlocked (turns events : Nat) (r : WaitRun) : WaitRun :=
  let r := r.checkDeadline
  if r.isFinished then r
  else
    let r := r.runDue
    if r.isFinished then r
    else match r.dueTimes.min? with
      | none => r
      | some next =>
        let r := { r with now := max r.now next }.runDue
        if r.isFinished then r else run turns events r.resume

theorem run_succ (turns events : Nat) (r : WaitRun) :
    run turns (events + 1) r = fromBlocked turns events (r.untilBlocked turns) := rfl

theorem fromBlocked_of_moment {turns events : Nat} {r r' : WaitRun}
    (passes : r.moment = some r') : fromBlocked turns events r = run turns events r' := by
  unfold moment at passes
  unfold fromBlocked
  dsimp only at passes ⊢
  split at passes
  · cases passes
  · next going =>
    rw [if_neg going]
    split at passes
    · cases passes
    · next going' =>
      rw [if_neg going']
      cases due : r.checkDeadline.runDue.dueTimes.min? with
      | none =>
        rw [due] at passes
        cases passes
      | some next =>
        rw [due] at passes
        dsimp only at passes ⊢
        split at passes
        · cases passes
        · next going'' =>
          cases passes
          rw [if_neg going'']

theorem untilBlocked_of_blocked {r : WaitRun} (blocked : r.turn = none) (fuel : Nat) :
    r.untilBlocked fuel = r := by
  cases fuel with
  | zero => rfl
  | succ fuel => rw [untilBlocked_succ, blocked]

/-- Whether a wait is blocked depends on its phase and its pool alone. -/
theorem turn_eq_none_of_same {r r' : WaitRun} (phase : r'.wait.phase = r.wait.phase)
    (pool : r'.pool = r.pool) (blocked : r.turn = none) : r'.turn = none := by
  unfold turn at blocked ⊢
  rw [phase, pool]
  split
  · rfl
  · rfl
  · next i polling =>
    rw [polling] at blocked
    cases blocked
  · next i targets fetching =>
    rw [fetching] at blocked
    cases isPool : r.pool with
    | none => rfl
    | some p =>
      rw [isPool] at blocked
      dsimp only at blocked ⊢
      by_cases done : p.isDone = true
      · rw [if_pos done] at blocked
        cases blocked
      · exact if_neg done

section
variable {r : WaitRun} {result : Outcome Unit} (finished : r.wait.phase = .finished result)
include finished

theorem isFinished_of_finished : r.isFinished = true := by
  unfold isFinished
  rw [finished]

/-- Time is not called on a wait that is finished. -/
theorem checkDeadline_of_finished : r.checkDeadline = r := by
  have expires : r.wait.expire = r.wait := by
    unfold Wait.expire
    rw [finished]
  unfold checkDeadline
  split
  · split
    · rw [expires]
    · rfl
  · rfl

theorem turn_of_finished : r.turn = none := by
  unfold turn
  rw [finished]

theorem moment_of_finished : r.moment = none := by
  unfold moment
  rw [checkDeadline_of_finished finished]
  exact if_pos (isFinished_of_finished finished)

theorem fromBlocked_of_finished (turns events : Nat) : fromBlocked turns events r = r := by
  unfold fromBlocked
  rw [checkDeadline_of_finished finished]
  exact if_pos (isFinished_of_finished finished)

/-- A finished wait leads nowhere else. -/
theorem Leads.eq_of_finished {last : WaitRun} (leads : Leads r last) : last = r := by
  cases leads with
  | stays => rfl
  | turn turns _ => cases (turn_of_finished finished).symm.trans turns
  | moment _ passes _ => cases (moment_of_finished finished).symm.trans passes

end

/-- With enough turns and moments allowed, a run ends where it leads. -/
theorem Leads.run_eq {r last : WaitRun} {result : Outcome Unit} (leads : Leads r last)
    (finished : last.wait.phase = .finished result) :
    ∃ enough, ∀ limit, enough ≤ limit → last = r.run limit limit := by
  have goesOn : ∃ enough, ∀ turns events fuel, enough ≤ turns → enough ≤ events →
      enough ≤ fuel → fromBlocked turns events (r.untilBlocked fuel) = last := by
    induction leads with
    | stays r =>
      refine ⟨0, fun turns events fuel _ _ _ => ?_⟩
      have blocked := turn_of_finished finished
      rw [untilBlocked_of_blocked blocked, fromBlocked_of_finished finished]
    | turn turns _ ih =>
      obtain ⟨enough, ih⟩ := ih finished
      refine ⟨enough + 1, fun turns' events fuel many some_ fits => ?_⟩
      obtain ⟨fuel, rfl⟩ : ∃ n, fuel = n + 1 := ⟨fuel - 1, by omega⟩
      rw [untilBlocked_succ, turns]
      exact ih turns' events fuel (by omega) (by omega) (by omega)
    | moment blocked passes _ ih =>
      obtain ⟨enough, ih⟩ := ih finished
      refine ⟨enough + 1, fun turns events fuel many some_ fits => ?_⟩
      obtain ⟨events, rfl⟩ : ∃ n, events = n + 1 := ⟨events - 1, by omega⟩
      rw [untilBlocked_of_blocked blocked, fromBlocked_of_moment passes, run_succ]
      exact ih turns events turns (by omega) (by omega) (by omega)
  obtain ⟨enough, goesOn⟩ := goesOn
  refine ⟨enough + 1, fun limit fits => ?_⟩
  obtain ⟨events, rfl⟩ : ∃ n, limit = n + 1 := ⟨limit - 1, by omega⟩
  rw [run_succ]
  exact (goesOn (events + 1) events (events + 1) (by omega) (by omega) (by omega)).symm

end WaitRun

/-! ## The wait sets of a session -/

namespace Session

variable {replies : Replies} {terms : WaitTerms} {s : Session}

/-- The wait of a session once its units are made. -/
def prepared (s : Session) (terms : WaitTerms) (progress : Progress) (m : SessionMonitor)
    (cut : Option Cut := none) : Wait SessionMonitor :=
  .prepare terms (s.provider cut) m progress s.futures

theorem watchAll_none (s : Session) (units : List WaitUnit) :
    s.watchAll units = Wait.watchUnits s.sur.stores.finishedCalls s.futures units
      { interval := s.monitorInterval } := rfl

/-- A wait begins by being entered, once its units are made and watched. -/
theorem beginWait_entered (within : s.sur.Within replies) (terms : WaitTerms)
    (progress : Progress) {cut : Option Cut} (cutting : Cutting replies cut) :
    ∃ w : Wait SessionMonitor, s.beginWait terms progress cut = w.enter s.sur.cancelled ∧
      w.Reached replies terms s.futures ∧ ∀ i targets, w.phase ≠ .fetching i targets := by
  have reached (m : SessionMonitor) :
      (s.prepared terms progress m cut).Reached replies terms s.futures :=
    .prepared m progress (within.opens cutting)
  have still (m : SessionMonitor) (i : Nat) (targets : List Target) :
      (s.prepared terms progress m cut).phase ≠ .fetching i targets := by
    unfold prepared Wait.prepare
    dsimp only
    split <;> nofun
  unfold beginWait
  cases s.choice with
  | storage => exact ⟨_, rfl, reached _, still _⟩
  | manual => exact ⟨_, rfl, reached _, still _⟩
  | own =>
    dsimp only
    split
    · exact ⟨_, rfl, reached _, still _⟩
    · have watched (m : SessionMonitor) :=
        Wait.Reached.watched m (reached (.storage { interval := s.monitorInterval }))
      rcases s.watchAll _ cut with ⟨m, none | e⟩
      · exact ⟨_, rfl, watched (.storage m), still _⟩
      · exact ⟨_, rfl, .unwatched e (watched (.storage m)), nofun⟩

/-- The wait of a session with a monitor of its own, once its units are made and have been swept. -/
theorem beginWait_own (own : s.choice = .own)
    (opens : ∀ backend, s.sur.faults.openBackend backend = .ok ())
    (available : ∀ f ∈ s.futures, (s.sur.stores.store f.backend).unavailable = false)
    (terms : WaitTerms) (progress : Progress) :
    ∃ (w : Wait SessionMonitor) (m : ListingMonitor),
      s.beginWait terms progress = w.enter s.sur.cancelled ∧ w.terms = terms ∧
      w.phase = .sleeping ∧ w.passes = 0 ∧ w.state.futures = s.futures ∧
      w.state.monitor = .storage m ∧ Grouped (s.futures.map Future.name) w.state.units ∧
      m.Keyed ∧
      (∀ u ∈ w.state.units, m.watched u.jobKey =
        ListingMonitor.JobWatch.started (u.watchedJob s.futures) u.backend
          { observed := extend [] (u.finishedCalls s.sur.stores) }) ∧
      ∀ key, (∀ u ∈ w.state.units, u.jobKey ≠ key) → m.watched key = {} := by
  obtain ⟨units, opened, placed, grouped⟩ : ∃ units opened,
      WaitState.placeAll s.provider 0 s.futures
        { futures := s.futures, monitor := SessionMonitor.storage { interval := s.monitorInterval },
          progress } =
        ({ futures := s.futures, units, monitor := .storage { interval := s.monitorInterval },
           progress, opened }, none) ∧
      Grouped (s.futures.map Future.name) units := by
    rcases WaitState.placeAll_cases
      (s := { futures := s.futures, progress,
              monitor := SessionMonitor.storage { interval := s.monitorInterval } })
      s.provider Grouped.empty s.futures with
      ⟨units, opened, placed, grouped⟩ | ⟨_, _, backend, e, _, _, closed⟩
    · exact ⟨units, opened, placed, by simpa using grouped⟩
    · cases (opens backend).symm.trans closed
  have stores : ∀ u ∈ units, (s.sur.stores.store u.backend).unavailable = false := by
    intro u member
    obtain ⟨name, atHead, heading⟩ := grouped.first u member
    obtain ⟨f, listed, rfl⟩ := List.mem_map.mp (jobKey_of_firstOf atHead).1
    have backend : u.backend = f.backend := congrArg (·.2.2) heading
    rw [backend]
    exact available f listed
  obtain ⟨m, watches, keyed, -, each, none⟩ := Wait.watchUnits_ok s.futures stores
    grouped.distinct (m := { interval := s.monitorInterval }) List.nodup_nil
  refine ⟨{ terms, provider := s.provider,
            state := { futures := s.futures, units, monitor := .storage m, progress, opened },
            phase := .sleeping }, m, ?_, rfl, rfl, rfl, rfl, rfl, grouped, keyed, each, none⟩
  unfold beginWait Wait.prepare
  rw [own]
  dsimp only
  rw [placed]
  dsimp only
  rw [watchAll_none, watches]

theorem cutBy_none (terms : WaitTerms) : cutBy terms none = none := rfl

/-- The run of a wait at its start. -/
def startRun (s : Session) (terms : WaitTerms) (timeline : List (Nat × Change))
    (sink : Progress := {}) (cutIn : Option CutPoint := none) : WaitRun where
  now := s.now
  sur := s.sur
  wait := s.beginWait terms ((sink.tell (.total s.futures.length)).tell
    (.inc (s.futures.filter (·.isComplete terms.download)).length)) (cutBy terms cutIn)
  cut := cutBy terms cutIn
  beside := if s.choice = .storage then { interval := s.monitorInterval } else s.storage
  timeline := timeline.map fun (t, c) => (s.now + t, c)
  deadline := terms.timeout.map (s.now + ·)

/-- A wait for a set that is complete returns at once. -/
theorem wait_of_complete (timeline : List (Nat × Change))
    (complete : s.futures.all (·.isComplete terms.download) = true) (sink : Progress := {})
    (cutIn : Option CutPoint := none) :
    (s.wait terms timeline sink cutIn).1 = s ∧ (s.wait terms timeline sink cutIn).2.1 = .ok () ∧
      (s.wait terms timeline sink cutIn).2.2.passes = 0 := by
  unfold wait
  rw [if_pos complete]
  exact ⟨rfl, rfl, rfl⟩

/-- Any other wait is run. -/
theorem wait_of_incomplete (timeline : List (Nat × Change)) {sink : Progress}
    {cutIn : Option CutPoint} {r : WaitRun}
    (open_ : s.futures.all (·.isComplete terms.download) = false)
    (ran : (s.startRun terms timeline sink cutIn).run s.limit s.limit = r) :
    (s.wait terms timeline sink cutIn).1.futures = r.wait.state.futures ∧
      (s.wait terms timeline sink cutIn).2.1 = outcomeOf r.wait.phase ∧
      (s.wait terms timeline sink cutIn).2.2.passes = r.wait.passes := by
  subst ran
  unfold wait
  rw [if_neg (by simp [open_])]
  refine ⟨?_, rfl, rfl⟩
  unfold afterRun
  dsimp only
  split <;> rfl

/-- What else is told of a wait that is run. -/
theorem report_of_incomplete (timeline : List (Nat × Change)) {sink : Progress}
    {cutIn : Option CutPoint} {r : WaitRun}
    (open_ : s.futures.all (·.isComplete terms.download) = false)
    (ran : (s.startRun terms timeline sink cutIn).run s.limit s.limit = r) :
    (s.wait terms timeline sink cutIn).1.sur = r.sur ∧
      (s.wait terms timeline sink cutIn).2.2.log = r.log ∧
      (s.wait terms timeline sink cutIn).2.2.elapsed = r.now - s.now := by
  subst ran
  unfold wait
  rw [if_neg (by simp [open_])]
  refine ⟨?_, rfl, rfl⟩
  unfold afterRun
  dsimp only
  split <;> rfl

theorem startRun_fits {timeline : List (Nat × Change)} {sink : Progress} {cutIn : Option CutPoint}
    (within : s.sur.Within replies) (allowed : WaitRun.Allowed replies timeline)
    (cutting : Cutting replies (cutBy terms cutIn)) :
    (s.startRun terms timeline sink cutIn).Fits replies terms s.futures := by
  obtain ⟨w, begins, reached, still⟩ := s.beginWait_entered within terms
    ((sink.tell (.total s.futures.length)).tell
      (.inc (s.futures.filter (·.isComplete terms.download)).length)) cutting
  refine ⟨?_, within, cutting, ?_, ?_⟩
  · unfold startRun
    rw [begins]
    exact .entered s.sur.cancelled reached
  · intro e member
    obtain ⟨e', listed, rfl⟩ := List.mem_map.mp member
    exact allowed e' listed
  · intro i targets phase
    have entered : (w.enter s.sur.cancelled).phase = .fetching i targets := begins ▸ phase
    have same := (w.enter_turns s.sur.cancelled).eq_of_fetching entered
    rw [same] at entered
    exact absurd entered (still i targets)

/-- What a wait of a session makes of its wait set is a history. -/
theorem wait_tracked {initial : List Future} {timeline : List (Nat × Change)}
    (tracked : Tracked replies initial s.futures) (within : s.sur.Within replies)
    (allowed : WaitRun.Allowed replies timeline) :
    Tracked replies initial (s.wait terms timeline).1.futures := by
  cases complete : s.futures.all (·.isComplete terms.download) with
  | true =>
    rw [(wait_of_complete timeline complete).1]
    exact tracked
  | false =>
    have fits : (s.startRun terms timeline).Fits replies terms s.futures :=
      startRun_fits within allowed .none
    rw [(wait_of_incomplete timeline complete rfl).1]
    exact .waited tracked (fits.run s.limit s.limit).reached

end Session

end CallDispatch
