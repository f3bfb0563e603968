import CallDispatch.Proofs.Tracking.Beginning
import CallDispatch.Proofs.Tracking.Points
import CallDispatch.Proofs.Tracking.Raising

/-!
# Waits in lockstep

Whether failures are raised makes no difference to what a wait records, nor to when it polls, sleeps
or returns, until an answer brings the status of a call that failed. So a wait that raises failures
goes in lockstep with one that passes them over, up to the first failure recorded.
-/

namespace CallDispatch

/-- The same terms, but failures are raised. -/
def WaitTerms.raising (terms : WaitTerms) : WaitTerms := { terms with throwing := true }

/-! ## Recording answers -/

/-- The error that tells of the failure a future has recorded. -/
def Future.failure? (f : Future) : Option DispatchError :=
  f.status.bind fun s => s.failureMessage?.map f.failed

/-- An answer that brings a status and an output brings the status of a success. -/
def BringsSuccess (answer : Outcome FetchAnswer) : Prop :=
  ∀ s o, answer = .ok (.result (some s) (some o)) → s.success = true

theorem Target.Comes.bringsSuccess {replies : Replies} {backend : String} {download : Bool}
    {t : Target} {answer : Outcome FetchAnswer}
    (comes : t.Comes replies backend download (.finished answer)) : BringsSuccess answer := by
  rintro s o rfl
  exact (comes.knows.2.2 o rfl).2.2.1 s rfl

theorem Answers.bringSuccess {replies : Replies} {backend : String} {download : Bool}
    {targets : List Target} {answers : List (Nat × Outcome FetchAnswer)}
    (fetched : Answers replies backend download targets answers) :
    ∀ x ∈ answers, BringsSuccess x.2 := by
  intro x listed
  obtain ⟨t, -, -, comes⟩ := fetched.each x listed
  exact comes.bringsSuccess

namespace Future

variable {f : Future} {answer : Outcome FetchAnswer}

theorem failed_withStatus (s : StatusRecord) : (f.withStatus s).failed = f.failed := by
  unfold failed
  rw [key_eq_of_name (f.withStatus_name s)]

theorem failure?_withStatus (s : StatusRecord) :
    (f.withStatus s).failure? = s.failureMessage?.map f.failed := by
  rw [failure?, withStatus_status, failed_withStatus]
  rfl

theorem failure?_withOutput (o : OutputRecord) : (f.withOutput o).failure? = f.failure? := by
  cases o <;> rfl

theorem statusError?_true (s : StatusRecord) :
    f.statusError? true s = s.failureMessage?.map f.failed := by
  unfold statusError?
  cases s.failureMessage? <;> rfl

/-- What is recorded does not depend on whether failures are raised. -/
theorem recorded_eq (brings : BringsSuccess answer) (throwing throwing' : Bool) :
    f.recorded throwing answer = f.recorded throwing' answer := by
  match answer, brings with
  | .error _, _ => rfl
  | .ok (.status none), _ => rfl
  | .ok (.status (some _)), _ => rfl
  | .ok (.result none none), _ => rfl
  | .ok (.result none (some _)), _ => rfl
  | .ok (.result (some s) none), _ =>
    simp only [recorded, record]
    cases f.statusError? throwing s <;> cases f.statusError? throwing' s <;> rfl
  | .ok (.result (some s) (some o)), brings =>
    have passed := failureMessage?_eq_none (brings s o rfl)
    simp only [recorded, record, statusError?, passed]

/-- Where no failure was recorded before, the error raised by an answer tells of the failure that is
recorded now. -/
theorem raised_eq_failure? {a : FetchAnswer} (brings : BringsSuccess (.ok a))
    (unfailed : f.failure? = none) :
    f.raised true (.ok a) = (f.recorded true (.ok a)).failure? := by
  match a, brings with
  | .status none, _ => exact unfailed.symm
  | .status (some s), _ =>
    exact (statusError?_true s).trans (failure?_withStatus s).symm
  | .result none none, _ => exact unfailed.symm
  | .result none (some o), _ =>
    simp only [raised, recorded, record]
    split
    · exact unfailed.symm
    · exact ((failure?_withOutput o).trans unfailed).symm
  | .result (some s) none, _ =>
    have same := (statusError?_true s).trans (failure?_withStatus (f := f) s).symm
    simp only [raised, recorded, record]
    cases error : f.statusError? true s <;> exact error.symm.trans same
  | .result (some s) (some o), brings =>
    have passed := failureMessage?_eq_none (brings s o rfl)
    simp only [raised, recorded, record, statusError?, passed]
    split
    · rw [failure?_withStatus, passed]
      rfl
    · rw [failure?_withOutput, failure?_withStatus, passed]
      rfl

end Future

namespace Recorded

variable {terms : WaitTerms} {r r' : Recorded}

/-- Two records that agree on all but errors. -/
structure Agrees (r r' : Recorded) : Prop where
  futures : r.futures = r'.futures
  newlyComplete : r.newlyComplete = r'.newlyComplete
  children : r.children = r'.children

theorem add_eq {f : Future} {x : Nat × Outcome FetchAnswer} (found : r.futures[x.1]? = some f) :
    r.add terms x =
      { futures := r.futures.set x.1 (f.recorded terms.throwing x.2)
        firstError := r.firstError.or (f.raised terms.throwing x.2)
        newlyComplete :=
          if !f.isComplete terms.download &&
              (f.recorded terms.throwing x.2).isComplete terms.download then r.newlyComplete + 1
          else r.newlyComplete
        children :=
          if !f.done && (f.recorded terms.throwing x.2).done then
            r.children ++ (f.recorded terms.throwing x.2).dispatched
          else r.children } := by
  unfold add
  rw [found]
  cases x.2 <;> rfl

theorem Agrees.add (agrees : r.Agrees r') {x : Nat × Outcome FetchAnswer}
    (brings : BringsSuccess x.2) : (r.add terms.raising x).Agrees (r'.add terms x) := by
  obtain ⟨futures, newlyComplete, children⟩ := agrees
  cases found : r'.futures[x.1]? with
  | none =>
    rw [add_of_none found, add_of_none (futures ▸ found)]
    exact ⟨futures, newlyComplete, children⟩
  | some f =>
    have same := Future.recorded_eq (f := f) brings terms.raising.throwing terms.throwing
    rw [add_eq found, add_eq (futures ▸ found), same, futures, newlyComplete, children]
    exact ⟨rfl, rfl, rfl⟩

theorem Agrees.foldl {answers : List (Nat × Outcome FetchAnswer)} (agrees : r.Agrees r')
    (brings : ∀ x ∈ answers, BringsSuccess x.2) :
    (answers.foldl (Recorded.add terms.raising) r).Agrees
      (answers.foldl (Recorded.add terms) r') := by
  induction answers generalizing r r' with
  | nil => exact agrees
  | cons x rest ih =>
    exact ih (agrees.add (brings x List.mem_cons_self)) fun y member =>
      brings y (List.mem_cons_of_mem x member)

end Recorded

section
variable {terms : WaitTerms} {answers : List (Nat × Outcome FetchAnswer)}

theorem recordAll_agrees (terms : WaitTerms) (brings : ∀ x ∈ answers, BringsSuccess x.2)
    (futures : List Future) :
    (recordAll terms.raising answers futures).Agrees (recordAll terms answers futures) :=
  Recorded.Agrees.foldl ⟨rfl, rfl, rfl⟩ fun x sorted =>
    brings x ((sortAnswers_perm answers).mem_iff.mp sorted)

/-- Taking in the answers of a unit makes the same of a wait set, and where nothing is raised
otherwise, what is raised are failures recorded. -/
theorem WaitState.settle_raising {μ : Type} [Watcher μ] (provider : Provider) (terms : WaitTerms)
    (brings : ∀ x ∈ answers, BringsSuccess x.2) (s : WaitState μ) :
    (s.settle provider terms.raising answers).1 = (s.settle provider terms answers).1 ∧
      ((s.settle provider terms answers).2 = none →
        (recordAll terms answers s.futures).firstError = none ∧
        (s.settle provider terms.raising answers).2 =
          (recordAll terms.raising answers s.futures).firstError) := by
  obtain ⟨futures, newlyComplete, children⟩ := recordAll_agrees terms brings s.futures
  have record (terms : WaitTerms) : (sortAnswers answers).foldl (Recorded.add terms)
      { futures := s.futures } = recordAll terms answers s.futures := rfl
  unfold settle
  rw [record, record]
  dsimp only
  rw [futures, newlyComplete, children]
  split
  · exact ⟨rfl, fun quiet => ⟨quiet, rfl⟩⟩
  · split
    · exact ⟨rfl, nofun⟩
    · exact ⟨rfl, fun quiet => ⟨quiet, rfl⟩⟩

variable {replies : Replies} {kept : List (CallName × String)} {earlier later : List Future}

/-- What is raised then is a failure that a future has recorded, and if nothing is raised, none has
recorded a failure. -/
theorem Absorbs.raises (absorbs : Absorbs replies terms answers kept earlier later)
    (quiet : (recordAll terms answers earlier).firstError = none)
    (unfailed : ∀ f ∈ earlier, f.failure? = none) :
    (∀ e, (recordAll terms.raising answers earlier).firstError = some e →
      ∃ g ∈ later, g.failure? = some e) ∧
    ((recordAll terms.raising answers earlier).firstError = none →
      ∀ g ∈ later, g.failure? = none) := by
  have each (x : Nat × Outcome FetchAnswer) (listed : x ∈ answers) (f : Future)
      (found : earlier[x.1]? = some f) :
      raisedAt terms.raising earlier x = (f.recorded terms.throwing x.2).failure? := by
    obtain ⟨f', first, found', -, -, comes⟩ := absorbs.asked x listed
    obtain rfl : f = f' := Option.some.inj (found.symm.trans found')
    have silent : raisedAt terms earlier x = none := by
      rw [firstError_recordAll] at quiet
      exact List.findSome?_eq_none_iff.mp quiet x ((sortAnswers_perm answers).mem_iff.mpr listed)
    unfold raisedAt at silent ⊢
    rw [found, Option.bind_some] at silent ⊢
    cases answer : x.2 with
    | error e =>
      rw [answer] at silent
      cases silent
    | ok a =>
      have brings := answer ▸ comes.bringsSuccess
      rw [Future.recorded_eq brings terms.throwing true]
      exact Future.raised_eq_failure? brings (unfailed f (List.mem_of_getElem? found))
  rw [firstError_recordAll]
  constructor
  · intro e raises
    obtain ⟨x, sorted, own⟩ := List.exists_of_findSome?_eq_some raises
    have listed := (sortAnswers_perm answers).mem_iff.mp sorted
    obtain ⟨f, -, found, -⟩ := absorbs.asked x listed
    have now := absorbs.getElem?_old found
    rw [Future.answered_sorted_of_mem absorbs.distinct listed] at now
    exact ⟨_, List.mem_of_getElem? now, (each x listed f found).symm.trans own⟩
  · intro none g member
    obtain ⟨i, found⟩ := List.getElem?_of_mem member
    rcases absorbs.getElem?_cases found with ⟨f, before, rfl⟩ | ⟨-, c, -, rfl⟩
    · rcases absorbs.answered_cases before with ⟨same, -⟩ | ⟨x, listed, rfl, same, -⟩
      · rw [same]
        exact unfailed f (List.mem_of_getElem? before)
      · rw [same, ← each x listed f before]
        exact List.findSome?_eq_none_iff.mp none x ((sortAnswers_perm answers).mem_iff.mpr listed)
    · rfl

end

/-! ## The machine -/

namespace Wait

variable {μ : Type} {w : Wait μ}

/-- The same wait, but failures are raised. -/
def raising (w : Wait μ) : Wait μ := { w with terms := w.terms.raising }

theorem decide_raising (cancelled : Bool) (w : Wait μ) :
    w.raising.decide cancelled = (w.decide cancelled).raising := by
  unfold decide
  rw [apply_ite raising, apply_ite raising]
  rfl

theorem passed_raising (cancelled : Bool) (w : Wait μ) :
    w.raising.passed cancelled = (w.passed cancelled).raising := by
  unfold passed
  rw [apply_ite raising, apply_ite raising]
  rfl

theorem enter_raising (cancelled : Bool) (w : Wait μ) :
    w.raising.enter cancelled = (w.enter cancelled).raising := by
  unfold enter
  have phase : w.raising.phase = w.phase := rfl
  rw [phase]
  cases w.phase with
  | finished result => rfl
  | _ =>
    dsimp only
    rw [apply_ite raising, decide_raising]
    rfl

theorem wake_raising (cancelled : Bool) (w : Wait μ) :
    w.raising.wake cancelled = (w.wake cancelled).raising := by
  unfold wake
  have phase : w.raising.phase = w.phase := rfl
  rw [phase]
  cases w.phase with
  | sleeping => exact decide_raising cancelled w
  | _ => rfl

theorem cancel_raising (w : Wait μ) : w.raising.cancel = w.cancel.raising := by
  unfold cancel
  have phase : w.raising.phase = w.phase := rfl
  rw [phase]
  cases w.phase with
  | sleeping =>
    dsimp only
    rw [apply_ite raising]
    rfl
  | _ => rfl

theorem expire_raising (w : Wait μ) : w.raising.expire = w.expire.raising := by
  unfold expire
  have phase : w.raising.phase = w.phase := rfl
  have timeout : w.raising.terms.timeout = w.terms.timeout := rfl
  rw [phase, timeout]
  cases w.phase <;> cases w.terms.timeout <;> rfl

theorem prepare_raising (terms : WaitTerms) (provider : Provider) (monitor : μ)
    (progress : Progress) (futures : List Future) :
    prepare terms.raising provider monitor progress futures =
      (prepare terms provider monitor progress futures).raising := by
  unfold prepare
  dsimp only
  split <;> rfl

variable [Watcher μ]

theorem pollNext_raising (cancelled : Bool) (w : Wait μ) :
    w.raising.pollNext cancelled = (w.pollNext cancelled).raising := by
  unfold pollNext
  have phase : w.raising.phase = w.phase := rfl
  have state : w.raising.state = w.state := rfl
  have download : w.raising.terms.download = w.terms.download := rfl
  rw [phase, state, download]
  cases w.phase with
  | polling i =>
    dsimp only
    cases w.state.units[i]? with
    | none => exact passed_raising cancelled w
    | some u =>
      dsimp only
      cases w.state.targets w.terms.download u <;> rfl
  | _ => rfl

/-- A wait that takes answers without an error does so too if failures are raised, unless one is. -/
theorem answer_raising {i : Nat} {targets : List Target}
    {answers : List (Nat × Outcome FetchAnswer)} (phase : w.phase = .fetching i targets)
    (brings : ∀ x ∈ answers, BringsSuccess x.2)
    (quiet : ∀ e, (w.answer answers).phase ≠ .finished (.error e)) :
    (recordAll w.terms answers w.state.futures).firstError = none ∧
      w.raising.answer answers =
        match (recordAll w.terms.raising answers w.state.futures).firstError with
        | none => (w.answer answers).raising
        | some e => ((w.answer answers).finish (.error e)).raising := by
  obtain ⟨same, raises⟩ :=
    WaitState.settle_raising w.provider w.terms brings w.state
  cases settled : w.state.settle w.provider w.terms answers with
  | mk state error =>
    cases error with
    | some e =>
      rw [answer_of_some phase settled] at quiet
      exact absurd rfl (quiet e)
    | none =>
      obtain ⟨none, raised⟩ := raises (by rw [settled])
      rw [settled] at same
      have settled' : w.raising.state.settle w.raising.provider w.raising.terms answers =
          (state, (recordAll w.terms.raising answers w.state.futures).firstError) :=
        Prod.ext same raised
      refine ⟨none, ?_⟩
      rw [answer_of_none phase settled]
      cases error : (recordAll w.terms.raising answers w.state.futures).firstError with
      | none => exact answer_of_none (w := w.raising) phase (error ▸ settled')
      | some e => exact answer_of_some (w := w.raising) phase (error ▸ settled')

end Wait

/-! ## Runs -/

namespace WaitRun

variable {r r' last : WaitRun} {replies : Replies} {terms : WaitTerms} {futures : List Future}

/-- The same run, but failures are raised. -/
def raising (r : WaitRun) : WaitRun := { r with wait := r.wait.raising }

theorem poll_raising (r : WaitRun) : r.raising.poll = r.poll.raising := by
  have polled : r.raising.wait.pollNext r.raising.sur.cancelled =
      (r.wait.pollNext r.sur.cancelled).raising := Wait.pollNext_raising r.sur.cancelled r.wait
  have same : (r.wait.pollNext r.sur.cancelled).raising.phase =
      (r.wait.pollNext r.sur.cancelled).phase := rfl
  unfold poll
  dsimp only
  rw [polled, same]
  cases (r.wait.pollNext r.sur.cancelled).phase <;> rfl

theorem checkDeadline_raising (r : WaitRun) :
    r.raising.checkDeadline = r.checkDeadline.raising := by
  obtain ⟨now, sur, wait, pool, wakeAt, timeline, deadline, beside, log⟩ := r
  unfold checkDeadline raising
  cases deadline with
  | none => rfl
  | some deadline =>
    by_cases past : deadline ≤ now
    · simp only [past, if_true, Wait.expire_raising]
    · simp only [past, if_false]

theorem resume_raising (r : WaitRun) : r.raising.resume = r.resume.raising := by
  obtain ⟨now, sur, ⟨terms, provider, state, phase, passes⟩, pool, wakeAt, timeline, deadline,
    beside, log⟩ := r
  unfold resume raising
  cases phase with
  | finished result => rfl
  | sleeping =>
    by_cases past : wakeAt ≤ now
    · have woken := Wait.wake_raising sur.cancelled
        { terms, provider, state, phase := .sleeping, passes }
      simp only [past, if_true, ← woken]
      rfl
    · simp only [past, if_false]
      rfl
  | polling i => rfl
  | fetching i targets => cases pool <;> rfl

theorem change_raising (r : WaitRun) (c : Change) :
    r.raising.change c = (r.change c).raising := by
  have cancels : (r.heard c).raising.cancel = (r.heard c).cancel.raising :=
    (r.heard c).cancel_raising
  have changed : (r.raising.change c).wait = (r.change c).wait.raising := by
    rw [change_wait, change_wait, apply_ite Wait.raising, ← cancels]
    rfl
  exact congrArg (fun wait => { r with sur := r.sur.change c, wait }) changed

theorem changes_raising (due : List (Nat × Change)) (r : WaitRun) :
    due.foldl (fun r e => r.change e.2) r.raising =
      (due.foldl (fun r e => r.change e.2) r).raising := by
  induction due generalizing r with
  | nil => rfl
  | cons e rest ih => rw [List.foldl_cons, List.foldl_cons, change_raising, ih]

theorem runDue_raising (r : WaitRun) : r.raising.runDue = r.runDue.raising := by
  let due := r.timeline.takeWhile fun e => e.1 ≤ r.now
  have changed := changes_raising due { r with timeline := r.timeline.drop due.length }
  exact congrArg looked changed

theorem moment_raising (r : WaitRun) : r.raising.moment = r.moment.map raising := by
  unfold moment
  rw [checkDeadline_raising]
  dsimp only
  have going (r : WaitRun) : r.raising.isFinished = r.isFinished := rfl
  have due (r : WaitRun) : r.raising.dueTimes = r.dueTimes := rfl
  rw [going, runDue_raising, going, due]
  split
  · rfl
  · split
    · rfl
    · cases r.checkDeadline.runDue.dueTimes.min? with
      | none => rfl
      | some next =>
        have later := runDue_raising
          { r.checkDeadline.runDue with now := max r.checkDeadline.runDue.now next }
        refine (congrArg (fun r : WaitRun => if r.isFinished = true then none else some r.resume)
          later).trans ?_
        dsimp only
        rw [going, resume_raising]
        split <;> rfl

/-- Taking answers apart, a turn is the same turn. -/
theorem turn_raising (calm : ∀ i targets, r.wait.phase ≠ .fetching i targets) :
    r.raising.turn = r.turn.map raising := by
  have same : r.raising.wait.phase = r.wait.phase := rfl
  unfold turn
  rw [same]
  cases phase : r.wait.phase with
  | finished result => rfl
  | sleeping => rfl
  | polling i => exact congrArg some r.poll_raising
  | fetching i targets => exact absurd phase (calm i targets)

theorem turn_raising_eq_none (blocked : r.turn = none) : r.raising.turn = none :=
  turn_eq_none_of_same (r := r) rfl rfl blocked

/-! ## Runs in lockstep -/

theorem futures_runDue (r : WaitRun) : r.runDue.wait.state.futures = r.wait.state.futures := by
  have changes (due : List (Nat × Change)) (r : WaitRun) :
      (due.foldl (fun r e => r.change e.2) r).wait.state.futures = r.wait.state.futures := by
    induction due generalizing r with
    | nil => rfl
    | cons e rest ih =>
      rw [List.foldl_cons, ih]
      exact (change_turns r e.2).futures
  exact changes _ { r with timeline := r.timeline.drop _ }

/-- A moment goes by: time may be up, changes happen and tasks look, and what the wait is blocked on
may have come. -/
theorem moment_cases (passes : r.moment = some r') : ∃ now, r' =
    ({ r.checkDeadline.runDue with now } : WaitRun).runDue.resume := by
  unfold moment at passes
  dsimp only at passes
  split at passes
  · cases passes
  · split at passes
    · cases passes
    · split at passes
      · cases passes
      · split at passes
        · cases passes
        · cases passes
          exact ⟨_, rfl⟩

theorem futures_of_moment (passes : r.moment = some r') :
    r'.wait.state.futures = r.wait.state.futures := by
  obtain ⟨now, rfl⟩ := moment_cases passes
  rw [(resume_turns _).futures, futures_runDue]
  exact r.checkDeadline.futures_runDue.trans r.checkDeadline_turns.futures

theorem Fits.moment (fits : r.Fits replies terms futures) (passes : r.moment = some r') :
    r'.Fits replies terms futures := by
  obtain ⟨now, rfl⟩ := moment_cases passes
  exact (fits.checkDeadline.runDue.setClock now).runDue.resume

/-- A run that raises failures is over: one is raised that a future has recorded. -/
def Raises (replies : Replies) (terms : WaitTerms) (futures : List Future) (r : WaitRun) : Prop :=
  ∃ (quiet : WaitRun) (e : DispatchError), quiet.Fits replies terms futures ∧
    r.wait = (quiet.wait.finish (.error e)).raising ∧
    ∃ f ∈ quiet.wait.state.futures, f.failure? = some e

/-- A turn of a run that raises failures is the same turn, unless one is raised. -/
theorem Fits.turn_raising (fits : r.Fits replies terms futures) (turns : r.turn = some r')
    (unfailed : ∀ f ∈ r.wait.state.futures, f.failure? = none)
    (returns : ∀ e, r'.wait.phase ≠ .finished (.error e)) :
    (r.raising.turn = some r'.raising ∧ ∀ f ∈ r'.wait.state.futures, f.failure? = none) ∨
      ∃ last, r.raising.turn = some last ∧ last.Raises replies terms futures := by
  obtain ⟨-, ⟨i, phase, polled⟩ | ⟨i, targets, p, phase, isPool, done, taken⟩⟩ := turn_cases turns
  · have calm (j : Nat) (targets : List Target) : r.wait.phase ≠ .fetching j targets := by
      rw [phase]
      nofun
    refine Or.inl ⟨by rw [WaitRun.turn_raising calm, turns]; rfl, ?_⟩
    rw [polled, Wait.state_pollNext]
    exact unfailed
  · have fits' := fits.turn turns
    have sound := fits.reached.sound.1
    obtain ⟨u, found, fetched⟩ := fits.answers phase isPool done
    obtain ⟨-, kept, absorbs⟩ := sound.answer phase found fetched
    obtain rfl := sound.terms_eq
    have brings := fetched.bringSuccess
    have isTurn : r' = { r with wait := r.wait.answer p.answers, pool := none } :=
      Option.some.inj (turns.symm.trans (turn_of_fetched phase isPool done))
    have turns' : r.raising.turn =
        some { r with wait := r.wait.raising.answer p.answers, pool := none } :=
      turn_of_fetched (r := r.raising) phase isPool done
    obtain ⟨quiet, raised⟩ := Wait.answer_raising phase brings (taken ▸ returns)
    obtain ⟨failed, passed⟩ := absorbs.raises quiet unfailed
    cases error : (recordAll r.wait.terms.raising p.answers r.wait.state.futures).firstError with
    | none =>
      rw [error] at raised
      refine Or.inl ⟨?_, taken ▸ passed error⟩
      rw [turns', raised, isTurn]
      rfl
    | some e =>
      rw [error] at raised
      rw [raised] at turns'
      exact Or.inr ⟨_, turns', r', e, fits', taken ▸ rfl, taken ▸ failed e error⟩

/-- A run that returns without raising failures is gone through alike by a run that raises them, to
the end if no future has recorded a failure, or else up to the first answers that bring one. -/
theorem Leads.raising (leads : Leads r last) (finished : last.wait.phase = .finished (.ok ()))
    (fits : r.Fits replies terms futures)
    (unfailed : ∀ f ∈ r.wait.state.futures, f.failure? = none) :
    (Leads r.raising last.raising ∧ ∀ f ∈ last.wait.state.futures, f.failure? = none) ∨
      ∃ last', Leads r.raising last' ∧ last'.Raises replies terms futures := by
  induction leads with
  | stays r => exact Or.inl ⟨.stays _, unfailed⟩
  | @turn r r' _ turns leads ih =>
    have returns : ∀ e, r'.wait.phase ≠ .finished (.error e) := by
      intro e fails
      rw [leads.eq_of_finished fails, fails] at finished
      cases finished
    rcases fits.turn_raising turns unfailed returns with
      ⟨turns', unfailed'⟩ | ⟨last', turns', raises⟩
    · rcases ih finished (fits.turn turns) unfailed' with
        ⟨leads', unfailed''⟩ | ⟨last', leads', raises⟩
      · exact Or.inl ⟨.turn turns' leads', unfailed''⟩
      · exact Or.inr ⟨last', .turn turns' leads', raises⟩
    · exact Or.inr ⟨last', .turn turns' (.stays _), raises⟩
  | @moment r r' _ blocked passes _ ih =>
    have blocked' := turn_raising_eq_none blocked
    have passes' : r.raising.moment = some r'.raising := by rw [moment_raising, passes]; rfl
    rcases ih finished (fits.moment passes) (futures_of_moment passes ▸ unfailed) with
      ⟨leads', unfailed'⟩ | ⟨last', leads', raises⟩
    · exact Or.inl ⟨.moment blocked' passes' leads', unfailed'⟩
    · exact Or.inr ⟨last', .moment blocked' passes' leads', raises⟩

end WaitRun

/-! ## The waits of a session -/

namespace Session

variable {s : Session} {terms : WaitTerms}

theorem readied_raising (s : Session) (terms : WaitTerms) (progress : Progress)
    (cut : Option Cut) :
    s.readied terms.raising progress cut = (s.readied terms progress cut).raising := by
  have prepared (m : SessionMonitor) :
      s.prepared terms.raising progress m cut = (s.prepared terms progress m cut).raising :=
    Wait.prepare_raising ..
  unfold readied
  cases s.choice with
  | storage => exact prepared _
  | manual => exact prepared _
  | own =>
    dsimp only
    rw [prepared]
    generalize s.prepared terms progress (.storage { interval := s.monitorInterval }) cut = w
    have phase : w.raising.phase = w.phase := rfl
    have state : w.raising.state = w.state := rfl
    rw [phase, state]
    cases w.phase with
    | finished result => rfl
    | _ =>
      dsimp only
      split <;> rfl

theorem startRun_raising (s : Session) (terms : WaitTerms) (timeline : List (Nat × Change))
    (sink : Progress := {}) (cutIn : Option CutPoint := none) :
    s.startRun terms.raising timeline sink cutIn =
      (s.startRun terms timeline sink cutIn).raising := by
  have begins (progress : Progress) (cut : Option Cut) :
      s.beginWait terms.raising progress cut = (s.beginWait terms progress cut).raising := by
    rw [s.beginWait_eq _ _ cut, s.beginWait_eq _ _ cut, readied_raising, Wait.enter_raising]
  unfold startRun
  rw [begins]
  rfl

end Session

end CallDispatch
