import CallDispatch.Proofs.Tracking.Isolation
import CallDispatch.Proofs.Tracking.Raising
import CallDispatch.Proofs.Tracking.Stretches

/-!
# The ways out of a wait

A wait looks at its condition and at the token at the end of each pass and before the next, and
sleeps only if neither lets it go. While it sleeps nothing becomes of its wait set, and it goes as
soon as the token is cancelled; so whatever ends it there finds the wait set as the last look left
it. But time may also be up before the first look or in the middle of a pass, while a store is being
opened or swept or fetches are under way, and then the wait ends without another look. Where none of
these takes time, a wait is blocked only in its sleep, and that is where its time can be up.
-/

namespace CallDispatch

/-! ## Fetches that take no time -/

/-- Whether a change is one of how long fetches take. -/
def Change.setsLatency : Change → Bool
  | .statusLatency _ => true
  | .outputLatency _ => true
  | .latency _ _ => true
  | _ => false

/-- Other changes leave it that fetches take no time. -/
theorem Surroundings.IsQuick.change {sur : Surroundings} (quick : sur.IsQuick) {c : Change}
    (other : c.setsLatency = false) : (sur.change c).IsQuick := by
  have same (t : Target) (step : FetchStep) :
      FetchPool.question (sur.change c) t step = FetchPool.question sur t step := by
    cases c <;> first | rfl | cases other
  intro t step
  rw [same]
  exact quick t step

/-! ## Looking at the condition -/

namespace Wait

variable {μ : Type}

/-- Whether a wait that may be cancelled has been. -/
def IsCalledOff (terms : WaitTerms) (cancelled : Bool) : Prop :=
  terms.cancellable = true ∧ cancelled = true

theorem decide_cases (cancelled : Bool) (w : Wait μ) :
    (isMet w.terms w.state.futures = true ∧ w.decide cancelled = w.finish (.ok ())) ∨
    isMet w.terms w.state.futures = false ∧
      ((IsCalledOff w.terms cancelled ∧ w.decide cancelled = w.finish (.error w.cancellation)) ∨
        ¬ IsCalledOff w.terms cancelled ∧ w.decide cancelled = w.beginPass) := by
  unfold decide IsCalledOff
  cases isMet w.terms w.state.futures <;> cases w.terms.cancellable <;> cases cancelled <;> simp

theorem passed_cases (cancelled : Bool) (w : Wait μ) :
    (isMet w.terms w.state.futures = true ∧ w.passed cancelled = w.finish (.ok ())) ∨
    isMet w.terms w.state.futures = false ∧
      ((IsCalledOff w.terms cancelled ∧ w.passed cancelled = w.finish (.error w.cancellation)) ∨
        ¬ IsCalledOff w.terms cancelled ∧
          w.passed cancelled = { w with phase := .sleeping }) := by
  unfold passed IsCalledOff
  cases isMet w.terms w.state.futures <;> cases w.terms.cancellable <;> cases cancelled <;> simp

end Wait

/-! ## What an outcome tells -/

/-- What the outcome of a wait tells of the wait set as left: a success, that the condition holds; a
cancellation, that it does not and how many futures are incomplete; a timeout, that the time allowed
was up, and that the condition does not hold unless that was midway; a failed call, that its failure
is captured. -/
structure TellsTruth (terms : WaitTerms) (cancelled : Bool) (midway : Prop) (left : List Future)
    (outcome : Outcome Unit) : Prop where
  ok : outcome = .ok () → Wait.isMet terms left = true
  cancelled : ∀ n, outcome = .error (.cancelled n) → Wait.IsCalledOff terms cancelled ∧
    Wait.isMet terms left = false ∧ n = Wait.notDone terms left
  timeout : ∀ ms, outcome = .error (.timeout ms) →
    terms.timeout = some ms ∧ (Wait.isMet terms left = false ∨ midway)
  failed : ∀ call message, outcome = .error (.callFailed call message) →
    terms.throwing = true ∧ ∃ f ∈ left, f.key.text = call ∧ f.done = true ∧
      f.captured = some (.failure message)

namespace TellsTruth

variable {terms : WaitTerms} {cancelled : Bool} {midway : Prop} {left : List Future}

theorem of_met (met : Wait.isMet terms left = true) :
    TellsTruth terms cancelled midway left (.ok ()) :=
  ⟨fun _ => met, nofun, nofun, nofun⟩

theorem of_calledOff (calledOff : Wait.IsCalledOff terms cancelled)
    (unmet : Wait.isMet terms left = false) :
    TellsTruth terms cancelled midway left (.error (.cancelled (Wait.notDone terms left))) := by
  refine ⟨nofun, ?_, nofun, nofun⟩
  intro n same
  cases same
  exact ⟨calledOff, unmet, rfl⟩

theorem of_timeout {ms : Nat} (limit : terms.timeout = some ms)
    (unmet : Wait.isMet terms left = false ∨ midway) :
    TellsTruth terms cancelled midway left (.error (.timeout ms)) := by
  refine ⟨nofun, nofun, ?_, nofun⟩
  intro ms' same
  cases same
  exact ⟨limit, unmet⟩

theorem of_storage (terms : WaitTerms) (cancelled : Bool) (midway : Prop) (left : List Future)
    (detail : String) : TellsTruth terms cancelled midway left (.error (.storage detail)) :=
  ⟨nofun, nofun, nofun, nofun⟩

theorem of_failed (throwing : terms.throwing = true) {f : Future} (member : f ∈ left)
    {message : String} (done : f.done = true) (captured : f.captured = some (.failure message)) :
    TellsTruth terms cancelled midway left (.error (f.failed message)) := by
  refine ⟨nofun, nofun, nofun, ?_⟩
  intro call message' same
  cases same
  exact ⟨throwing, f, member, rfl, done, captured⟩

/-- The token stays cancelled. -/
theorem mono {later : Bool} (tells : TellsTruth terms cancelled midway left outcome)
    (stays : cancelled = true → later = true) : TellsTruth terms later midway left outcome :=
  ⟨tells.ok, fun n same => ⟨(tells.cancelled n same).1.imp id stays, (tells.cancelled n same).2⟩,
    tells.timeout, tells.failed⟩

end TellsTruth

/-! ## Errors of a unit -/

theorem Target.Comes.failsAsStore {calls : List CallName} {limit : Option Nat} {backend : String}
    {download : Bool} {t : Target} {answer : Outcome FetchAnswer}
    (comes : t.Comes (.listing calls limit) backend download (.finished answer)) :
    FailsAsStore answer := by
  have each : ∀ step, t.Comes (.listing calls limit) backend download step →
      ∀ answer, step = .finished answer → FailsAsStore answer := by
    intro step comes
    induction comes with
    | first =>
      intro answer finished e failed
      subst failed
      unfold Target.first at finished
      split at finished
      · cases finished
      · split at finished <;> cases finished
    | @status reply _ replied _ =>
      intro answer finished e failed
      subst failed
      cases reply with
      | error e' =>
        cases finished
        exact replied e rfl
      | ok found =>
        unfold Target.afterStatus at finished
        dsimp only at finished
        split at finished
        · cases finished
        · split at finished
          · cases finished
          · split at finished <;> cases finished
    | @output known reply _ replied _ =>
      intro answer finished e failed
      subst failed
      cases reply with
      | error e' =>
        cases finished
        exact replied.1 e rfl
      | ok found => cases finished
  exact each _ comes answer rfl

/-- The error that the answers to the fetches of a unit end a wait with is one of stores, or says
that time ran out in an opening, or is the failure of a call that is captured. -/
theorem Wait.Sound.fails {μ : Type} [Watcher μ] {calls : List CallName} {limit : Option Nat}
    {terms : WaitTerms} {w : Wait μ} {i : Nat} {targets : List Target} {u : WaitUnit}
    {answers : List (Nat × Outcome FetchAnswer)} {state : WaitState μ} {e : DispatchError}
    (sound : w.Sound (.listing calls limit) terms) (phase : w.phase = .fetching i targets)
    (found : w.state.units[i]? = some u)
    (fetched : Answers (.listing calls limit) u.backend terms.download targets answers)
    (settled : w.state.settle w.provider w.terms answers = (state, some e)) :
    (∃ detail, e = .storage detail) ∨ (∃ ms, limit = some ms ∧ e = .timeout ms) ∨
      terms.throwing = true ∧ ∃ f ∈ state.futures, ∃ message,
        f.done = true ∧ f.captured = some (.failure message) ∧ e = f.failed message := by
  obtain ⟨-, kept, absorbs⟩ := sound.answer phase found fetched
  obtain rfl := sound.terms_eq
  have isState : (w.answer answers).state = state := by
    rw [Wait.answer_of_some phase settled]
  rw [isState] at absorbs
  rcases WaitState.settle_cases w.provider (sound.grouped (.of_fetching phase)) w.terms
      absorbs.distinct with
    ⟨units, opened, progress, grown, settled', -, -, -⟩ |
    ⟨after, kept', backend, e', settled', -, -, closed⟩
  · have raises := (Prod.mk.inj (settled.symm.trans settled')).2
    rw [firstError_recordAll] at raises
    obtain ⟨x, sorted, own⟩ := List.exists_of_findSome?_eq_some raises.symm
    have listed := (sortAnswers_perm answers).mem_iff.mp sorted
    obtain ⟨f, first, at_, -, -, comes⟩ := absorbs.asked x listed
    unfold raisedAt at own
    rw [at_, Option.bind_some] at own
    rcases Future.raised_cases own with failed | ⟨throws, s, message, failed, rfl, records⟩
    · exact Or.inl (comes.failsAsStore e failed)
    · have now := absorbs.getElem?_old at_
      rw [Future.answered_sorted_of_mem absorbs.distinct listed, records] at now
      obtain ⟨final, captured⟩ := Future.captured_of_failed (f := f) failed
      have same : f.failed message = (f.withStatus s).failed message := by
        unfold Future.failed
        rw [Future.key_eq_of_name (f.withStatus_name s)]
      exact Or.inr (Or.inr ⟨throws, _, List.mem_of_getElem? now, message, final, captured, same⟩)
  · cases (Prod.mk.inj (settled.symm.trans settled')).2
    rcases sound.refused closed with fails | ⟨ms, limited, cut⟩
    · exact Or.inl (fails e rfl)
    · exact Or.inr (Or.inl ⟨ms, limited, Except.error.inj cut⟩)

namespace WaitRun

variable {calls : List CallName} {terms : WaitTerms} {futures : List Future} {r r' : WaitRun}
  {limit : Option Nat} {midway : Prop}

/-- The error that the answers to the fetches of a unit end a wait with tells the truth. -/
theorem Contained.settle_tells (contained : r.Contained calls terms futures limit)
    (timed : ∀ ms, limit = some ms → terms.timeout = some ms) {i : Nat} {targets : List Target}
    {p : FetchPool} (phase : r.wait.phase = .fetching i targets) (isPool : r.pool = some p)
    (done : p.isDone = true) {state : WaitState SessionMonitor} {e : DispatchError}
    (settled : r.wait.state.settle r.wait.provider r.wait.terms p.answers = (state, some e))
    (cut : ∀ ms, e = .timeout ms → midway) (cancelled : Bool) :
    TellsTruth terms cancelled midway state.futures (.error e) := by
  obtain ⟨u, found, fetched⟩ := contained.answers phase isPool done
  rcases contained.reached.sound.1.fails phase found fetched settled with
    ⟨detail, rfl⟩ | ⟨ms, limited, rfl⟩ | ⟨throws, f, member, message, final, captured, rfl⟩
  · exact .of_storage ..
  · exact .of_timeout (timed ms limited) (Or.inr (cut ms rfl))
  · exact .of_failed throws member final captured

/-! ## Blocked waits -/

/-- A run whose fetches take no time: each of its pools is done. -/
structure Prompt (r : WaitRun) : Prop where
  quick : r.sur.IsQuick
  coming : ∀ e ∈ r.timeline, e.2.setsLatency = false
  pool : ∀ i targets, r.wait.phase = .fetching i targets →
    ∃ p, r.pool = some p ∧ p.isDone = true

/-- Fetches that have all been answered stay so. -/
theorem wake_of_done {sur : Surroundings} {p : FetchPool} (done : p.isDone = true) (now : Nat)
    (log : FetchLog) : p.wake sur now log = (p, log) := by
  obtain ⟨noneWaiting, nonePending⟩ := Bool.and_eq_true_iff.mp done
  have nothing : p.pending = [] := List.isEmpty_iff.mp nonePending
  refine FetchPool.wake_of_none_due ?_ (Or.inl (List.isEmpty_iff.mp noneWaiting)) log
  intro g member
  rw [nothing] at member
  cases member

theorem Prompt.happens (prompt : r.Prompt) (happens : r.Happens r')
    (contained : r.Contained calls terms futures limit) : r'.Prompt := by
  have still (beside : r.Beside r') (turns : r.wait.Turns r'.wait) (pool : r'.pool = r.pool) :
      r'.Prompt := by
    refine ⟨beside.sur ▸ prompt.quick, beside.timeline ▸ prompt.coming, ?_⟩
    intro i targets phase
    rw [pool]
    exact prompt.pool i targets (turns.eq_of_fetching phase ▸ phase)
  cases happens with
  | turn turns =>
    obtain ⟨beside, went⟩ := turn_cases turns
    refine ⟨beside.sur ▸ prompt.quick, beside.timeline ▸ prompt.coming, ?_⟩
    intro j targets' phase'
    rcases went with ⟨i, phase, isWait⟩ | ⟨i, targets, p, phase, -, -, isWait⟩
    · have polls : r' = r.poll := by
        unfold turn at turns
        rw [phase] at turns
        exact (Option.some.inj turns).symm
      have fetches := isWait ▸ phase'
      have driven :=
        start_poolOf contained.fits.within r.now (r.wait.pollNext r.sur.cancelled) j targets' r.log
      rw [polls, poll_of_fetching fetches]
      exact ⟨_, rfl, driven.done_of_quick prompt.quick
        (Nat.lt_of_lt_of_le Nat.zero_lt_one (Nat.le_max_right _ _)) rfl⟩
    · exact absurd (isWait ▸ phase') (Wait.answer_not_fetching phase p.answers j targets')
  | overdue _ =>
    refine still r.beside_checkDeadline r.checkDeadline_turns ?_
    unfold checkDeadline
    split
    · split <;> rfl
    · rfl
  | @changed time c rest ahead =>
    have other : c.setsLatency = false :=
      prompt.coming (time, c) (ahead ▸ List.mem_cons_self)
    refine ⟨prompt.quick.change other,
      fun e member => prompt.coming e (ahead ▸ List.mem_cons_of_mem _ member), ?_⟩
    intro i targets phase
    have same := (change_turns { r with timeline := rest } c).eq_of_fetching phase
    rw [same] at phase
    exact prompt.pool i targets phase
  | looked => exact ⟨prompt.quick, prompt.coming, prompt.pool⟩
  | clock now _ => exact ⟨prompt.quick, prompt.coming, prompt.pool⟩
  | resumed =>
    refine still r.beside_resume r.resume_turns ?_
    unfold resume
    split
    · split <;> rfl
    · next i targets phase =>
      obtain ⟨p, isPool, done⟩ := prompt.pool i targets phase
      rw [isPool]
      dsimp only
      rw [wake_of_done done]
    · rfl

/-- Where fetches take no time, a wait that is blocked is asleep, or at its end. -/
theorem Prompt.sleeping (prompt : r.Prompt) (blocked : r.turn = none) (running : r.wait.IsRunning) :
    r.wait.phase = .sleeping := by
  unfold turn at blocked
  cases phase : r.wait.phase with
  | finished result => exact absurd phase (running result)
  | sleeping => rfl
  | polling i =>
    rw [phase] at blocked
    cases blocked
  | fetching i targets =>
    obtain ⟨p, isPool, done⟩ := prompt.pool i targets phase
    rw [phase, isPool] at blocked
    simp [done] at blocked

end WaitRun

/-! ## From look to look -/

namespace Wait

variable {μ : Type} {terms : WaitTerms} {cancelled : Bool} {midway : List Future → Prop}
  {w : Wait μ}

theorem goal_of_unmet {futures : List Future} (unmet : isMet terms futures = false) :
    terms.goal ≠ .always := by
  intro always
  rw [isMet, always] at unmet
  cases unmet

/-- A wait that tells the truth: asleep, it has nothing to go for; finished, it tells the truth in
its outcome; and if it always returns after a pass, it has begun no more than one. -/
structure Honest (terms : WaitTerms) (cancelled : Bool) (midway : List Future → Prop)
    (w : Wait μ) : Prop where
  terms_eq : w.terms = terms
  asleep : w.phase = .sleeping →
    isMet terms w.state.futures = false ∧ ¬ IsCalledOff terms cancelled
  ended : ∀ outcome, w.phase = .finished outcome →
    TellsTruth terms cancelled (midway w.state.futures) w.state.futures outcome
  once : terms.goal = .always → w.passes ≤ 1

namespace Honest

theorem finish (honest : w.Honest terms cancelled midway) {later : Bool} {outcome : Outcome Unit}
    (tells : TellsTruth terms later (midway w.state.futures) w.state.futures outcome) :
    (w.finish outcome).Honest terms later midway := by
  refine ⟨honest.terms_eq, nofun, ?_, honest.once⟩
  intro result same
  cases same
  exact tells

/-- A wait that is neither asleep nor finished. -/
theorem busy (honest : w.Honest terms cancelled midway) {state : WaitState μ} {phase : Phase}
    (awake : phase ≠ .sleeping) (going : ∀ outcome, phase ≠ .finished outcome) :
    ({ w with state, phase } : Wait μ).Honest terms cancelled midway :=
  ⟨honest.terms_eq, fun sleeps => absurd sleeps awake,
    fun outcome finished => absurd finished (going outcome), honest.once⟩

theorem passed (honest : w.Honest terms cancelled midway) :
    (w.passed cancelled).Honest terms cancelled midway := by
  obtain rfl := honest.terms_eq
  rcases w.passed_cases cancelled with ⟨met, ends⟩ | ⟨unmet, ⟨calledOff, ends⟩ | ⟨stays, sleeps⟩⟩
  · rw [ends]
    exact honest.finish (.of_met met)
  · rw [ends]
    exact honest.finish (.of_calledOff calledOff unmet)
  · rw [sleeps]
    exact ⟨rfl, fun _ => ⟨unmet, stays⟩, nofun, honest.once⟩

/-- A wait that has slept begins another pass, unless it always returns after one. -/
theorem decide (honest : w.Honest terms cancelled midway) (sleeping : w.phase = .sleeping) :
    w.decide cancelled = w.beginPass ∧ w.beginPass.Honest terms cancelled midway := by
  obtain rfl := honest.terms_eq
  obtain ⟨unmet, stays⟩ := honest.asleep sleeping
  rcases w.decide_cases cancelled with ⟨met, -⟩ | ⟨-, ⟨calledOff, -⟩ | ⟨-, begins⟩⟩
  · rw [unmet] at met
    cases met
  · exact absurd calledOff stays
  · exact ⟨begins, rfl, nofun, nofun, fun always => absurd always (goal_of_unmet unmet)⟩

theorem wake (honest : w.Honest terms cancelled midway) :
    (w.wake cancelled).Honest terms cancelled midway := by
  unfold Wait.wake
  split
  · next sleeping =>
    obtain ⟨begins, honest'⟩ := honest.decide sleeping
    rwa [begins]
  · exact honest

theorem pollNext [Watcher μ] (honest : w.Honest terms cancelled midway) :
    (w.pollNext cancelled).Honest terms cancelled midway := by
  unfold Wait.pollNext
  split
  · split
    · exact honest.passed
    · split <;> exact honest.busy nofun nofun
  · exact honest

/-- Time can be up in the sleep of a wait, or midway. -/
theorem expire (honest : w.Honest terms cancelled midway)
    (blocked : w.IsRunning → w.phase = .sleeping ∨ midway w.state.futures) :
    w.expire.Honest terms cancelled midway := by
  obtain rfl := honest.terms_eq
  unfold Wait.expire
  split
  · exact honest
  · next limit allowed running =>
    exact honest.finish (.of_timeout allowed
      ((blocked running).imp_left fun sleeping => (honest.asleep sleeping).1))
  · exact honest

/-- A wait that hears that the token is cancelled, or nothing of it. -/
theorem hears (honest : w.Honest terms cancelled midway) {later : Bool}
    (stays : cancelled = true → later = true) :
    (if later then w.cancel else w).Honest terms later midway := by
  obtain rfl := honest.terms_eq
  have told (outcome : Outcome Unit) (finished : w.phase = .finished outcome) :=
    (honest.ended outcome finished).mono stays
  cases later with
  | false =>
    obtain rfl : cancelled = false := by simpa using stays
    exact ⟨rfl, honest.asleep, told, honest.once⟩
  | true =>
    show w.cancel.Honest w.terms true midway
    unfold Wait.cancel
    split
    · next sleeping =>
      have unmet := (honest.asleep sleeping).1
      split
      · next may => exact honest.finish (.of_calledOff ⟨may, rfl⟩ unmet)
      · next mayNot => exact ⟨rfl, fun _ => ⟨unmet, fun off => mayNot off.1⟩, told, honest.once⟩
    · next awake => exact ⟨rfl, fun sleeping => absurd sleeping awake, told, honest.once⟩

end Honest

theorem passes_passed (cancelled : Bool) (w : Wait μ) : (w.passed cancelled).passes = w.passes := by
  unfold Wait.passed
  split
  · rfl
  · split <;> rfl

theorem passes_pollNext [Watcher μ] (cancelled : Bool) (w : Wait μ) :
    (w.pollNext cancelled).passes = w.passes := by
  unfold Wait.pollNext
  split
  · split
    · exact w.passes_passed cancelled
    · split <;> rfl
  · rfl

theorem passes_answer [Watcher μ] (answers : List (Nat × Outcome FetchAnswer)) (w : Wait μ) :
    (w.answer answers).passes = w.passes := by
  unfold Wait.answer
  split
  · split <;> rfl
  · rfl

theorem passes_cancel (w : Wait μ) : w.cancel.passes = w.passes := by
  unfold Wait.cancel
  split
  · split <;> rfl
  · rfl

theorem passes_expire (w : Wait μ) : w.expire.passes = w.passes := by
  unfold Wait.expire
  split <;> rfl

end Wait

theorem Surroundings.cancelled_change {sur : Surroundings} (c : Change)
    (cancelled : sur.cancelled = true) : (sur.change c).cancelled = true := by
  cases c <;> first | exact cancelled | rfl

namespace WaitRun

variable {calls : List CallName} {terms : WaitTerms} {futures : List Future}
  {start r r' : WaitRun} {limit : Option Nat} {midway : List Future → Prop}

/-- Time was up for a run in the middle of things, and not in its sleep: as a store was opened or
swept before its first look, as one was opened while the wait set grew, or while the fetches of a
unit were under way. -/
inductive TimedOutMidway (start : WaitRun) (left : List Future) : Prop where
  | beginning {ms : Nat} : start.wait.phase = .finished (.error (.timeout ms)) →
      start.wait.state.futures = left → TimedOutMidway start left
  | growing {r r' : WaitRun} {ms : Nat} : start.Visits r → r.turn = some r' →
      r'.wait.phase = .finished (.error (.timeout ms)) → r'.wait.state.futures = left →
      TimedOutMidway start left
  | fetching {r : WaitRun} {i deadline : Nat} {targets : List Target} : start.Visits r →
      r.wait.phase = .fetching i targets → r.turn = none → r.deadline = some deadline →
      deadline ≤ r.now → r.wait.state.futures = left → TimedOutMidway start left

/-- A run whose wait tells the truth. -/
abbrev Honest (terms : WaitTerms) (midway : List Future → Prop) (r : WaitRun) : Prop :=
  r.wait.Honest terms r.sur.cancelled midway

/-- The token stays cancelled. -/
theorem Happens.cancelled (happens : r.Happens r') (cancelled : r.sur.cancelled = true) :
    r'.sur.cancelled = true := by
  cases happens with
  | turn turns => rw [(turn_cases turns).1.sur, cancelled]
  | overdue _ => rw [r.beside_checkDeadline.sur, cancelled]
  | changed _ => exact Surroundings.cancelled_change _ cancelled
  | looked => exact cancelled
  | clock now _ => exact cancelled
  | resumed => rw [r.beside_resume.sur, cancelled]

/-- A wait that is blocked is asleep, or in the middle of its fetches. -/
theorem blocked_cases (blocked : r.turn = none) (running : r.wait.IsRunning) :
    r.wait.phase = .sleeping ∨ ∃ i targets, r.wait.phase = .fetching i targets := by
  cases phase : r.wait.phase with
  | finished result => exact absurd phase (running result)
  | sleeping => exact Or.inl rfl
  | polling i =>
    unfold turn at blocked
    rw [phase] at blocked
    cases blocked
  | fetching i targets => exact Or.inr ⟨i, targets, rfl⟩

theorem Happens.honest (happens : r.Happens r') (visits : start.Visits r)
    (honest : r.Honest terms start.TimedOutMidway)
    (contained : r.Contained calls terms futures limit)
    (timed : ∀ ms, limit = some ms → terms.timeout = some ms) :
    r'.Honest terms start.TimedOutMidway := by
  cases happens with
  | turn turns =>
    obtain ⟨beside, ⟨i, phase, isWait⟩ | ⟨i, targets, p, phase, isPool, done, isWait⟩⟩ :=
      turn_cases turns
    · rw [Honest, isWait, beside.sur]
      exact Wait.Honest.pollNext honest
    · have isTerms := contained.reached.sound.1.terms_eq
      rcases settled : r.wait.state.settle r.wait.provider r.wait.terms p.answers with
        ⟨state, none | e⟩
      · rw [Honest, isWait, beside.sur, Wait.answer_of_none phase settled]
        exact honest.busy nofun nofun
      · have after := isWait.trans (Wait.answer_of_some phase settled)
        have cut (ms : Nat) (isCut : e = .timeout ms) : start.TimedOutMidway state.futures := by
          have ended : r'.wait.phase = .finished (.error (.timeout ms)) := by rw [after, isCut]
          exact .growing visits turns ended (by rw [after])
        have tells :
            TellsTruth terms r.sur.cancelled (start.TimedOutMidway state.futures) state.futures
              (.error e) := contained.settle_tells timed phase isPool done settled cut _
        rw [Honest, after, beside.sur]
        refine ⟨isTerms, nofun, ?_, honest.once⟩
        intro outcome same
        cases same
        exact tells
  | overdue blocked =>
    rw [Honest, r.beside_checkDeadline.sur]
    unfold checkDeadline
    split
    · next deadline limited =>
      split
      · next past =>
        refine honest.expire fun running => ?_
        rcases blocked_cases blocked running with sleeping | ⟨i, targets, phase⟩
        · exact Or.inl sleeping
        · exact Or.inr (.fetching visits phase blocked limited past rfl)
      · exact honest
    · exact honest
  | @changed time c rest ahead =>
    have heard : ({ r with timeline := rest } : WaitRun).heard c |>.Honest terms r.sur.cancelled
        start.TimedOutMidway := ⟨honest.terms_eq, honest.asleep, honest.ended, honest.once⟩
    exact heard.hears (Surroundings.cancelled_change c)
  | looked => exact ⟨honest.terms_eq, honest.asleep, honest.ended, honest.once⟩
  | clock now _ => exact honest
  | resumed =>
    rw [Honest, r.beside_resume.sur]
    unfold resume
    split
    · split
      · exact honest.wake
      · exact honest
    · split <;> exact honest
    · exact honest

/-- What holds at every point of an honest run. -/
theorem Contained.honest (contained : start.Contained calls terms futures limit)
    (timed : ∀ ms, limit = some ms → terms.timeout = some ms)
    (honest : start.Honest terms start.TimedOutMidway) (visits : start.Visits r) :
    r.Honest terms start.TimedOutMidway := by
  induction visits with
  | refl => exact honest
  | tail visits happens ih =>
    exact happens.honest visits ih (contained.visits visits) timed

/-- Once a wait is called off, it begins no pass. -/
theorem Happens.passes (happens : r.Happens r') (honest : r.Honest terms midway)
    (calledOff : Wait.IsCalledOff terms r.sur.cancelled) : r'.wait.passes = r.wait.passes := by
  cases happens with
  | turn turns =>
    rcases (turn_cases turns).2 with ⟨i, -, isWait⟩ | ⟨i, targets, p, -, -, -, isWait⟩
    · rw [isWait, Wait.passes_pollNext]
    · rw [isWait, Wait.passes_answer]
  | overdue _ =>
    unfold checkDeadline
    split
    · split
      · exact Wait.passes_expire r.wait
      · rfl
    · rfl
  | @changed time c rest ahead =>
    rw [change_wait]
    split
    · exact Wait.passes_cancel _
    · rfl
  | looked => rfl
  | clock now _ => rfl
  | resumed =>
    unfold resume
    split
    · next sleeping => exact absurd calledOff (honest.asleep sleeping).2
    · split <;> rfl
    · rfl

theorem Visits.passes_of_calledOff (visits : r.Visits r')
    (honest : ∀ q, r.Visits q → q.Honest terms midway)
    (calledOff : Wait.IsCalledOff terms r.sur.cancelled) :
    r'.wait.passes = r.wait.passes ∧ Wait.IsCalledOff terms r'.sur.cancelled := by
  induction visits with
  | refl => exact ⟨rfl, calledOff⟩
  | tail visits happens ih =>
    exact ⟨(happens.passes (honest _ visits) ih.2).trans ih.1, ih.2.1, happens.cancelled ih.2.2⟩

end WaitRun

namespace Session

variable {s : Session} {terms : WaitTerms} {timeline : List (Nat × Change)}

/-- Whether fetches take no time in a session and along a wait of it. -/
def IsQuick (s : Session) (timeline : List (Nat × Change)) : Prop :=
  s.sur.IsQuick ∧ ∀ e ∈ timeline, e.2.setsLatency = false

/-- A wait that is entered looks at its condition, unless it always makes a pass. -/
theorem entered_honest {midway : List Future → Prop} {cancelled : Bool} {w : Wait SessionMonitor}
    (isTerms : w.terms = terms) (passes : w.passes = 0) :
    (if terms.goal = .always then w.beginPass else w.decide cancelled).Honest terms cancelled
      midway := by
  obtain rfl := isTerms
  have first : w.passes + 1 ≤ 1 := by rw [passes]
  have begun : w.beginPass.Honest w.terms cancelled midway := ⟨rfl, nofun, nofun, fun _ => first⟩
  have ended {outcome : Outcome Unit}
      (tells : TellsTruth w.terms cancelled (midway w.state.futures) w.state.futures outcome) :
      (w.finish outcome).Honest w.terms cancelled midway := by
    refine ⟨rfl, nofun, ?_, fun _ => passes ▸ Nat.zero_le 1⟩
    intro result same
    cases same
    exact tells
  split
  · exact begun
  · rcases w.decide_cases cancelled with ⟨met, ends⟩ | ⟨unmet, ⟨calledOff, ends⟩ | ⟨-, begins⟩⟩
    · exact ends ▸ ended (.of_met met)
    · exact ends ▸ ended (.of_calledOff calledOff unmet)
    · exact begins ▸ begun

/-- A wait that is called off before it is entered makes no pass. -/
theorem passes_of_calledOff {cancelled : Bool} {w : Wait SessionMonitor} (isTerms : w.terms = terms)
    (calledOff : Wait.IsCalledOff terms cancelled) (passes : w.passes = 0) :
    (w.decide cancelled).passes = 0 := by
  obtain rfl := isTerms
  rcases w.decide_cases cancelled with ⟨-, ends⟩ | ⟨-, ⟨-, ends⟩ | ⟨stays, -⟩⟩
  · exact ends ▸ passes
  · exact ends ▸ passes
  · exact absurd calledOff stays

/-- The limit that an opening or a sweep may end with is that of the terms. -/
theorem timeout_of_limitOf {cutIn : Option CutPoint} {ms : Nat}
    (limited : limitOf terms cutIn = some ms) : terms.timeout = some ms := by
  unfold limitOf cutBy at limited
  cases cutIn with
  | none => cases limited
  | some before =>
    cases allowed : terms.timeout with
    | none =>
      rw [allowed] at limited
      cases limited
    | some limit =>
      rw [allowed] at limited
      exact limited

/-- A wait is honest when it begins, and begins no pass if it is called off. -/
theorem startRun_honest (s : Session) (terms : WaitTerms) (timeline : List (Nat × Change))
    (cutIn : Option CutPoint) :
    (s.startRun terms timeline {} cutIn).Honest terms
        (s.startRun terms timeline {} cutIn).TimedOutMidway ∧
      (Wait.IsCalledOff terms s.sur.cancelled → terms.goal ≠ .always →
        (s.startRun terms timeline {} cutIn).wait.passes = 0) := by
  rw [WaitRun.Honest]
  obtain ⟨w, begins, isWait | ⟨isWait, e, failed, why⟩⟩ := s.startRun_cases terms timeline {} cutIn
  · rw [isWait]
    refine ⟨entered_honest begins.terms_eq begins.passes, ?_⟩
    intro calledOff goal
    rw [if_neg goal]
    exact passes_of_calledOff begins.terms_eq calledOff begins.passes
  · rw [isWait]
    refine ⟨⟨begins.terms_eq, by rw [failed]; nofun, ?_, fun _ => begins.passes ▸ Nat.zero_le 1⟩,
      fun _ _ => begins.passes⟩
    intro outcome finished
    cases failed.symm.trans finished
    rcases why with ⟨detail, rfl⟩ | ⟨c, cut, rfl⟩
    · exact .of_storage ..
    · refine .of_timeout (timeout_of_limitOf (congrArg (Option.map Cut.limit) cut)) (Or.inr ?_)
      exact .beginning (isWait ▸ failed) (congrArg (·.state.futures) isWait)

/-- Where fetches take no time, they take none in a wait that begins. -/
theorem startRun_prompt (quick : s.IsQuick timeline) (terms : WaitTerms) :
    (s.startRun terms timeline).Prompt := by
  refine ⟨quick.1, ?_, ?_⟩
  · intro e member
    obtain ⟨e', listed, rfl⟩ := List.mem_map.mp member
    exact quick.2 e' listed
  · intro i targets phase
    obtain ⟨p, u, isPool, -⟩ := (s.startRun_contained terms timeline).fits.pool i targets phase
    cases isPool

end Session

/-- How a wait comes out: a success tells that all futures of the wait set as left are complete, or
one of them, as the goal asks; every error tells the truth; and a wait that always returns after a
pass makes no other, is not cancelled, and is out of time only midway. -/
structure EndsTruthfully (terms : WaitTerms) (cancelled : Bool) (midway : Prop)
    (left : List Future) (outcome : Outcome Unit) (passes : Nat) : Prop where
  all : terms.goal = .all → outcome = .ok () → ∀ f ∈ left, f.isComplete terms.download = true
  any : terms.goal = .any → outcome = .ok () → ∃ f ∈ left, f.isComplete terms.download = true
  tells : TellsTruth terms cancelled midway left outcome
  always : terms.goal = .always → passes ≤ 1 ∧ (∀ n, outcome ≠ .error (.cancelled n)) ∧
    ∀ ms, outcome = .error (.timeout ms) → midway

theorem TellsTruth.ends {terms : WaitTerms} {cancelled : Bool} {midway : Prop}
    {left : List Future} {outcome : Outcome Unit} {passes : Nat}
    (tells : TellsTruth terms cancelled midway left outcome)
    (once : terms.goal = .always → passes ≤ 1) :
    EndsTruthfully terms cancelled midway left outcome passes := by
  refine ⟨?_, ?_, tells, ?_⟩
  · intro goal ok
    have met := tells.ok ok
    rw [Wait.isMet, goal] at met
    exact List.all_eq_true.mp met
  · intro goal ok
    have met := tells.ok ok
    rw [Wait.isMet, goal] at met
    exact List.any_eq_true.mp met
  · intro always
    refine ⟨once always, fun n cancelled => ?_, fun ms timeout => ?_⟩
    · exact Wait.goal_of_unmet (tells.cancelled n cancelled).2.1 always
    · exact (tells.timeout ms timeout).2.resolve_left fun unmet =>
        Wait.goal_of_unmet unmet always

namespace Interrupted

/-- A call of which nothing is known. -/
def session : Session where
  futures := [{ key := ⟨"e", "j", "0"⟩, backend := "memory" }]
  monitorInterval := 10
  storage := { interval := 10 }

def cancellable : WaitTerms := { cancellable := true }

end Interrupted

end CallDispatch
