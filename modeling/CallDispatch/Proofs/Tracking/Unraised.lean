import CallDispatch.Proofs.Tracking.Confluence
import CallDispatch.Proofs.Tracking.Lockstep
import CallDispatch.Proofs.Tracking.Tallies

/-!
# Failures that are not raised

Whether failures are raised decides what a wait returns, not what it records. A unit that is polled
either way leaves the same state, and ends the wait with an error if failures are raised wherever it
does otherwise. So a wait that raises failures and returns without an error has gone, turn by turn
and moment by moment, just as it would have gone without raising any.
-/

namespace CallDispatch

/-- The same terms, but failures are not raised. -/
def WaitTerms.sparing (terms : WaitTerms) : WaitTerms := { terms with throwing := false }

/-- The same wait, but failures are not raised. -/
def Wait.sparing {μ : Type} (w : Wait μ) : Wait μ := { w with terms := w.terms.sparing }

/-! ## Recording answers -/

/-- What raises nothing if failures are raised raises nothing otherwise. -/
theorem Future.raised_eq_none_of_raising {f : Future} {answer : Outcome FetchAnswer}
    (quiet : f.raised true answer = none) (throwing : Bool) : f.raised throwing answer = none := by
  cases throwing with
  | true => exact quiet
  | false =>
    cases raised : f.raised false answer with
    | none => rfl
    | some e =>
      rcases raised_cases raised with rfl | ⟨throws, -⟩
      · cases quiet
      · cases throws

section
variable {terms : WaitTerms} {answers : List (Nat × Outcome FetchAnswer)} {futures : List Future}

theorem firstError_eq_none_of_raising
    (quiet : (recordAll terms.raising answers futures).firstError = none) :
    (recordAll terms answers futures).firstError = none := by
  rw [firstError_recordAll, List.findSome?_eq_none_iff] at quiet ⊢
  intro x listed
  have silent := quiet x listed
  unfold raisedAt at silent ⊢
  rw [Option.bind_eq_none_iff] at silent ⊢
  exact fun f found => Future.raised_eq_none_of_raising (silent f found) terms.throwing

/-- Where taking in answers raises nothing if failures are raised, it raises nothing otherwise. -/
theorem WaitState.settle_eq_none_of_raising {μ : Type} [Watcher μ] {provider : Provider}
    (brings : ∀ x ∈ answers, BringsSuccess x.2) {s : WaitState μ}
    (quiet : (s.settle provider terms.raising answers).2 = none) :
    (s.settle provider terms answers).2 = none := by
  obtain ⟨same, newlyComplete, children⟩ := recordAll_agrees terms brings s.futures
  have record (terms : WaitTerms) : (sortAnswers answers).foldl (Recorded.add terms)
      { futures := s.futures } = recordAll terms answers s.futures := rfl
  unfold settle at quiet ⊢
  rw [record] at quiet ⊢
  dsimp only at quiet ⊢
  rw [same, newlyComplete, children] at quiet
  split at quiet
  · next leaf =>
    rw [if_pos leaf]
    exact firstError_eq_none_of_raising quiet
  · next grows =>
    rw [if_neg grows]
    split at quiet
    · cases quiet
    · exact firstError_eq_none_of_raising quiet

end

/-! ## Polling a unit -/

namespace Wait

variable {μ : Type} [Watcher μ] {w : Wait μ} {i : Nat} {u : WaitUnit}
  {answers : List (Nat × Outcome FetchAnswer)}

/-- Answers that are taken leave the same wait, or one that ends with an error if failures are
raised. -/
theorem answer_raising_cases {targets : List Target} (phase : w.phase = .fetching i targets)
    (brings : ∀ x ∈ answers, BringsSuccess x.2) :
    w.raising.answer answers = (w.answer answers).raising ∨
      ∃ e, (w.raising.answer answers).phase = .finished (.error e) := by
  cases raised : w.state.settle w.provider w.terms.raising answers with
  | mk state error =>
    cases error with
    | some e => exact .inr ⟨e, by rw [answer_of_some (w := w.raising) phase raised]⟩
    | none =>
      have same := (WaitState.settle_raising w.provider w.terms brings w.state).1
      have quiet := WaitState.settle_eq_none_of_raising brings (congrArg Prod.snd raised)
      rw [raised] at same
      rw [answer_of_none (w := w.raising) phase raised,
        answer_of_none phase (Prod.ext same.symm quiet)]
      exact .inl rfl

/-- Taken alike, answers leave the same state whether failures are raised or not, and an error
wherever they do without raising them. -/
theorem polled_raising {replies : Replies} (polling : w.phase = .polling i)
    (unit : w.state.units[i]? = some u)
    (fetched : Answers replies u.backend w.terms.download
      (w.state.targets w.terms.download u) answers) (cancelled : Bool) (poolSize : Nat) :
    (w.raising.polled cancelled poolSize answers).state =
        (w.polled cancelled poolSize answers).state ∧
      ∃ raised spared : Option DispatchError,
        (w.raising.polled cancelled poolSize answers).phase = phaseAfter i raised ∧
        (w.polled cancelled poolSize answers).phase = phaseAfter i spared ∧
        (raised = none → spared = none) := by
  by_cases none : w.state.targets w.terms.download u = []
  · obtain ⟨state, phase⟩ :=
      polled_of_no_targets (w := w.raising) polling unit none cancelled poolSize answers
    obtain ⟨state', phase'⟩ := polled_of_no_targets polling unit none cancelled poolSize answers
    exact ⟨state.trans state'.symm, Option.none, Option.none, phase, phase', fun _ => rfl⟩
  · obtain ⟨state, phase⟩ :=
      polled_of_targets (w := w.raising) polling unit none cancelled poolSize answers
    obtain ⟨state', phase'⟩ := polled_of_targets polling unit none cancelled poolSize answers
    have brings := fetched.bringSuccess
    have same := (WaitState.settle_raising w.provider w.terms brings w.state).1
    exact ⟨(state.trans same).trans state'.symm, _, _, phase, phase',
      WaitState.settle_eq_none_of_raising brings⟩

end Wait

/-! ## Runs -/

namespace WaitRun

variable {r : WaitRun} {replies : Replies} {terms : WaitTerms} {futures : List Future}

/-- A run is over with an error. -/
def Fails (r : WaitRun) : Prop := ∃ e, r.wait.phase = .finished (.error e)

/-- A turn of a run that raises failures is the same turn, unless it ends the run with an error. -/
theorem Fits.turn_raising_cases (fits : r.Fits replies terms futures) :
    r.raising.turn = r.turn.map raising ∨ ∃ last, r.raising.turn = some last ∧ last.Fails := by
  by_cases calm : ∀ i targets, r.wait.phase ≠ .fetching i targets
  · exact .inl (WaitRun.turn_raising calm)
  · simp only [not_forall, not_not] at calm
    obtain ⟨i, targets, phase⟩ := calm
    cases blocked : r.turn with
    | none => exact .inl (turn_raising_eq_none blocked)
    | some r' =>
      obtain ⟨-, ⟨j, polling, -⟩ | ⟨j, targets', p, fetching, isPool, done, -⟩⟩ :=
        turn_cases blocked
      · cases phase.symm.trans polling
      · obtain ⟨u, -, fetched⟩ := fits.answers fetching isPool done
        have turns := turn_of_fetched fetching isPool done
        have turns' := turn_of_fetched (r := r.raising) fetching isPool done
        rw [blocked] at turns
        rw [Option.some.inj turns, turns']
        rcases Wait.answer_raising_cases fetching fetched.bringSuccess with same | ⟨e, fails⟩
        · exact .inl (congrArg (fun wait => some { r with wait, pool := none }) same)
        · exact .inr ⟨_, rfl, e, fails⟩

theorem untilBlocked_of_fails (fails : r.Fails) (fuel : Nat) : r.untilBlocked fuel = r := by
  obtain ⟨e, finished⟩ := fails
  exact untilBlocked_of_blocked (turn_of_finished finished) fuel

/-- A run that raises failures goes on alike until it blocks, unless it ends with an error before.
-/
theorem Fits.untilBlocked_raising (fits : r.Fits replies terms futures) (fuel : Nat) :
    r.raising.untilBlocked fuel = (r.untilBlocked fuel).raising ∨
      (r.raising.untilBlocked fuel).Fails := by
  induction fuel generalizing r with
  | zero => exact .inl rfl
  | succ fuel ih =>
    rw [untilBlocked_succ, untilBlocked_succ]
    rcases fits.turn_raising_cases with same | ⟨last, turns, fails⟩
    · rw [same]
      cases turns : r.turn with
      | none => exact .inl rfl
      | some r' => exact ih (fits.turn turns)
    · rw [turns]
      dsimp only
      rw [untilBlocked_of_fails fails]
      exact .inr fails

/-- A blocked run that goes through no more moments ends alike. -/
theorem fromBlocked_raising_of_moment (last : r.moment = none) (turns events : Nat) :
    r.raising.fromBlocked turns events = (r.fromBlocked turns events).raising := by
  have going (r : WaitRun) : r.raising.isFinished = r.isFinished := rfl
  have due (r : WaitRun) : r.raising.dueTimes = r.dueTimes := rfl
  unfold moment at last
  unfold fromBlocked
  dsimp only at last ⊢
  rw [checkDeadline_raising, going, runDue_raising, going, due]
  split at last
  · next ended => rw [if_pos ended, if_pos ended]
  · next active =>
    rw [if_neg active, if_neg active]
    split at last
    · next ended => rw [if_pos ended, if_pos ended]
    · next active' =>
      rw [if_neg active', if_neg active']
      cases next : r.checkDeadline.runDue.dueTimes.min? with
      | none => rfl
      | some time =>
        rw [next] at last
        have later := runDue_raising
          { r.checkDeadline.runDue with now := max r.checkDeadline.runDue.now time }
        dsimp only at last ⊢
        split at last
        · next ended =>
          rw [if_pos ended]
          exact (if_pos (later ▸ ended)).trans later
        · cases last

/-- A run that raises failures ends alike, unless it ends with an error. -/
theorem Fits.run_raising (fits : r.Fits replies terms futures) (turns events : Nat) :
    r.raising.run turns events = (r.run turns events).raising ∨
      (r.raising.run turns events).Fails := by
  induction events generalizing r with
  | zero => exact .inl rfl
  | succ events ih =>
    have blocked := fits.untilBlocked turns
    rw [run_succ, run_succ]
    rcases fits.untilBlocked_raising turns with same | fails
    · rw [same]
      cases passes : (r.untilBlocked turns).moment with
      | none => exact .inl (fromBlocked_raising_of_moment passes turns events)
      | some r' =>
        have passes' : (r.untilBlocked turns).raising.moment = some r'.raising := by
          rw [moment_raising, passes]
          rfl
        rw [fromBlocked_of_moment passes, fromBlocked_of_moment passes']
        exact ih (blocked.moment passes)
    · obtain ⟨e, finished⟩ := fails
      rw [fromBlocked_of_finished finished]
      exact .inr ⟨e, finished⟩

end WaitRun

/-! ## Waits of a session -/

namespace Session

/-- What a wait that has been run leaves, comes to and tells. -/
def outcomeOfRun (s : Session) (r : WaitRun) :
    Session × Outcome Unit × WaitReport :=
  (s.afterRun r, outcomeOf r.wait.phase,
    { result := .ok (.values []), elapsed := r.now - s.now, passes := r.wait.passes
      progress := r.wait.state.progress.tell .close, log := r.log
      opened := r.wait.state.opened
      starts := match r.wait.state.monitor with
        | .manual m => m.starts
        | .storage _ => []
      futures := r.wait.state.futures })

theorem wait_eq_outcomeOfRun {s : Session} {terms : WaitTerms}
    (open_ : s.futures.all (·.isComplete terms.download) = false)
    (timeline : List (Nat × Change)) (sink : Progress) (cutIn : Option CutPoint) :
    s.wait terms timeline sink cutIn =
      s.outcomeOfRun ((s.startRun terms timeline sink cutIn).run s.limit s.limit) := by
  rw [wait, if_neg (by simp [open_])]
  rfl

/-- A wait that raises failures and returns without an error leaves the same session, with the same
report, as one that does not raise them. -/
theorem wait_sparing_of_raising {s : Session} {terms : WaitTerms} {timeline : List (Nat × Change)}
    {sink : Progress} {cutIn : Option CutPoint}
    (returns : (s.wait terms.raising timeline sink cutIn).2.1 = .ok ()) :
    s.wait terms.sparing timeline sink cutIn = s.wait terms.raising timeline sink cutIn := by
  cases open_ : s.futures.all (·.isComplete terms.download) with
  | true =>
    have still (t : WaitTerms) (same : t.download = terms.download) :
        s.futures.all (·.isComplete t.download) = true := same ▸ open_
    rw [wait, if_pos (still terms.sparing rfl), wait, if_pos (still terms.raising rfl)]
  | false =>
    have within : s.sur.Within .anything :=
      ⟨fun _ => trivial, fun _ _ => trivial, fun _ _ => trivial⟩
    have allowed : WaitRun.Allowed .anything timeline :=
      fun _ _ _ _ => ⟨fun _ => trivial, fun _ _ => trivial, fun _ _ => trivial⟩
    have fits : (s.startRun terms.sparing timeline sink cutIn).Fits .anything terms.sparing
        s.futures := startRun_fits within allowed fun _ _ _ => trivial
    have start : s.startRun terms.raising timeline sink cutIn =
        (s.startRun terms.sparing timeline sink cutIn).raising :=
      s.startRun_raising terms.sparing timeline sink cutIn
    have ran (t : WaitTerms) (same : t.download = terms.download) :
        s.wait t timeline sink cutIn =
          s.outcomeOfRun ((s.startRun t timeline sink cutIn).run s.limit s.limit) :=
      wait_eq_outcomeOfRun (same ▸ open_) timeline sink cutIn
    rw [ran terms.raising rfl, start] at returns
    rw [ran terms.raising rfl, ran terms.sparing rfl, start]
    rcases fits.run_raising s.limit s.limit with same | ⟨e, fails⟩
    · rw [same]
      rfl
    · have error : outcomeOf (.finished (.error e)) = .ok () := fails ▸ returns
      cases error

end Session

/-- Whether failures are raised decides what is raised, not what is recorded. For any wait set,
unit, monitor and stores, polling a unit leaves the same futures, units, monitor and progress either
way, however its fetches are scheduled; and if that does not end the wait with an error where
failures are raised, it does not where they are not. So for any session, whatever happens along the
wait and wherever time runs out, a wait that raises failures and returns without an error leaves the
very session, and gives the very report, of one that raises none. -/
theorem throwing_only_decides_what_is_raised {μ : Type} [Watcher μ] {w : Wait μ} {i : Nat}
    {u : WaitUnit} (polling : w.phase = .polling i) (unit : w.state.units[i]? = some u)
    {status? : String → CallName → Outcome (Option StatusRecord)}
    {output? : String → CallName → Outcome (Option OutputRecord)}
    {answers answers' : List (Nat × Outcome FetchAnswer)}
    (fetched : Answers (.fixed status? output?) u.backend w.terms.download
      (w.state.targets w.terms.download u) answers)
    (fetched' : Answers (.fixed status? output?) u.backend w.terms.download
      (w.state.targets w.terms.download u) answers')
    (cancelled : Bool) (poolSize poolSize' : Nat) (s : Session) (terms : WaitTerms)
    (timeline : List (Nat × Change)) (sink : Progress) (cutIn : Option CutPoint) :
    ((w.raising.polled cancelled poolSize answers).state =
        (w.sparing.polled cancelled poolSize' answers').state ∧
      ∃ raised spared : Option DispatchError,
        (w.raising.polled cancelled poolSize answers).phase = Wait.phaseAfter i raised ∧
        (w.sparing.polled cancelled poolSize' answers').phase = Wait.phaseAfter i spared ∧
        (raised = none → spared = none)) ∧
    ((s.wait terms.raising timeline sink cutIn).2.1 = .ok () →
      s.wait terms.sparing timeline sink cutIn = s.wait terms.raising timeline sink cutIn) := by
  refine ⟨?_, Session.wait_sparing_of_raising⟩
  obtain ⟨state, raised, spared, phase, phase', follows⟩ :=
    Wait.polled_raising (w := w.sparing) polling unit fetched cancelled poolSize
  obtain ⟨inTurn, inTurn'⟩ :=
    Wait.polled_of_answers (w := w.sparing) polling unit fetched cancelled poolSize
  obtain ⟨scheduled, scheduled'⟩ :=
    Wait.polled_of_answers (w := w.sparing) polling unit fetched' cancelled poolSize'
  exact ⟨state.trans (inTurn.trans scheduled.symm), raised, spared, phase,
    (scheduled'.trans inTurn'.symm).trans phase', follows⟩

namespace Mingled

/-- A unit with a call that dispatched another, one that cannot be asked about and one that failed
is left alike by fetches one after the other that raise failures and by fetches all at once that do
not. A wait for one of two calls returns alike. -/
theorem throwing_changes_no_record : ∃ one many : FetchPool,
    (FetchPool.ofTargets "b" true 0 targets).run status? output? inTurn = some one ∧
    (FetchPool.ofTargets "b" true 3 targets).run status? output? backwards = some many ∧
    (wait.raising.polled false 0 one.answers).state =
      (wait.sparing.polled false 3 many.answers).state ∧
    EngineCall.Again.session.wait ({ goal := .any } : WaitTerms).sparing [] {} =
      EngineCall.Again.session.wait ({ goal := .any } : WaitTerms).raising [] {} := by
  have ends : ((FetchPool.ofTargets "b" true 0 targets).run status? output? inTurn).any
      (fun p => p.isDone) = true := by decide +kernel
  have ends' : ((FetchPool.ofTargets "b" true 3 targets).run status? output? backwards).any
      (fun p => p.isDone) = true := by decide +kernel
  obtain ⟨one, runs, done⟩ := (Option.any_eq_true _ _).mp ends
  obtain ⟨many, runs', done'⟩ := (Option.any_eq_true _ _).mp ends'
  have asked : wait.state.targets true unit = targets := by decide +kernel
  have returns : (EngineCall.Again.session.wait ({ goal := .any } : WaitTerms).raising [] {}).2.1 =
      .ok () := by cbv
  obtain ⟨⟨state, -⟩, alike⟩ := throwing_only_decides_what_is_raised (w := wait) (i := 0) rfl
    (rfl : wait.state.units[0]? = some unit)
    (asked.symm ▸ (FetchPool.run_ofTargets runs).2.2 done)
    (asked.symm ▸ (FetchPool.run_ofTargets runs').2.2 done') false 0 3 EngineCall.Again.session
    { goal := .any } [] {} none
  exact ⟨one, many, runs, runs', state, alike returns⟩

end Mingled

end CallDispatch
