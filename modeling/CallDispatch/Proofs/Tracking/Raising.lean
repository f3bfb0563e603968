import CallDispatch.Proofs.Tracking.Lineage

/-!
# Errors raised by answers

Recording an answer raises an error if the fetch failed, or if the status it brought is of a failed
call and failures are raised. Of the errors that the answers to the fetches of a unit raise, the
first in order of position is raised once all of them have been recorded.
-/

namespace CallDispatch

namespace Future

/-- The error that recording an answer raises. -/
def raised (throwing : Bool) (f : Future) : Outcome FetchAnswer → Option DispatchError
  | .ok answer => (f.record throwing answer).2
  | .error e => some e

theorem statusError?_eq_some {throwing : Bool} {f : Future} {s : StatusRecord}
    {e : DispatchError} : f.statusError? throwing s = some e ↔
      throwing = true ∧ ∃ message, s.failureMessage? = some message ∧ e = f.failed message := by
  unfold statusError?
  cases s.failureMessage? with
  | none => simp
  | some message => cases throwing <;> simp [eq_comm]

/-- An output raises nothing. -/
theorem raised_result (throwing : Bool) (f : Future) (status : Option StatusRecord)
    (output : Option OutputRecord) : f.raised throwing (.ok (.result status output)) =
      status.bind (f.statusError? throwing) := by
  cases status with
  | none =>
    cases output with
    | none => rfl
    | some o =>
      simp only [raised, record]
      split <;> rfl
  | some s =>
    simp only [raised, record, Option.bind_some]
    split
    · next clean =>
      rw [clean]
      split <;> rfl
    · rfl

theorem statusError?_eq_of_name {f g : Future} (same : g.name = f.name) (throwing : Bool) :
    g.statusError? throwing = f.statusError? throwing := by
  have named : g.failed = f.failed := by
    funext message
    rw [failed.eq_1, failed.eq_1, key_eq_of_name same]
  funext s
  simp only [statusError?, named]

/-- The error that an answer raises depends on whose future it is, not on what that has recorded. -/
theorem raised_eq_of_name {f g : Future} (same : g.name = f.name) (throwing : Bool)
    (answer : Outcome FetchAnswer) : g.raised throwing answer = f.raised throwing answer := by
  have told := statusError?_eq_of_name same throwing
  match answer with
  | .error e => rfl
  | .ok (.status none) => rfl
  | .ok (.status (some s)) => exact congrFun told s
  | .ok (.result status output) => rw [raised_result, raised_result, told]

/-- An error raised is that of the fetch, or tells of a failed status, which is then recorded. -/
theorem raised_cases {throwing : Bool} {f : Future} {answer : Outcome FetchAnswer}
    {e : DispatchError} (raises : f.raised throwing answer = some e) :
    answer = .error e ∨ throwing = true ∧ ∃ s message, s.failureMessage? = some message ∧
      e = f.failed message ∧ f.recorded throwing answer = f.withStatus s := by
  have told (s : StatusRecord) (told : f.statusError? throwing s = some e)
      (records : f.recorded throwing answer = f.withStatus s) :
      throwing = true ∧ ∃ s message, s.failureMessage? = some message ∧ e = f.failed message ∧
        f.recorded throwing answer = f.withStatus s := by
    obtain ⟨throws, message, failed, same⟩ := statusError?_eq_some.mp told
    exact ⟨throws, s, message, failed, same, records⟩
  cases answer with
  | error e' =>
    cases raises
    exact Or.inl rfl
  | ok answer =>
    match answer, raises, told with
    | .status (some s), raises, told => exact Or.inr (told s raises rfl)
    | .result none (some o), raises, _ =>
      simp only [raised, record] at raises
      split at raises <;> cases raises
    | .result (some s) output, raises, told =>
      cases error : f.statusError? throwing s with
      | none =>
        simp only [raised, record, error] at raises
        split at raises
        · split at raises <;> cases raises
        · cases raises
      | some e' =>
        simp only [raised, record, error, Option.some.injEq] at raises
        subst raises
        refine Or.inr (told s error ?_)
        simp only [recorded, record, error]

/-- A status of a failed call, once recorded, is final and captured. -/
theorem captured_of_failed {f : Future} {s : StatusRecord} {message : String}
    (failed : s.failureMessage? = some message) :
    (f.withStatus s).done = true ∧ (f.withStatus s).captured = some (.failure message) := by
  constructor
  · cases success : s.success with
    | true =>
      rw [failureMessage?_eq_none success] at failed
      cases failed
    | false => simp [success]
  · rw [withStatus_captured, failed]
    rfl

end Future

/-- The error that an answer raises, recorded in its place in a wait set. -/
def raisedAt (terms : WaitTerms) (futures : List Future) (x : Nat × Outcome FetchAnswer) :
    Option DispatchError :=
  (futures[x.1]?).bind fun f => f.raised terms.throwing x.2

namespace Recorded

variable {terms : WaitTerms}

theorem firstError_add (r : Recorded) (x : Nat × Outcome FetchAnswer) :
    (r.add terms x).firstError = r.firstError.or (raisedAt terms r.futures x) := by
  unfold raisedAt
  cases found : r.futures[x.1]? with
  | none => rw [add_of_none found, Option.bind_none, Option.or_none]
  | some f =>
    unfold add
    rw [found]
    cases x.2 <;> rfl

/-- Each answer raises its own error, and the first of them stays. -/
theorem firstError_foldl_eq (answers : List (Nat × Outcome FetchAnswer)) (r : Recorded) :
    (answers.foldl (add terms) r).firstError =
      r.firstError.or (answers.findSome? (raisedAt terms r.futures)) := by
  induction answers generalizing r with
  | nil => rw [List.foldl_nil, List.findSome?_nil, Option.or_none]
  | cons x rest ih =>
    have others : raisedAt terms (r.add terms x).futures = raisedAt terms r.futures := by
      funext y
      unfold raisedAt
      rw [getElem?_add]
      cases r.futures[y.1]? with
      | none => rfl
      | some f =>
        exact Future.raised_eq_of_name (f.answered_name terms.throwing [x] y.1) terms.throwing y.2
    rw [List.foldl_cons, ih, others, firstError_add, Option.or_assoc, List.findSome?_cons]
    cases raisedAt terms r.futures x <;> rfl

end Recorded

theorem firstError_recordAll (terms : WaitTerms) (answers : List (Nat × Outcome FetchAnswer))
    (futures : List Future) : (recordAll terms answers futures).firstError =
      (sortAnswers answers).findSome? (raisedAt terms futures) :=
  (Recorded.firstError_foldl_eq _ { futures }).trans (Option.none_or ..)

end CallDispatch
