import CallDispatch.Tracking.CallRecord

/-!
# Futures

A future is the client's handle on the outcome of one call. It is *ready* once the call's status is
known and *done* once its outcome is final: the output was retrieved, the call failed, or it
produces no output. Neither mark is ever taken back.
-/

namespace CallDispatch

/-- How a call came out, as far as its future has recorded it. -/
inductive Captured where
  | value (v : Json)
  | failure (message : String)
  deriving Repr

/-- The handle on the outcome of one call. -/
structure Future where
  key : CallName
  backend : String
  produceOutput : Bool := true
  ready : Bool := false
  done : Bool := false
  status : Option StatusRecord := none
  captured : Option Captured := none
  children : List CallName := []
  deriving Repr

namespace Future

/-- The joined key of the call's job. -/
def jobKey (f : Future) : String := f.key.jobKey

/-- Whether a future counts as complete: for its output, once it is done; for its status alone, once
it is ready or done. -/
def isComplete (download : Bool) (f : Future) : Bool :=
  if download then f.done else f.ready || f.done

/-- The error of a call that failed. -/
def failed (f : Future) (message : String) : DispatchError :=
  .callFailed f.key.text message

/-- The captured value; a captured failure is raised, or else passed over as null. -/
def result (throwing : Bool) (f : Future) : Outcome Json :=
  match f.captured with
  | some (.value v) => .ok v
  | some (.failure message) => if throwing then .error (f.failed message) else .ok .null
  | none => .ok .null

end Future

/-- What a call that failed is said to have failed with. -/
def StatusRecord.failureMessage? (s : StatusRecord) : Option String :=
  if s.success then none else some (s.error.getD "call raised an exception")

namespace Future

/-- A future with a retrieved status recorded. A failure is final, and so is the success of a call
without output. -/
def withStatus (f : Future) (s : StatusRecord) : Future :=
  let known := { f with status := some s, ready := true }
  match s.failureMessage? with
  | some message => { known with done := true, captured := some (.failure message) }
  | none => if f.produceOutput then known else { known with done := true }

/-- The error that recording a status raises, if failures are to be raised. -/
def statusError? (throwing : Bool) (f : Future) (s : StatusRecord) : Option DispatchError :=
  match s.failureMessage? with
  | some message => if throwing then some (f.failed message) else none
  | none => none

/-- A future with a retrieved output recorded. Dispatched calls become visible from here on. -/
def withOutput (f : Future) : OutputRecord → Future
  | .value v => { f with captured := some (.value v), ready := true, done := true }
  | .calls keys =>
    { f with captured := some (.value .null), children := keys, ready := true, done := true }

end Future

end CallDispatch
