import CallDispatch.Job.Invocation
import CallDispatch.RangeAnswer

/-!
# Pull workers

A worker asks for a range, runs it, and asks again until it is told that there is no more work. A
request that fails in a transient way is sent again after a pause; any other failure ends the
worker. The token that tells a worker to stop is looked at before each request and during a pause. A
range once granted is always run.

The worker is a machine: what it does next depends on its phase alone, and each operation takes it
out of one phase. Whoever drives it decides how the operations of several workers interleave.
-/

namespace CallDispatch

/-- What a worker did for a job. -/
structure PullTally where
  rounds : Nat := 0
  calls : Nat := 0
  failedRounds : Nat := 0
  deriving DecidableEq, Repr

/-- The summary after one more round. -/
def PullTally.addRound (s : PullTally) (calls : Nat) (status : InvocationEnd) :
    PullTally where
  rounds := s.rounds + 1
  calls := s.calls + calls
  failedRounds := if status = .failed then s.failedRounds + 1 else s.failedRounds

/-- What a worker is doing: about to ask, holding a range it was granted, waiting for its handler,
pausing after a transient failure, or at its end. -/
inductive PullPhase where
  | asking
  | granted (start stop : Nat)
  | running (start stop : Nat)
  | pausing
  | ended (result : Outcome PullTally)

/-- A worker of a job. -/
structure Worker where
  payload : Payload
  summary : PullTally := {}
  phase : PullPhase := .asking

namespace Worker

/-- The end of a worker, if it has come to one. -/
def result? (w : Worker) : Option (Outcome PullTally) :=
  match w.phase with
  | .ended result => some result
  | _ => none

/-- End with an error. -/
def fail (w : Worker) (e : DispatchError) : Worker :=
  { w with phase := .ended (.error e) }

/-- The answer to the worker's request arrives. -/
def receive (w : Worker) : Outcome RangeAnswer → Worker
  | .ok .exhausted => { w with phase := .ended (.ok w.summary) }
  | .ok (.span start stop) => { w with phase := .granted start stop }
  | .error e => if e.isTransient then { w with phase := .pausing } else w.fail e

/-- The calls of a granted range under an activation identifier, ready for the handler, and the
worker that waits for it; or the end of the worker if its payload has no such calls. -/
def handOver (w : Worker) (start stop : Nat) (activationId : String) :
    Option Payload × Worker :=
  match w.payload.window start stop with
  | .ok window =>
    (some (window.withActivation activationId), { w with phase := .running start stop })
  | .error e => (none, w.fail e)

/-- The handler has finished with a range. -/
def report (w : Worker) (start stop : Nat) (status : InvocationEnd) : Worker :=
  { w with summary := w.summary.addRound (stop - start) status, phase := .asking }

/-- The pause is over. -/
def resume (w : Worker) : Worker := { w with phase := .asking }

/-- The worker is told to stop while it asks for nothing and runs nothing. -/
def shutDown (w : Worker) : Worker := w.fail .shutdown

end Worker

end CallDispatch
