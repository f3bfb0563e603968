import CallDispatch.Job.Wire
import CallDispatch.Cluster

/-!
# Dispatching a job message

A pod that receives a job works out its own calls and launches them one after the other, each as
soon as it has a slot for it. Launching stops for good at the first call the payload does not have,
and when the pod is told to stop; what is running then is left to finish.

A call the payload lacks is noticed before the pod looks whether it has been told to stop, and that
before it looks for a slot.
-/

namespace CallDispatch

/-- What a pod did with a job message. -/
inductive Dispatched where
  | skipped
  | launched (launched planned : Nat)
  deriving DecidableEq, Repr

/-- A job being launched: the calls the pod was to execute, the positions of those still to be
launched, and how many have been. -/
structure Dispatch where
  payload : Payload
  planned : Nat
  remaining : List Nat
  launched : Nat := 0
  deriving Repr

namespace Dispatch

/-- What a pod has to launch of a job, or nothing if the job has no call for it. -/
def ofPayload (cluster : Nat) (range : ProcessorRun) (payload : Payload) :
    Outcome (Option Dispatch) :=
  match reachedProcessors range payload.totalCalls with
  | none => .ok none
  | some _ => do
    let share ← podShare cluster range.size range payload.totalCalls
    let remaining ← launches cluster range payload.totalCalls
    pure (some { payload, planned := share.calls, remaining })

/-- What a pod has to launch of the job in a message. -/
def ofBody (cluster : Nat) (range : ProcessorRun) (body : List UInt8) :
    Outcome (Option Dispatch) := do
  let payload ← (Payload.ofBytes body).mapError .decode
  ofPayload cluster range payload

/-- What comes next: an end, a call to launch with what remains after it, or waiting for a slot. -/
inductive Step where
  | finished (result : Outcome Dispatched)
  | launch (call : Payload) (rest : Dispatch)
  | wait

/-- The next step, given whether the pod has been told to stop and whether it has a free slot. -/
def step (d : Dispatch) (told free : Bool) : Step :=
  match d.remaining with
  | [] => .finished (.ok (.launched d.launched d.planned))
  | index :: remaining =>
    match d.payload.single index with
    | .error e => .finished (.error e)
    | .ok call =>
      if told then .finished (.error .shutdown)
      else if free then .launch call { d with remaining, launched := d.launched + 1 }
      else .wait

end Dispatch

end CallDispatch
