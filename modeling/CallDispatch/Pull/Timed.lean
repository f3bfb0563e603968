import CallDispatch.Job.Handler
import CallDispatch.Pull.Source
import CallDispatch.Pull.Worker

/-!
# Pull workers in time

Workers share a source. A worker acts when it begins, when its handler has finished, when a pause is
over, and when it is told to stop during a pause; between these moments it sleeps, and nothing but
sleeping takes time. The worker that acts next is the one with the earliest moment, of several the
first.
-/

namespace CallDispatch

/-- A worker in time: the pause after a transient failure, when it is told to stop, when it acts
next, and when it came to its end. -/
structure TimedWorker where
  worker : Worker
  handler : TimedHandler := {}
  retryDelay : Nat := 100
  stopAt : Option Nat := none
  wakeAt : Nat := 0
  endedAt : Option Nat := none
  log : HandlerLog := {}

namespace TimedWorker

/-- Whether the worker has been told to stop by a moment. -/
def isToldBy (w : TimedWorker) (now : Nat) : Bool :=
  w.stopAt.any (· ≤ now)

/-- Note the end of the worker, if it has just come to one. -/
def noteEnd (w : TimedWorker) : TimedWorker :=
  if w.worker.result?.isSome then { w with endedAt := some w.wakeAt } else w

/-- The answer to a request arrives; if it calls for a pause, the worker sleeps until the pause is
over or it is told to stop. -/
def receive (w : TimedWorker) (answer : Outcome RangeAnswer) : TimedWorker :=
  let worker := w.worker.receive answer
  match worker.phase with
  | .pausing =>
    let due := w.wakeAt + w.retryDelay
    { w with worker, wakeAt := max w.wakeAt (min due (w.stopAt.getD due)) }
  | _ => { w with worker }

/-- Hand a granted range to the handler and sleep until it has finished. -/
def handOver (w : TimedWorker) (start stop : Nat) (activationId : String) : TimedWorker :=
  let (window?, worker) := w.worker.handOver start stop activationId
  match window? with
  | some window =>
    { w with
      worker
      log := w.log.start w.wakeAt window
      wakeAt := w.wakeAt + w.handler.duration window }
  | none => { w with worker }

/-- Whether the handler fails a range. -/
def statusOf (w : TimedWorker) (start stop : Nat) : InvocationEnd :=
  match w.worker.payload.window start stop with
  | .ok window => w.handler.status window
  | .error _ => .failed

/-- The next act of a worker on a source, with an activation identifier at hand. `told` says whether
the worker has been told to stop. -/
def act [WorkSource σ] (w : TimedWorker) (told : Bool) (activationId : String) (source : σ) :
    TimedWorker × σ :=
  match w.worker.phase with
  | .asking =>
    if told then (noteEnd { w with worker := w.worker.shutDown }, source)
    else
      let payload := w.worker.payload
      let (answer, source) := WorkSource.request source payload.jobKey payload.totalCalls
        payload.requestSize
      ((w.receive answer).noteEnd, source)
  | .granted start stop => ((w.handOver start stop activationId).noteEnd, source)
  | .running start stop =>
    ({ w with
        worker := w.worker.report start stop (w.statusOf start stop), log := w.log.finish },
      source)
  | .pausing =>
    if told then (noteEnd { w with worker := w.worker.shutDown }, source)
    else ({ w with worker := w.worker.resume }, source)
  | .ended _ => (w, source)

/-- How many acts a worker takes at most, with `answers` answers besides spans of its own calls:
four for each, and a few for the end. -/
def actLimit (w : TimedWorker) (answers : Nat) : Nat :=
  4 * (answers + w.worker.payload.callIds.length + 2)

end TimedWorker

/-- Workers on one source, and the number of the next activation identifier. -/
structure PullRun (σ : Type) where
  source : σ
  workers : List TimedWorker
  nextActivation : Nat := 0

namespace PullRun

/-- The position and the moment of the worker that acts next, if one is not at its end. -/
def next? : (position : Nat) → List TimedWorker → Option (Nat × Nat)
  | _, [] => none
  | position, w :: rest =>
    match w.endedAt, next? (position + 1) rest with
    | some _, later => later
    | none, some (other, moment) =>
      if moment < w.wakeAt then some (other, moment) else some (position, w.wakeAt)
    | none, none => some (position, w.wakeAt)

/-- Let workers act until all are at their ends, at most `limit` times. `told` says of a source
whether it has caused every worker to be told to stop. -/
def run [WorkSource σ] (told : σ → Bool) : (limit : Nat) → PullRun σ → PullRun σ
  | 0, r => r
  | limit + 1, r =>
    match next? 0 r.workers with
    | none => r
    | some (position, moment) =>
      match r.workers[position]? with
      | none => r
      | some w =>
        let (w, source) :=
          w.act (w.isToldBy moment || told r.source) (Activation.id r.nextActivation) r.source
        run told limit
          { source
            workers := r.workers.set position w
            nextActivation := r.nextActivation + 1 }

/-- Run workers on a source until all are at their ends; `answers` bounds the answers of the source
that are not spans of the workers' calls. -/
def toEnd [WorkSource σ] (told : σ → Bool) (answers : Nat) (r : PullRun σ) : PullRun σ :=
  run told (r.workers.foldl (fun n w => n + w.actLimit answers) 0) r

end PullRun

end CallDispatch
