import CallDispatch.Fanout.Dispatch
import CallDispatch.Fanout.Slots
import CallDispatch.Job.Handler

/-!
# Pods in time

A pod owns a run of processors and has a slot for each. A call it launches takes a slot at once, is
handed to the handler as soon as the pod has nothing else to do at that moment, and gives the slot
back when the handler has finished. Job messages are handled one after the other, but the calls of
several jobs may be running.
-/

namespace CallDispatch

/-- A call with a slot, not yet handed to the handler. -/
structure LaunchedCall where
  guard : Nat
  call : Payload
  deriving Repr

/-- A call with a slot that the handler is working on. -/
structure RunningCall where
  guard : Nat
  finishAt : Nat
  deriving DecidableEq, Repr

/-- A pod: its place in the cluster, its slots, and its calls. Every call it launches draws an
identifier from a source, which answers the first request with `ids 0`, the next with `ids 1` and so
on. -/
structure Pod where
  cluster : Nat
  range : ProcessorRun
  handler : TimedHandler := {}
  ids : Nat → String := Activation.id
  slots : Slots
  launched : List LaunchedCall := []
  running : List RunningCall := []
  log : HandlerLog := {}

namespace Pod

/-- A pod without calls. -/
def idle (cluster : Nat) (range : ProcessorRun) (handler : TimedHandler) : Pod where
  cluster := cluster
  range := range
  handler := handler
  slots := Slots.ofCapacity range.size

/-- A launched call gives its slot back. -/
def giveBack (p : Pod) (guard : Nat) : Pod :=
  { p with slots := p.slots.release guard, log := p.log.finish }

/-- Calls that are due by a moment finish. -/
def finishDue (p : Pod) (now : Nat) : Pod :=
  let (due, running) := p.running.partition (·.finishAt ≤ now)
  due.foldl (fun p c => p.giveBack c.guard) { p with running }

/-- Hand a launched call to the handler. One that takes no time finishes at once. -/
def start (p : Pod) (now : Nat) (c : LaunchedCall) : Pod :=
  let p := { p with log := p.log.start now c.call }
  match p.handler.duration c.call with
  | 0 => p.giveBack c.guard
  | duration => { p with running := p.running ++ [⟨c.guard, now + duration⟩] }

/-- Hand all launched calls to the handler, in the order in which they were launched. -/
def startLaunched (p : Pod) (now : Nat) : Pod :=
  p.launched.foldl (fun p c => p.start now c) { p with launched := [] }

/-- The moments at which calls finish. -/
def finishTimes (p : Pod) : List Nat := p.running.map (·.finishAt)

/-- How far a pod got with a job: it came to an end, or it waits for a slot. -/
inductive Progress where
  | finished (result : Outcome Dispatched)
  | blocked (rest : Dispatch)

/-- Launch calls and hand them over until the job comes to an end or no slot can be had at this
moment, in at most `limit` steps. With the pod comes the number of the next activation identifier.
-/
def pushSteps (told : Bool) (now : Nat) : (limit : Nat) → Pod → Dispatch → (nextActivation : Nat) →
    Pod × Progress × Nat
  | 0, p, d, next => (p, .blocked d, next)
  | limit + 1, p, d, next =>
    match d.step told p.slots.hasFree with
    | .finished result => (p.startLaunched now, .finished result, next)
    | .launch call rest =>
      match p.slots.take with
      | (some guard, slots) =>
        let call := call.withActivation (p.ids next)
        pushSteps told now limit { p with slots, launched := p.launched ++ [⟨guard, call⟩] } rest
          (next + 1)
      | (none, _) => (p, .blocked d, next)
    | .wait =>
      if p.launched.isEmpty then (p, .blocked d, next)
      else pushSteps told now limit (p.startLaunched now) d next

/-- Launch calls and hand them over as far as possible at one moment. Between two launches the pod
hands over at most once. -/
def push (p : Pod) (told : Bool) (now : Nat) (d : Dispatch) (nextActivation : Nat) :
    Pod × Progress × Nat :=
  pushSteps told now (2 * d.remaining.length + 3) p d nextActivation

end Pod

/-- The earliest of some moments that is still to come. -/
def nextMoment? (now : Nat) (moments : List Nat) : Option Nat :=
  (moments.filter (now < ·)).min?

/-! ## Messages one after the other -/

/-- How the handling of a message ended, when, and how many slots were taken then. -/
structure MessageReport where
  result : Outcome Dispatched
  returned : Nat
  taken : Nat

/-- A pod that is handed messages, with its clock and the moment at which it is told to stop. -/
structure PodRun where
  pod : Pod
  stopAt : Option Nat := none
  now : Nat := 0
  nextActivation : Nat := 0

namespace PodRun

/-- Whether the pod has been told to stop. -/
def isTold (r : PodRun) : Bool := r.stopAt.any (· ≤ r.now)

/-- Let the clock go on to a moment. -/
def advance (r : PodRun) (moment : Nat) : PodRun :=
  { r with now := moment, pod := r.pod.finishDue moment }

/-- Launch a job to its end, waiting for slots, at most `limit` times. -/
def launch : (limit : Nat) → PodRun → Dispatch → Option (Outcome Dispatched) × PodRun
  | 0, r, _ => (none, r)
  | limit + 1, r, d =>
    let (pod, progress, nextActivation) := r.pod.push r.isTold r.now d r.nextActivation
    let r := { r with pod, nextActivation }
    match progress with
    | .finished result => (some result, r)
    | .blocked rest =>
      match nextMoment? r.now (r.stopAt.toList ++ pod.finishTimes) with
      | some moment => launch limit (r.advance moment) rest
      | none => (none, r)

/-- Handle one message. -/
def handle (r : PodRun) (body : List UInt8) : Option MessageReport × PodRun :=
  let (result?, r) : Option (Outcome Dispatched) × PodRun :=
    match Dispatch.ofBody r.pod.cluster r.pod.range body with
    | .error e => (some (.error e), r)
    | .ok none => (some (.ok .skipped), r)
    | .ok (some d) => launch (d.remaining.length + r.pod.running.length + 2) r d
  (result?.map (⟨·, r.now, r.pod.slots.taken⟩), r)

/-- Wait until no call is running. -/
def drain (r : PodRun) : PodRun :=
  match r.pod.finishTimes.max? with
  | some moment => r.advance (max r.now moment)
  | none => r

/-- Handle messages in turn, waiting before each but the first until no call is running if
`drainBetween` is set, and in the end let all calls finish. -/
def handleAll (drainBetween : Bool) : PodRun → List (List UInt8) →
    List (Option MessageReport) × PodRun
  | r, [] => ([], r.drain)
  | r, body :: rest =>
    let (report, r) := r.handle body
    let (reports, r) := handleAll drainBetween (if drainBetween then r.drain else r) rest
    (report :: reports, r)

end PodRun

end CallDispatch
