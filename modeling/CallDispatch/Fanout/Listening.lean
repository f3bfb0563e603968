import CallDispatch.Fanout.Broker
import CallDispatch.Fanout.Pod

/-!
# Listening pods

A listener subscribes to its queue when it begins, and from then on takes messages and dispatches
them, one at a time and in order. A message that cannot be dispatched is dropped, and the listener
goes on. Being told to stop ends it: between two messages, or in the middle of one, which then
counts neither as handled nor as dropped. Messages not taken stay in the queue.

Several listeners and a publisher share a broker. At each moment calls that are due finish,
listeners that are due begin, messages that are due are published, and then every listener gets as
far as it can.
-/

namespace CallDispatch

/-- How many messages a listener dispatched, and how many it dropped. -/
structure ListenerTally where
  handled : Nat := 0
  dropped : Nat := 0
  deriving DecidableEq, Repr

/-- The statistics after the dispatch of a message, if the listener goes on after it. -/
def ListenerTally.count? (s : ListenerTally) : Outcome Dispatched → Option ListenerTally
  | .ok _ => some { s with handled := s.handled + 1 }
  | .error .shutdown => none
  | .error _ => some { s with dropped := s.dropped + 1 }

/-- What a listener is doing: it has yet to begin, waits for a message, dispatches one, or is at its
end. -/
inductive ListenerPhase where
  | idle
  | listening (s : Consumer)
  | dispatching (s : Consumer) (d : Dispatch)
  | ended (result : Outcome ListenerTally) (moment : Nat)

/-- A pod that listens on a queue, with the moments at which it begins and is told to stop. -/
structure Listener where
  pod : Pod
  exchange : String
  queue : String
  beginAt : Nat := 0
  stopAt : Option Nat := none
  phase : ListenerPhase := .idle
  stats : ListenerTally := {}

/-- Listeners on a broker, what is still to be published and when, the clock, and the number of the
next activation identifier. -/
structure Listening where
  listeners : List Listener
  broker : Broker (List UInt8) := {}
  publish : List (Nat × String × List UInt8) := []
  now : Nat := 0
  nextActivation : Nat := 0

namespace Listener

/-- Whether the listener has been told to stop. -/
def isTold (l : Listener) (now : Nat) : Bool := l.stopAt.any (· ≤ now)

/-- Begin, if it is time: subscribe to the queue. -/
def begin (l : Listener) (now : Nat) (broker : Broker (List UInt8)) :
    Listener × Broker (List UInt8) :=
  match l.phase with
  | .idle =>
    if l.beginAt ≤ now then
      match broker.subscribe l.exchange l.queue with
      | (.ok s, broker) => ({ l with phase := .listening s }, broker)
      | (.error e, broker) => ({ l with phase := .ended (.error e) now }, broker)
    else (l, broker)
  | _ => (l, broker)

/-- Stop listening. -/
def stop (l : Listener) (s : Consumer) (now : Nat) (broker : Broker (List UInt8)) :
    Listener × Broker (List UInt8) :=
  ({ l with phase := .ended (.ok l.stats) now }, broker.drop s)

/-- The dispatch of a message has come to an end. -/
def settle (l : Listener) (s : Consumer) (result : Outcome Dispatched) (now : Nat)
    (broker : Broker (List UInt8)) : Listener × Broker (List UInt8) :=
  match l.stats.count? result with
  | some stats => ({ l with stats, phase := .listening s }, broker)
  | none => l.stop s now broker

/-- A message arrives. -/
def receive (l : Listener) (s : Consumer) (body : List UInt8) (now : Nat)
    (broker : Broker (List UInt8)) : Listener × Broker (List UInt8) :=
  match Dispatch.ofBody l.pod.cluster l.pod.range body with
  | .error e => l.settle s (.error e) now broker
  | .ok none => l.settle s (.ok .skipped) now broker
  | .ok (some d) => ({ l with phase := .dispatching s d }, broker)

/-- Get as far as possible at one moment, in at most `limit` steps. -/
def act (now : Nat) : (limit : Nat) → Listener → Broker (List UInt8) → (nextActivation : Nat) →
    Listener × Broker (List UInt8) × Nat
  | 0, l, broker, next => (l, broker, next)
  | limit + 1, l, broker, next =>
    match l.phase with
    | .listening s =>
      if l.isTold now then
        let (l, broker) := l.stop s now broker
        (l, broker, next)
      else match broker.next s with
        | (none, _) => (l, broker, next)
        | (some body, broker) =>
          let (l, broker) := l.receive s body now broker
          act now limit l broker next
    | .dispatching s d =>
      let (pod, progress, next) := l.pod.push (l.isTold now) now d next
      let l := { l with pod }
      match progress with
      | .blocked rest => ({ l with phase := .dispatching s rest }, broker, next)
      | .finished result =>
        let (l, broker) := l.settle s result now broker
        act now limit l broker next
    | _ => (l, broker, next)

/-- How many steps a listener takes at one moment at most: two for each message, and one for the
end. -/
def actLimit (broker : Broker (List UInt8)) : Nat :=
  2 * broker.queues.foldl (fun n q => n + q.waiting.length) 0 + 3

/-- The moments at which something happens to a listener. -/
def moments (l : Listener) : List Nat :=
  match l.phase with
  | .idle => [l.beginAt]
  | .ended .. => l.pod.finishTimes
  | _ => l.stopAt.toList ++ l.pod.finishTimes

end Listener

namespace Listening

/-- Let listeners begin whose time has come. -/
def begins (now : Nat) : List Listener → Broker (List UInt8) → List Listener × Broker (List UInt8)
  | [], broker => ([], broker)
  | l :: rest, broker =>
    let (l, broker) := l.begin now broker
    let (rest, broker) := begins now rest broker
    (l :: rest, broker)

/-- Let every listener get as far as it can. -/
def acts (now : Nat) : List Listener → Broker (List UInt8) → (nextActivation : Nat) →
    List Listener × Broker (List UInt8) × Nat
  | [], broker, next => ([], broker, next)
  | l :: rest, broker, next =>
    let (l, broker, next) := l.act now (Listener.actLimit broker) broker next
    let (rest, broker, next) := acts now rest broker next
    (l :: rest, broker, next)

/-- All that happens at one moment. -/
def moment (w : Listening) : Listening :=
  let listeners := w.listeners.map fun l => { l with pod := l.pod.finishDue w.now }
  let (listeners, broker) := begins w.now listeners w.broker
  let (due, publish) := w.publish.partition (·.1 ≤ w.now)
  let broker := due.foldl (fun b (_, exchange, body) => b.publish exchange body) broker
  let (listeners, broker, nextActivation) := acts w.now listeners broker w.nextActivation
  { w with listeners, broker, publish, nextActivation }

/-- The next moment at which something happens. -/
def next? (w : Listening) : Option Nat :=
  nextMoment? w.now (w.publish.map (·.1) ++ w.listeners.flatMap (·.moments))

/-- Let the clock go on until nothing is left to happen, over at most `limit` moments. -/
def run : (limit : Nat) → Listening → Listening
  | 0, w => w
  | limit + 1, w =>
    let w := w.moment
    match w.next? with
    | some now => run limit { w with now }
    | none => w

/-- How many calls a pod launches for a message at most. -/
def launchLimit (body : List UInt8) (l : Listener) : Nat :=
  match Dispatch.ofBody l.pod.cluster l.pod.range body with
  | .ok (some d) => d.remaining.length
  | _ => 0

/-- Let the clock go on until nothing is left to happen. Every moment is the beginning or the end of
a listener, the finish of a call, or a publication. -/
def toEnd (w : Listening) : Listening :=
  let bodies := w.publish.map (·.2.2) ++ w.broker.queues.flatMap (·.waiting)
  let calls := w.listeners.foldl
    (fun n l => bodies.foldl (fun n body => n + launchLimit body l) n) 0
  run (calls + 2 * w.listeners.length + w.publish.length + 1) w

end Listening

end CallDispatch
