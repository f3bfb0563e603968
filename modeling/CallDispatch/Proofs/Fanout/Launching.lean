import CallDispatch.Proofs.Fanout.Fleet

/-!
# One scheduler, many messages

A scheduler can be handed a message while it still handles others, and every handling has a token of
its own. What a handling does from one point at which it may have to wait to the next is one event.

A handling that finds no slot stands in line. A slot that is given back while somebody does goes to
the first in line: it stays taken, and that handling is no longer in line, though it goes on only
when it gets to. Then it launches the call it has been waiting with or, if its token has been
cancelled meanwhile, gives the slot back. A handling can be dropped at any moment.

Calls take any time and outlive the handling that launched them. They are numbered in the order in
which they are launched, handlings in the order in which their messages come.
-/

namespace CallDispatch

theorem Slots.take_of_hasFree {s : Slots} (free : s.hasFree = true) :
    s.take = (some s.issued, { s with held := s.issued :: s.held, issued := s.issued + 1 }) :=
  if_pos free

/-- How far the handling of a message has come: it launches calls, stands in line for a slot, has
been handed one, or is over, with a result unless it was dropped. -/
inductive HandlingStage where
  | launching (d : Dispatch)
  | queued (d : Dispatch)
  | handed (d : Dispatch) (guard : Nat)
  | closed (result? : Option (Outcome Dispatched))

/-- The handling of a message, and whether its token has been cancelled. -/
structure Handling where
  stage : HandlingStage
  told : Bool := false

namespace Handling

/-- The handling of a message that has been read. -/
def ofJob : Outcome (Option Dispatch) → Handling
  | .error e => { stage := .closed (some (.error e)) }
  | .ok none => { stage := .closed (some (.ok .skipped)) }
  | .ok (some d) => { stage := .launching d }

/-- Whether a handling is over. -/
def isOver (h : Handling) : Bool :=
  match h.stage with
  | .closed _ => true
  | _ => false

/-- Whether a handling stands in line. -/
def isQueued (h : Handling) : Bool :=
  match h.stage with
  | .queued _ => true
  | _ => false

/-- What a handling has stopped launching until it goes on with a slot. -/
def suspended (h : Handling) : Option Dispatch :=
  match h.stage with
  | .queued d | .handed d _ => some d
  | _ => none

/-- The slot a handling has been handed. -/
def held (h : Handling) : List Nat :=
  match h.stage with
  | .handed _ guard => [guard]
  | _ => []

/-- A handling in line gets a slot. -/
def hand (h : Handling) (guard : Nat) : Handling :=
  match h.stage with
  | .queued d => { h with stage := .handed d guard }
  | _ => h

end Handling

/-- A launched call: the handling that launched it, what its handler gets, its slot, and how far it
has come. -/
structure ScheduledCall where
  handling : Nat
  window : Payload
  guard : Nat
  stage : CallStage := .launched

/-- The slot a call takes. -/
def ScheduledCall.held (c : ScheduledCall) : List Nat :=
  if c.stage = .finished then [] else [c.guard]

/-- A scheduler: its place in the cluster, what the source of activation identifiers answers to its
requests, its slots, the handlings of the messages it has been handed, those that stand in line with
the longest-standing first, and the calls it has launched. -/
structure Scheduler where
  cluster : Nat
  range : ProcessorRun
  ids : Nat → String
  slots : Slots
  handlings : List Handling := []
  line : List Nat := []
  calls : List ScheduledCall := []

/-- What can happen to a handling: its token is cancelled, it goes on, it is dropped. -/
inductive HandlingEvent where
  | tell
  | proceed
  | drop

inductive SchedulerEvent where
  | receive (body : List UInt8)
  | handling (i : Nat) (e : HandlingEvent)
  | call (n : Nat) (e : CallEvent)

namespace Scheduler

/-- A scheduler that has not been handed a message. -/
def idle (cluster : Nat) (range : ProcessorRun) (ids : Nat → String) : Scheduler where
  cluster := cluster
  range := range
  ids := ids
  slots := Slots.ofCapacity range.size

/-- Replace a handling. -/
def setHandling (s : Scheduler) (i : Nat) (h : Handling) : Scheduler :=
  { s with handlings := s.handlings.set i h }

/-- Replace a call. -/
def setCall (s : Scheduler) (n : Nat) (c : ScheduledCall) : Scheduler :=
  { s with calls := s.calls.set n c }

/-- A handling is handed a slot. -/
def hand (s : Scheduler) (i guard : Nat) : Scheduler :=
  match s.handlings[i]? with
  | some h => s.setHandling i (h.hand guard)
  | none => s

/-- A slot is given back, and the first in line gets it. -/
def giveBack (s : Scheduler) (guard : Nat) : Scheduler :=
  match s.line, (s.slots.release guard).take with
  | first :: rest, (some new, slots) =>
    let s : Scheduler := { s with slots, line := rest }
    s.hand first new
  | _, _ => { s with slots := s.slots.release guard }

/-- A handling launches a call with a slot it has got. -/
def launch (s : Scheduler) (i : Nat) (h : Handling) (guard : Nat) (call : Payload)
    (rest : Dispatch) : Scheduler :=
  let window := call.withActivation (s.ids s.calls.length)
  let s : Scheduler := { s with calls := s.calls ++ [{ handling := i, window, guard }] }
  s.setHandling i { h with stage := .launching rest }

/-- A handling stands in line. -/
def enqueue (s : Scheduler) (i : Nat) (h : Handling) (d : Dispatch) : Scheduler :=
  let s : Scheduler := { s with line := s.line ++ [i] }
  s.setHandling i { h with stage := .queued d }

/-- A handling is over: it leaves the line, and gives back the slot it has been handed. -/
def retire (s : Scheduler) (i : Nat) (h : Handling) (result? : Option (Outcome Dispatched)) :
    Scheduler :=
  let s : Scheduler := { s with line := s.line.erase i }
  let s := s.setHandling i { h with stage := .closed result? }
  match h.stage with
  | .handed _ guard => s.giveBack guard
  | _ => s

/-- A handling goes on, if it can. -/
def proceed (s : Scheduler) (i : Nat) (h : Handling) : Option Scheduler :=
  match h.stage with
  | .launching d =>
    match d.step h.told s.slots.hasFree, s.slots.take with
    | .finished result, _ => some (s.retire i h (some result))
    | .launch call rest, (some guard, slots) =>
      some (({ s with slots } : Scheduler).launch i h guard call rest)
    | .wait, _ => some (s.enqueue i h d)
    | _, _ => none
  | .queued d =>
    match d.step h.told false with
    | .finished result => some (s.retire i h (some result))
    | _ => none
  | .handed d guard =>
    match d.step h.told true with
    | .finished result => some (s.retire i h (some result))
    | .launch call rest => some (s.launch i h guard call rest)
    | .wait => none
  | .closed _ => none

/-- An event at a handling, if it is possible. -/
def onHandling (s : Scheduler) (i : Nat) (h : Handling) : HandlingEvent → Option Scheduler
  | .tell => some (s.setHandling i { h with told := true })
  | .proceed => s.proceed i h
  | .drop => if h.isOver then none else some (s.retire i h none)

/-- An event at a launched call, if it is possible. A call that finishes gives its slot back. -/
def onCall (s : Scheduler) (n : Nat) (c : ScheduledCall) : CallEvent → Option Scheduler
  | .start => if c.stage = .launched then some (s.setCall n { c with stage := .running }) else none
  | .finish =>
    if c.stage = .running then some ((s.setCall n { c with stage := .finished }).giveBack c.guard)
    else none

/-- An event, if it is possible. -/
def step (s : Scheduler) : SchedulerEvent → Option Scheduler
  | .receive body =>
    let h := Handling.ofJob (Dispatch.ofBody s.cluster s.range body)
    some { s with handlings := s.handlings ++ [h] }
  | .handling i e => s.handlings[i]?.bind (s.onHandling i · e)
  | .call n e => s.calls[n]?.bind (s.onCall n · e)

/-- Events one after the other, if all of them are possible. -/
def run (s : Scheduler) : List SchedulerEvent → Option Scheduler
  | [] => some s
  | e :: rest => (s.step e).bind (·.run rest)

/-- How many launched calls have not finished. -/
def unfinished (s : Scheduler) : Nat := (s.calls.filter (·.stage ≠ .finished)).length

/-- What a possible event does. -/
inductive Moves (s : Scheduler) : SchedulerEvent → Scheduler → Prop where
  | receive (body : List UInt8) : Moves s (.receive body)
      { s with
        handlings := s.handlings ++ [Handling.ofJob (Dispatch.ofBody s.cluster s.range body)] }
  | tell {i : Nat} {h : Handling} (found : s.handlings[i]? = some h) :
      Moves s (.handling i .tell) (s.setHandling i { h with told := true })
  | launch {i : Nat} {h : Handling} (found : s.handlings[i]? = some h) {d rest : Dispatch}
      {call : Payload} (at_ : h.stage = .launching d)
      (next : d.step h.told s.slots.hasFree = .launch call rest) :
      Moves s (.handling i .proceed)
        (({ s with slots := s.slots.take.2 } : Scheduler).launch i h s.slots.issued call rest)
  | enqueue {i : Nat} {h : Handling} (found : s.handlings[i]? = some h) {d : Dispatch}
      (at_ : h.stage = .launching d) (next : d.step h.told s.slots.hasFree = .wait) :
      Moves s (.handling i .proceed) (s.enqueue i h d)
  | takeUp {i : Nat} {h : Handling} (found : s.handlings[i]? = some h) {d rest : Dispatch}
      {guard : Nat} {call : Payload} (at_ : h.stage = .handed d guard)
      (next : d.step h.told true = .launch call rest) :
      Moves s (.handling i .proceed) (s.launch i h guard call rest)
  | retire {i : Nat} {h : Handling} (found : s.handlings[i]? = some h) (e : HandlingEvent)
      (result? : Option (Outcome Dispatched)) :
      Moves s (.handling i e) (s.retire i h result?)
  | start {n : Nat} {c : ScheduledCall} (found : s.calls[n]? = some c) (at_ : c.stage = .launched) :
      Moves s (.call n .start) (s.setCall n { c with stage := .running })
  | finish {n : Nat} {c : ScheduledCall} (found : s.calls[n]? = some c) (at_ : c.stage = .running) :
      Moves s (.call n .finish) ((s.setCall n { c with stage := .finished }).giveBack c.guard)

theorem moves_of_proceed {s s' : Scheduler} {i : Nat} {h : Handling}
    (found : s.handlings[i]? = some h) (happens : s.proceed i h = some s') :
    Moves s (.handling i .proceed) s' := by
  rw [proceed] at happens
  split at happens
  · next d at_ =>
    split at happens
    · cases happens
      exact .retire found _ _
    · next call rest guard slots next_ take =>
      obtain ⟨_, _, _, _, _, free, -⟩ := Fleet.step_eq_launch next_
      have launched := Moves.launch found at_ next_
      rw [Slots.take_of_hasFree free] at take launched
      cases take
      cases happens
      exact launched
    · next next_ =>
      cases happens
      exact .enqueue found at_ next_
    · cases happens
  · split at happens
    · cases happens
      exact .retire found _ _
    · cases happens
  · next d guard at_ =>
    split at happens
    · cases happens
      exact .retire found _ _
    · next next_ =>
      cases happens
      exact .takeUp found at_ next_
    · cases happens
  · cases happens

theorem moves_of_step {s s' : Scheduler} {e : SchedulerEvent} (happens : s.step e = some s') :
    Moves s e s' := by
  cases e with
  | receive body =>
    cases happens
    exact .receive body
  | handling i e =>
    obtain ⟨h, found, happens⟩ := Option.bind_eq_some_iff.mp happens
    cases e with
    | tell =>
      cases happens
      exact .tell found
    | proceed => exact moves_of_proceed found happens
    | drop =>
      rw [onHandling] at happens
      split at happens
      · cases happens
      · cases happens
        exact .retire found _ _
  | call n e =>
    obtain ⟨c, found, happens⟩ := Option.bind_eq_some_iff.mp happens
    cases e with
    | start =>
      rw [onCall] at happens
      split at happens
      · next at_ =>
        cases happens
        exact .start found at_
      · cases happens
    | finish =>
      rw [onCall] at happens
      split at happens
      · next at_ =>
        cases happens
        exact .finish found at_
      · cases happens

end Scheduler

end CallDispatch
