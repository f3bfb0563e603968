import CallDispatch.Proofs.Spans
import CallDispatch.Pull.Source
import CallDispatch.Pull.Worker
import Mathlib.Data.List.Basic

/-!
# Workers on one allocator

A crew is any number of workers that ask one allocator for ranges. A request and its answer take
time: between the moment a worker sends its request and the moment the answer arrives, the allocator
serves the request or does not, and the answer can get lost on the way. Every event concerns one
worker, and events come in any order in which they are possible, so a list of events with the
positions of the workers is an interleaving of the workers' runs.
-/

namespace CallDispatch

/-- How far a worker's request has come. -/
inductive Errand where
  | idle
  | sent
  | served (answer : Outcome RangeAnswer)

/-- The span an answer hands out, if it hands out one. -/
def grantedSpans : Outcome RangeAnswer → List Span
  | .ok (.span start stop) => [⟨start, stop⟩]
  | _ => []

/-- A range in the hands of a handler: its span, and what the handler was given. -/
structure HandedRange where
  span : Span
  window : Payload

/-- A worker of a crew: whether its token has been cancelled, its request, the spans it has received
and the ranges it has handed to its handler. -/
structure CrewMember where
  worker : Worker
  told : Bool := false
  errand : Errand := .idle
  received : List Span := []
  handed : List HandedRange := []

/-- What can happen to a worker. Its token is cancelled; it looks at the token and sends a request;
the request fails before the allocator has seen it; the allocator serves it; the answer arrives, or
is lost; a range is handed to the handler; the handler reports; a pause ends, or is cut short. -/
inductive CrewEvent where
  | tell
  | ask
  | refuse (e : DispatchError)
  | serve
  | arrive
  | lose (e : DispatchError)
  | handOver (activationId : String)
  | report (status : InvocationEnd)
  | wake
  | quit

namespace CrewMember

/-- The request of a worker fails in a way that makes it worth sending again. -/
def refused (m : CrewMember) (e : DispatchError) : CrewMember :=
  { m with worker := m.worker.receive (.error e), errand := .idle }

/-- An answer arrives at a worker. -/
def arrived (m : CrewMember) (answer : Outcome RangeAnswer) : CrewMember :=
  { m with
    worker := m.worker.receive answer
    errand := .idle
    received := m.received ++ grantedSpans answer }

/-- A worker hands a range to its handler. -/
def handedOver (m : CrewMember) (start stop : Nat) (activationId : String) : CrewMember :=
  { m with
    worker := (m.worker.handOver start stop activationId).2
    handed := m.handed ++
      (m.worker.handOver start stop activationId).1.toList.map (⟨⟨start, stop⟩, ·⟩) }

/-- An event at a worker, if it is possible: the allocator and the worker after it, and the spans
that are lost with it. -/
def on (a : Allocator) (m : CrewMember) : CrewEvent → Option (Allocator × CrewMember × List Span)
  | .tell => some (a, { m with told := true }, [])
  | .ask =>
    match m.worker.phase, m.errand with
    | .asking, .idle =>
      if m.told then some (a, { m with worker := m.worker.shutDown }, [])
      else some (a, { m with errand := .sent }, [])
    | _, _ => none
  | .refuse e =>
    match m.errand with
    | .sent => if e.isTransient then some (a, m.refused e, []) else none
    | _ => none
  | .serve =>
    match m.errand with
    | .sent =>
      let p := m.worker.payload
      let (answer, a) := a.request p.jobKey p.totalCalls p.requestSize
      some (a, { m with errand := .served answer }, [])
    | _ => none
  | .arrive =>
    match m.errand with
    | .served answer => some (a, m.arrived answer, [])
    | _ => none
  | .lose e =>
    match m.errand with
    | .served answer =>
      if e.isTransient then some (a, m.refused e, grantedSpans answer) else none
    | _ => none
  | .handOver activationId =>
    match m.worker.phase with
    | .granted start stop => some (a, m.handedOver start stop activationId, [])
    | _ => none
  | .report status =>
    match m.worker.phase with
    | .running start stop =>
      some (a, { m with worker := m.worker.report start stop status }, [])
    | _ => none
  | .wake =>
    match m.worker.phase with
    | .pausing => some (a, { m with worker := m.worker.resume }, [])
    | _ => none
  | .quit =>
    match m.worker.phase with
    | .pausing => if m.told then some (a, { m with worker := m.worker.shutDown }, []) else none
    | _ => none

/-- The span a worker was granted and has not handed over yet. -/
def held (m : CrewMember) : List Span :=
  match m.worker.phase with
  | .granted start stop => [⟨start, stop⟩]
  | _ => []

/-- The spans on their way to the handler of a worker: in an answer, or in the worker's hands. -/
def underway (m : CrewMember) : List Span :=
  match m.errand with
  | .served answer => grantedSpans answer ++ m.held
  | _ => m.held

/-- The spans handed to the handler of a worker. -/
def handedSpans (m : CrewMember) : List Span := m.handed.map HandedRange.span

end CrewMember

/-- Workers on an allocator, and the spans whose answers were lost. -/
structure Crew where
  allocator : Allocator
  members : List CrewMember
  lost : List Span := []

namespace Crew

/-- Workers that have yet to begin, each with a payload of its own. -/
def ofPayloads (a : Allocator) (payloads : List Payload) : Crew where
  allocator := a
  members := payloads.map fun p => { worker := { payload := p } }

/-- An event at the worker of a position, if it is possible. -/
def step (c : Crew) (position : Nat) (e : CrewEvent) : Option Crew := do
  let m ← c.members[position]?
  let (allocator, m, lost) ← m.on c.allocator e
  some { allocator, members := c.members.set position m, lost := c.lost ++ lost }

/-- Events one after the other, if all of them are possible. -/
def run (c : Crew) : List (Nat × CrewEvent) → Option Crew
  | [] => some c
  | (position, e) :: rest => do
    let c ← c.step position e
    c.run rest

/-- The ranges handed to the handlers of a crew. -/
def handed (c : Crew) : List HandedRange := c.members.flatMap CrewMember.handed

/-- The spans on their way to handlers. -/
def underway (c : Crew) : List Span := c.members.flatMap CrewMember.underway

/-- All spans that have been granted: those handed to handlers, those on their way, and those
lost. -/
def spans (c : Crew) : List Span := c.handed.map HandedRange.span ++ c.underway ++ c.lost

end Crew

end CallDispatch
