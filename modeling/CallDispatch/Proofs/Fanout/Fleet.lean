import CallDispatch.Fanout.Listening
import CallDispatch.Proofs.Fanout.Queues

/-!
# A fleet of listening pods

Pods of one cluster listen on queues of one exchange. A pod's place in the cluster is its *site*: a
queue and a run of processors. Who listens at a site is a *station*; over time a site can have many,
and a station that has stopped can begin again with the slots it had. Events come from outside
(messages, declarations, new stations, cancellations) or happen by themselves, and they come in any
order in which they are possible, so that calls take any time and stations are interleaved at will.

Messages are numbered in the order in which they are published, calls in the order in which they are
launched. Nothing a station does depends on the numbers, except that the source of activation
identifiers is asked once for each call, in the order of their numbers. What it answers is anything.
-/

namespace CallDispatch

/-- A pod's place in a cluster: the queue it listens on and its processors. -/
structure Site where
  queue : String
  range : ProcessorRun
  deriving DecidableEq, Repr

/-- The sites of a cluster, the exchange their queues are bound to, and what the source of
activation identifiers answers to one request after the other. -/
structure Layout where
  cluster : Nat
  exchange : String
  sites : List Site
  ids : Nat → String

/-- The consumer at a site's queue. -/
def Layout.consumer (layout : Layout) (site : Site) : Consumer := ⟨layout.exchange, site.queue⟩

/-- How the handling of a message ends at a moment, if it does. -/
def Dispatch.ending? (told free : Bool) : Outcome (Option Dispatch) → Option (Outcome Dispatched)
  | .error e => some (.error e)
  | .ok none => some (.ok .skipped)
  | .ok (some d) =>
    match d.step told free with
    | .finished result => some result
    | _ => none

/-- What a station is doing: it has not begun, waits for a message, handles one, or has stopped. -/
inductive Duty where
  | idle
  | listening
  | working (message : Nat) (job : Outcome (Option Dispatch))
  | ended (result : Outcome ListenerTally)

/-- Whether a station has a consumer. -/
def Duty.isOn : Duty → Bool
  | .listening | .working .. => true
  | _ => false

/-- A listener at a site, with its slots and whether its token has been cancelled. -/
structure Station where
  site : Site
  slots : Slots
  duty : Duty := .idle
  stats : ListenerTally := {}
  told : Bool := false

/-- A station that has not begun. -/
def Station.ofSite (site : Site) : Station := { site, slots := Slots.ofCapacity site.range.size }

/-- How far a launched call has come: its handler has it or not, or has finished with it. -/
inductive CallStage where
  | launched
  | running
  | finished
  deriving DecidableEq

/-- A call that is launched: at which site, for which call of which message, and what its handler
gets. -/
structure Launch where
  site : Site
  message : Nat
  index : Nat
  window : Payload

/-- A launched call with the station it belongs to, its slot, and how far it has come. -/
structure CallRecord extends Launch where
  station : Nat
  guard : Nat
  stage : CallStage := .launched

/-- How the handling of a message ended at a site. -/
structure Verdict where
  site : Site
  message : Nat
  result : Outcome Dispatched

/-- A broker with all that was published, the stations, the calls launched, and the messages
handled. -/
structure Fleet where
  broker : Broker (List UInt8) := {}
  published : List (List UInt8) := []
  stations : List Station := []
  calls : List CallRecord := []
  verdicts : List Verdict := []

/-- What can happen to a station: it begins, its token is cancelled, it takes a message, it leaves
because of its token, it launches a call, the handling of a message ends. -/
inductive StationEvent where
  | begin
  | tell
  | take
  | leave
  | launch
  | conclude

/-- What can happen to a launched call. -/
inductive CallEvent where
  | start
  | finish

inductive FleetEvent where
  | publish (body : List UInt8)
  | declare (site : Site)
  | hire (site : Site)
  | station (position : Nat) (e : StationEvent)
  | call (number : Nat) (e : CallEvent)

/-- Whether an event happens by itself. -/
def FleetEvent.isOwn : FleetEvent → Bool
  | .publish _ | .declare _ | .hire _ | .station _ .begin | .station _ .tell => false
  | _ => true

namespace Fleet

/-- Replace the broker. -/
def withBroker (f : Fleet) (broker : Broker (List UInt8)) : Fleet := { f with broker }

/-- Replace a station. -/
def setStation (f : Fleet) (i : Nat) (st : Station) : Fleet :=
  { f with stations := f.stations.set i st }

/-- Replace a call. -/
def setCall (f : Fleet) (n : Nat) (c : CallRecord) : Fleet :=
  { f with calls := f.calls.set n c }

/-- Add a call. -/
def record (f : Fleet) (c : CallRecord) : Fleet := { f with calls := f.calls ++ [c] }

/-- Note how the handling of a message ended. -/
def judge (f : Fleet) (v : Verdict) : Fleet := { f with verdicts := f.verdicts ++ [v] }

/-- All calls launched so far. -/
def launches (f : Fleet) : List Launch := f.calls.map CallRecord.toLaunch

/-- The messages that wait at a site. -/
def waiting (layout : Layout) (f : Fleet) (site : Site) : List (List UInt8) :=
  f.broker.waitingAt layout.exchange site.queue

/-- The number of the message a site gets next. -/
def next (layout : Layout) (f : Fleet) (site : Site) : Nat :=
  f.published.length - (f.waiting layout site).length

@[simp] theorem waiting_setStation (layout : Layout) (f : Fleet) (i : Nat) (st : Station)
    (site : Site) : (f.setStation i st).waiting layout site = f.waiting layout site := rfl

@[simp] theorem next_setStation (layout : Layout) (f : Fleet) (i : Nat) (st : Station)
    (site : Site) : (f.setStation i st).next layout site = f.next layout site := rfl

/-- A published message goes to the end of every queue that is bound. -/
theorem waiting_publish (layout : Layout) (f : Fleet) (body : List UInt8) (site : Site) :
    ({ f with
      broker := f.broker.publish layout.exchange body
      published := f.published ++ [body] } : Fleet).waiting layout site =
      f.waiting layout site ++
        if f.broker.boundAt layout.exchange site.queue then [body] else [] :=
  Broker.waitingAt_publish _ _ _ _

/-- Only the queue a message is taken from gets shorter. -/
theorem waiting_advance (layout : Layout) (f : Fleet) (queue : String) (site : Site) :
    (f.withBroker (f.broker.advance layout.exchange queue)).waiting layout site =
      (f.waiting layout site).drop (if site.queue = queue then 1 else 0) := by
  simp only [Fleet.waiting, withBroker, Broker.waitingAt_advance]
  split
  · next same => rw [same]
  · rfl

/-- A station's consumer goes away. -/
def discharge (layout : Layout) (f : Fleet) (i : Nat) (st : Station) : Fleet :=
  (f.withBroker (f.broker.drop (layout.consumer st.site))).setStation i
    { st with duty := .ended (.ok st.stats) }

/-- An event at a station, if it is possible. -/
def onStation (layout : Layout) (f : Fleet) (i : Nat) (st : Station) :
    StationEvent → Option Fleet
  | .begin =>
    if st.duty.isOn then none
    else
      match f.broker.subscribe layout.exchange st.site.queue with
      | (.ok _, broker) => some ((f.withBroker broker).setStation i
          { st with duty := .listening, stats := {}, told := false })
      | (.error e, broker) => some ((f.withBroker broker).setStation i
          { st with duty := .ended (.error e) })
  | .tell => some (f.setStation i { st with told := true })
  | .take =>
    match st.duty with
    | .listening =>
      match f.broker.next (layout.consumer st.site) with
      | (some body, broker) =>
        let job := Dispatch.ofBody layout.cluster st.site.range body
        some ((f.withBroker broker).setStation i
          { st with duty := .working (f.next layout st.site) job })
      | (none, _) => none
    | _ => none
  | .leave =>
    match st.duty with
    | .listening => if st.told then some (f.discharge layout i st) else none
    | _ => none
  | .launch =>
    match st.duty with
    | .working message (.ok (some d)) =>
      match d.remaining, d.step st.told st.slots.hasFree, st.slots.take with
      | index :: _, .launch call rest, (some guard, slots) =>
        let window := call.withActivation (layout.ids f.calls.length)
        let c : CallRecord := { site := st.site, message, index, window, station := i, guard }
        some ((f.record c).setStation i
          { st with slots, duty := .working message (.ok (some rest)) })
      | _, _, _ => none
    | _ => none
  | .conclude =>
    match st.duty with
    | .working message job =>
      match Dispatch.ending? st.told st.slots.hasFree job with
      | some result =>
        let f := f.judge ⟨st.site, message, result⟩
        match st.stats.count? result with
        | some stats => some (f.setStation i { st with duty := .listening, stats })
        | none => some (f.discharge layout i st)
      | none => none
    | _ => none

/-- An event at a launched call, if it is possible. A call that finishes gives its slot back. -/
def onCall (f : Fleet) (n : Nat) (c : CallRecord) : CallEvent → Option Fleet
  | .start => if c.stage = .launched then some (f.setCall n { c with stage := .running }) else none
  | .finish =>
    match c.stage, f.stations[c.station]? with
    | .running, some st =>
      some ((f.setCall n { c with stage := .finished }).setStation c.station
        { st with slots := st.slots.release c.guard })
    | _, _ => none

/-- An event, if it is possible. -/
def step (layout : Layout) (f : Fleet) : FleetEvent → Option Fleet
  | .publish body => some { f with
      broker := f.broker.publish layout.exchange body
      published := f.published ++ [body] }
  | .declare site =>
    if site ∈ layout.sites then
      some (f.withBroker (f.broker.declare layout.exchange site.queue))
    else none
  | .hire site =>
    if site ∈ layout.sites then
      some { f with stations := f.stations ++ [Station.ofSite site] }
    else none
  | .station i e => f.stations[i]?.bind (f.onStation layout i · e)
  | .call n e => f.calls[n]?.bind (f.onCall n · e)

/-- Events one after the other, if all of them are possible. -/
def run (layout : Layout) (f : Fleet) : List FleetEvent → Option Fleet
  | [] => some f
  | e :: rest => (f.step layout e).bind (·.run layout rest)

/-- Whether nothing more happens by itself. -/
def AtRest (layout : Layout) (f : Fleet) : Prop :=
  ∀ e : FleetEvent, e.isOwn → f.step layout e = none

/-- What a possible event does. -/
inductive Moves (layout : Layout) (f : Fleet) : FleetEvent → Fleet → Prop where
  | publish (body : List UInt8) : Moves layout f (.publish body)
      { f with
        broker := f.broker.publish layout.exchange body
        published := f.published ++ [body] }
  | declare {site : Site} (inside : site ∈ layout.sites) : Moves layout f (.declare site)
      (f.withBroker (f.broker.declare layout.exchange site.queue))
  | hire {site : Site} (inside : site ∈ layout.sites) : Moves layout f (.hire site)
      { f with stations := f.stations ++ [Station.ofSite site] }
  | enlist {i : Nat} {st : Station} (found : f.stations[i]? = some st)
      (off : st.duty.isOn = false)
      (free : f.broker.takenAt layout.exchange st.site.queue = false) :
      Moves layout f (.station i .begin)
        ((f.withBroker (f.broker.enlist layout.exchange st.site.queue)).setStation i
          { st with duty := .listening, stats := {}, told := false })
  | turnAway {i : Nat} {st : Station} (found : f.stations[i]? = some st)
      (off : st.duty.isOn = false) (e : DispatchError) : Moves layout f (.station i .begin)
        ((f.withBroker (f.broker.declare layout.exchange st.site.queue)).setStation i
          { st with duty := .ended (.error e) })
  | tell {i : Nat} {st : Station} (found : f.stations[i]? = some st) :
      Moves layout f (.station i .tell) (f.setStation i { st with told := true })
  | take {i : Nat} {st : Station} (found : f.stations[i]? = some st) (on : st.duty = .listening)
      {body : List UInt8} {rest : List (List UInt8)}
      (waiting : f.waiting layout st.site = body :: rest) : Moves layout f (.station i .take)
        ((f.withBroker (f.broker.advance layout.exchange st.site.queue)).setStation i
          { st with
            duty := .working (f.next layout st.site)
              (Dispatch.ofBody layout.cluster st.site.range body) })
  | leave {i : Nat} {st : Station} (found : f.stations[i]? = some st) (on : st.duty = .listening)
      (told : st.told = true) : Moves layout f (.station i .leave) (f.discharge layout i st)
  | launch {i : Nat} {st : Station} (found : f.stations[i]? = some st) {message index : Nat}
      {rest : List Nat} {d : Dispatch} {call : Payload}
      (on : st.duty = .working message (.ok (some d))) (first : d.remaining = index :: rest)
      (single : d.payload.single index = .ok call) (told : st.told = false)
      (free : st.slots.hasFree = true) : Moves layout f (.station i .launch)
        ((f.record {
            site := st.site, message, index, station := i, guard := st.slots.issued
            window := call.withActivation (layout.ids f.calls.length) }).setStation i
          { st with
            slots := st.slots.take.2
            duty := .working message
              (.ok (some { d with remaining := rest, launched := d.launched + 1 })) })
  | settle {i : Nat} {st : Station} (found : f.stations[i]? = some st) {message : Nat}
      {job : Outcome (Option Dispatch)} (on : st.duty = .working message job)
      {result : Outcome Dispatched} {stats : ListenerTally}
      (ending : Dispatch.ending? st.told st.slots.hasFree job = some result)
      (counted : st.stats.count? result = some stats) : Moves layout f (.station i .conclude)
        ((f.judge ⟨st.site, message, result⟩).setStation i
          { st with duty := .listening, stats })
  | cut {i : Nat} {st : Station} (found : f.stations[i]? = some st) {message : Nat}
      {job : Outcome (Option Dispatch)} (on : st.duty = .working message job)
      {result : Outcome Dispatched}
      (ending : Dispatch.ending? st.told st.slots.hasFree job = some result)
      (uncounted : st.stats.count? result = none) : Moves layout f (.station i .conclude)
        ((f.judge ⟨st.site, message, result⟩).discharge layout i st)
  | start {n : Nat} {c : CallRecord} (found : f.calls[n]? = some c) (at_ : c.stage = .launched) :
      Moves layout f (.call n .start) (f.setCall n { c with stage := .running })
  | finish {n : Nat} {c : CallRecord} {st : Station} (found : f.calls[n]? = some c)
      (at_ : c.stage = .running) (home : f.stations[c.station]? = some st) :
      Moves layout f (.call n .finish)
        ((f.setCall n { c with stage := .finished }).setStation c.station
          { st with slots := st.slots.release c.guard })

theorem step_eq_launch {d rest : Dispatch} {told free : Bool} {call : Payload}
    (launches : d.step told free = .launch call rest) :
    ∃ index remaining, d.remaining = index :: remaining ∧ d.payload.single index = .ok call ∧
      told = false ∧ free = true ∧
      rest = { d with remaining, launched := d.launched + 1 } := by
  rw [Dispatch.step] at launches
  split at launches
  · cases launches
  · next index remaining some =>
    split at launches
    · cases launches
    · next single =>
      cases told <;> cases free <;> cases launches
      exact ⟨index, remaining, some, single, rfl, rfl, rfl⟩

theorem moves_of_onStation {layout : Layout} {f f' : Fleet} {i : Nat} {st : Station}
    {e : StationEvent} (found : f.stations[i]? = some st)
    (happens : f.onStation layout i st e = some f') : Moves layout f (.station i e) f' := by
  cases e with
  | begin =>
    simp only [onStation] at happens
    split at happens
    · cases happens
    · next off =>
      replace off : st.duty.isOn = false := by simpa using off
      by_cases taken : f.broker.takenAt layout.exchange st.site.queue = true
      · rw [Broker.subscribe_of_taken taken] at happens
        cases happens
        exact .turnAway found off _
      · replace taken : f.broker.takenAt layout.exchange st.site.queue = false := by
          simpa using taken
        rw [Broker.subscribe_of_free taken] at happens
        cases happens
        exact .enlist found off taken
  | tell =>
    cases happens
    exact .tell found
  | take =>
    simp only [onStation] at happens
    split at happens
    · next on =>
      cases waiting : f.waiting layout st.site with
      | nil =>
        rw [Layout.consumer, Broker.next_of_empty waiting] at happens
        cases happens
      | cons body rest =>
        rw [Layout.consumer, Broker.next_of_waiting waiting] at happens
        cases happens
        exact .take found on waiting
    · cases happens
  | leave =>
    simp only [onStation] at happens
    split at happens
    · next on =>
      split at happens
      · next told =>
        cases happens
        exact .leave found on told
      · cases happens
    · cases happens
  | launch =>
    simp only [onStation] at happens
    split at happens
    · next message d on =>
      split at happens
      · next index others call rest guard slots first launches take =>
        obtain ⟨_, remaining, some, single, told, free, rfl⟩ := step_eq_launch launches
        rw [first] at some
        cases some
        rw [Slots.take, if_pos free] at take
        cases take
        cases happens
        have slots : st.slots.take.2 =
            { st.slots with
              held := st.slots.issued :: st.slots.held, issued := st.slots.issued + 1 } := by
          rw [Slots.take, if_pos free]
        exact slots ▸ .launch found on first single told free
      · cases happens
    · cases happens
  | conclude =>
    simp only [onStation] at happens
    split at happens
    · next message job on =>
      split at happens
      · next result ending =>
        split at happens
        · next stats counted =>
          cases happens
          exact .settle found on ending counted
        · next uncounted =>
          cases happens
          exact .cut found on ending uncounted
      · cases happens
    · cases happens

theorem moves_of_step {layout : Layout} {f f' : Fleet} {e : FleetEvent}
    (happens : f.step layout e = some f') : Moves layout f e f' := by
  cases e with
  | publish body =>
    cases happens
    exact .publish body
  | declare site =>
    simp only [step] at happens
    split at happens
    · next inside =>
      cases happens
      exact .declare inside
    · cases happens
  | hire site =>
    simp only [step] at happens
    split at happens
    · next inside =>
      cases happens
      exact .hire inside
    · cases happens
  | station i e =>
    obtain ⟨st, found, happens⟩ := Option.bind_eq_some_iff.mp happens
    exact moves_of_onStation found happens
  | call n e =>
    obtain ⟨c, found, happens⟩ := Option.bind_eq_some_iff.mp happens
    cases e with
    | start =>
      simp only [onCall] at happens
      split at happens
      · next at_ =>
        cases happens
        exact .start found at_
      · cases happens
    | finish =>
      simp only [onCall] at happens
      split at happens
      · next st at_ home =>
        cases happens
        exact .finish found at_ home
      · cases happens

end Fleet

end CallDispatch
