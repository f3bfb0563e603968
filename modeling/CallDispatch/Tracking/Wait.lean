import CallDispatch.Tracking.Future
import CallDispatch.Tracking.Watch
import CallDispatch.Tracking.Progress

/-!
# Waiting for futures

A wait polls in passes. Its futures are grouped into units, one per joined job key, each asking one
store. A pass goes through the units in order: of each it fetches the members that the monitor has
seen and that are not complete, records what it finds, and appends the calls that finished calls
dispatched to the wait set and to the unit of their own job, so that units made during a pass are
polled in it.

The wait is a machine with a few phases. Whoever drives it answers its fetches, lets time pass while
it sleeps, and may cancel it or call time on it; the machine says what happens then.
-/

namespace CallDispatch

/-- When a wait returns: once every future is complete, once one is, or after one pass. -/
inductive WaitGoal where
  | all
  | any
  | always
  deriving DecidableEq, Repr

/-- How to wait. Times are in milliseconds. -/
structure WaitTerms where
  download : Bool := false
  goal : WaitGoal := .all
  throwing : Bool := true
  timeout : Option Nat := none
  pollInterval : Nat := 1000
  poolSize : Nat := 128
  cancellable : Bool := false
  deriving DecidableEq, Repr

/-- The futures of one joined job key, by position, with the job and backend of the first. -/
structure WaitUnit where
  executorId : String
  jobId : String
  backend : String
  members : List Nat := []
  deriving DecidableEq, Repr

namespace WaitUnit

/-- The joined key of a unit. -/
def jobKey (u : WaitUnit) : String := joinedJobKey u.executorId u.jobId

/-- The calls of a unit as a monitor is asked to watch them. -/
def watchedJob (u : WaitUnit) (futures : List Future) : WatchedJob where
  executorId := u.executorId
  jobId := u.jobId
  callIds := u.members.filterMap fun i => (futures[i]?).map (·.key.callId)

end WaitUnit

/-- Where units get their stores: one backend may be at hand, any other has to be opened, and how
that ends may depend on how many the wait has opened before. A wait may be suspended in an opening;
if its time runs out there, the opening ends with the timeout. -/
structure Provider where
  atHand : Option String := none
  openBackend : (before : Nat) → (backend : String) → Outcome Unit

/-- The wait set with its units, its monitor, the progress told and the backends opened, in order.
-/
structure WaitState (μ : Type) where
  futures : List Future
  units : List WaitUnit := []
  monitor : μ
  progress : Progress := {}
  opened : List String := []

/-! ## Units -/

/-- Add a member to the unit of a joined job key, if there is one. -/
def addMember (jobKey : String) (index : Nat) : List WaitUnit → Option (List WaitUnit)
  | [] => none
  | u :: rest =>
    if u.jobKey = jobKey then some ({ u with members := u.members ++ [index] } :: rest)
    else (addMember jobKey index rest).map (u :: ·)

/-- Find or make the unit of a call and add a member to it. Making one asks the provider for the
backend, unless it is at hand, and fails if that cannot be opened. -/
def WaitState.place (provider : Provider) (key : CallName) (backend : String) (index : Nat)
    (s : WaitState μ) : WaitState μ × Option DispatchError :=
  match addMember key.jobKey index s.units with
  | some units => ({ s with units }, none)
  | none =>
    let unit : WaitUnit :=
      { executorId := key.executorId, jobId := key.jobId, backend, members := [index] }
    if provider.atHand = some backend then ({ s with units := s.units ++ [unit] }, none)
    else
      let before := s.opened.length
      let s := { s with opened := s.opened ++ [backend] }
      match provider.openBackend before backend with
      | .ok () => ({ s with units := s.units ++ [unit] }, none)
      | .error e => (s, some e)

/-- Place futures, the first of them at a position. -/
def WaitState.placeAll (provider : Provider) (index : Nat) :
    List Future → WaitState μ → WaitState μ × Option DispatchError
  | [], s => (s, none)
  | f :: rest, s =>
    match s.place provider f.key f.backend index with
    | (s, some e) => (s, some e)
    | (s, none) => placeAll provider (index + 1) rest s

/-! ## Fetching -/

/-- A member to be fetched: its position and key, and what is still unknown of it. -/
structure Target where
  index : Nat
  key : CallName
  needsStatus : Bool
  wantsOutput : Bool
  deriving DecidableEq, Repr

/-- What was fetched for a member. -/
inductive FetchAnswer where
  | status (s : Option StatusRecord)
  | result (status : Option StatusRecord) (output : Option OutputRecord)

/-- How far the fetching of one member has come. -/
inductive FetchStep where
  | askStatus
  | askOutput (status : Option StatusRecord)
  | finished (answer : Outcome FetchAnswer)

namespace Target

/-- What is asked first. -/
def first (download : Bool) (t : Target) : FetchStep :=
  if !download || t.needsStatus then .askStatus
  else if t.wantsOutput then .askOutput none
  else .finished (.ok (.result none none))

/-- What follows the answer about the status. The output is asked for only after a success. -/
def afterStatus (download : Bool) (t : Target) : Outcome (Option StatusRecord) → FetchStep
  | .error e => .finished (.error e)
  | .ok status =>
    if !download then .finished (.ok (.status status))
    else match status with
      | none => .finished (.ok (.result none none))
      | some s =>
        if t.wantsOutput && s.success then .askOutput (some s)
        else .finished (.ok (.result (some s) none))

/-- What follows the answer about the output. -/
def afterOutput (status : Option StatusRecord) (answer : Outcome (Option OutputRecord)) :
    FetchStep :=
  .finished (answer.map (.result status))

/-- Fetch a member at once from stores that answer by backend and key. -/
def fetch (download : Bool) (status? : CallName → Outcome (Option StatusRecord))
    (output? : CallName → Outcome (Option OutputRecord)) (t : Target) : Outcome FetchAnswer :=
  let output (status : Option StatusRecord) : Outcome FetchAnswer :=
    (output? t.key).map (.result status)
  match t.first download with
  | .finished answer => answer
  | .askOutput status => output status
  | .askStatus =>
    match t.afterStatus download (status? t.key) with
    | .finished answer => answer
    | .askOutput status => output status
    | .askStatus => .ok (.status none)

end Target

/-- The members of a unit to fetch: those seen by the monitor and not complete. -/
def WaitState.targets [Watcher μ] (download : Bool) (u : WaitUnit) (s : WaitState μ) :
    List Target :=
  let observed := Watcher.observed s.monitor u.jobKey
  u.members.filterMap fun i =>
    match s.futures[i]? with
    | some f =>
      if !f.isComplete download && observed.contains f.key.callId then
        some ⟨i, f.key, !f.status.isSome, f.produceOutput⟩
      else none
    | none => none

/-! ## Recording answers -/

/-- A future with what was fetched recorded, and the error that raises, if failures are raised. A
failure raised leaves no output to record. -/
def Future.record (throwing : Bool) (f : Future) : FetchAnswer → Future × Option DispatchError
  | .status none => (f, none)
  | .status (some s) => (f.withStatus s, f.statusError? throwing s)
  | .result status output =>
    let (g, e) := match status with
      | some s => (f.withStatus s, f.statusError? throwing s)
      | none => (f, none)
    match e, output with
    | none, some o => if g.done then (g, none) else (g.withOutput o, none)
    | e, _ => (g, e)

/-- What recording answers leads to: the futures, the first error in order of position, how many
became complete, and the calls dispatched by those that became done, with the backend they inherit.
-/
structure Recorded where
  futures : List Future
  firstError : Option DispatchError := none
  newlyComplete : Nat := 0
  children : List (CallName × String) := []

/-- Record one answer. -/
def Recorded.add (terms : WaitTerms) (r : Recorded) (answer : Nat × Outcome FetchAnswer) :
    Recorded :=
  match r.futures[answer.1]? with
  | none => r
  | some f =>
    let (g, e) := match answer.2 with
      | .ok fetched => f.record terms.throwing fetched
      | .error e => (f, some e)
    { futures := r.futures.set answer.1 g
      firstError := r.firstError.or e
      newlyComplete :=
        if !f.isComplete terms.download && g.isComplete terms.download then r.newlyComplete + 1
        else r.newlyComplete
      children :=
        if !f.done && g.done then r.children ++ g.children.map fun k => (k, g.backend)
        else r.children }

/-- Answers in order of position. -/
def sortAnswers (answers : List (Nat × Outcome FetchAnswer)) : List (Nat × Outcome FetchAnswer) :=
  answers.mergeSort fun a b => a.1 ≤ b.1

/-! ## Growing -/

/-- Append calls to the wait set one by one, each to the unit of its job. With the state come the
joined keys of the units that grew, in order, and the error that stopped it. -/
def WaitState.append (provider : Provider) : List (CallName × String) → List String → WaitState μ →
    WaitState μ × List String × Option DispatchError
  | [], grown, s => (s, grown, none)
  | (key, backend) :: rest, grown, s =>
    match s.place provider key backend s.futures.length with
    | (s, some e) => (s, grown, some e)
    | (s, none) =>
      let s := { s with futures := s.futures ++ [{ key, backend : Future }] }
      append provider rest (extend grown [key.jobKey]) s

/-- Have the monitor watch the unit of a joined job key as it is now. -/
def WaitState.watch [Watcher μ] (s : WaitState μ) (jobKey : String) : WaitState μ :=
  match s.units.find? (·.jobKey = jobKey) with
  | some u => { s with monitor := Watcher.start s.monitor (u.watchedJob s.futures) u.backend }
  | none => s

/-- Tell the progress sink. -/
def WaitState.tell (s : WaitState μ) (call : ProgressCall) : WaitState μ :=
  { s with progress := s.progress.tell call }

/-- Append dispatched calls, tell the new total and have every unit that grew watched. -/
def WaitState.grow [Watcher μ] (provider : Provider) (children : List (CallName × String))
    (s : WaitState μ) : WaitState μ × Option DispatchError :=
  match s.append provider children [] with
  | (s, _, some e) => (s, some e)
  | (s, grown, none) =>
    let s := s.tell (.total s.futures.length)
    (grown.foldl WaitState.watch s, none)

/-- Record the answers to the fetches of one unit, in whatever order they came, and grow. An error
in growing comes before an error recorded. -/
def WaitState.settle [Watcher μ] (provider : Provider) (terms : WaitTerms)
    (answers : List (Nat × Outcome FetchAnswer)) (s : WaitState μ) :
    WaitState μ × Option DispatchError :=
  let r := (sortAnswers answers).foldl (Recorded.add terms) { futures := s.futures }
  let s := { s with futures := r.futures }.tell (.inc r.newlyComplete)
  if r.children.isEmpty then (s, r.firstError)
  else
    match s.grow provider r.children with
    | (s, some e) => (s, some e)
    | (s, none) => (s, r.firstError)

/-! ## The machine -/

/-- What a wait is doing: about to poll a unit of the pass, waiting for the fetches of one, sleeping
between passes, or finished. -/
inductive Phase where
  | polling (unit : Nat)
  | fetching (unit : Nat) (targets : List Target)
  | sleeping
  | finished (result : Outcome Unit)

/-- A wait under way, and how many passes it has begun. -/
structure Wait (μ : Type) where
  terms : WaitTerms
  provider : Provider
  state : WaitState μ
  phase : Phase
  passes : Nat := 0

namespace Wait

variable {μ : Type}

/-- Whether the wait set is as the terms ask. -/
def isMet (terms : WaitTerms) (futures : List Future) : Bool :=
  match terms.goal with
  | .all => futures.all (·.isComplete terms.download)
  | .any => futures.any (·.isComplete terms.download)
  | .always => true

/-- The futures not complete. -/
def notDone (terms : WaitTerms) (futures : List Future) : Nat :=
  (futures.filter fun f => !f.isComplete terms.download).length

/-- The error of a wait that was cancelled. -/
def cancellation (w : Wait μ) : DispatchError := .cancelled (notDone w.terms w.state.futures)

/-- The wait at its end. -/
def finish (w : Wait μ) (result : Outcome Unit) : Wait μ := { w with phase := .finished result }

/-- Begin a pass. -/
def beginPass (w : Wait μ) : Wait μ := { w with phase := .polling 0, passes := w.passes + 1 }

/-- Return, or start another pass. A wait that has been cancelled starts none, except the only one
of a wait that always returns after one. -/
def decide (cancelled : Bool) (w : Wait μ) : Wait μ :=
  if isMet w.terms w.state.futures then w.finish (.ok ())
  else if w.terms.cancellable && cancelled then w.finish (.error w.cancellation)
  else w.beginPass

/-- The end of a pass. -/
def passed (cancelled : Bool) (w : Wait μ) : Wait μ :=
  if isMet w.terms w.state.futures then w.finish (.ok ())
  else if w.terms.cancellable && cancelled then w.finish (.error w.cancellation)
  else { w with phase := .sleeping }

/-- The first thing a wait does once its units are made and watched, unless that has failed. -/
def enter (cancelled : Bool) (w : Wait μ) : Wait μ :=
  match w.phase with
  | .finished _ => w
  | _ => if w.terms.goal = .always then w.beginPass else w.decide cancelled

/-- Poll the next unit: skip it if none of its members is to be fetched. -/
def pollNext [Watcher μ] (cancelled : Bool) (w : Wait μ) : Wait μ :=
  match w.phase with
  | .polling i =>
    match w.state.units[i]? with
    | none => w.passed cancelled
    | some u =>
      match w.state.targets w.terms.download u with
      | [] => { w with phase := .polling (i + 1) }
      | targets => { w with phase := .fetching i targets }
  | _ => w

/-- Take the answers to all fetches of the unit being polled. -/
def answer [Watcher μ] (answers : List (Nat × Outcome FetchAnswer)) (w : Wait μ) : Wait μ :=
  match w.phase with
  | .fetching i _ =>
    match w.state.settle w.provider w.terms answers with
    | (state, some e) => { w with state, phase := .finished (.error e) }
    | (state, none) => { w with state, phase := .polling (i + 1) }
  | _ => w

/-- Sleep is over. -/
def wake (cancelled : Bool) (w : Wait μ) : Wait μ :=
  match w.phase with
  | .sleeping => w.decide cancelled
  | _ => w

/-- The token is cancelled. Only a sleeping wait notices at once. -/
def cancel (w : Wait μ) : Wait μ :=
  match w.phase with
  | .sleeping => if w.terms.cancellable then w.finish (.error w.cancellation) else w
  | _ => w

/-- Time is up, wherever the wait is. -/
def expire (w : Wait μ) : Wait μ :=
  match w.phase, w.terms.timeout with
  | .finished _, _ => w
  | _, some limit => w.finish (.error (.timeout limit))
  | _, none => w

/-- A wait that has made its units and is about to be entered, or has failed to make them. -/
def prepare (terms : WaitTerms) (provider : Provider) (monitor : μ) (progress : Progress)
    (futures : List Future) : Wait μ :=
  let (state, e) := WaitState.placeAll provider 0 futures { futures, monitor, progress }
  match e with
  | some e => { terms, provider, state, phase := .finished (.error e) }
  | none => { terms, provider, state, phase := .sleeping }

/-- Sweep and watch units one by one, until a sweep fails. -/
def watchUnits (finishedCalls : String → String → String → Outcome (List String))
    (futures : List Future) : List WaitUnit → ListingMonitor → ListingMonitor × Option DispatchError
  | [], m => (m, none)
  | u :: rest, m =>
    let job := u.watchedJob futures
    match m.sweep job (finishedCalls u.backend u.executorId u.jobId) with
    | .error e => (m, some e)
    | .ok m => watchUnits finishedCalls futures rest (m.start job u.backend)

end Wait

end CallDispatch
