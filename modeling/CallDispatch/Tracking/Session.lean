import CallDispatch.Tracking.Fetching

/-!
# Waiting sessions in virtual time

A session has a wait set, stores and monitors, and a clock that moves only when everything is
blocked, and then straight to the next thing due. A wait runs until it blocks; then the monitors'
tasks that are due look at their stores, and the clock moves on. Changes of the stores, faults and
the token can be laid out along a wait.
-/

namespace CallDispatch

/-- The monitor a wait is given: one that lists stores, or one told what to see. -/
inductive SessionMonitor where
  | storage (m : ListingMonitor)
  | manual (m : ManualMonitor)

instance : Watcher SessionMonitor where
  observed
    | .storage m => m.observed
    | .manual m => m.observed
  start
    | .storage m, job, backend => .storage (m.start job backend)
    | .manual m, job, backend => .manual (m.start job backend)

/-- A change from outside. -/
inductive Change where
  | leaveStatus (backend : String) (key : CallName) (status : StatusRecord)
  | leaveOutput (backend : String) (key : CallName) (output : OutputRecord)
  | complete (backend : String) (key : CallName) (value : Json)
  | unavailable (backend : String) (yes : Bool)
  | statusLatency (ms : Nat)
  | outputLatency (ms : Nat)
  | latency (fetch : String) (ms : Nat)
  | failFetch (fetch : String)
  | healFetch (fetch : String)
  | closeBackend (backend : String)
  | cancel
  | observe (jobKey : String) (callIds : List String)

/-- The surroundings after a change. -/
def Surroundings.change (s : Surroundings) : Change → Surroundings
  | .leaveStatus backend key status =>
    { s with stores := s.stores.update backend (·.leaveStatus key status) }
  | .leaveOutput backend key output =>
    { s with stores := s.stores.update backend (·.leaveOutput key output) }
  | .complete backend key value =>
    { s with stores := s.stores.update backend (·.complete key value) }
  | .unavailable backend yes =>
    { s with stores := s.stores.update backend ({ · with unavailable := yes }) }
  | .statusLatency ms => { s with faults := { s.faults with statusLatency := ms } }
  | .outputLatency ms => { s with faults := { s.faults with outputLatency := ms } }
  | .latency fetch ms =>
    { s with faults := { s.faults with latencies := (fetch, ms) :: s.faults.latencies } }
  | .failFetch fetch => { s with faults := { s.faults with failing := fetch :: s.faults.failing } }
  | .healFetch fetch =>
    { s with faults := { s.faults with failing := s.faults.failing.filter (· ≠ fetch) } }
  | .closeBackend backend =>
    { s with faults := { s.faults with closedBackends := backend :: s.faults.closedBackends } }
  | .cancel => { s with cancelled := true }
  | .observe .. => s

/-- Let the tasks of a monitor look that are due. -/
def ListingMonitor.runDue (sur : Surroundings) (now : Nat) (m : ListingMonitor) : ListingMonitor :=
  (m.dueJobs now).foldl (fun m key => m.poll key now sur.stores.finishedCalls) m

namespace SessionMonitor

/-- Let the tasks look that are due. -/
def runDue (sur : Surroundings) (now : Nat) : SessionMonitor → SessionMonitor
  | .storage m => .storage (m.runDue sur now)
  | .manual m => .manual m

/-- The times at which tasks look next. -/
def dueTimes : SessionMonitor → List Nat
  | .storage m => m.dueTimes
  | .manual _ => []

/-- A monitor told what to see hears of a change that tells it. -/
def hear (c : Change) : SessionMonitor → SessionMonitor
  | .storage m => .storage m
  | .manual m =>
    match c with
    | .observe jobKey callIds => .manual (m.observe jobKey callIds)
    | _ => .manual m

end SessionMonitor

/-! ## One wait in time -/

/-- A wait under way at a time: what surrounds it, the fetches of the unit being polled, when sleep
is over, what is still laid out along it, when time is up, the point it runs out at if that is an
opening or a sweep, and a monitor that goes on beside it. -/
structure WaitRun where
  now : Nat
  sur : Surroundings
  wait : Wait SessionMonitor
  pool : Option FetchPool := none
  wakeAt : Nat := 0
  timeline : List (Nat × Change) := []
  deadline : Option Nat := none
  cut : Option Cut := none
  beside : ListingMonitor
  log : FetchLog := {}

namespace WaitRun

/-- Whether the wait is finished. -/
def isFinished (r : WaitRun) : Bool :=
  match r.wait.phase with
  | .finished _ => true
  | _ => false

/-- Let the wait go on until it blocks or is finished. -/
def untilBlocked : (fuel : Nat) → WaitRun → WaitRun
  | 0, r => r
  | fuel + 1, r =>
    match r.wait.phase with
    | .finished _ => r
    | .sleeping => r
    | .polling _ =>
      let wait := r.wait.pollNext r.sur.cancelled
      match wait.phase with
      | .fetching i targets =>
        let backend := ((wait.state.units[i]?).map (·.backend)).getD ""
        let pool : FetchPool :=
          { backend, download := wait.terms.download, capacity := max wait.terms.poolSize 1,
            waiting := targets }
        let (pool, log) := pool.start r.sur r.now r.log
        untilBlocked fuel { r with wait, pool := some pool, log }
      | _ => untilBlocked fuel { r with wait, wakeAt := r.now + wait.terms.pollInterval }
    | .fetching .. =>
      match r.pool with
      | some pool =>
        if pool.isDone then
          untilBlocked fuel { r with wait := r.wait.answer pool.answers, pool := none }
        else r
      | none => r

/-- Call time on a wait that is blocked past its deadline. -/
def checkDeadline (r : WaitRun) : WaitRun :=
  match r.deadline with
  | some deadline => if deadline ≤ r.now then { r with wait := r.wait.expire } else r
  | none => r

/-- Apply a change. -/
def change (r : WaitRun) (c : Change) : WaitRun :=
  let sur := r.sur.change c
  let state := { r.wait.state with monitor := r.wait.state.monitor.hear c }
  let provider := { r.wait.provider with openBackend := sur.faults.opens r.cut }
  let wait := { r.wait with state, provider }
  { r with sur, wait := if sur.cancelled then wait.cancel else wait }

/-- Apply the changes due and let the tasks look that are due. -/
def runDue (r : WaitRun) : WaitRun :=
  let due := r.timeline.takeWhile fun e => e.1 ≤ r.now
  let r := { r with timeline := r.timeline.drop due.length }
  let r := due.foldl (fun r e => r.change e.2) r
  let state := { r.wait.state with monitor := r.wait.state.monitor.runDue r.sur r.now }
  { r with wait := { r.wait with state }, beside := r.beside.runDue r.sur r.now }

/-- The times at which something is due. -/
def dueTimes (r : WaitRun) : List Nat :=
  (match r.wait.phase with
    | .sleeping => [r.wakeAt]
    | _ => (r.pool.map fun p => p.pending.map (·.due)).getD []) ++
  (r.timeline.take 1).map (·.1) ++ r.deadline.toList ++
  r.wait.state.monitor.dueTimes ++ r.beside.dueTimes

/-- Let the blocked wait go on if what it waits for is due. -/
def resume (r : WaitRun) : WaitRun :=
  match r.wait.phase with
  | .sleeping => if r.wakeAt ≤ r.now then { r with wait := r.wait.wake r.sur.cancelled } else r
  | .fetching .. =>
    match r.pool with
    | some pool =>
      let (pool, log) := pool.wake r.sur r.now r.log
      { r with pool := some pool, log }
    | none => r
  | _ => r

/-- Run a wait to its end, through at most `events` moments at which something is due. -/
def run (turns : Nat) : (events : Nat) → WaitRun → WaitRun
  | 0, r => r
  | events + 1, r =>
    let r := (r.untilBlocked turns).checkDeadline
    if r.isFinished then r
    else
      let r := r.runDue
      if r.isFinished then r
      else match r.dueTimes.min? with
        | none => r
        | some next =>
          let r := { r with now := max r.now next }.runDue
          if r.isFinished then r else run turns events r.resume

end WaitRun

/-! ## Sessions -/

/-- Which monitor the waits of a session are given: a new one each, the session's, or one told what
to see. -/
inductive MonitorChoice where
  | own
  | storage
  | manual
  deriving DecidableEq, Repr

/-- How many moments a wait may go through, if nothing else is said. -/
def Session.eventLimit : Nat := 100000

/-- A session: its clock, wait set, surroundings and monitors, and how many moments a wait of it may
go through. -/
structure Session where
  now : Nat := 0
  futures : List Future
  sur : Surroundings := {}
  choice : MonitorChoice := .own
  atHand : Option String := none
  monitorInterval : Nat
  storage : ListingMonitor
  manual : ManualMonitor := {}
  limit : Nat := Session.eventLimit

/-- What a wait gives back: the wait set split in two, or the values. -/
inductive WaitResult where
  | split (done notDone : List CallName)
  | values (vs : List Json)

/-- All that can be told of a wait. -/
structure WaitReport where
  result : Outcome WaitResult
  elapsed : Nat
  passes : Nat := 0
  progress : Progress
  log : FetchLog
  opened : List String
  starts : List (WatchedJob × String)
  futures : List Future

namespace Session

/-- The wait set split into complete and other futures. -/
def split (download : Bool) (futures : List Future) : WaitResult :=
  let (done, notDone) := futures.partition (·.isComplete download)
  .split (done.map (·.key)) (notDone.map (·.key))

/-- The values of the futures that are done, produce output and dispatched no calls, in order. -/
def values (throwing : Bool) (futures : List Future) : Outcome WaitResult := do
  let leaves := futures.filter fun f => f.done && f.produceOutput && f.children.isEmpty
  let vs ← leaves.mapM (·.result throwing)
  pure (.values vs)

/-- Where the units of a wait get their stores as it begins. -/
def provider (s : Session) (cut : Option Cut := none) : Provider where
  atHand := s.atHand
  openBackend := s.sur.faults.opens cut

/-- Sweep and watch the units of a wait that has a monitor of its own; time may run out in one of
the sweeps. -/
def watchAll (s : Session) (units : List WaitUnit) (cut : Option Cut := none) :
    ListingMonitor × Option DispatchError :=
  let watch := fun units => Wait.watchUnits s.sur.stores.finishedCalls s.futures units
    { interval := s.monitorInterval }
  match cut with
  | some ⟨.sweep before, limit⟩ =>
    if before < units.length then
      let (m, e) := watch (units.take before)
      (m, some (e.getD (.timeout limit)))
    else watch units
  | _ => watch units

/-- The wait of a session at its start. -/
def beginWait (s : Session) (terms : WaitTerms) (progress : Progress)
    (cut : Option Cut := none) : Wait SessionMonitor :=
  let provider := s.provider cut
  let prepare := fun m => Wait.prepare terms provider m progress s.futures
  let w : Wait SessionMonitor :=
    match s.choice with
    | .storage => prepare (.storage s.storage)
    | .manual => prepare (.manual { s.manual with starts := [] })
    | .own =>
      let w := prepare (.storage { interval := s.monitorInterval })
      match w.phase with
      | .finished _ => w
      | _ =>
        let (m, e) := s.watchAll w.state.units cut
        let w := { w with state := { w.state with monitor := .storage m } }
        match e with
        | some e => w.finish (.error e)
        | none => w
  w.enter s.sur.cancelled

/-- The session after a wait has run. -/
def afterRun (s : Session) (r : WaitRun) : Session :=
  let s := { s with now := r.now, sur := r.sur, futures := r.wait.state.futures }
  match s.choice, r.wait.state.monitor with
  | .storage, .storage m => { s with storage := m }
  | .manual, .manual m => { s with storage := r.beside, manual := m }
  | _, _ => { s with storage := r.beside }

/-- Where time runs out, if it does so in an opening or a sweep and is limited. -/
def cutBy (terms : WaitTerms) (cutIn : Option CutPoint) : Option Cut :=
  cutIn.bind fun point => terms.timeout.map fun limit => { point, limit }

/-- How a wait that polled came out. -/
def outcomeOf : Phase → Outcome Unit
  | .finished result => result
  | _ => .error .shutdown

/-- Wait, with changes laid out along the wait at times counted from its start. The sink is a new
one unless it has been told of waits before. A wait for a set that is complete tells it nothing.
Stores are opened and swept at once, except that the time allowed may run out as this is done for
one of them; the wait then ends there, at a moment its clock is not moved on to. -/
def wait (s : Session) (terms : WaitTerms) (timeline : List (Nat × Change))
    (sink : Progress := {}) (cutIn : Option CutPoint := none) :
    Session × Outcome Unit × WaitReport :=
  let still : WaitReport :=
    { result := .ok (.values []), elapsed := 0, progress := sink, log := {}, opened := [],
      starts := [], futures := s.futures }
  if s.futures.all (·.isComplete terms.download) then (s, .ok (), still)
  else
    let complete := (s.futures.filter (·.isComplete terms.download)).length
    let progress := (sink.tell (.total s.futures.length)).tell (.inc complete)
    let beside : ListingMonitor :=
      if s.choice = .storage then { interval := s.monitorInterval } else s.storage
    let cut := cutBy terms cutIn
    let start : WaitRun :=
      { now := s.now, sur := s.sur, wait := s.beginWait terms progress cut, cut, beside
        timeline := timeline.map fun (t, c) => (s.now + t, c)
        deadline := terms.timeout.map (s.now + ·) }
    let r := start.run s.limit s.limit
    let starts := match r.wait.state.monitor with
      | .manual m => m.starts
      | .storage _ => []
    (s.afterRun r, outcomeOf r.wait.phase,
      { still with
        elapsed := r.now - s.now, passes := r.wait.passes,
        progress := r.wait.state.progress.tell .close, log := r.log,
        opened := r.wait.state.opened, starts, futures := r.wait.state.futures })

/-- Wait and split the wait set. -/
def waitSplit (s : Session) (terms : WaitTerms) (timeline : List (Nat × Change))
    (sink : Progress := {}) : Session × WaitReport :=
  let (s, outcome, report) := s.wait terms timeline sink
  (s, { report with result := outcome.map fun () => split terms.download s.futures })

/-- Wait for every output and collect the values. -/
def waitValues (s : Session) (terms : WaitTerms) (timeline : List (Nat × Change))
    (sink : Progress := {}) : Session × WaitReport :=
  let (s, outcome, report) := s.wait { terms with download := true, goal := .all } timeline sink
  (s, { report with result := outcome.bind fun () => values terms.throwing s.futures })

/-- Let the tasks of the session's monitor look that are due. -/
def runDue (s : Session) : Session :=
  { s with storage := s.storage.runDue s.sur s.now }

/-- Let time pass up to a moment. -/
def advanceTo (moment : Nat) : (events : Nat) → Session → Session
  | 0, s => s
  | events + 1, s =>
    let s := s.runDue
    match (s.storage.dueTimes.filter (· ≤ moment)).min? with
    | some next => advanceTo moment events { s with now := max s.now next }
    | none => { s with now := moment }

/-- Apply a change. -/
def change (s : Session) (c : Change) : Session :=
  match c with
  | .observe jobKey callIds => { s with manual := s.manual.observe jobKey callIds }
  | c => { s with sur := s.sur.change c }

end Session

end CallDispatch
