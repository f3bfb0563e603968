import CallDispatch.Tracking.Storage

/-!
# Monitors

A monitor watches jobs and knows which of their calls have been seen with a status. A listing
monitor asks a store which calls of a job have one: at once when asked to *sweep*, and then from one
polling task per job, which looks every `interval` milliseconds until every call it was asked to
watch has been seen. Watching a job again adds to the calls it waits for and starts a new task if
the old one has ended.
-/

namespace CallDispatch

/-- The calls of one job a monitor should watch. -/
structure WatchedJob where
  executorId : String
  jobId : String
  callIds : List String
  deriving DecidableEq, Repr

/-- The joined key of a watched job. -/
def WatchedJob.jobKey (j : WatchedJob) : String := joinedJobKey j.executorId j.jobId

/-- What a waiting client needs of a monitor: which calls of a job it has seen, and to start
watching a job whose calls leave their statuses in a backend. -/
class Watcher (μ : Type) where
  observed : μ → String → List String
  start : μ → WatchedJob → (backend : String) → μ

/-- Add to a list what it does not have yet. -/
def extend (known new : List String) : List String :=
  new.foldl (fun known id => if known.contains id then known else known ++ [id]) known

/-! ## Monitors that look into a store -/

/-- A polling task: whose calls it lists, in which backend, and when it looks next. -/
structure PollTask where
  executorId : String
  jobId : String
  backend : String
  due : Nat := 0
  deriving DecidableEq, Repr

/-- What is known about a watched job: the calls waited for, the calls seen, and the polling task
while it is alive. -/
structure JobWatch where
  wanted : List String := []
  observed : List String := []
  task : Option PollTask := none
  deriving DecidableEq, Repr

/-- Whether every call waited for has been seen. -/
def JobWatch.sawAll (w : JobWatch) : Bool :=
  w.wanted.all fun id => w.observed.contains id

/-- A monitor that lists stores, with its watched jobs by joined key. -/
structure ListingMonitor where
  interval : Nat
  jobs : List (String × JobWatch) := []
  deriving DecidableEq, Repr

namespace ListingMonitor

/-- The entry of a job among entries. -/
def find (jobKey : String) : List (String × JobWatch) → JobWatch
  | [] => {}
  | (key, w) :: rest => if key = jobKey then w else find jobKey rest

/-- Change the entry of a job, made new at the end if there is none. -/
def modify (jobKey : String) (f : JobWatch → JobWatch) :
    List (String × JobWatch) → List (String × JobWatch)
  | [] => [(jobKey, f {})]
  | (key, w) :: rest =>
    if key = jobKey then (key, f w) :: rest else (key, w) :: modify jobKey f rest

/-- What is known about a job. -/
def watched (m : ListingMonitor) (jobKey : String) : JobWatch := find jobKey m.jobs

/-- Change what is known about a job. -/
def update (m : ListingMonitor) (jobKey : String) (f : JobWatch → JobWatch) : ListingMonitor :=
  { m with jobs := modify jobKey f m.jobs }

/-- The calls of a job seen so far. -/
def observed (m : ListingMonitor) (jobKey : String) : List String := (m.watched jobKey).observed

/-- Whether a job's polling task is alive. -/
def isAlive (m : ListingMonitor) (jobKey : String) : Bool := (m.watched jobKey).task.isSome

/-- Record the answer of a store asked at once. An error is passed on and changes nothing. -/
def sweep (m : ListingMonitor) (job : WatchedJob) (answer : Outcome (List String)) :
    Outcome ListingMonitor := do
  let ready ← answer
  pure (m.update job.jobKey fun w => { w with observed := extend w.observed ready })

/-- Watch a job. A task that is alive goes on; otherwise a new one is to look at once. -/
def start (m : ListingMonitor) (job : WatchedJob) (backend : String) : ListingMonitor :=
  m.update job.jobKey fun w =>
    { w with
      wanted := extend w.wanted job.callIds
      task := match w.task with
        | some task => some task
        | none => some { executorId := job.executorId, jobId := job.jobId, backend } }

/-- A task's look at its store: what it sees is recorded, and it ends once all calls waited for have
been seen. After an error it only tries again later.

From the store's answer to the end of the task is one step. The task gives up nothing on the way: it
leaves the loop and is over without another suspension. So nobody asks whether it is alive in
between, and a job is never watched anew by a task that has already seen enough. -/
def JobWatch.look (w : JobWatch) (task : PollTask) (again : Nat) :
    Outcome (List String) → JobWatch
  | .ok ready =>
    let w := { w with observed := extend w.observed ready }
    { w with task := if w.sawAll then none else some { task with due := again } }
  | .error _ => { w with task := some { task with due := again } }

/-- Let the task of a job look at its store, which answers by backend, executor and job. -/
def poll (m : ListingMonitor) (jobKey : String) (now : Nat)
    (ask : String → String → String → Outcome (List String)) : ListingMonitor :=
  m.update jobKey fun w =>
    match w.task with
    | some task =>
      JobWatch.look w task (now + m.interval) (ask task.backend task.executorId task.jobId)
    | none => w

/-- The times at which tasks look next. -/
def dueTimes (m : ListingMonitor) : List Nat :=
  m.jobs.filterMap fun (_, w) => w.task.map (·.due)

/-- The jobs whose task looks at or before a time. -/
def dueJobs (m : ListingMonitor) (now : Nat) : List String :=
  m.jobs.filterMap fun (key, w) =>
    match w.task with
    | some task => if task.due ≤ now then some key else none
    | none => none

instance : Watcher ListingMonitor where
  observed := observed
  start := start

end ListingMonitor

/-! ## Monitors told what to see -/

/-- A monitor that sees what it is told, and keeps a record of what it was asked to watch. -/
structure ManualMonitor where
  seen : List (String × List String) := []
  alive : List String := []
  starts : List (WatchedJob × String) := []
  deriving DecidableEq, Repr

namespace ManualMonitor

/-- The calls of a job it was told of. -/
def observed (m : ManualMonitor) (jobKey : String) : List String :=
  (m.seen.filter fun e => e.1 = jobKey).flatMap (·.2)

/-- Tell it of calls of a job. -/
def observe (m : ManualMonitor) (jobKey : String) (callIds : List String) : ManualMonitor :=
  { m with seen := m.seen ++ [(jobKey, callIds)] }

/-- Watch a job. -/
def start (m : ManualMonitor) (job : WatchedJob) (backend : String) : ManualMonitor :=
  { m with alive := extend m.alive [job.jobKey], starts := m.starts ++ [(job, backend)] }

/-- Stop watching a job. -/
def kill (m : ManualMonitor) (jobKey : String) : ManualMonitor :=
  { m with alive := m.alive.filter (· ≠ jobKey) }

instance : Watcher ManualMonitor where
  observed := observed
  start := start

end ManualMonitor

end CallDispatch
