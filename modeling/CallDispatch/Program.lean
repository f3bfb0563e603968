import CallDispatch.Settings
import CallDispatch.Master.Link
import CallDispatch.Pull.Timed

/-!
# Actions of a process

A process is started for one of four actions: to pull a job's calls, to serve as master, to listen
for jobs, or to say what it is. Each action runs until its work is done or it is told to stop.
-/

namespace CallDispatch

namespace Program

/-- The name of the program. -/
def title : String := "batch-lite"

/-- The version of the program. -/
def version : String := "0.1.0"

/-- What the program is for. -/
def description : String :=
  "Call distribution for batch jobs: range master, pull workers and fanout listeners"

/-- What a process can be started for. -/
inductive Action where
  | pullJob
  | serveMaster
  | listenForJobs
  | describe
  deriving DecidableEq, Repr

namespace Action

/-- All actions, in the order in which they are listed. -/
def all : List Action := [.pullJob, .serveMaster, .listenForJobs, .describe]

/-- The name of an action. -/
def name : Action → String
  | .pullJob => "run-job"
  | .serveMaster => "run-master"
  | .listenForJobs => "start-listener"
  | .describe => "get-metadata"

/-- The action of a name. -/
def ofName? (s : String) : Option Action := all.find? (·.name == s)

theorem ofName?_name (a : Action) : ofName? a.name = some a := by
  cases a <;> decide

end Action

/-- What a process says about itself. -/
def metadata : Json :=
  .object [("name", .text title), ("version", .text version),
    ("actions", .array (Action.all.map (.text ·.name)))]

/-- Pull the calls of a job from a master. `answers` bounds the answers that are not spans of the
job's calls, and `told` says whether a link has caused the process to be told to stop. -/
def pullJob (payload : Payload) (retryDelay : Nat) (handler : TimedHandler) (stopAt : Option Nat)
    (link : Master.Link) (told : Master.Link → Bool) (answers : Nat) : PullRun Master.Link :=
  let worker : TimedWorker := { worker := { payload }, handler, retryDelay, stopAt }
  PullRun.toEnd told answers { source := link, workers := [worker] }

/-- Serve as master until told to stop, which needs a port nobody else listens on. -/
def serveMaster (portTaken : Bool) : Outcome Unit :=
  if portTaken then .error (.io "address in use") else .ok ()

end Program

end CallDispatch
