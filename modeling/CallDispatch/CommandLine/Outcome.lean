import CallDispatch.CommandLine.Arguments
import CallDispatch.CommandLine.Help
import CallDispatch.Fanout.BrokerAddress
import CallDispatch.Job.Wire
import CallDispatch.Json.Pretty

/-!
# Outcomes of a command line

A payload on the command line is unwrapped before anything else is looked at, first as a value of
any shape and then as what the action needs. What a command comes to is text to print, a failure, or
work that goes on until the process is told to stop.
-/

namespace CallDispatch

namespace CommandLine

open Program (Action)

/-- Why a process fails: its arguments, an error, a payload of the wrong shape, or something
missing. -/
inductive Failure where
  | misplaced
  | error (e : DispatchError)
  | wrongShape (f : Json.Flaw)
  | missing (message : String)
  deriving DecidableEq, Repr

/-- The exit code of a failure. -/
def Failure.exitCode : Failure → Nat
  | .misplaced => 2
  | _ => 1

/-- Where a process runs: its environment, and which ports somebody else listens on. -/
structure Surroundings where
  environment : List (String × String) := []
  isTaken : Nat → Bool := fun _ => false

/-- What a command line comes to. -/
inductive Verdict where
  | printed (text : String)
  | failed (f : Failure)
  | pulling (payload : Payload) (masterUrl : String)
  | serving (port : Nat) (logLevel : Option String)

/-- The log level a payload asks for. -/
def logLevel? : Json → Option String
  | .object members =>
    match Keyed.find? "log_level" members with
    | some (.text s) => some s
    | _ => none
  | _ => none

/-- Unwrap a payload as a value of any shape. -/
def unwrapValue (encoded : String) : Except Failure Json :=
  (decodeWrapped (·.value Json.maxDepth) encoded).mapError .error

/-- Unwrap a payload as what an action needs. -/
def unwrapAs (decoder : Json.Document → Json.Decoded α) (encoded : String) : Except Failure α := do
  let value ← unwrapValue encoded
  (decoder value.document).mapError .wrongShape

/-- Unwrap a payload an action can do without. -/
def unwrapOptional : Option String → Except Failure (Option Json)
  | none => pure none
  | some encoded => return some (← unwrapValue encoded)

/-- Start to pull a job: what is wrong with the master's address shows before the first request. -/
def startPulling (payload : Payload) (masterUrl : String) : Verdict :=
  match Master.requestUrl (Master.trimSlashes masterUrl) payload.jobKey payload.totalCalls
      payload.requestSize with
  | .error e => .failed (.error e)
  | .ok _ => .pulling payload masterUrl

/-- The address of the master of a command: its own, or that of the host given. -/
def masterUrl? (c : Command) (environment : List (String × String)) : Option String :=
  match c.option? environment "master-url", c.option? environment "master-ip" with
  | some url, _ => some url
  | none, some host => some (PullSettings.forMasterHost host).masterUrl
  | none, none => none

/-- Carry out a command. -/
def carryOut (s : Surroundings) (c : Command) : Except Failure Verdict :=
  match c.action with
  | .pullJob => do
    let payload ← unwrapAs Payload.decode (c.given.payload.getD "")
    match masterUrl? c s.environment with
    | some url => pure (startPulling payload url)
    | none => throw (.missing "MASTER_POD_IP or --master-url is required")
  | .serveMaster => do
    let value ← unwrapOptional c.given.payload
    let port := ((c.option? s.environment "port").bind
      (Text.Decimal.readWord ·.toList)).getD ({} : MasterSettings).port
    match Program.serveMaster (s.isTaken port) with
    | .error e => throw (.error e)
    | .ok () => pure (.serving port (value.bind logLevel?))
  | .listenForJobs => do
    let config ← unwrapAs ListenerSettings.decode (c.given.payload.getD "")
    match (BrokerAddress.ofText config.brokerUrl) >>= BrokerAddress.connectUnserved with
    | .error e => throw (.error e)
    | .ok () => pure (.printed "")
  | .describe => do
    let _ ← unwrapOptional c.given.payload
    pure (.printed (Program.metadata.toIndentedText ++ "\n"))

/-- The text that tells the version of the program, or of one of its actions. -/
def versionText (action : Option Action) : String :=
  Program.title ++ (match action with | some a => "-" ++ a.name | none => "") ++ " " ++
    Program.version ++ "\n"

/-- What a command line comes to. -/
def run (s : Surroundings) (arguments : List String) : Verdict :=
  match read arguments with
  | .misplaced => .failed .misplaced
  | .help action => .printed (helpText s.environment action)
  | .version action => .printed (versionText action)
  | .command c =>
    match carryOut s c with
    | .ok verdict => verdict
    | .error f => .failed f

/-- The exit code of a verdict; work that is told to stop ends well. -/
def Verdict.exitCode : Verdict → Nat
  | .failed f => f.exitCode
  | _ => 0

/-! ## What a master logs -/

/-- Whether lines of ordinary importance are logged at a level. -/
def logsOrdinary (level : Option String) : Bool :=
  match level with
  | none => true
  | some s => ["info", "debug", "trace", "3", "4", "5"].contains (s.map Char.toLower)

/-- The lines a master logs from its start until it is told to stop by a signal. -/
def masterLog (level : Option String) (signal : String) : List String :=
  if logsOrdinary level then
    ["Starting range allocation server",
      "Received SIG" ++ signal ++ ", initiating graceful shutdown",
      "Range allocation server stopped"]
  else []

end CommandLine

end CallDispatch
