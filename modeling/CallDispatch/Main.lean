import CallDispatch.CommandLine.Outcome

/-!
# The program

The command line as a process: arguments and environment in, text and an exit code out. All
decisions are made by `CommandLine.run`; what it leaves to be done needs a network, which this
program has not.
-/

open CallDispatch

/-- The environment variables the command line looks at. -/
def readEnvironment : IO (List (String × String)) := do
  let found ← ["BATCH_HANDLER", "MASTER_POD_IP", "MASTER_URL"].mapM fun name => do
    let value ← IO.getEnv name
    pure (value.map (name, ·))
  pure (found.filterMap id)

/-- Tell a failure and give its exit code. -/
def tell (environment : List (String × String)) (f : CommandLine.Failure) : IO UInt32 := do
  let message := match f with
    | .misplaced => CommandLine.helpText environment none
    | .error e => e.message ++ "\n"
    | .wrongShape flaw => flaw.message ++ "\n"
    | .missing message => message ++ "\n"
  (← IO.getStderr).putStr message
  pure (UInt32.ofNat f.exitCode)

/-- Read the command line and act on it. -/
def main (arguments : List String) : IO UInt32 := do
  let environment ← readEnvironment
  match CommandLine.run { environment } arguments with
  | .printed text =>
    (← IO.getStdout).putStr text
    pure 0
  | .failed f => tell environment f
  | _ => tell environment (.error (.io "no network"))
