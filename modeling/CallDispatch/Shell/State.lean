import CallDispatch.Shell.Programs
import CallDispatch.Shell.Syntax

/-!
# The state of a shell

A shell has variables, some of which it passes on to programs, an input, and streams that lead
somewhere. Everything written ends up in its output, in its messages, in a file, or nowhere.
-/

namespace CallDispatch.Shell

/-- Where a stream leads. -/
inductive Sink where
  | output
  | messages
  | file (name : List Char)
  | nowhere
  | closed
  deriving DecidableEq, Repr

/-- A shell: its name and arguments, its variables and the names of those it passes on, its input,
its streams, what has been written, the status of the last command, the scripts it runs on signals
(zero stands for its end, an empty script for not heeding the signal), and those now to be run. -/
structure State where
  name : List Char := ['s', 'h']
  arguments : List (List Char) := []
  bindings : List (List Char × List Char) := []
  exported : List (List Char) := []
  input : Option (List UInt8) := some []
  sinks : List (Nat × Sink) := [(1, .output), (2, .messages)]
  out : List UInt8 := []
  err : List UInt8 := []
  files : List (List Char × List UInt8) := []
  status : Nat := 0
  stopsOnFailure : Bool := false
  traps : List (Nat × List Char) := []
  called : List (List Char) := []

/-- How a command leaves the shell: going on, leaving, or killed by a signal. -/
inductive Course where
  | onward
  | leaving
  | killed (signal : Nat)
  deriving DecidableEq, Repr

namespace State

/-- The number that stands for the shell's own process. -/
def processId : List Char := ['1', '7']

/-- The value of a variable. -/
def value? (s : State) (name : List Char) : Option (List Char) := s.bindings.lookup name

/-- Set a variable. -/
def set (s : State) (name value : List Char) : State :=
  { s with bindings := (name, value) :: s.bindings.filter (·.1 ≠ name) }

/-- Take a variable away. -/
def unset (s : State) (name : List Char) : State :=
  { s with bindings := s.bindings.filter (·.1 ≠ name) }

/-- The variables passed on to programs. -/
def environment (s : State) : List (List Char × List Char) :=
  s.bindings.reverse.filter fun (name, _) => s.exported.contains name

/-- Where a stream leads. -/
def sink (s : State) (stream : Nat) : Sink := (s.sinks.lookup stream).getD .closed

/-- Lead a stream somewhere. -/
def lead (s : State) (stream : Nat) (target : Sink) : State :=
  { s with sinks := (stream, target) :: s.sinks.filter (·.1 ≠ stream) }

/-- Add to a file. -/
def addToFile (s : State) (name : List Char) (bytes : List UInt8) : State :=
  let old := (s.files.lookup name).getD []
  { s with files := (name, old ++ bytes) :: s.files.filter (·.1 ≠ name) }

/-- Write to a stream; a closed one takes nothing. -/
def write (s : State) (stream : Nat) (bytes : List UInt8) : State :=
  match s.sink stream with
  | .output => { s with out := s.out ++ bytes }
  | .messages => { s with err := s.err ++ bytes }
  | .file name => s.addToFile name bytes
  | .nowhere | .closed => s

/-- End with a status. -/
def withStatus (s : State) (status : Nat) : State := { s with status := status % 256 }

/-- A message of the shell itself. -/
def complain (s : State) (message : String) (status : Nat) : State :=
  (s.write 2 (bytesOf ("sh: 1: " ++ message ++ "\n").toList)).withStatus status

/-- What a program finds. -/
def desk (s : State) : Desk := { input := s.input, files := s.files }

/-- Take over what a program did. -/
def takeOver (s : State) (r : ProgramRun) : State :=
  let s := (s.write 1 r.out).write 2 r.err
  let failed := s.sink 1 = .closed ∧ r.out ≠ []
  { s with input := s.input.map fun _ => r.rest, status := if failed then 1 else r.status }

end State

end CallDispatch.Shell
