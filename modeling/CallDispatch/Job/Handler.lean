import CallDispatch.Job.Activation
import CallDispatch.Job.Invocation

/-!
# Handlers with set times

To work out how a job runs without running it, a handler is described by what can be seen of it from
outside: how many milliseconds an invocation takes, and which calls fail. A log records what it was
given, and how many invocations were under way at once.
-/

namespace CallDispatch

/-- How long invocations take, and which calls fail. -/
structure TimedHandler where
  delay : Nat := 0
  delays : List (String × Nat) := []
  failing : List String := []
  deriving DecidableEq, Repr

namespace TimedHandler

/-- The milliseconds an invocation takes. Its first call decides. -/
def duration (h : TimedHandler) (window : Payload) : Nat :=
  (window.callIds.head?.bind (h.delays.lookup ·)).getD h.delay

/-- How an invocation ends: it fails if one of its calls does. -/
def status (h : TimedHandler) (window : Payload) : InvocationEnd :=
  if window.callIds.any h.failing.contains then .failed else .completed

end TimedHandler

/-- An invocation: when it started, and what the handler was given. -/
structure Invocation where
  time : Nat
  window : Payload
  deriving Repr

/-- What a handler was given so far, in order, and how it is getting on. -/
structure HandlerLog where
  calls : List Invocation := []
  running : Nat := 0
  peak : Nat := 0
  finished : Nat := 0
  deriving Repr

namespace HandlerLog

/-- An invocation starts. -/
def start (log : HandlerLog) (time : Nat) (window : Payload) : HandlerLog :=
  { log with
    calls := log.calls ++ [⟨time, window⟩]
    running := log.running + 1
    peak := max log.peak (log.running + 1) }

/-- An invocation finishes. -/
def finish (log : HandlerLog) : HandlerLog :=
  { log with running := log.running - 1, finished := log.finished + 1 }

/-- The activation identifiers of the invocations. -/
def activations (log : HandlerLog) : List (Option String) :=
  log.calls.map (·.window.activationId)

/-- Whether all texts of a list differ. -/
def allDiffer : List (Option String) → Bool
  | [] => true
  | a :: rest => !rest.contains a && allDiffer rest

/-- Whether every invocation had a well-formed activation identifier of its own. -/
def freshActivations (log : HandlerLog) : Bool :=
  log.activations.all (·.any Activation.isWellFormed) && allDiffer log.activations

end HandlerLog

end CallDispatch
