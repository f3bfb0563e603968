import CallDispatch.Tracking.CallRecord

/-!
# Stores

A store holds the statuses and outputs that finished calls leave behind. Nothing under a key means
"not yet". A store that is unavailable fails every question about its contents, but still takes in
what calls leave. Each backend has one store, known by the backend's name.
-/

namespace CallDispatch

/-- The statuses and outputs left in one backend, the latest of each call first. -/
structure Store where
  statuses : List (CallName × StatusRecord) := []
  outputs : List (CallName × OutputRecord) := []
  unavailable : Bool := false

namespace Store

/-- The entry of a call. -/
def lookup (key : CallName) : List (CallName × α) → Option α
  | [] => none
  | (k, a) :: rest => if k = key then some a else lookup key rest

/-- Entries with that of one call replaced. -/
def replace (key : CallName) (a : α) (entries : List (CallName × α)) : List (CallName × α) :=
  (key, a) :: entries.filter fun e => e.1 ≠ key

/-- Leave a status. -/
def leaveStatus (s : Store) (key : CallName) (status : StatusRecord) : Store :=
  { s with statuses := replace key status s.statuses }

/-- Leave an output. -/
def leaveOutput (s : Store) (key : CallName) (output : OutputRecord) : Store :=
  { s with outputs := replace key output s.outputs }

/-- Leave a value and the status of success. -/
def complete (s : Store) (key : CallName) (value : Json) : Store :=
  (s.leaveOutput key (.value value)).leaveStatus key .ok

/-- The error of a store that cannot be asked; `backend` is its name. -/
def check (s : Store) (backend : String) : Outcome Unit :=
  if s.unavailable then .error (.storage (backend ++ " backend unavailable")) else .ok ()

/-- The identifiers of the calls of a job that have a status. -/
def finishedCalls (s : Store) (executorId jobId : String) : List String :=
  (s.statuses.filter fun e => e.1.executorId = executorId ∧ e.1.jobId = jobId).map (·.1.callId)

end Store

/-- The stores of all backends. A backend nobody has used has an empty store. -/
structure Stores where
  entries : List (String × Store) := []

namespace Stores

/-- The store of a backend among stores. -/
def find (backend : String) : List (String × Store) → Store
  | [] => {}
  | (name, store) :: rest => if name = backend then store else find backend rest

/-- The store of a backend. -/
def store (s : Stores) (backend : String) : Store :=
  find backend s.entries

/-- Change the store of a backend. -/
def update (s : Stores) (backend : String) (f : Store → Store) : Stores :=
  { entries := (backend, f (s.store backend)) :: s.entries.filter fun e => e.1 ≠ backend }

/-- Ask a backend for the calls of a job that have a status. -/
def finishedCalls (s : Stores) (backend executorId jobId : String) : Outcome (List String) := do
  (s.store backend).check backend
  pure ((s.store backend).finishedCalls executorId jobId)

/-- Ask a backend for the status of a call. -/
def status? (s : Stores) (backend : String) (key : CallName) : Outcome (Option StatusRecord) := do
  (s.store backend).check backend
  pure (Store.lookup key (s.store backend).statuses)

/-- Ask a backend for the output of a call. -/
def output? (s : Stores) (backend : String) (key : CallName) : Outcome (Option OutputRecord) := do
  (s.store backend).check backend
  pure (Store.lookup key (s.store backend).outputs)

end Stores

end CallDispatch
