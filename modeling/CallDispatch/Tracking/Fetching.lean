import CallDispatch.Tracking.Wait

/-!
# Fetches in time

What surrounds a wait: the stores, the faults they are given, and the cancel token. A fetch may take
time and may be made to fail; its answer is what the store holds when its time is over. The fetches
of one unit run side by side up to the size of the pool, the next one starting when one is finished.
-/

namespace CallDispatch

/-- Faults given to fetches, by the name of the fetch, and to the opening of backends. -/
structure Faults where
  statusLatency : Nat := 0
  outputLatency : Nat := 0
  latencies : List (String × Nat) := []
  failing : List String := []
  closedBackends : List String := []
  deriving DecidableEq, Repr

/-- The stores, their faults and the cancel token. -/
structure Surroundings where
  stores : Stores := {}
  faults : Faults := {}
  cancelled : Bool := false

/-- The name of a fetch for the status of a call. -/
def statusFetch (key : CallName) : String := "status " ++ key.text

/-- The name of a fetch for the output of a call. -/
def outputFetch (key : CallName) : String := "result " ++ key.text

/-- How long a fetch takes: as long as it was given by name, or else as long as its kind. -/
def Faults.latency (f : Faults) (name : String) (kind : Nat) : Nat :=
  match f.latencies.find? (·.1 = name) with
  | some (_, ms) => ms
  | none => kind

/-- Let a fetch of some name fail if it was made to. -/
def Faults.guard (f : Faults) (name : String) (answer : Outcome α) : Outcome α :=
  if f.failing.contains name then .error (.storage ("injected " ++ name)) else answer

/-- How a backend is opened under given faults. -/
def Faults.openBackend (f : Faults) (backend : String) : Outcome Unit :=
  if f.closedBackends.contains backend then .error (.storage ("cannot open " ++ backend))
  else .ok ()

/-- Where a wait may be suspended besides its sleep and its fetches: in the opening of a store, and
as a monitor of its own sweeps the store of a unit, given by how many of the same kind come
before. -/
inductive CutPoint where
  | opening (before : Nat)
  | sweep (before : Nat)
  deriving DecidableEq, Repr

/-- The point that the time of a wait runs out at, and how much time was allowed. -/
structure Cut where
  point : CutPoint
  limit : Nat
  deriving DecidableEq, Repr

/-- How the openings of a wait end under given faults: one may be cut short. -/
def Faults.opens (f : Faults) (cut : Option Cut) (before : Nat) (backend : String) :
    Outcome Unit :=
  match cut with
  | some cut =>
    if cut.point = .opening before then .error (.timeout cut.limit) else f.openBackend backend
  | none => f.openBackend backend

/-- How often each fetch was started, and how many ran at once at most. -/
structure FetchLog where
  counts : List (String × Nat) := []
  peak : Nat := 0
  deriving DecidableEq, Repr

/-- Count a fetch that starts beside others. -/
def FetchLog.start (name : String) (beside : Nat) (log : FetchLog) : FetchLog :=
  let rec bump : List (String × Nat) → List (String × Nat)
    | [] => [(name, 1)]
    | (k, n) :: rest => if k = name then (k, n + 1) :: rest else (k, n) :: bump rest
  { counts := bump log.counts, peak := max log.peak (beside + 1) }

/-- A fetch that has been asked and answers when it is due. -/
structure PendingFetch where
  target : Target
  step : FetchStep
  due : Nat

/-- A fetch that can go on: with its next question, or, if `asked`, with the answer to its last. -/
structure RunnableFetch where
  target : Target
  step : FetchStep
  asked : Bool

/-- The fetches of one unit: not started, under way, and answered, in the order they were. -/
structure FetchPool where
  backend : String
  download : Bool
  capacity : Nat
  waiting : List Target
  pending : List PendingFetch := []
  answers : List (Nat × Outcome FetchAnswer) := []

namespace FetchPool

/-- The answer of the store to the question of a step, and so the next step. -/
def resolve (sur : Surroundings) (p : FetchPool) (t : Target) : FetchStep → FetchStep
  | .askStatus =>
    t.afterStatus p.download
      (sur.faults.guard (statusFetch t.key) (sur.stores.status? p.backend t.key))
  | .askOutput status =>
    Target.afterOutput status
      (sur.faults.guard (outputFetch t.key) (sur.stores.output? p.backend t.key))
  | .finished answer => .finished answer

/-- The name of the question of a step, and how long its answer takes. -/
def question (sur : Surroundings) (t : Target) : FetchStep → String × Nat
  | .askOutput _ =>
    let name := outputFetch t.key
    (name, sur.faults.latency name sur.faults.outputLatency)
  | _ =>
    let name := statusFetch t.key
    (name, sur.faults.latency name sur.faults.statusLatency)

/-- Let one fetch go on until it has to wait or is answered. It asks at most two questions. -/
def proceed (sur : Surroundings) (now beside : Nat) (t : Target) :
    (questions : Nat) → FetchStep → FetchPool → FetchLog → FetchPool × FetchLog
  | _, .finished answer, p, log => ({ p with answers := p.answers ++ [(t.index, answer)] }, log)
  | 0, _, p, log => (p, log)
  | questions + 1, step, p, log =>
    let (name, latency) := question sur t step
    let log := log.start name beside
    if latency = 0 then proceed sur now beside t questions (p.resolve sur t step) p log
    else ({ p with pending := p.pending ++ [{ target := t, step, due := now + latency }] }, log)

/-- Start as many waiting fetches as there is room for beside those that can go on. -/
def fill (runnable : List RunnableFetch) (p : FetchPool) : List RunnableFetch × FetchPool :=
  let room := p.capacity - (p.pending.length + runnable.length)
  let started := (p.waiting.take room).map fun t =>
    { target := t, step := t.first p.download, asked := false : RunnableFetch }
  (runnable ++ started, { p with waiting := p.waiting.drop room })

/-- Let fetches go on, one after the other, until all that are under way have to wait. -/
def drive (sur : Surroundings) (now : Nat) :
    (fuel : Nat) → List RunnableFetch → FetchPool → FetchLog → FetchPool × FetchLog
  | 0, _, p, log => (p, log)
  | fuel + 1, runnable, p, log =>
    match p.fill runnable with
    | ([], p) => (p, log)
    | (f :: rest, p) =>
      let beside := p.pending.length + (rest.filter (·.asked)).length
      let step := if f.asked then p.resolve sur f.target f.step else f.step
      let (p, log) := proceed sur now beside f.target 2 step p log
      drive sur now fuel rest p log

/-- Enough turns for every fetch of a pool to go on as often as it can. -/
def turns (p : FetchPool) : Nat := 3 * (p.waiting.length + p.pending.length) + 3

/-- Start the fetches of a pool. -/
def start (sur : Surroundings) (now : Nat) (p : FetchPool) (log : FetchLog) :
    FetchPool × FetchLog :=
  drive sur now p.turns [] p log

/-- Let the fetches go on whose answers are due. -/
def wake (sur : Surroundings) (now : Nat) (p : FetchPool) (log : FetchLog) :
    FetchPool × FetchLog :=
  let (due, later) := p.pending.partition fun f => decide (f.due ≤ now)
  let runnable := due.map fun f =>
    { target := f.target, step := f.step, asked := true : RunnableFetch }
  drive sur now p.turns runnable { p with pending := later } log

/-- Whether every fetch has been answered. -/
def isDone (p : FetchPool) : Bool := p.waiting.isEmpty && p.pending.isEmpty

end FetchPool

end CallDispatch
