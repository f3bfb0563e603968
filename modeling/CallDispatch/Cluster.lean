import CallDispatch.RangeAnswer

/-!
# Clusters

A job is shared out over the processors of a cluster. The processors are numbered from zero, and
every pod owns a contiguous run of them. Call `i` runs on processor `i % cluster`. A pod works out
its own calls from its run alone: a first wave on its own numbers, then one round per multiple of
the cluster size, until its share is used up.

All numbers are machine words, so sums and products wrap around. What becomes of them is a parameter
of the arithmetic: a pod that runs has them wrapped, and with the identity in its place they are the
numbers themselves.
-/

namespace CallDispatch

open Json (Decoded Document)

/-- A run of processors, both ends included. -/
structure ProcessorRun where
  first : Nat
  last : Nat
  deriving DecidableEq, Repr

namespace ProcessorRun

/-- How many processors the run has; a run that goes backwards has one. -/
def size (r : ProcessorRun) : Nat := r.last - r.first + 1

/-- Whether a processor belongs to the run. -/
def contains (r : ProcessorRun) (cpu : Nat) : Bool := r.first ≤ cpu && cpu ≤ r.last

/-- The JSON object of a run. -/
def json (r : ProcessorRun) : Json :=
  .object [("start", .number (.nat r.first)), ("end", .number (.nat r.last))]

/-- Read a run from its JSON form. -/
def decode : Document → Decoded ProcessorRun :=
  Document.record .direct (boundsRecord "struct CpuRange" "usize" ProcessorRun.mk)

end ProcessorRun

/-- A pod's share of a job: how many calls it executes, and how many every processor executes before
the remainder is handed out. -/
structure Share where
  calls : Nat
  callsPerProcessor : Nat
  deriving DecidableEq, Repr

/-- What a machine word keeps of a sum or a product: words wrap around at `2 ^ 64`. A program built
to check its arithmetic stops where a number has to be wrapped. -/
def wrapped (n : Nat) : Nat := n % Text.Decimal.wordBound

/-- How many calls a pod with `processors` processors executes. The pod in whose run the remainder
ends gets the part of it from its first processor on, pods wholly below get one call more per
processor, pods above none. -/
def podShare (cluster processors : Nat) (r : ProcessorRun) (total : Nat)
    (keep : Nat → Nat := wrapped) : Outcome Share :=
  if cluster = 0 then .error (.invalidArgument .emptyCluster)
  else
    let base := total / cluster
    let remainder := total % cluster
    let extra :=
      if r.first ≤ remainder ∧ remainder ≤ r.last then remainder - r.first
      else if r.first < remainder then processors
      else 0
    .ok { calls := keep (processors * base + extra), callsPerProcessor := base }

/-- The processors of a pod that the first calls of a job reach, or none if the run lies past the
last call. -/
def reachedProcessors (r : ProcessorRun) (total : Nat) : Option Nat :=
  if total ≤ r.first then none
  else if total - 1 < r.last then some (total - r.first)
  else some r.size

/-- The calls of one round that begins at a position, slot by slot, while some of the share is left
and the job has such calls; with them, what is left of the share. -/
def roundCalls (start total : Nat) (keep : Nat → Nat) :
    (slots : List Nat) → (remaining : Nat) → List Nat × Nat
  | [], remaining => ([], remaining)
  | slot :: rest, remaining =>
    let index := keep (start + slot)
    if remaining = 0 ∨ total ≤ index then ([], remaining)
    else
      let (calls, left) := roundCalls start total keep rest (remaining - 1)
      (index :: calls, left)

/-- The calls of so many rounds from one on, while some of the share is left. A slot from `total` on
has no call in any round. -/
def roundsFrom (cluster : Nat) (r : ProcessorRun) (total : Nat) (keep : Nat → Nat) :
    (rounds round remaining : Nat) → List Nat
  | 0, _, _ => []
  | rounds + 1, round, remaining =>
    if remaining = 0 then []
    else
      let (calls, left) := roundCalls (cluster * round + r.first) total keep
        (List.range (min (keep r.size) total)) remaining
      calls ++ roundsFrom cluster r total keep rounds (round + 1) left

/-- The positions of the calls a pod launches, in order. -/
def launches (cluster : Nat) (r : ProcessorRun) (total : Nat) (keep : Nat → Nat := wrapped) :
    Outcome (List Nat) :=
  match reachedProcessors r total with
  | none => .ok []
  | some requested => do
    let share ← podShare cluster (keep r.size) r total keep
    let firstWave := min (min requested (keep r.size)) share.calls
    pure ((List.range firstWave).map (r.first + ·) ++
      roundsFrom cluster r total keep (keep (share.callsPerProcessor + 1)) 1
        (share.calls - firstWave))

end CallDispatch
