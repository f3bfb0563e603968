import CallDispatch.Master.Allocator

/-!
# Sources of ranges

A worker asks a source for the next calls of a job. The allocator is a source; so is a script of
answers in front of it, which also keeps what it was asked.
-/

namespace CallDispatch

/-- What answers requests for work: given a job key, the number of calls and how many to hand out at
most. -/
class WorkSource (σ : Type) where
  request : σ → (key : String) → (total chunk : Nat) → Outcome RangeAnswer × σ

instance : WorkSource Allocator where
  request := Allocator.request

/-- A request as a source sees it. -/
structure RangeRequest where
  jobKey : String
  total : Nat
  chunk : Nat
  deriving DecidableEq, Repr

/-- Answers laid out in advance, then those of an allocator; and the requests made so far. -/
structure ScriptedSource where
  script : List (Outcome RangeAnswer) := []
  allocator : Allocator := {}
  requests : List RangeRequest := []

namespace ScriptedSource

/-- Answer a request. -/
def request (s : ScriptedSource) (key : String) (total chunk : Nat) :
    Outcome RangeAnswer × ScriptedSource :=
  let requests := s.requests ++ [⟨key, total, chunk⟩]
  match s.script with
  | answer :: script => (answer, { s with script, requests })
  | [] =>
    let (answer, allocator) := s.allocator.request key total chunk
    (answer, { s with allocator, requests })

end ScriptedSource

instance : WorkSource ScriptedSource where
  request := ScriptedSource.request

end CallDispatch
